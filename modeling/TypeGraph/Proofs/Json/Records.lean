import Mathlib.Data.List.Forall2
import TypeGraph.Proofs.Distinct
import TypeGraph.Proofs.Json.Values

/-!
# Records read by way of values

A document can be read as it stands, or its value is made first and the document of that value is
read. The second way loses repeated members and refuses parts without a value, wherever they stand.
Whatever both ways read is the same; and on documents whose objects have no members but fields,
each given once, the two ways also fail alike.
-/

namespace TypeGraph

/-! ## Entries picked by their keys -/

namespace OrderedMap

variable {κ α : Type} [DecidableEq κ]

theorem filter_setEntry (picks : κ → Bool) (key : κ) (value : α) (entries : List (κ × α)) :
    (setEntry key value entries).filter (fun entry => picks entry.1) =
      if picks key then setEntry key value (entries.filter fun entry => picks entry.1)
      else entries.filter fun entry => picks entry.1 := by
  induction entries with
  | nil =>
      cases picked : picks key with
      | false | true =>
          simp [setEntry, picked]
  | cons entry rest inner =>
      by_cases same : entry.1 = key
      · cases picked : picks key with
        | false | true =>
            simp [setEntry, same, picked]
      · rw [setEntry, if_neg same, List.filter_cons, inner]
        cases picked : picks key with
        | false | true =>
            cases first : picks entry.1 with
            | false | true =>
                simp [setEntry, same, first]

/-- To pick entries of a map by their keys, they can be picked before it is made. -/
theorem filter_ofList (picks : κ → Bool) (entries : List (κ × α)) :
    (ofList entries).entries.filter (fun entry => picks entry.1) =
      (ofList (entries.filter fun entry => picks entry.1)).entries := by
  have both : ∀ whole part : OrderedMap κ α,
      whole.entries.filter (fun entry => picks entry.1) = part.entries →
        (entries.foldl (fun map entry => map.insert entry.1 entry.2) whole).entries.filter
            (fun entry => picks entry.1) =
          ((entries.filter fun entry => picks entry.1).foldl
            (fun map entry => map.insert entry.1 entry.2) part).entries := by
    induction entries with
    | nil =>
        exact fun whole part same => same
    | cons entry rest inner =>
        intro whole part same
        have step := filter_setEntry picks entry.1 entry.2 whole.entries
        rw [same] at step
        rw [List.foldl_cons, List.filter_cons]
        split at step
        · next picked =>
          rw [if_pos picked, List.foldl_cons]
          exact inner _ _ step
        · next passed =>
          rw [if_neg passed]
          exact inner _ _ step
  exact both empty empty rfl

theorem mem_keys_ofList {key : κ} {entries : List (κ × α)} :
    key ∈ (ofList entries).keys ↔ key ∈ entries.map Prod.fst := by
  have keys : (ofList entries).keys = (entries.map Prod.fst).eraseDups :=
    keys_foldl_insert Prod.fst (fun _ entry => entry.2) entries
  rw [keys, List.mem_eraseDups]

theorem entryAt?_eq_head? (key : κ) (entries : List (κ × α)) :
    entryAt? key entries =
      ((entries.filter fun entry => entry.1 = key).head?).map Prod.snd := by
  rw [List.head?_filter]
  induction entries with
  | nil =>
      rfl
  | cons entry rest inner =>
      by_cases same : entry.1 = key
      · simp [entryAt?, same]
      · simp [entryAt?, same, inner]

end OrderedMap

/-! ## Lists side by side -/

section Lists

variable {α β : Type} {related : α → β → Prop} {lefts : List α} {rights : List β}

theorem exists_forall₂ (each : ∀ left ∈ lefts, ∃ right, related left right) :
    ∃ rights, List.Forall₂ related lefts rights := by
  induction lefts with
  | nil =>
      exact ⟨[], .nil⟩
  | cons left rest inner =>
      rw [List.forall_mem_cons] at each
      obtain ⟨right, first⟩ := each.1
      obtain ⟨rights, later⟩ := inner each.2
      exact ⟨right :: rights, .cons first later⟩

theorem exists_mem_of_forall₂ (both : List.Forall₂ related lefts rights) :
    ∀ left ∈ lefts, ∃ right ∈ rights, related left right := by
  induction both with
  | nil =>
      exact List.forall_mem_nil _
  | cons first _ inner =>
      rw [List.forall_mem_cons]
      refine ⟨⟨_, List.mem_cons_self, first⟩, fun left member => ?_⟩
      obtain ⟨right, rightMember, same⟩ := inner left member
      exact ⟨right, List.mem_cons_of_mem _ rightMember, same⟩

end Lists

theorem mapM_eq_some_iff
    {α β : Type} {read : α → Option β} {items : List α} {results : List β} :
    items.mapM read = some results ↔
      List.Forall₂ (fun item result => read item = some result) items results := by
  induction items generalizing results with
  | nil =>
      rw [List.forall₂_nil_left_iff, List.mapM_nil, Option.pure_def, Option.some.injEq, eq_comm]
  | cons item rest inner =>
      rw [List.forall₂_cons_left_iff, List.mapM_cons]
      simp only [Option.bind_eq_bind, Option.bind_eq_some_iff, Option.pure_def, Option.some.injEq,
        inner]
      constructor
      · rintro ⟨result, found, others, othersFound, rfl⟩
        exact ⟨result, others, found, othersFound, rfl⟩
      · rintro ⟨result, others, found, othersFound, rfl⟩
        exact ⟨result, found, others, othersFound, rfl⟩

namespace Json.Written

/-! ## Parts and their values -/

/-- Whether a part has a value in which there are at most `depth` levels. -/
def HasValue (depth : Nat) (part : Written) (value : Value) : Prop :=
  part.valueWithin? depth = some value

/-- Whether a member has a name and its part a value. -/
def HasEntry (depth : Nat) (member : Option String × Written) (entry : String × Value) : Prop :=
  member.1 = some entry.1 ∧ member.2.HasValue depth entry.2

theorem itemsWithin?_eq_some_iff {depth : Nat} {items : List Written} {values : List Value} :
    itemsWithin? items depth = some values ↔ List.Forall₂ (HasValue depth) items values := by
  induction items generalizing values with
  | nil =>
      rw [List.forall₂_nil_left_iff, itemsWithin?, Option.some.injEq, eq_comm]
  | cons item rest inner =>
      rw [List.forall₂_cons_left_iff, itemsWithin?]
      simp only [Option.bind_eq_bind, Option.bind_eq_some_iff, Option.pure_def, Option.some.injEq,
        inner, HasValue]
      constructor
      · rintro ⟨value, read, others, othersRead, rfl⟩
        exact ⟨value, others, read, othersRead, rfl⟩
      · rintro ⟨value, others, read, othersRead, rfl⟩
        exact ⟨value, read, others, othersRead, rfl⟩

theorem membersWithin?_eq_some_iff
    {depth : Nat} {members : List (Option String × Written)} {entries : List (String × Value)} :
    membersWithin? members depth = some entries ↔
      List.Forall₂ (HasEntry depth) members entries := by
  induction members generalizing entries with
  | nil =>
      rw [List.forall₂_nil_left_iff, membersWithin?, Option.some.injEq, eq_comm]
  | cons member rest inner =>
      rw [List.forall₂_cons_left_iff, membersWithin?]
      simp only [Option.bind_eq_bind, Option.bind_eq_some_iff, Option.pure_def, Option.some.injEq,
        inner, HasEntry, HasValue]
      constructor
      · rintro ⟨name, named, value, read, others, othersRead, rfl⟩
        exact ⟨(name, value), others, ⟨named, read⟩, othersRead, rfl⟩
      · rintro ⟨⟨name, value⟩, others, ⟨named, read⟩, othersRead, rfl⟩
        exact ⟨name, named, value, read, others, othersRead, rfl⟩

theorem hasValue_array
    {depth : Nat} {items : List Written} {values : List Value}
    (each : List.Forall₂ (HasValue depth) items values) :
    (array items).HasValue (depth + 1) (.array values) :=
  congrArg (Option.map Value.array) (itemsWithin?_eq_some_iff.mpr each)

theorem hasValue_object
    {depth : Nat} {members : List (Option String × Written)} {entries : List (String × Value)}
    (each : List.Forall₂ (HasEntry depth) members entries) :
    (object members).HasValue (depth + 1) (.object (OrderedMap.ofList entries).entries) :=
  congrArg (Option.map fun entries => Value.object (OrderedMap.ofList entries).entries)
    (membersWithin?_eq_some_iff.mpr each)

/-- The ways in which a part has a value, by the kind of the part. -/
inductive ValueForm : (depth : Nat) → Written → Value → Prop where
  | null (depth : Nat) : ValueForm depth .null .null
  | bool (depth : Nat) (truth : Bool) : ValueForm depth (.bool truth) (.bool truth)
  | number (depth : Nat) (number : Number) :
      ValueForm depth (.number (some number)) (.number number)
  | string (depth : Nat) (text : String) : ValueForm depth (.string (some text)) (.string text)
  | array {depth : Nat} {items : List Written} {values : List Value} :
      List.Forall₂ (HasValue depth) items values →
        ValueForm (depth + 1) (.array items) (.array values)
  | object {depth : Nat} {members : List (Option String × Written)}
      {entries : List (String × Value)} :
      List.Forall₂ (HasEntry depth) members entries →
        ValueForm (depth + 1) (.object members) (.object (OrderedMap.ofList entries).entries)

theorem HasValue.form
    {depth : Nat} {part : Written} {value : Value}
    (valued : part.HasValue depth value) :
    ValueForm depth part value := by
  cases part with
  | null =>
      cases valued
      exact .null depth
  | bool truth =>
      cases valued
      exact .bool depth truth
  | number =>
      obtain ⟨number, rfl, rfl⟩ := Option.map_eq_some_iff.mp valued
      exact .number depth number
  | string =>
      obtain ⟨text, rfl, rfl⟩ := Option.map_eq_some_iff.mp valued
      exact .string depth text
  | array items =>
      cases depth with
      | zero =>
          cases valued
      | succ depth =>
          obtain ⟨values, read, rfl⟩ := Option.map_eq_some_iff.mp valued
          exact .array (itemsWithin?_eq_some_iff.mp read)
  | object members =>
      cases depth with
      | zero =>
          cases valued
      | succ depth =>
          obtain ⟨entries, read, rfl⟩ := Option.map_eq_some_iff.mp valued
          exact .object (membersWithin?_eq_some_iff.mp read)

/-! ## Fields and their values -/

section Fields

variable {depth : Nat} {members : List (Option String × Written)}
  {entries : List (String × Value)} {names : List String} {given : Option Written}

/-- What is given for a field is the part of each member under the field's names. -/
theorem eq_of_fieldAmong?
    {member : Option String × Written} {name : String}
    (found : fieldAmong? members names = some given)
    (inMembers : member ∈ members)
    (same : member.1 = some name)
    (inNames : name ∈ names) :
    given = some member.2 := by
  have picked : member ∈ members.filter fun member =>
      (member.1.map names.contains).getD false := by
    refine List.mem_filter.mpr ⟨inMembers, ?_⟩
    rw [same]
    exact List.contains_iff_mem.mpr inNames
  rw [fieldAmong?] at found
  split at found
  · next absent =>
    rw [absent] at picked
    cases picked
  · next only one =>
    rw [one, List.mem_singleton] at picked
    rw [← Option.some.inj found, picked]
  · cases found

/-- The field that a document gives once is also in the value, once, and nothing else is there under
its names. -/
theorem exists_entry_of_fieldAmong?
    (valued : List.Forall₂ (HasEntry depth) members entries)
    (found : fieldAmong? members names = some given) :
    ∃ entry : Option (String × Value),
      (OrderedMap.ofList entries).entries.filter (fun entry => names.contains entry.1) =
          entry.toList ∧
        Option.Rel (HasValue depth) given (entry.map Prod.snd) := by
  rw [OrderedMap.filter_ofList names.contains]
  have picked : List.Forall₂ (HasEntry depth)
      (members.filter fun member => (member.1.map names.contains).getD false)
      (entries.filter fun entry => names.contains entry.1) := by
    apply List.rel_filter _ valued
    rintro ⟨_, part⟩ entry ⟨rfl, _⟩
    exact Iff.rfl
  rw [fieldAmong?] at found
  split at found
  · next absent =>
    cases found
    rw [absent, List.forall₂_nil_left_iff] at picked
    rw [picked]
    exact ⟨none, rfl, .none⟩
  · next member one =>
    cases found
    rw [one, List.forall₂_cons_left_iff] at picked
    obtain ⟨entry, rest, has, others, same⟩ := picked
    rw [List.forall₂_nil_left_iff.mp others] at same
    rw [same]
    exact ⟨some entry, rfl, .some has.2⟩
  · cases found

theorem exists_value_of_fieldAmong?
    (valued : List.Forall₂ (HasEntry depth) members entries)
    (found : fieldAmong? members names = some given) :
    ∃ value : Option Value,
      fieldAmong? (ofMembers (OrderedMap.ofList entries).entries) names =
          some (value.map ofValue) ∧
        Option.Rel (HasValue depth) given value := by
  obtain ⟨entry, picked, related⟩ := exists_entry_of_fieldAmong? valued found
  refine ⟨entry.map Prod.snd, ?_, related⟩
  have shared : (ofMembers (OrderedMap.ofList entries).entries).filter
      (fun member => (member.1.map names.contains).getD false) =
        entry.toList.map ofMember := by
    rw [ofMembers_eq_map, List.filter_map, ← picked]
    rfl
  rw [fieldAmong?, shared]
  cases entry with
  | none | some =>
      rfl

/-- A member of the value is the field that the document gives under its name. -/
theorem rel_entryAt?
    {name : String}
    (valued : List.Forall₂ (HasEntry depth) members entries)
    (found : fieldAmong? members [name] = some given) :
    Option.Rel (HasValue depth) given (entryAt? name (OrderedMap.ofList entries).entries) := by
  obtain ⟨entry, picked, related⟩ := exists_entry_of_fieldAmong? valued found
  have shared : ((OrderedMap.ofList entries).entries.filter fun entry => entry.1 = name) =
      entry.toList := by
    rw [← picked]
    congr 1
    funext entry
    simp
  rw [OrderedMap.entryAt?_eq_head?, shared]
  cases entry with
  | none | some =>
      exact related

theorem exists_values_of_mapM
    {fields : List (List String)} {givens : List (Option Written)}
    (valued : List.Forall₂ (HasEntry depth) members entries)
    (found : fields.mapM (fieldAmong? members) = some givens) :
    ∃ values : List (Option Value),
      fields.mapM (fieldAmong? (ofMembers (OrderedMap.ofList entries).entries)) =
          some (values.map (Option.map ofValue)) ∧
        List.Forall₂ (Option.Rel (HasValue depth)) givens values := by
  induction fields generalizing givens with
  | nil =>
      cases found
      exact ⟨[], rfl, .nil⟩
  | cons names rest inner =>
      rw [List.mapM_cons] at found
      obtain ⟨first, firstFound, found⟩ := Option.bind_eq_some_iff.mp found
      obtain ⟨others, othersFound, found⟩ := Option.bind_eq_some_iff.mp found
      cases found
      obtain ⟨value, valueFound, related⟩ := exists_value_of_fieldAmong? valued firstFound
      obtain ⟨values, valuesFound, othersRelated⟩ := inner othersFound
      refine ⟨value :: values, ?_, .cons related othersRelated⟩
      rw [List.mapM_cons, valueFound, valuesFound]
      rfl

/-- The fields of a record are also the fields of its value. -/
theorem exists_values_of_fields?
    {names : List (List String)} {part : Written} {value : Value}
    {givens : List (Option Written)}
    (valued : part.HasValue (depth + 1) value)
    (found : part.fields? names = some givens) :
    ∃ values : List (Option Value),
      (ofValue value).fields? names = some (values.map (Option.map ofValue)) ∧
        List.Forall₂ (Option.Rel (HasValue depth)) givens values := by
  cases valued.form with
  | @array _ items values each =>
      have sameLength := each.length_eq
      rw [fields?] at found
      split at found
      · next fits =>
        cases found
        refine ⟨values.map some ++ List.replicate (names.length - items.length) none, ?_, ?_⟩
        · rw [ofValue, fields?, ofItems_eq_map, List.length_map, ← sameLength, if_pos fits]
          simp
        · apply List.rel_append
          · rw [List.forall₂_map_left_iff, List.forall₂_map_right_iff]
            exact each.imp fun _ _ => .some
          · generalize names.length - items.length = absent
            induction absent with
            | zero =>
                exact .nil
            | succ absent inner =>
                exact .cons .none inner
      · cases found
  | object each =>
      rw [fields?] at found
      split at found
      · obtain ⟨values, valuesFound, related⟩ := exists_values_of_mapM each found
        refine ⟨values, ?_, related⟩
        rw [ofValue, fields?, ← valuesFound, if_pos]
        simp [ofMembers_eq_map, ofMember]
      · cases found
  | _ =>
      cases found

end Fields

/-! ## Readers -/

/-- Whether what is read from a source is read from what its value is written to as well. -/
structure Steady {σ ν α : Type} (valued : σ → ν → Prop) (write : ν → σ) (plain : σ → Prop)
    (read : σ → Option α) : Prop where
  kept : ∀ {source value result},
    valued source value → read source = some result → read (write value) = some result
  /-- On a plain source the two ways fail alike. -/
  same : ∀ {source value},
    plain source → valued source value → read (write value) = read source
  /-- Nothing is read from a plain source without a value. -/
  total : ∀ {source result},
    plain source → read source = some result → ∃ value, valued source value

theorem Steady.of_eq
    {σ ν α : Type} {valued : σ → ν → Prop} {write : ν → σ} {plain : σ → Prop}
    {read : σ → Option α}
    (equal : ∀ source value, valued source value → read (write value) = read source)
    (total : ∀ source result, read source = some result → ∃ value, valued source value) :
    Steady valued write plain read where
  kept := by
    intro source value result has found
    rw [equal source value has, found]
  same := by
    intro source value _ has
    exact equal source value has
  total := by
    intro source result _ found
    exact total source result found

/-- A list is read by way of its values if each item is. -/
theorem Steady.mapM
    {σ ν α : Type} {valued : σ → ν → Prop} {write : ν → σ} {plain : σ → Prop}
    {read : σ → Option α}
    (steady : Steady valued write plain read) :
    Steady (List.Forall₂ valued) (List.map write) (fun sources => ∀ source ∈ sources, plain source)
      (fun sources => sources.mapM read) where
  kept := by
    intro sources values results each found
    rw [mapM_eq_some_iff] at found ⊢
    rw [List.forall₂_map_left_iff]
    induction each generalizing results with
    | nil =>
        rw [List.forall₂_nil_left_iff.mp found]
        exact .nil
    | cons valued _ inner =>
        obtain ⟨result, others, read, later, rfl⟩ := List.forall₂_cons_left_iff.mp found
        exact .cons (steady.kept valued read) (inner later)
  same := by
    intro sources values isPlain each
    induction each with
    | nil =>
        rfl
    | cons valued _ inner =>
        rw [List.forall_mem_cons] at isPlain
        have later := inner isPlain.2
        rw [List.map_cons, List.mapM_cons, List.mapM_cons, steady.same isPlain.1 valued, later]
  total := by
    intro sources results isPlain found
    rw [mapM_eq_some_iff] at found
    induction found with
    | nil =>
        exact ⟨[], .nil⟩
    | cons read _ inner =>
        rw [List.forall_mem_cons] at isPlain
        obtain ⟨value, valued⟩ := steady.total isPlain.1 read
        obtain ⟨values, each⟩ := inner isPlain.2
        exact ⟨value :: values, .cons valued each⟩

/-- Whether a part with at most `depth` levels is read by way of its value as it stands. -/
abbrev SteadyPart (depth : Nat) (plain : Written → Prop) {α : Type} (read : Written → Option α) :
    Prop :=
  Steady (HasValue depth) ofValue plain read

/-- Whether a field is plain as soon as the part that is given for it is. -/
def PlainField (plain : Written → Prop) (given : Option Written) : Prop :=
  ∀ part ∈ given, plain part

abbrev SteadyField (depth : Nat) (plain : Written → Prop) {α : Type}
    (read : Option Written → Option α) : Prop :=
  Steady (Option.Rel (HasValue depth)) (Option.map ofValue) (PlainField plain) read

/-- A field of a record: its names, and what is asked of the part that is given for it. -/
structure Field where
  names : List String
  plain : Written → Prop

abbrev SteadyFields (depth : Nat) (fields : List Field) {α : Type}
    (read : List (Option Written) → Option α) : Prop :=
  Steady (List.Forall₂ (Option.Rel (HasValue depth))) (List.map (Option.map ofValue))
    (List.Forall₂ (fun field given => PlainField field.plain given) fields) read

/-- Asks nothing of a part. -/
def anything (_ : Written) : Prop :=
  True

/-- Whether all items of an array are plain. -/
def PlainItems (plain : Written → Prop) : Written → Prop
  | array items => ∀ item ∈ items, plain item
  | _ => True

/-- Whether an object has no members but the fields of a record, each given once at most, and the
given parts are plain. An array gives the fields in their order. -/
def PlainRecord (fields : List Field) : Written → Prop
  | object members =>
    (∀ member ∈ members, ∃ field ∈ fields, ∃ name ∈ field.names, member.1 = some name) ∧
      ∀ field ∈ fields, ∃ given,
        fieldAmong? members field.names = some given ∧ PlainField field.plain given
  | array items => ∀ pair ∈ fields.zip items, pair.1.plain pair.2
  | _ => True

/-! ### Parts -/

section Parts

variable {α : Type} {depth : Nat} {plain : Written → Prop} {read : Written → Option α}

theorem steady_string? (depth : Nat) : SteadyPart depth anything string? := by
  apply Steady.of_eq
  · intro part value valued
    cases valued.form
    all_goals rfl
  · intro part text found
    cases part with
    | string given =>
        exact ⟨.string text, congrArg (Option.map Value.string) found⟩
    | _ =>
        cases found

theorem SteadyPart.nullable (steady : SteadyPart depth plain read) :
    SteadyPart depth plain (nullable read) where
  kept := by
    intro part value result valued found
    cases valued.form with
    | null =>
        exact found
    | bool | number | string | array | object =>
        obtain ⟨inside, insideFound, rfl⟩ := Option.map_eq_some_iff.mp found
        exact congrArg (Option.map some) (steady.kept valued insideFound)
  same := by
    intro part value isPlain valued
    cases valued.form with
    | null =>
        rfl
    | bool | number | string | array | object =>
        exact congrArg (Option.map some) (steady.same isPlain valued)
  total := by
    intro part result isPlain found
    cases part with
    | null =>
        exact ⟨.null, rfl⟩
    | _ =>
        obtain ⟨inside, insideFound, _⟩ := Option.map_eq_some_iff.mp found
        exact steady.total isPlain insideFound

theorem SteadyPart.list? (steady : SteadyPart depth plain read) :
    SteadyPart (depth + 1) (PlainItems plain) (list? read) where
  kept := by
    intro part value results valued found
    cases valued.form with
    | array each =>
        rw [ofValue, ofItems_eq_map]
        exact steady.mapM.kept each found
    | null | bool | number | string | object =>
        cases found
  same := by
    intro part value isPlain valued
    cases valued.form with
    | array each =>
        rw [ofValue, ofItems_eq_map]
        exact steady.mapM.same isPlain each
    | null | bool | number | string | object =>
        rfl
  total := by
    intro part results isPlain found
    cases part with
    | array items =>
        obtain ⟨values, each⟩ := steady.mapM.total isPlain found
        exact ⟨.array values, hasValue_array each⟩
    | _ =>
        cases found

theorem steady_namedValues? (depth : Nat) :
    SteadyPart (depth + 1) anything (namedValues? depth) := by
  apply Steady.of_eq
  · intro part value valued
    cases valued.form with
    | object each =>
        have nests := Value.nests_object.mp (nests_of_valueWithin? _ valued)
        rw [namedValues?_ofValue _ nests.2, namedValues?, membersWithin?_eq_some_iff.mpr each,
          Option.map_some]
    | null | bool | number | string | array =>
        rfl
  · intro part map found
    cases part with
    | object members =>
        obtain ⟨entries, read, rfl⟩ := Option.map_eq_some_iff.mp found
        exact ⟨_, congrArg (Option.map _) read⟩
    | _ =>
        cases found

end Parts

/-! ### Fields -/

section Fields

variable {α β : Type} {depth : Nat} {plain : Written → Prop} {read : Written → Option α}

/-- A field is read as its part is, whatever stands for an absent one. -/
theorem SteadyPart.elim (steady : SteadyPart depth plain read) (absent : Option α) :
    SteadyField depth plain fun given => given.elim absent read where
  kept := by
    rintro _ _ result (valued | _) found
    · exact steady.kept valued found
    · exact found
  same := by
    rintro _ _ isPlain (valued | _)
    · exact steady.same (isPlain _ rfl) valued
    · rfl
  total := by
    rintro (_ | part) result isPlain found
    · exact ⟨none, .none⟩
    · obtain ⟨value, valued⟩ := steady.total (isPlain part rfl) found
      exact ⟨some value, .some valued⟩

theorem SteadyPart.required (steady : SteadyPart depth plain read) :
    SteadyField depth plain (required read) := by
  have same : Written.required read = fun given => given.elim none read := by
    funext given
    cases given with
    | none | some =>
        rfl
  rw [same]
  exact steady.elim none

theorem SteadyPart.optional (steady : SteadyPart depth plain read) (default : α) :
    SteadyField depth plain (optional default read) := by
  have same : Written.optional default read = fun given => given.elim (some default) read := by
    funext given
    cases given with
    | none | some =>
        rfl
  rw [same]
  exact steady.elim (some default)

/-- Reads a field, and the others according to what it holds. -/
def thenField (read : Option Written → Option β) (next : β → List (Option Written) → Option α) :
    List (Option Written) → Option α
  | [] => none
  | given :: rest => (read given).bind fun result => next result rest

/-- What is read when there are no more fields. -/
def endFields (result : α) : List (Option Written) → Option α
  | [] => some result
  | _ :: _ => none

theorem steady_endFields (depth : Nat) (result : α) :
    SteadyFields depth [] (endFields result) where
  kept := by
    rintro _ _ _ (_ | _) found
    · exact found
    · cases found
  same := by
    rintro _ _ (_ | _) (_ | _)
    rfl
  total := by
    rintro _ _ (_ | _) _
    exact ⟨[], .nil⟩

theorem SteadyFields.cons
    {field : Field} {fields : List Field}
    {readField : Option Written → Option β} {next : β → List (Option Written) → Option α}
    (first : SteadyField depth field.plain readField)
    (others : ∀ result, SteadyFields depth fields (next result)) :
    SteadyFields depth (field :: fields) (thenField readField next) where
  kept := by
    rintro _ _ result (_ | ⟨valued, othersValued⟩) found
    · cases found
    · obtain ⟨inside, firstFound, later⟩ := Option.bind_eq_some_iff.mp found
      rw [List.map_cons, thenField, first.kept valued firstFound, Option.bind_some]
      exact (others inside).kept othersValued later
  same := by
    rintro _ _ (_ | ⟨isPlain, othersPlain⟩) (_ | ⟨valued, othersValued⟩)
    rw [List.map_cons, thenField, thenField, first.same isPlain valued]
    congr 1
    funext inside
    exact (others inside).same othersPlain othersValued
  total := by
    rintro _ result (_ | ⟨isPlain, othersPlain⟩) found
    obtain ⟨inside, firstFound, later⟩ := Option.bind_eq_some_iff.mp found
    obtain ⟨value, valued⟩ := first.total isPlain firstFound
    obtain ⟨values, othersValued⟩ := (others inside).total othersPlain later
    exact ⟨value :: values, .cons valued othersValued⟩

end Fields

/-! ### Records -/

section Records

variable {depth : Nat} {fields : List Field} {part : Written}

/-- An object without members but fields, each given once, has the fields of the record. -/
theorem exists_fields?_of_plainRecord
    {members : List (Option String × Written)}
    (isPlain : PlainRecord fields (object members)) :
    ∃ givens, (object members).fields? (fields.map Field.names) = some givens := by
  have named : members.all fun member => member.1.isSome := by
    rw [List.all_eq_true]
    intro member inMembers
    obtain ⟨_, _, name, _, same⟩ := isPlain.1 member inMembers
    rw [same]
    rfl
  obtain ⟨givens, together⟩ := exists_forall₂ fun field inFields =>
    (isPlain.2 field inFields).imp fun given both => both.1
  refine ⟨givens, ?_⟩
  rw [fields?, if_pos named, mapM_eq_some_iff, List.forall₂_map_left_iff]
  exact together

/-- The fields of a plain record are plain. -/
theorem plainFields_of_fields?
    {givens : List (Option Written)}
    (isPlain : PlainRecord fields part)
    (found : part.fields? (fields.map Field.names) = some givens) :
    List.Forall₂ (fun field given => PlainField field.plain given) fields givens := by
  cases part with
  | array items =>
      rw [fields?, List.length_map] at found
      split at found
      · next fits =>
        cases found
        induction fields generalizing items with
        | nil =>
            rw [List.length_nil, Nat.le_zero, List.length_eq_zero_iff] at fits
            rw [fits]
            exact .nil
        | cons field rest inner =>
            cases items with
            | nil =>
                refine .cons nofun (inner [] ?_ (Nat.zero_le _))
                rw [PlainRecord, List.zip_nil_right]
                exact List.forall_mem_nil _
            | cons item others =>
                rw [PlainRecord, List.zip_cons_cons, List.forall_mem_cons] at isPlain
                rw [List.length_cons, List.length_cons, Nat.add_sub_add_right]
                refine .cons ?_ (inner others isPlain.2 (Nat.le_of_succ_le_succ fits))
                rintro _ ⟨⟩
                exact isPlain.1
      · cases found
  | object members =>
      rw [fields?] at found
      split at found
      · rw [mapM_eq_some_iff, List.forall₂_map_left_iff] at found
        refine ((List.forall₂_and_left _ _).mpr ⟨isPlain.2, found⟩).imp ?_
        rintro field given ⟨⟨_, first, given⟩, again⟩
        rw [first, Option.some.injEq] at again
        exact again ▸ given
      · cases found
  | _ =>
      cases found

/-- A plain record has a value if the parts given for its fields have. -/
theorem exists_value_of_fields?
    {givens : List (Option Written)} {values : List (Option Value)}
    (isPlain : PlainRecord fields part)
    (found : part.fields? (fields.map Field.names) = some givens)
    (valued : List.Forall₂ (Option.Rel (HasValue depth)) givens values) :
    ∃ value, part.HasValue (depth + 1) value := by
  have each : ∀ given, some given ∈ givens → ∃ value, given.HasValue depth value := by
    intro given member
    obtain ⟨_, _, ⟨has⟩⟩ := exists_mem_of_forall₂ valued _ member
    exact ⟨_, has⟩
  cases part with
  | array items =>
      rw [fields?] at found
      split at found
      · cases found
        obtain ⟨values, together⟩ := exists_forall₂ fun item member =>
          each item (List.mem_append_left _ (List.mem_map_of_mem member))
        exact ⟨_, hasValue_array together⟩
      · cases found
  | object members =>
      rw [fields?] at found
      split at found
      · rw [mapM_eq_some_iff, List.forall₂_map_left_iff] at found
        have named : ∀ member ∈ members, ∃ entry, HasEntry depth member entry := by
          intro member inMembers
          obtain ⟨field, inFields, name, inNames, same⟩ := isPlain.1 member inMembers
          obtain ⟨given, inGivens, among⟩ := exists_mem_of_forall₂ found field inFields
          rw [eq_of_fieldAmong? among inMembers same inNames] at inGivens
          obtain ⟨value, has⟩ := each member.2 inGivens
          exact ⟨(name, value), same, has⟩
        obtain ⟨entries, together⟩ := exists_forall₂ named
        exact ⟨_, hasValue_object together⟩
      · cases found
  | _ =>
      cases found

/-- The value of a plain part has the fields of a record only if the part has. -/
theorem fields?_eq_none_of_value
    {value : Value}
    (isPlain : PlainRecord fields part)
    (valued : part.HasValue (depth + 1) value)
    (absent : part.fields? (fields.map Field.names) = none) :
    (ofValue value).fields? (fields.map Field.names) = none := by
  cases valued.form with
  | array each =>
      rw [fields?] at absent
      split at absent
      · cases absent
      · next tooMany =>
        rw [ofValue, fields?, ofItems_eq_map, List.length_map, ← each.length_eq, if_neg tooMany]
  | object =>
      obtain ⟨givens, found⟩ := exists_fields?_of_plainRecord isPlain
      rw [found] at absent
      cases absent
  | null | bool | number | string =>
      rfl

theorem SteadyPart.record
    {α : Type} {read : List (Option Written) → Option α}
    (steady : SteadyFields depth fields read) :
    SteadyPart (depth + 1) (PlainRecord fields)
      (fun part => (part.fields? (fields.map Field.names)).bind read) where
  kept := by
    intro part value result valued found
    obtain ⟨givens, fieldsFound, read⟩ := Option.bind_eq_some_iff.mp found
    obtain ⟨values, valuesFound, related⟩ := exists_values_of_fields? valued fieldsFound
    rw [valuesFound, Option.bind_some]
    exact steady.kept related read
  same := by
    intro part value isPlain valued
    cases fieldsFound : part.fields? (fields.map Field.names) with
    | none =>
        rw [fields?_eq_none_of_value isPlain valued fieldsFound]
    | some givens =>
        obtain ⟨values, valuesFound, related⟩ := exists_values_of_fields? valued fieldsFound
        rw [valuesFound, Option.bind_some, Option.bind_some]
        exact steady.same (plainFields_of_fields? isPlain fieldsFound) related
  total := by
    intro part result isPlain found
    obtain ⟨givens, fieldsFound, read⟩ := Option.bind_eq_some_iff.mp found
    obtain ⟨values, related⟩ := steady.total (plainFields_of_fields? isPlain fieldsFound) read
    exact exists_value_of_fields? isPlain fieldsFound related

end Records

end Json.Written

end TypeGraph
