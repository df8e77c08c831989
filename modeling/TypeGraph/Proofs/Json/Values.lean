import TypeGraph.Json.Record

/-!
# Values and documents

A value is the value of its own document if no object in it has two members with one name and it is
not nested too deeply, and every value of a document is of that kind.
-/

namespace TypeGraph

/-! ## Maps out of lists -/

namespace OrderedMap

variable {κ α : Type} [DecidableEq κ]

theorem setEntry_of_not_mem
    {key : κ} {entries : List (κ × α)} (absent : key ∉ entries.map Prod.fst) (value : α) :
    setEntry key value entries = entries ++ [(key, value)] := by
  induction entries with
  | nil =>
      rfl
  | cons entry rest inner =>
      rw [List.map_cons, List.mem_cons, not_or] at absent
      rw [setEntry, if_neg (Ne.symm absent.1), inner absent.2, List.cons_append]

theorem mem_setEntry
    {key : κ} {value : α} {entries : List (κ × α)} {entry : κ × α}
    (member : entry ∈ setEntry key value entries) :
    entry = (key, value) ∨ entry ∈ entries := by
  induction entries with
  | nil =>
      exact Or.inl (List.mem_singleton.mp member)
  | cons first rest inner =>
      rw [setEntry] at member
      split at member
      · rcases List.mem_cons.mp member with new | later
        · exact Or.inl new
        · exact Or.inr (List.mem_cons_of_mem first later)
      · rcases List.mem_cons.mp member with old | later
        · exact Or.inr (old ▸ List.mem_cons_self)
        · exact (inner later).imp_right (List.mem_cons_of_mem first)

theorem entries_foldl_insert
    (map : OrderedMap κ α) (entries : List (κ × α))
    (distinct : ((map.entries ++ entries).map Prod.fst).Nodup) :
    (entries.foldl (fun map entry => map.insert entry.1 entry.2) map).entries =
      map.entries ++ entries := by
  induction entries generalizing map with
  | nil =>
      exact (List.append_nil map.entries).symm
  | cons entry rest inner =>
      have absent : entry.1 ∉ map.entries.map Prod.fst := by
        rw [List.map_append, List.map_cons] at distinct
        intro earlier
        exact (List.nodup_append.mp distinct).2.2 _ earlier _ List.mem_cons_self rfl
      have inserted : (map.insert entry.1 entry.2).entries = map.entries ++ [entry] :=
        setEntry_of_not_mem absent entry.2
      rw [List.foldl_cons, inner, inserted, List.append_assoc, List.singleton_append]
      rwa [inserted, List.append_assoc, List.singleton_append]

/-- Entries with distinct keys are the entries of their map. -/
theorem entries_ofList {entries : List (κ × α)} (distinct : (entries.map Prod.fst).Nodup) :
    (ofList entries).entries = entries :=
  entries_foldl_insert empty entries distinct

theorem ofList_entries (map : OrderedMap κ α) : ofList map.entries = map := by
  have same := entries_ofList map.distinct
  cases built : ofList map.entries with
  | mk entries distinct =>
      rw [built] at same
      cases map
      cases same
      rfl

theorem mem_ofList
    {entries : List (κ × α)} {entry : κ × α} (member : entry ∈ (ofList entries).entries) :
    entry ∈ entries := by
  have kept : ∀ (map : OrderedMap κ α),
      entry ∈ (entries.foldl (fun map entry => map.insert entry.1 entry.2) map).entries →
      entry ∈ map.entries ∨ entry ∈ entries := by
    clear member
    induction entries with
    | nil =>
        exact fun map => Or.inl
    | cons first rest inner =>
        intro map member
        rcases inner _ member with earlier | later
        · rcases mem_setEntry earlier with new | old
          · exact Or.inr (new ▸ List.mem_cons_self)
          · exact Or.inl old
        · exact Or.inr (List.mem_cons_of_mem first later)
  rcases kept empty member with none | found
  · cases none
  · exact found

end OrderedMap

namespace Json

/-! ## Kinds of values -/

namespace Value

/-- Whether every number in a value is an integer. -/
inductive FloatFree : Value → Prop where
  | null : FloatFree .null
  | bool (value : Bool) : FloatFree (.bool value)
  | integer (value : Int) (fits : FitsWord value) : FloatFree (.number (.integer value fits))
  | string (text : String) : FloatFree (.string text)
  | array {items : List Value} : (∀ item ∈ items, FloatFree item) → FloatFree (.array items)
  | object {members : List (String × Value)} :
      (∀ member ∈ members, FloatFree member.2) → FloatFree (.object members)

/-- Whether no part of a value is in more than `depth` arrays and objects, and no object has two
members with one name. -/
inductive Nests : (depth : Nat) → Value → Prop where
  | null (depth : Nat) : Nests depth .null
  | bool (depth : Nat) (value : Bool) : Nests depth (.bool value)
  | number (depth : Nat) (value : Number) : Nests depth (.number value)
  | string (depth : Nat) (text : String) : Nests depth (.string text)
  | array {depth : Nat} {items : List Value} :
      (∀ item ∈ items, Nests depth item) → Nests (depth + 1) (.array items)
  | object {depth : Nat} {members : List (String × Value)} :
      (members.map Prod.fst).Nodup → (∀ member ∈ members, Nests depth member.2) →
      Nests (depth + 1) (.object members)

@[simp] theorem floatFree_null : FloatFree null :=
  .null

@[simp] theorem floatFree_string (text : String) : FloatFree (string text) :=
  .string text

@[simp] theorem floatFree_ofInt {value : Int} {fits : FitsWord value} :
    FloatFree (ofInt value fits) :=
  .integer value fits

@[simp] theorem floatFree_array {items : List Value} :
    FloatFree (array items) ↔ ∀ item ∈ items, FloatFree item :=
  ⟨fun | .array each => each, .array⟩

@[simp] theorem floatFree_object {members : List (String × Value)} :
    FloatFree (object members) ↔ ∀ member ∈ members, FloatFree member.2 :=
  ⟨fun | .object each => each, .object⟩

@[simp] theorem nests_null {depth : Nat} : Nests depth null :=
  .null depth

@[simp] theorem nests_string {depth : Nat} (text : String) : Nests depth (string text) :=
  .string depth text

@[simp] theorem nests_ofInt {depth : Nat} {value : Int} {fits : FitsWord value} :
    Nests depth (ofInt value fits) :=
  .number depth _

@[simp] theorem nests_array {depth : Nat} {items : List Value} :
    Nests (depth + 1) (array items) ↔ ∀ item ∈ items, Nests depth item :=
  ⟨fun | .array each => each, .array⟩

@[simp] theorem nests_object {depth : Nat} {members : List (String × Value)} :
    Nests (depth + 1) (object members) ↔
      (members.map Prod.fst).Nodup ∧ ∀ member ∈ members, Nests depth member.2 :=
  ⟨fun | .object distinct each => ⟨distinct, each⟩, fun nests => .object nests.1 nests.2⟩

theorem Nests.mono {depth more : Nat} {value : Value} (nests : Nests depth value)
    (bound : depth ≤ more) :
    Nests more value := by
  induction nests generalizing more with
  | null =>
      exact .null more
  | bool _ value =>
      exact .bool more value
  | number _ value =>
      exact .number more value
  | string _ text =>
      exact .string more text
  | array _ inner =>
      obtain ⟨less, rfl⟩ := Nat.exists_eq_add_of_lt bound
      exact .array fun item member => inner item member (by omega)
  | object distinct _ inner =>
      obtain ⟨less, rfl⟩ := Nat.exists_eq_add_of_lt bound
      exact .object distinct fun field member => inner field member (by omega)

end Value

/-! ## Documents of values -/

namespace Written

theorem ofItems_eq_map (items : List Value) : ofItems items = items.map ofValue := by
  induction items with
  | nil =>
      rfl
  | cons item rest inner =>
      rw [ofItems, inner, List.map_cons]

/-- A member of an object as a member of a document. -/
def ofMember (member : String × Value) : Option String × Written :=
  (some member.1, ofValue member.2)

theorem ofMembers_eq_map (members : List (String × Value)) :
    ofMembers members = members.map ofMember := by
  induction members with
  | nil =>
      rfl
  | cons member rest inner =>
      rw [ofMembers, inner, List.map_cons, ofMember]

theorem itemsWithin?_ofItems
    {depth : Nat} {items : List Value}
    (each : ∀ item ∈ items, (ofValue item).valueWithin? depth = some item) :
    itemsWithin? (ofItems items) depth = some items := by
  induction items with
  | nil =>
      rfl
  | cons item rest inner =>
      have later := inner fun other member => each other (List.mem_cons_of_mem item member)
      rw [ofItems, itemsWithin?, each item List.mem_cons_self, later]
      rfl

theorem membersWithin?_ofMembers
    {depth : Nat} {members : List (String × Value)}
    (each : ∀ member ∈ members, (ofValue member.2).valueWithin? depth = some member.2) :
    membersWithin? (ofMembers members) depth = some members := by
  induction members with
  | nil =>
      rfl
  | cons member rest inner =>
      have later := inner fun other found => each other (List.mem_cons_of_mem member found)
      rw [ofMembers, membersWithin?, each member List.mem_cons_self, later]
      rfl

/-- The value of a value's document is the value itself. -/
theorem valueWithin?_ofValue {depth : Nat} {value : Value} (nests : value.Nests depth) :
    (ofValue value).valueWithin? depth = some value := by
  induction nests with
  | null | bool | number | string =>
      rfl
  | array _ inner =>
      rw [ofValue, valueWithin?, itemsWithin?_ofItems inner]
      rfl
  | object distinct _ inner =>
      rw [ofValue, valueWithin?, membersWithin?_ofMembers inner, Option.map_some,
        OrderedMap.entries_ofList distinct]

theorem value?_ofValue {value : Value} (nests : value.Nests greatestDepth) :
    (ofValue value).value? = some value :=
  valueWithin?_ofValue nests

mutual

/-- The value of a document has no names twice and no more levels than there was room for. -/
theorem nests_of_valueWithin?
    (document : Written) {depth : Nat} {value : Value}
    (found : document.valueWithin? depth = some value) :
    value.Nests depth := by
  cases document with
  | null =>
      cases found
      exact .null depth
  | bool truth =>
      cases found
      exact .bool depth truth
  | number number =>
      obtain ⟨number, rfl, rfl⟩ := Option.map_eq_some_iff.mp found
      exact .number depth number
  | string text =>
      obtain ⟨text, rfl, rfl⟩ := Option.map_eq_some_iff.mp found
      exact .string depth text
  | array items =>
      cases depth with
      | zero =>
          cases found
      | succ depth =>
          obtain ⟨values, read, rfl⟩ := Option.map_eq_some_iff.mp found
          exact .array (nests_of_itemsWithin? items read)
  | object members =>
      cases depth with
      | zero =>
          cases found
      | succ depth =>
          obtain ⟨values, read, rfl⟩ := Option.map_eq_some_iff.mp found
          refine .object (OrderedMap.ofList values).distinct fun member inMap => ?_
          exact nests_of_membersWithin? members read member (OrderedMap.mem_ofList inMap)

theorem nests_of_itemsWithin?
    (items : List Written) {depth : Nat} {values : List Value}
    (found : itemsWithin? items depth = some values) :
    ∀ value ∈ values, value.Nests depth := by
  cases items with
  | nil =>
      cases found
      nofun
  | cons item rest =>
      obtain ⟨first, firstFound, found⟩ := Option.bind_eq_some_iff.mp found
      obtain ⟨others, othersFound, found⟩ := Option.bind_eq_some_iff.mp found
      cases found
      intro value member
      rcases List.mem_cons.mp member with rfl | later
      · exact nests_of_valueWithin? item firstFound
      · exact nests_of_itemsWithin? rest othersFound value later

theorem nests_of_membersWithin?
    (members : List (Option String × Written)) {depth : Nat} {values : List (String × Value)}
    (found : membersWithin? members depth = some values) :
    ∀ member ∈ values, member.2.Nests depth := by
  rcases members with _ | ⟨⟨name, item⟩, rest⟩
  · cases found
    nofun
  · obtain ⟨name, _, found⟩ := Option.bind_eq_some_iff.mp found
    obtain ⟨first, firstFound, found⟩ := Option.bind_eq_some_iff.mp found
    obtain ⟨others, othersFound, found⟩ := Option.bind_eq_some_iff.mp found
    cases found
    intro member inList
    rcases List.mem_cons.mp inList with rfl | later
    · exact nests_of_valueWithin? item firstFound
    · exact nests_of_membersWithin? rest othersFound member later

end

/-! ## Named values -/

theorem namedValues?_ofValue
    {depth : Nat} (values : OrderedMap String Value)
    (nests : ∀ entry ∈ values.entries, entry.2.Nests depth) :
    (ofValue (.object values.entries)).namedValues? depth = some values := by
  have read := membersWithin?_ofMembers fun entry member =>
    valueWithin?_ofValue (nests entry member)
  rw [ofValue, namedValues?, read, Option.map_some, OrderedMap.ofList_entries]

theorem nests_of_namedValues?
    {document : Written} {depth : Nat} {values : OrderedMap String Value}
    (found : document.namedValues? depth = some values) :
    ∀ entry ∈ values.entries, entry.2.Nests depth := by
  cases document with
  | object members =>
      obtain ⟨entries, read, rfl⟩ := Option.map_eq_some_iff.mp found
      intro entry member
      exact nests_of_membersWithin? members read entry (OrderedMap.mem_ofList member)
  | _ =>
      cases found

end Written

end Json

end TypeGraph
