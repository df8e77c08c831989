import Mathlib.Data.List.Nodup
import TypeGraph.Proofs.Naming.Identifier

/-!
# Tables of names

A free name is always found, because there are more candidates than taken names. A table that keeps
off some names goes on doing so however many ids are named: each id has a name of its own, an
identifier, and never one of those kept off.
-/

namespace TypeGraph.NameTable

/-! ## The search for a free name -/

/-- The search stops at the first free candidate, or else at the last one that it may look at. -/
theorem firstNumbered_spec (taken : List String) (base : String) (tries number : Nat) :
    ∃ found,
      number ≤ found ∧
      firstNumbered taken base tries number = numbered base found ∧
      (∀ earlier, number ≤ earlier → earlier < found → numbered base earlier ∈ taken) ∧
      (numbered base found ∈ taken → found = number + tries) := by
  induction tries generalizing number with
  | zero =>
      refine ⟨number, Nat.le_refl number, rfl, ?_, fun _ => rfl⟩
      intro earlier above below
      omega
  | succ tries inner =>
      by_cases occupied : numbered base number ∈ taken
      · obtain ⟨found, above, equality, passed, last⟩ := inner (number + 1)
        refine ⟨found, by omega, ?_, ?_, fun taken => by have := last taken; omega⟩
        · rw [← equality]
          simp [firstNumbered, occupied]
        · intro earlier atLeast below
          by_cases first : earlier = number
          · rw [first]
            exact occupied
          · exact passed earlier (by omega) below
      · refine ⟨number, Nat.le_refl number, ?_, ?_, fun taken => absurd taken occupied⟩
        · simp [firstNumbered, occupied]
        · intro earlier above below
          omega

/-- More candidates than taken names cannot all be taken. -/
theorem not_all_numbered_mem (taken : List String) (base : String) (number : Nat) :
    ¬ ∀ candidate, number ≤ candidate → candidate ≤ number + taken.length →
        numbered base candidate ∈ taken := by
  intro allTaken
  let candidates := (List.range' number (taken.length + 1)).map (numbered base)
  have distinct : candidates.Nodup :=
    List.Nodup.map (numbered_injective base) List.nodup_range'
  have contained : candidates ⊆ taken := by
    intro name member
    obtain ⟨candidate, inRange, rfl⟩ := List.mem_map.mp member
    rw [List.mem_range'_1] at inRange
    exact allTaken candidate inRange.1 (by omega)
  have bound : candidates.length ≤ taken.length := distinct.length_le_of_subset contained
  simp only [candidates, List.length_map, List.length_range'] at bound
  omega

/-- The first free name is free. -/
theorem firstFree_not_mem (taken : List String) (base : String) :
    firstFree taken base ∉ taken := by
  by_cases occupied : base ∈ taken
  · obtain ⟨found, _, equality, passed, last⟩ := firstNumbered_spec taken base taken.length 2
    have unfolded : firstFree taken base = numbered base found := by
      simp [firstFree, occupied, equality]
    rw [unfolded]
    intro foundTaken
    apply not_all_numbered_mem taken base 2
    intro candidate above below
    by_cases same : candidate = found
    · rw [same]
      exact foundTaken
    · have final := last foundTaken
      exact passed candidate above (by omega)
  · simp [firstFree, occupied]

theorem isIdentifier_firstFree
    {base : String}
    (identifier : Text.isIdentifier base)
    (taken : List String) :
    Text.isIdentifier (firstFree taken base) := by
  by_cases occupied : base ∈ taken
  · obtain ⟨found, _, equality, _, _⟩ := firstNumbered_spec taken base taken.length 2
    have unfolded : firstFree taken base = numbered base found := by
      simp [firstFree, occupied, equality]
    rw [unfolded]
    exact isIdentifier_numbered identifier found
  · simpa [firstFree, occupied] using identifier

/-! ## What naming an id changes -/

/-- The name that an id gets if it has none. -/
def freshName (table : NameTable) (text : String) : String :=
  firstFree table.taken (Text.sanitize text)

theorem claim_eq (table : NameTable) (text : String) :
    table.claim text =
      (table.freshName text, { table with taken := table.freshName text :: table.taken }) :=
  rfl

theorem freshName_not_mem (table : NameTable) (text : String) :
    table.freshName text ∉ table.taken :=
  firstFree_not_mem table.taken (Text.sanitize text)

theorem isIdentifier_freshName (table : NameTable) (text : String) :
    Text.isIdentifier (table.freshName text) :=
  isIdentifier_firstFree (Text.isIdentifier_sanitize text) table.taken

theorem assign_of_bound
    {table : NameTable} {id name : String}
    (bound : table.bindings.get? id = some name) :
    table.assign id = table := by
  simp [assign, OrderedMap.contains, bound]

theorem assign_of_unbound
    {table : NameTable} {id : String}
    (unbound : table.bindings.get? id = none) :
    table.assign id =
      ⟨table.freshName id :: table.taken, table.bindings.insert id (table.freshName id)⟩ := by
  simp [assign, OrderedMap.contains, unbound, claim_eq]

/-- An id keeps its name whichever id is named next. -/
theorem get?_assign_of_bound
    {table : NameTable} {id name : String}
    (bound : table.bindings.get? id = some name)
    (next : String) :
    (table.assign next).bindings.get? id = some name := by
  cases status : table.bindings.get? next with
  | some earlier =>
      rw [assign_of_bound status]
      exact bound
  | none =>
      have different : next ≠ id := by
        rintro rfl
        rw [bound] at status
        cases status
      rw [assign_of_unbound status, OrderedMap.get?_insert, if_neg different]
      exact bound

theorem get?_assignAll_of_bound
    {table : NameTable} {id name : String}
    (bound : table.bindings.get? id = some name)
    (ids : List String) :
    (table.assignAll ids).bindings.get? id = some name := by
  induction ids generalizing table with
  | nil =>
      exact bound
  | cons next rest inner =>
      exact inner (get?_assign_of_bound bound next)

/-- Each of the ids to be named has a name in the end. -/
theorem exists_get?_assignAll
    (table : NameTable) {ids : List String} {id : String}
    (member : id ∈ ids) :
    ∃ name, (table.assignAll ids).bindings.get? id = some name := by
  induction ids generalizing table with
  | nil =>
      cases member
  | cons next rest inner =>
      rcases List.mem_cons.mp member with rfl | later
      · cases status : table.bindings.get? id with
        | some name =>
            exact ⟨name, get?_assignAll_of_bound (get?_assign_of_bound status id) rest⟩
        | none =>
            have named : (table.assign id).bindings.get? id = some (table.freshName id) := by
              rw [assign_of_unbound status, OrderedMap.get?_insert, if_pos rfl]
            exact ⟨table.freshName id, get?_assignAll_of_bound named rest⟩
      · exact inner (table.assign next) later

theorem binding_eq
    {table : NameTable} {id name : String}
    (bound : table.bindings.get? id = some name) :
    table.binding id = name := by
  rw [binding, bound, Option.getD_some]

/-! ## Tables that keep off names -/

/-- The names given to ids keep off some names, and off each other. -/
structure KeepsOff (forbidden : List String) (table : NameTable) : Prop where
  /-- The names to keep off are taken. -/
  held : forbidden ⊆ table.taken
  /-- So are the names given to ids. -/
  recorded : ∀ id name, table.bindings.get? id = some name → name ∈ table.taken
  clear : ∀ id name, table.bindings.get? id = some name → name ∉ forbidden
  identifier : ∀ id name, table.bindings.get? id = some name → Text.isIdentifier name
  injective : ∀ left right name,
    table.bindings.get? left = some name → table.bindings.get? right = some name → left = right

/-- A table without names for ids keeps off all names that are taken. -/
theorem keepsOff_taken (taken : List String) : KeepsOff taken ⟨taken, .empty⟩ where
  held := fun _ member => member
  recorded := fun _ _ bound => nomatch bound
  clear := fun _ _ bound => nomatch bound
  identifier := fun _ _ bound => nomatch bound
  injective := fun _ _ _ bound => nomatch bound

variable {forbidden : List String} {table : NameTable}

/-- Naming one more id is safe, because its name is free when it is given. -/
theorem KeepsOff.assign (keeps : KeepsOff forbidden table) (id : String) :
    KeepsOff forbidden (table.assign id) := by
  cases status : table.bindings.get? id with
  | some name =>
      rw [assign_of_bound status]
      exact keeps
  | none =>
      rw [assign_of_unbound status]
      have free : table.freshName id ∉ table.taken := table.freshName_not_mem id
      have bound_cases : ∀ other name,
          (table.bindings.insert id (table.freshName id)).get? other = some name →
            (id = other ∧ name = table.freshName id) ∨ table.bindings.get? other = some name := by
        intro other name bound
        rw [OrderedMap.get?_insert] at bound
        split at bound
        · next same => exact Or.inl ⟨same, (Option.some.inj bound).symm⟩
        · exact Or.inr bound
      constructor
      · intro name member
        exact List.mem_cons_of_mem _ (keeps.held member)
      · intro other name bound
        rcases bound_cases other name bound with ⟨_, rfl⟩ | before
        · exact List.mem_cons_self
        · exact List.mem_cons_of_mem _ (keeps.recorded other name before)
      · intro other name bound
        rcases bound_cases other name bound with ⟨_, rfl⟩ | before
        · exact fun member => free (keeps.held member)
        · exact keeps.clear other name before
      · intro other name bound
        rcases bound_cases other name bound with ⟨_, rfl⟩ | before
        · exact table.isIdentifier_freshName id
        · exact keeps.identifier other name before
      · intro left right name leftBound rightBound
        rcases bound_cases left name leftBound with ⟨leftSame, rfl⟩ | leftBefore
        · rcases bound_cases right _ rightBound with ⟨rightSame, _⟩ | rightBefore
          · exact leftSame.symm.trans rightSame
          · exact absurd (keeps.recorded right _ rightBefore) free
        · rcases bound_cases right name rightBound with ⟨_, rfl⟩ | rightBefore
          · exact absurd (keeps.recorded left _ leftBefore) free
          · exact keeps.injective left right name leftBefore rightBefore

theorem KeepsOff.assignAll (keeps : KeepsOff forbidden table) (ids : List String) :
    KeepsOff forbidden (table.assignAll ids) := by
  induction ids generalizing table with
  | nil =>
      exact keeps
  | cons id rest inner =>
      exact inner (keeps.assign id)

/-! ## Names taken in the end -/

theorem freshName_of_not_mem
    {table : NameTable} {text : String} (free : Text.sanitize text ∉ table.taken) :
    table.freshName text = Text.sanitize text := by
  simp [freshName, firstFree, free]

/-- Once a text is named its identifier is taken, by the new name or by an earlier one. -/
theorem sanitize_mem_freshName_cons (table : NameTable) (text : String) :
    Text.sanitize text ∈ table.freshName text :: table.taken := by
  by_cases occupied : Text.sanitize text ∈ table.taken
  · exact List.mem_cons_of_mem _ occupied
  · rw [freshName_of_not_mem occupied]
    exact List.mem_cons_self

/-- Whether each taken name was taken in the beginning or names one of some ids, and the identifiers
of the named ids are among the taken names. -/
structure Accounts (initial ids : List String) (table : NameTable) : Prop where
  known : ∀ name ∈ table.taken,
    name ∈ initial ∨ ∃ id ∈ ids, table.bindings.get? id = some name
  spent : ∀ id name, table.bindings.get? id = some name → Text.sanitize id ∈ table.taken

theorem accounts_taken (taken : List String) : Accounts taken [] ⟨taken, .empty⟩ where
  known := fun _ member => Or.inl member
  spent := fun _ _ bound => nomatch bound

theorem Accounts.assign
    {initial ids : List String} (accounts : Accounts initial ids table) (id : String) :
    Accounts initial (ids ++ [id]) (table.assign id) := by
  cases status : table.bindings.get? id with
  | some name =>
      rw [assign_of_bound status]
      refine ⟨fun other member => ?_, accounts.spent⟩
      exact (accounts.known other member).imp_right fun ⟨owner, listed, bound⟩ =>
        ⟨owner, List.mem_append_left _ listed, bound⟩
  | none =>
      have kept : ∀ other name, table.bindings.get? other = some name →
          (table.assign id).bindings.get? other = some name :=
        fun other name bound => get?_assign_of_bound bound id
      rw [assign_of_unbound status] at kept ⊢
      constructor
      · intro other member
        rcases List.mem_cons.mp member with rfl | before
        · refine Or.inr ⟨id, List.mem_append_right _ (List.mem_singleton_self id), ?_⟩
          rw [OrderedMap.get?_insert, if_pos rfl]
        · exact (accounts.known other before).imp_right fun ⟨owner, listed, bound⟩ =>
            ⟨owner, List.mem_append_left _ listed, kept owner other bound⟩
      · intro other name bound
        rw [OrderedMap.get?_insert] at bound
        split at bound
        · next same =>
          rw [← same]
          exact sanitize_mem_freshName_cons table id
        · exact List.mem_cons_of_mem _ (accounts.spent other name bound)

theorem Accounts.assignAll
    {initial ids : List String} (accounts : Accounts initial ids table) (more : List String) :
    Accounts initial (ids ++ more) (table.assignAll more) := by
  induction more generalizing ids table with
  | nil =>
      rw [List.append_nil]
      exact accounts
  | cons id rest inner =>
      have step := inner (accounts.assign id)
      rwa [List.append_assoc] at step

/-- The identifier of an id names some id in the end, unless it was taken in the beginning. -/
theorem exists_binding_eq_sanitize
    {taken ids : List String} {id : String}
    (listed : id ∈ ids)
    (free : Text.sanitize id ∉ taken) :
    ∃ other ∈ ids, (assignAll ⟨taken, .empty⟩ ids).binding other = Text.sanitize id := by
  have accounts := (accounts_taken taken).assignAll ids
  obtain ⟨name, bound⟩ := exists_get?_assignAll ⟨taken, .empty⟩ listed
  rcases accounts.known _ (accounts.spent id name bound) with initial | ⟨other, owns, named⟩
  · exact absurd initial free
  · exact ⟨other, owns, binding_eq named⟩

end TypeGraph.NameTable
