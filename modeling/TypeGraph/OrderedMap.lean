/-!
# Ordered maps

Entries with pairwise distinct keys, in the order of their first insertion. Setting the value of a
key that is there already replaces the value and keeps the place.
-/

namespace TypeGraph

/-- The entries with `value` under `key`: in the place of the key if it has one, else at the end. -/
def setEntry {κ α : Type} [DecidableEq κ] (key : κ) (value : α) : List (κ × α) → List (κ × α)
  | [] => [(key, value)]
  | entry :: rest =>
    if entry.1 = key then (key, value) :: rest else entry :: setEntry key value rest

def entryAt? {κ α : Type} [DecidableEq κ] (key : κ) : List (κ × α) → Option α
  | [] => none
  | entry :: rest => if entry.1 = key then some entry.2 else entryAt? key rest

section Entries

variable {κ α : Type} [DecidableEq κ]

theorem keys_setEntry (key : κ) (value : α) (entries : List (κ × α)) :
    (setEntry key value entries).map Prod.fst =
      if key ∈ entries.map Prod.fst then entries.map Prod.fst
      else entries.map Prod.fst ++ [key] := by
  induction entries with
  | nil => simp [setEntry]
  | cons entry rest inner =>
    by_cases same : entry.1 = key
    · simp [setEntry, same]
    · have different : ¬ key = entry.1 := fun equality => same equality.symm
      by_cases later : key ∈ rest.map Prod.fst
      · simp only [setEntry, same, if_false, List.map_cons, inner, later, if_true,
          List.mem_cons, different, false_or]
      · simp only [setEntry, same, if_false, List.map_cons, inner, later,
          List.mem_cons, different, false_or, List.cons_append]

theorem nodup_keys_setEntry (key : κ) (value : α) {entries : List (κ × α)}
    (distinct : (entries.map Prod.fst).Nodup) :
    ((setEntry key value entries).map Prod.fst).Nodup := by
  rw [keys_setEntry]
  split
  · exact distinct
  · next absent =>
    refine List.nodup_append.2 ⟨distinct, by simp, ?_⟩
    intro left leftMember right rightMember equality
    rw [List.mem_singleton] at rightMember
    exact absent (rightMember ▸ equality ▸ leftMember)

theorem entryAt?_setEntry (key other : κ) (value : α) (entries : List (κ × α)) :
    entryAt? other (setEntry key value entries) =
      if key = other then some value else entryAt? other entries := by
  induction entries with
  | nil => simp [setEntry, entryAt?]
  | cons entry rest inner =>
    by_cases same : entry.1 = key
    · by_cases sought : key = other
      · simp [setEntry, entryAt?, same, sought]
      · simp [setEntry, entryAt?, same, sought]
    · by_cases sought : key = other
      · subst sought
        simp [setEntry, entryAt?, same, inner]
      · simp [setEntry, entryAt?, same, inner, sought]

theorem entryAt?_isSome_iff (key : κ) (entries : List (κ × α)) :
    (entryAt? key entries).isSome ↔ key ∈ entries.map Prod.fst := by
  induction entries with
  | nil =>
      simp [entryAt?]
  | cons entry rest inner =>
      by_cases same : entry.1 = key
      · simp [entryAt?, same]
      · have different : ¬ key = entry.1 := fun equality => same equality.symm
        simp only [entryAt?, same, if_false, List.map_cons, List.mem_cons, different, false_or]
        exact inner

theorem entryAt?_eq_some_iff {key : κ} {value : α} {entries : List (κ × α)}
    (distinct : (entries.map Prod.fst).Nodup) :
    entryAt? key entries = some value ↔ (key, value) ∈ entries := by
  induction entries with
  | nil =>
      simp [entryAt?]
  | cons entry rest inner =>
      have ⟨absent, distinctRest⟩ := List.nodup_cons.mp distinct
      by_cases same : entry.1 = key
      · have notLater : (key, value) ∉ rest := fun later =>
          absent (same ▸ List.mem_map_of_mem (f := Prod.fst) later)
        simp only [entryAt?, same, if_true, Option.some.injEq, List.mem_cons, notLater, or_false]
        rw [← same]
        exact ⟨fun equality => by rw [← equality], fun equality => by rw [← equality]⟩
      · have different : (key, value) ≠ entry := fun equality => same (equality ▸ rfl)
        simp only [entryAt?, same, if_false, List.mem_cons, different, false_or]
        exact inner distinctRest

end Entries

/-- A map whose entries have an order. -/
structure OrderedMap (κ α : Type) where
  entries : List (κ × α)
  distinct : (entries.map Prod.fst).Nodup
deriving DecidableEq

namespace OrderedMap

variable {κ α : Type}

instance : Inhabited (OrderedMap κ α) :=
  ⟨⟨[], List.nodup_nil⟩⟩

/-- The map without entries. -/
def empty : OrderedMap κ α :=
  ⟨[], List.nodup_nil⟩

def keys (map : OrderedMap κ α) : List κ :=
  map.entries.map Prod.fst

/-- The number of entries. -/
def size (map : OrderedMap κ α) : Nat :=
  map.entries.length

/-- Whether there are no entries. -/
def isEmpty (map : OrderedMap κ α) : Bool :=
  map.entries.isEmpty

variable [DecidableEq κ]

def insert (map : OrderedMap κ α) (key : κ) (value : α) : OrderedMap κ α :=
  ⟨setEntry key value map.entries, nodup_keys_setEntry key value map.distinct⟩

/-- The value under `key`. -/
def get? (map : OrderedMap κ α) (key : κ) : Option α :=
  entryAt? key map.entries

/-- Whether there is a value under `key`. -/
def contains (map : OrderedMap κ α) (key : κ) : Bool :=
  (map.get? key).isSome

/-- All entries inserted in turn, so that of two with one key the later value stays. -/
def ofList (entries : List (κ × α)) : OrderedMap κ α :=
  entries.foldl (fun map entry => map.insert entry.1 entry.2) empty

theorem get?_insert (map : OrderedMap κ α) (key other : κ) (value : α) :
    (map.insert key value).get? other = if key = other then some value else map.get? other :=
  entryAt?_setEntry key other value map.entries

theorem keys_insert (map : OrderedMap κ α) (key : κ) (value : α) :
    (map.insert key value).keys = if key ∈ map.keys then map.keys else map.keys ++ [key] :=
  keys_setEntry key value map.entries

theorem get?_isSome_iff (map : OrderedMap κ α) (key : κ) :
    (map.get? key).isSome ↔ key ∈ map.keys :=
  entryAt?_isSome_iff key map.entries

theorem contains_iff (map : OrderedMap κ α) (key : κ) :
    map.contains key ↔ key ∈ map.keys :=
  map.get?_isSome_iff key

theorem get?_eq_some_iff (map : OrderedMap κ α) (key : κ) (value : α) :
    map.get? key = some value ↔ (key, value) ∈ map.entries :=
  entryAt?_eq_some_iff map.distinct

end OrderedMap

end TypeGraph
