import Mathlib.Data.List.Induction
import Mathlib.Data.List.Nodup
import TypeGraph.OrderedMap

/-!
# First occurrences

A list without its repetitions has each item once, where it occurs first. The keys of a map that is
filled step by step are the keys of the steps without repetitions.
-/

namespace TypeGraph

section Lists

variable {α : Type} [BEq α] [LawfulBEq α]

theorem nodup_eraseDups : ∀ items : List α, items.eraseDups.Nodup
  | [] => List.nodup_nil
  | item :: rest => by
      rw [List.eraseDups_cons, List.nodup_cons]
      constructor
      · simp
      · exact nodup_eraseDups (rest.filter fun other => !other == item)
termination_by items => items.length
decreasing_by
  exact Nat.lt_succ_of_le (List.length_filter_le _ _)

theorem eraseDups_of_nodup {items : List α} (nodup : items.Nodup) : items.eraseDups = items := by
  induction items with
  | nil =>
      rfl
  | cons item rest inner =>
      have ⟨absent, nodupRest⟩ := List.nodup_cons.mp nodup
      have kept : rest.filter (fun other => !other == item) = rest := by
        rw [List.filter_eq_self]
        intro other member
        rw [Bool.not_eq_true', beq_eq_false_iff_ne]
        rintro rfl
        exact absent member
      rw [List.eraseDups_cons, kept, inner nodupRest]

theorem eraseDups_append_of_mem {items : List α} {item : α} (known : item ∈ items) :
    (items ++ [item]).eraseDups = items.eraseDups := by
  rw [List.eraseDups_append]
  simp [List.removeAll, known]

theorem eraseDups_append_of_not_mem {items : List α} {item : α} (new : item ∉ items) :
    (items ++ [item]).eraseDups = items.eraseDups ++ [item] := by
  rw [List.eraseDups_append]
  simp [List.removeAll, new, List.eraseDups_cons]

/-- A list without its repetitions has the items in the order of their first occurrences. -/
theorem pairwise_idxOf_eraseDups (items : List α) :
    items.eraseDups.Pairwise fun first second => items.idxOf first < items.idxOf second := by
  induction items using List.reverseRecOn with
  | nil =>
      exact List.Pairwise.nil
  | append_singleton items item inner =>
      have kept : items.eraseDups.Pairwise fun first second =>
          (items ++ [item]).idxOf first < (items ++ [item]).idxOf second := by
        refine inner.imp_of_mem fun {first second} firstMember secondMember earlier => ?_
        rwa [List.idxOf_append_of_mem (List.mem_eraseDups.mp firstMember),
          List.idxOf_append_of_mem (List.mem_eraseDups.mp secondMember)]
      by_cases known : item ∈ items
      · rwa [eraseDups_append_of_mem known]
      · rw [eraseDups_append_of_not_mem known]
        refine List.pairwise_append.mpr ⟨kept, List.pairwise_singleton _ item, ?_⟩
        intro first firstMember second secondMember
        have member := List.mem_eraseDups.mp firstMember
        rw [List.mem_singleton.mp secondMember, List.idxOf_append_of_mem member,
          List.idxOf_append_of_notMem known]
        exact Nat.lt_add_right _ (List.idxOf_lt_length_iff.mpr member)

/-- Repetitions stay repetitions, and nothing else becomes one, under an injective function. -/
theorem eraseDups_map {β : Type} [BEq β] [LawfulBEq β] {image : α → β}
    (injective : Function.Injective image) :
    ∀ items : List α, (items.map image).eraseDups = items.eraseDups.map image
  | [] => rfl
  | item :: rest => by
      have same : (fun other => !image other == image item) = fun other => !other == item := by
        funext other
        rw [Bool.eq_iff_iff]
        simp [injective.eq_iff]
      rw [List.map_cons, List.eraseDups_cons, List.eraseDups_cons, List.map_cons, List.filter_map,
        Function.comp_def, same, eraseDups_map injective]
termination_by items => items.length
decreasing_by
  exact Nat.lt_succ_of_le (List.length_filter_le _ _)

end Lists

namespace OrderedMap

variable {κ α ι : Type} [DecidableEq κ]

theorem keys_foldl_insert [BEq κ] [LawfulBEq κ]
    (key : ι → κ) (value : OrderedMap κ α → ι → α) (items : List ι) :
    (items.foldl (fun map item => map.insert (key item) (value map item)) empty).keys =
      (items.map key).eraseDups := by
  induction items using List.reverseRecOn with
  | nil =>
      rfl
  | append_singleton items item inner =>
      rw [List.foldl_append, List.foldl_cons, List.foldl_nil, keys_insert, inner, List.map_append,
        List.map_cons, List.map_nil]
      by_cases known : key item ∈ items.map key
      · rw [if_pos (List.mem_eraseDups.mpr known), eraseDups_append_of_mem known]
      · rw [if_neg fun member => known (List.mem_eraseDups.mp member),
          eraseDups_append_of_not_mem known]

/-- The entries are the keys, each with the value under it. -/
theorem entries_eq_map
    {map : OrderedMap κ α} {value : κ → α}
    (each : ∀ key ∈ map.keys, map.get? key = some (value key)) :
    map.entries = map.keys.map fun key => (key, value key) := by
  rw [keys, List.map_map]
  refine (List.map_id map.entries).symm.trans (List.map_congr_left fun entry member => ?_)
  have found : map.get? entry.1 = some entry.2 := (map.get?_eq_some_iff entry.1 entry.2).mpr member
  have same := each entry.1 (List.mem_map_of_mem member)
  rw [found, Option.some.injEq] at same
  rw [Function.comp_apply, ← same]
  rfl

end OrderedMap

end TypeGraph
