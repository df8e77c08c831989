import Mathlib.Data.List.Pairwise
import TypeGraph.Proofs.Distinct
import TypeGraph.Proofs.Naming.Table

/-!
# Runs of a table of names

A table is asked for names again and again, for texts and for ids. Each new request gets the first
name that is free at that moment, after fewer retries than there are taken names. Two requests get
one name only if they name the same id, and a name that an id has got stays with it.
-/

namespace TypeGraph

/-- A request for a name: for a text, or for an id, which keeps the first name that it gets. -/
inductive NameRequest where
  | claim (text : String)
  | assign (id : String)
deriving DecidableEq, Repr

namespace NameRequest

/-- What the name is made of. -/
def text : NameRequest → String
  | claim text => text
  | assign id => id

/-- Whether a name is to be found: not for an id that was named by an earlier request. -/
def IsNew (earlier : List NameRequest) : NameRequest → Prop
  | claim _ => True
  | assign id => assign id ∉ earlier

end NameRequest

namespace NameTable

/-- The name that a request gets, and the table behind it. -/
def answer (table : NameTable) : NameRequest → String × NameTable
  | .claim text => table.claim text
  | .assign id => ((table.assign id).binding id, table.assign id)

/-- The table behind some requests. -/
def after (table : NameTable) (requests : List NameRequest) : NameTable :=
  requests.foldl (fun table request => (table.answer request).2) table

/-- Requests with the names that they get. -/
def log (table : NameTable) : List NameRequest → List (NameRequest × String)
  | [] => []
  | request :: rest =>
    (request, (table.answer request).1) :: (table.answer request).2.log rest

/-! ## The search -/

/-- The search for a free name: a candidate that is taken is followed by the one with the next
number, and each such step is one retry. -/
inductive Search (taken : List String) (base : String) :
    (candidate : String) → (number retries : Nat) → (found : String) → Prop where
  | free {candidate : String} {number : Nat} :
      candidate ∉ taken → Search taken base candidate number 0 candidate
  | retry {candidate found : String} {number retries : Nat} :
      candidate ∈ taken →
      Search taken base (numbered base number) (number + 1) retries found →
      Search taken base candidate number (retries + 1) found

/-- The candidates in the order of the search. -/
def candidate (base : String) : Nat → String
  | 0 => base
  | place + 1 => numbered base (place + 2)

theorem numbered_ne_base (base : String) (number : Nat) : numbered base number ≠ base := by
  intro same
  have longer := congrArg (fun text => text.toList.length) same
  simp [toList_numbered] at longer

theorem candidate_injective (base : String) : Function.Injective (candidate base) := by
  intro left right same
  cases left with
  | zero =>
      cases right with
      | zero =>
          rfl
      | succ right =>
          exact absurd same.symm (numbered_ne_base base _)
  | succ left =>
      cases right with
      | zero =>
          exact absurd same (numbered_ne_base base _)
      | succ right =>
          have numbers := numbered_injective base same
          omega

/-- The search goes through candidates that are taken, up to one that is free. -/
theorem search_candidates
    {taken : List String} {base : String} {retries start : Nat}
    (free : candidate base (start + retries) ∉ taken)
    (passed : ∀ place, start ≤ place → place < start + retries → candidate base place ∈ taken) :
    Search taken base (candidate base start) (start + 2) retries
      (candidate base (start + retries)) := by
  induction retries generalizing start with
  | zero =>
      exact .free free
  | succ retries inner =>
      have shift : start + (retries + 1) = start + 1 + retries := by omega
      rw [shift] at free passed ⊢
      apply Search.retry
      · exact passed start (Nat.le_refl start) (by omega)
      · apply inner free
        intro place above below
        exact passed place (by omega) below

/-- As many candidates as are taken are among the taken names. -/
theorem retries_le
    {taken : List String} {base : String} {retries : Nat}
    (passed : ∀ place < retries, candidate base place ∈ taken) :
    retries ≤ taken.eraseDups.length := by
  have distinct : ((List.range retries).map (candidate base)).Nodup :=
    List.Nodup.map (candidate_injective base) List.nodup_range
  have contained : (List.range retries).map (candidate base) ⊆ taken.eraseDups := by
    intro name member
    obtain ⟨place, below, rfl⟩ := List.mem_map.mp member
    exact List.mem_eraseDups.mpr (passed place (List.mem_range.mp below))
  simpa using distinct.length_le_of_subset contained

/-- Whether a name is the first free one that is made of a base, and how it is found. -/
structure FirstFree (taken : List String) (base name : String) : Prop where
  free : name ∉ taken
  plain : base ∉ taken → name = base
  least : base ∈ taken → ∃ number, 2 ≤ number ∧ name = numbered base number ∧
    ∀ smaller, 2 ≤ smaller → smaller < number → numbered base smaller ∈ taken
  search : ∃ retries ≤ taken.eraseDups.length, Search taken base base 2 retries name

/-- What is found depends only on which names are taken. -/
theorem firstFree_exact
    {taken known : List String}
    (same : ∀ name, name ∈ taken ↔ name ∈ known)
    (base : String) :
    FirstFree known base (firstFree taken base) := by
  have free : firstFree taken base ∉ known := by
    rw [← same]
    exact firstFree_not_mem taken base
  by_cases occupied : base ∈ taken
  · obtain ⟨found, above, equality, passed, _⟩ := firstNumbered_spec taken base taken.length 2
    have unfolded : firstFree taken base = numbered base found := by
      simp [firstFree, occupied, equality]
    have isCandidate : numbered base found = candidate base (found - 1) := by
      obtain ⟨place, rfl⟩ := Nat.exists_eq_add_of_le' above
      rfl
    have passedCandidates : ∀ place < found - 1, candidate base place ∈ known := by
      intro place below
      rw [← same]
      cases place with
      | zero =>
          exact occupied
      | succ place =>
          exact passed (place + 2) (by omega) (by omega)
    rw [unfolded] at free ⊢
    constructor
    · exact free
    · intro unoccupied
      exact absurd ((same base).mp occupied) unoccupied
    · intro _
      refine ⟨found, above, rfl, ?_⟩
      intro smaller atLeast below
      rw [← same]
      exact passed smaller atLeast below
    · refine ⟨found - 1, retries_le passedCandidates, ?_⟩
      rw [isCandidate] at free ⊢
      have searched := @search_candidates known base (found - 1) 0
      rw [Nat.zero_add] at searched
      apply searched free
      intro place _ below
      exact passedCandidates place below
  · have unfolded : firstFree taken base = base := by
      simp [firstFree, occupied]
    rw [unfolded] at free ⊢
    exact ⟨free, fun _ => rfl, fun occupied => absurd occupied free, 0, Nat.zero_le _, .free free⟩

/-! ## One request -/

theorem answer_assign_of_bound
    {table : NameTable} {id name : String}
    (bound : table.bindings.get? id = some name) :
    table.answer (.assign id) = (name, table) := by
  rw [answer, assign_of_bound bound, binding_eq bound]

theorem answer_assign_of_unbound
    {table : NameTable} {id : String}
    (unbound : table.bindings.get? id = none) :
    table.answer (.assign id) =
      (table.freshName id,
        ⟨table.freshName id :: table.taken, table.bindings.insert id (table.freshName id)⟩) := by
  have bound : (table.bindings.insert id (table.freshName id)).get? id =
      some (table.freshName id) := by
    simp [OrderedMap.get?_insert]
  rw [answer, assign_of_unbound unbound]
  simp [binding, bound]

/-- Whether a table holds what a log says: the names that were taken before it and those that it
gives, and for each id the name that it gives to it. -/
structure Records (initial : List String) (log : List (NameRequest × String)) (table : NameTable) :
    Prop where
  taken : ∀ name, name ∈ table.taken ↔ name ∈ initial ++ log.map Prod.snd
  bindings : ∀ id name, table.bindings.get? id = some name ↔ (.assign id, name) ∈ log

variable {initial : List String} {log : List (NameRequest × String)} {table : NameTable}

theorem records_nil (initial : List String) : Records initial [] ⟨initial, .empty⟩ where
  taken := by simp
  bindings := by
    intro id name
    constructor
    · intro bound
      cases bound
    · intro member
      cases member

theorem Records.append
    (records : Records initial log table)
    {request : NameRequest} {name : String} {later : NameTable}
    (taken : ∀ other, other ∈ later.taken ↔ other ∈ table.taken ∨ other = name)
    (bindings : ∀ id other, later.bindings.get? id = some other ↔
      table.bindings.get? id = some other ∨ (NameRequest.assign id = request ∧ other = name)) :
    Records initial (log ++ [(request, name)]) later where
  taken := by
    intro other
    rw [taken, records.taken]
    simp [or_assoc]
  bindings := by
    intro id other
    rw [bindings, records.bindings]
    simp

theorem Records.isNew_assign_iff (records : Records initial log table) (id : String) :
    (NameRequest.assign id).IsNew (log.map Prod.fst) ↔ table.bindings.get? id = none := by
  rw [Option.eq_none_iff_forall_ne_some, NameRequest.IsNew]
  simp only [Ne, records.bindings]
  simp

/-- What is recorded stays so, whatever is asked for next. -/
theorem Records.answer (records : Records initial log table) (request : NameRequest) :
    Records initial (log ++ [(request, (table.answer request).1)]) (table.answer request).2 := by
  cases request with
  | claim text =>
      apply records.append
      · intro other
        rw [NameTable.answer, claim_eq]
        simp [or_comm]
      · intro id other
        rw [NameTable.answer, claim_eq]
        simp
  | assign id =>
      cases status : table.bindings.get? id with
      | none =>
          rw [answer_assign_of_unbound status]
          apply records.append
          · intro other
            simp [or_comm]
          · intro key other
            rw [OrderedMap.get?_insert]
            by_cases same : id = key
            · subst same
              simp [status, eq_comm]
            · have different : ¬ key = id := fun equality => same equality.symm
              simp [same, different]
      | some name =>
          have member : (NameRequest.assign id, name) ∈ log := (records.bindings id name).mp status
          have known : name ∈ table.taken := by
            rw [records.taken]
            exact List.mem_append_right _ (List.mem_map_of_mem (f := Prod.snd) member)
          rw [answer_assign_of_bound status]
          apply records.append
          · intro other
            constructor
            · exact Or.inl
            · rintro (taken | rfl)
              · exact taken
              · exact known
          · intro key other
            constructor
            · exact Or.inl
            · rintro (bound | ⟨same, rfl⟩)
              · exact bound
              · cases same
                exact status

/-- A new request gets the first free name. -/
theorem Records.firstFree
    (records : Records initial log table)
    {request : NameRequest}
    (new : request.IsNew (log.map Prod.fst)) :
    FirstFree (initial ++ log.map Prod.snd) (Text.sanitize request.text)
      (table.answer request).1 := by
  have fresh : (table.answer request).1 = table.freshName request.text := by
    cases request with
    | claim text =>
        rfl
    | assign id =>
        rw [answer_assign_of_unbound ((records.isNew_assign_iff id).mp new)]
        rfl
  rw [fresh]
  exact firstFree_exact records.taken _

/-- Whether two requests get one name exactly if they name the same id. -/
def ShareById (first second : NameRequest × String) : Prop :=
  first.2 = second.2 ↔ ∃ id, first.1 = .assign id ∧ second.1 = .assign id

theorem ShareById.symm {first second : NameRequest × String} (share : ShareById first second) :
    ShareById second first := by
  rw [ShareById] at share ⊢
  rw [eq_comm, share]
  simp only [and_comm]

instance : Std.Symm ShareById :=
  ⟨fun _ _ => ShareById.symm⟩

/-- A new name is that of no earlier request. -/
theorem Records.shareById_of_new
    (records : Records initial log table)
    {request : NameRequest}
    (new : request.IsNew (log.map Prod.fst))
    {earlier : NameRequest × String}
    (member : earlier ∈ log) :
    ShareById earlier (request, (table.answer request).1) := by
  have free := (records.firstFree new).free
  constructor
  · intro same
    exfalso
    apply free
    apply List.mem_append_right
    rw [List.mem_map]
    exact ⟨earlier, member, same⟩
  · rintro ⟨id, first, rfl⟩
    exfalso
    apply new
    rw [← first]
    exact List.mem_map_of_mem (f := Prod.fst) member

theorem Records.shareById_of_named
    (records : Records initial log table)
    (shared : log.Pairwise ShareById)
    {id name : String}
    (named : table.bindings.get? id = some name)
    {earlier : NameRequest × String}
    (member : earlier ∈ log) :
    ShareById earlier (.assign id, (table.answer (.assign id)).1) := by
  have first : (NameRequest.assign id, name) ∈ log := (records.bindings id name).mp named
  rw [answer_assign_of_bound named]
  by_cases same : earlier = (.assign id, name)
  · rw [same]
    simp [ShareById]
  · exact shared.forall member first same

theorem Records.shareById
    (records : Records initial log table)
    (shared : log.Pairwise ShareById)
    (request : NameRequest)
    {earlier : NameRequest × String}
    (member : earlier ∈ log) :
    ShareById earlier (request, (table.answer request).1) := by
  cases request with
  | claim text =>
      have isNew : (NameRequest.claim text).IsNew (log.map Prod.fst) := trivial
      exact records.shareById_of_new isNew member
  | assign id =>
      cases status : table.bindings.get? id with
      | none =>
          exact records.shareById_of_new ((records.isNew_assign_iff id).mpr status) member
      | some name =>
          exact records.shareById_of_named shared status member

/-- A name that is taken from the beginning is never given. -/
theorem Records.answer_not_mem
    (records : Records initial log table)
    (clear : ∀ entry ∈ log, entry.2 ∉ initial)
    (request : NameRequest) :
    (table.answer request).1 ∉ initial := by
  by_cases new : request.IsNew (log.map Prod.fst)
  · intro member
    exact (records.firstFree new).free (List.mem_append_left _ member)
  · cases request with
    | claim text =>
        exact absurd trivial new
    | assign id =>
        rw [records.isNew_assign_iff, ← Ne, Option.ne_none_iff_exists'] at new
        obtain ⟨name, named⟩ := new
        rw [answer_assign_of_bound named]
        exact clear (.assign id, name) ((records.bindings id name).mp named)

/-! ## Runs -/

theorem after_append (table : NameTable) (first second : List NameRequest) :
    table.after (first ++ second) = (table.after first).after second := by
  simp [after]

theorem log_append (table : NameTable) (first second : List NameRequest) :
    table.log (first ++ second) = table.log first ++ (table.after first).log second := by
  induction first generalizing table with
  | nil =>
      rfl
  | cons request rest inner =>
      simp only [List.cons_append, NameTable.log, inner]
      rfl

theorem map_fst_log (table : NameTable) (requests : List NameRequest) :
    (table.log requests).map Prod.fst = requests := by
  induction requests generalizing table with
  | nil =>
      rfl
  | cons request rest inner =>
      simp [NameTable.log, inner]

/-- A part of a log is the log of a part. -/
theorem eq_log_of_append
    {table : NameTable} {requests : List NameRequest} {before rest : List (NameRequest × String)}
    (split : table.log requests = before ++ rest) :
    before = table.log (before.map Prod.fst) ∧
      rest = (table.after (before.map Prod.fst)).log (rest.map Prod.fst) := by
  have whole : requests = before.map Prod.fst ++ rest.map Prod.fst := by
    rw [← List.map_append, ← split, map_fst_log]
  rw [whole, log_append] at split
  apply List.append_inj split.symm
  have lengths := congrArg List.length (map_fst_log table (before.map Prod.fst))
  rw [List.length_map, List.length_map] at lengths
  exact lengths.symm

theorem records_log (initial : List String) (requests : List NameRequest) :
    Records initial (NameTable.log ⟨initial, .empty⟩ requests) (after ⟨initial, .empty⟩ requests) := by
  induction requests using List.reverseRecOn with
  | nil =>
      exact records_nil initial
  | append_singleton requests request inner =>
      rw [log_append, after_append]
      exact inner.answer request

theorem pairwise_shareById_log (initial : List String) (requests : List NameRequest) :
    (NameTable.log ⟨initial, .empty⟩ requests).Pairwise ShareById := by
  induction requests using List.reverseRecOn with
  | nil =>
      exact List.Pairwise.nil
  | append_singleton requests request inner =>
      rw [log_append, List.pairwise_append]
      refine ⟨inner, List.pairwise_singleton _ _, ?_⟩
      intro earlier member answered last
      rw [List.mem_singleton.mp last]
      exact (records_log initial requests).shareById inner request member

theorem log_not_mem (initial : List String) (requests : List NameRequest) :
    ∀ entry ∈ NameTable.log ⟨initial, .empty⟩ requests, entry.2 ∉ initial := by
  induction requests using List.reverseRecOn with
  | nil =>
      intro entry member
      cases member
  | append_singleton requests request inner =>
      intro entry member
      rw [log_append, List.mem_append] at member
      rcases member with earlier | last
      · exact inner entry earlier
      · rw [List.mem_singleton.mp last]
        exact (records_log initial requests).answer_not_mem inner request

/-- Whether requests are answered as they should be by a table that keeps some names for other use:
all of them, each by a name that is not kept, and no two by one name unless they name one id. -/
structure Answers (reserved : List String) (requests : List NameRequest)
    (log : List (NameRequest × String)) : Prop where
  complete : log.map Prod.fst = requests
  clear : ∀ request name, (request, name) ∈ log → name ∉ reservedWords ∧ name ∉ reserved
  apart : log.Pairwise ShareById
  /-- A new name is made of the sanitized text, and is the first that is free at that moment. -/
  first : ∀ before request name rest, log = before ++ (request, name) :: rest →
    request.IsNew (before.map Prod.fst) →
      FirstFree (reservedWords ++ reserved ++ before.map Prod.snd) (Text.sanitize request.text) name
  /-- The name of an id is its name at every later moment. -/
  lasting : ∀ before rest id name, log = before ++ rest → (NameRequest.assign id, name) ∈ before →
    ((reserving reserved).after (before.map Prod.fst)).bindings.get? id = some name

theorem records_of_append
    {reserved : List String} {requests : List NameRequest}
    {before rest : List (NameRequest × String)}
    (split : (reserving reserved).log requests = before ++ rest) :
    Records (reservedWords ++ reserved) before
      ((reserving reserved).after (before.map Prod.fst)) := by
  have records : Records (reservedWords ++ reserved)
      ((reserving reserved).log (before.map Prod.fst))
      ((reserving reserved).after (before.map Prod.fst)) :=
    records_log _ _
  rwa [← (eq_log_of_append split).1] at records

/-- A table finds a name for every request, whatever is asked for and in whatever order. -/
theorem answers_log (reserved : List String) (requests : List NameRequest) :
    Answers reserved requests ((reserving reserved).log requests) where
  complete := map_fst_log _ requests
  clear := by
    intro request name member
    have free := log_not_mem (reservedWords ++ reserved) requests _ member
    simpa using free
  apart := pairwise_shareById_log _ requests
  first := by
    intro before request name rest split new
    have later := (eq_log_of_append split).2
    rw [List.map_cons, NameTable.log, List.cons.injEq, Prod.mk.injEq] at later
    rw [later.1.2]
    exact (records_of_append split).firstFree new
  lasting := by
    intro before rest id name split member
    exact ((records_of_append split).bindings id name).mpr member

example : ((reserving ["a"]).log
      [.assign "a_2", .claim "a", .assign "a!", .assign "a_2", .claim "type"]).map Prod.snd =
    ["a_2", "a_3", "a_4", "a_2", "type_2"] := by
  rfl

end NameTable

end TypeGraph
