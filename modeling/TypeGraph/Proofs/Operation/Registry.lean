import TypeGraph.Files.Load
import TypeGraph.Proofs.Distinct
import TypeGraph.Proofs.Json.Records

/-!
# Registries over runs

A registry after any run of requests, told by the signatures that were registered by then: it lists
their ids without repetitions, and under each id it has the last signature with that id. A file gives
all of its signatures or, if one of them is wrong, none.
-/

namespace TypeGraph

open TypeGraph.Json

/-! ## Requests -/

/-- What may be asked of a registry. A file is read as it is at that moment. -/
inductive RegistryRequest where
  | register (signature : Signature)
  | exportName (name : String)
  | extend (read : FileReader) (path : String)

namespace RegistryRequest

/-- The signatures that are registered in turn. -/
def signatures : RegistryRequest → List Signature
  | register signature => [signature]
  | exportName _ => []
  | extend read path =>
    match loadConfig Signature.readList? Signature.listFault? read path with
    | .ok signatures => signatures
    | .error _ => []

/-- The request as a computation on the registry where it stands, which gives the number of
signatures. What is done before a failure stays done. -/
def perform : RegistryRequest → ExceptT ConfigError (StateM Registry) Nat
  | register signature => do
    modify fun registry => registry.register signature
    return 1
  | exportName name => do
    modify fun registry => registry.exportName name
    return 0
  | extend read path => do
    let signatures ←
      MonadExcept.ofExcept (loadConfig Signature.readList? Signature.listFault? read path)
    signatures.forM fun signature => modify fun registry => registry.register signature
    return signatures.length

end RegistryRequest

namespace Registry

/-- The answer to a request, and the registry behind it. -/
def answer (registry : Registry) (request : RegistryRequest) : Except ConfigError Nat × Registry :=
  request.perform.run.run registry

def after (registry : Registry) (requests : List RegistryRequest) : Registry :=
  requests.foldl (fun registry request => (registry.answer request).2) registry

theorem run_forM_register (registry : Registry) (signatures : List Signature) (count : Nat) :
    (do
      signatures.forM fun signature => modify fun registry => registry.register signature
      return count : ExceptT ConfigError (StateM Registry) Nat).run.run registry =
      (.ok count, registry.registerAll signatures) := by
  induction signatures generalizing registry with
  | nil =>
      rfl
  | cons signature rest inner =>
      exact inner (registry.register signature)

/-- Files are worked off in place as they are from outside. -/
theorem answer_extend (registry : Registry) (read : FileReader) (path : String) :
    registry.answer (.extend read path) =
      match registry.extend read path with
      | .ok (count, later) => (.ok count, later)
      | .error error => (.error error, registry) := by
  rw [answer, RegistryRequest.perform, extend]
  cases loadConfig Signature.readList? Signature.listFault? read path with
  | error error =>
      rfl
  | ok signatures =>
      exact registry.run_forM_register signatures signatures.length

/-- Whatever the answer to a request, its signatures have been registered. -/
theorem signatures_answer (registry : Registry) (request : RegistryRequest) :
    (registry.answer request).2.signatures =
      (registry.registerAll request.signatures).signatures := by
  cases request with
  | register signature =>
      rfl
  | exportName name =>
      rfl
  | extend read path =>
      rw [answer_extend, RegistryRequest.signatures, extend]
      cases loadConfig Signature.readList? Signature.listFault? read path with
      | error error =>
          rfl
      | ok signatures =>
          rfl

theorem signatures_registerAll (registry : Registry) (signatures : List Signature) :
    (registry.registerAll signatures).signatures =
      signatures.foldl (fun map signature => map.insert signature.id signature)
        registry.signatures := by
  induction signatures generalizing registry with
  | nil =>
      rfl
  | cons signature rest inner =>
      exact inner (registry.register signature)

theorem signatures_after (registry : Registry) (requests : List RegistryRequest) :
    (registry.after requests).signatures =
      (registry.registerAll (requests.flatMap RegistryRequest.signatures)).signatures := by
  induction requests generalizing registry with
  | nil =>
      rfl
  | cons request rest inner =>
      have step := inner (registry.answer request).2
      rw [signatures_registerAll] at step ⊢
      rw [List.flatMap_cons, List.foldl_append, ← signatures_registerAll, ← signatures_answer]
      exact step

/-! ## What a registry has -/

/-- The last signature with an id. -/
def last? (registered : List Signature) (id : String) : Option Signature :=
  (registered.filter fun signature => signature.id == id).getLast?

theorem last?_concat (registered : List Signature) (final : Signature) (id : String) :
    last? (registered ++ [final]) id = if final.id = id then some final else last? registered id := by
  rw [last?, List.filter_append, List.filter_singleton]
  by_cases same : final.id = id
  · rw [if_pos same, beq_of_eq same, cond_true, List.getLast?_concat]
  · rw [if_neg same, beq_eq_false_iff_ne.mpr same, cond_false, List.append_nil]
    rfl

theorem get?_registerAll (registered : List Signature) (id : String) :
    (empty.registerAll registered).get? id = last? registered id := by
  induction registered using List.reverseRecOn with
  | nil =>
      rfl
  | append_singleton registered final inner =>
      rw [last?_concat, ← inner, registerAll, List.foldl_append]
      exact OrderedMap.get?_insert _ _ _ _

/-- Whether a registry has what was registered: each id once, in the order of the first signatures
with it, and under it the last one. -/
structure Keeps (registered : List Signature) (registry : Registry) : Prop where
  distinct : registry.ids.Nodup
  order : registry.ids = (registered.map Signature.id).eraseDups
  size : registry.size = registry.ids.length
  last : ∀ id, registry.get? id = last? registered id
  own : ∀ id signature, registry.get? id = some signature → signature.id = id

theorem keeps_of_signatures
    {registered : List Signature} {registry : Registry}
    (same : registry.signatures = (empty.registerAll registered).signatures) :
    Keeps registered registry := by
  have last : ∀ id, registry.get? id = last? registered id := by
    intro id
    rw [get?, same]
    exact get?_registerAll registered id
  refine ⟨registry.signatures.distinct, ?_, (List.length_map _).symm, last, ?_⟩
  · rw [ids, same, signatures_registerAll]
    exact OrderedMap.keys_foldl_insert Signature.id (fun _ signature => signature) registered
  · intro id signature found
    rw [last] at found
    have member := List.mem_of_getLast? found
    exact eq_of_beq (List.mem_filter.mp member).2

/-! ## Files -/

/-- Whether the elements of the array in a file are signatures, all of them. -/
def Lists (read : FileReader) (path : String) (items : List Written) (signatures : List Signature) :
    Prop :=
  ∃ text, read path = .ok text ∧ Written.read? text = some (.array items) ∧
    List.Forall₂ (fun item signature => Signature.ofWritten? item = some signature) items signatures

theorem readList?_eq_some_iff {text : String} {signatures : List Signature} :
    Signature.readList? text = some signatures ↔
      ∃ items, Written.read? text = some (.array items) ∧
        List.Forall₂ (fun item signature => Signature.ofWritten? item = some signature) items
          signatures := by
  rw [Signature.readList?, Option.bind_eq_some_iff]
  constructor
  · rintro ⟨document, spelled, found⟩
    cases document with
    | array items =>
        exact ⟨items, spelled, mapM_eq_some_iff.mp found⟩
    | _ =>
        cases found
  · rintro ⟨items, spelled, each⟩
    exact ⟨.array items, spelled, mapM_eq_some_iff.mpr each⟩

theorem loadConfig_eq_ok_iff
    {α : Type} {interpret : String → Option α} {diagnose : String → Option Fault}
    {read : FileReader} {path : String} {value : α} :
    loadConfig interpret diagnose read path = .ok value ↔
      ∃ text, read path = .ok text ∧ interpret text = some value := by
  rw [loadConfig]
  cases read path with
  | error error =>
      simp
  | ok text =>
      cases found : interpret text with
      | none =>
          simp [found]
      | some other =>
          simp [found]

theorem exists_lists_iff {read : FileReader} {path : String} {signatures : List Signature} :
    (∃ items, Lists read path items signatures) ↔
      loadConfig Signature.readList? Signature.listFault? read path = .ok signatures := by
  rw [loadConfig_eq_ok_iff]
  simp only [readList?_eq_some_iff]
  constructor
  · rintro ⟨items, text, found, spelled, each⟩
    exact ⟨text, found, items, spelled, each⟩
  · rintro ⟨text, found, items, spelled, each⟩
    exact ⟨items, text, found, spelled, each⟩

/-- What an extension by a file comes to. All of its signatures are registered one by one and the
elements of its array are counted, or it lists no signatures and nothing changes. -/
inductive Extends (registry : Registry) (read : FileReader) (path : String) :
    List Signature → Except ConfigError Nat × Registry → Prop where
  | done {items : List Written} {signatures : List Signature} :
      Lists read path items signatures →
      Extends registry read path signatures
        (.ok items.length, signatures.foldl Registry.register registry)
  | failed {error : ConfigError} :
      (∀ items signatures, ¬ Lists read path items signatures) →
      Extends registry read path [] (.error error, registry)

theorem extends_answer (registry : Registry) (read : FileReader) (path : String) :
    Extends registry read path (RegistryRequest.extend read path).signatures
      (registry.answer (.extend read path)) := by
  rw [answer_extend, RegistryRequest.signatures, extend]
  cases ran : loadConfig Signature.readList? Signature.listFault? read path with
  | error error =>
      refine .failed fun items signatures lists => ?_
      have success := exists_lists_iff.mp ⟨items, lists⟩
      rw [ran] at success
      cases success
  | ok signatures =>
      obtain ⟨items, lists⟩ := exists_lists_iff.mpr ran
      have count : signatures.length = items.length := by
        obtain ⟨_, _, _, each⟩ := lists
        exact each.length_eq.symm
      dsimp only [Except.map]
      rw [count]
      exact .done lists

/-! ## Runs -/

/-- After any run a registry has what was registered, and the catalog in front of that if it began
with it. Each extension by a file is whole or nothing, and an id that is registered again stays
where it is. -/
theorem registrations_kept :
    (∀ requests, Keeps (requests.flatMap RegistryRequest.signatures) (empty.after requests)) ∧
    (∀ requests,
      Keeps (Catalog.operations ++ requests.flatMap RegistryRequest.signatures)
        (standard.after requests)) ∧
    (∀ registry read path,
      Extends registry read path (RegistryRequest.extend read path).signatures
        (registry.answer (.extend read path))) ∧
    ∀ (registry : Registry) (signature : Signature), signature.id ∈ registry.ids →
      (registry.register signature).ids = registry.ids ∧
        (registry.register signature).size = registry.size := by
  refine ⟨?_, ?_, extends_answer, ?_⟩
  · intro requests
    exact keeps_of_signatures (signatures_after empty requests)
  · intro requests
    apply keeps_of_signatures
    rw [signatures_after, standard, registerAll, registerAll, registerAll, List.foldl_append]
  · intro registry signature known
    have same : (registry.register signature).ids = registry.ids :=
      (OrderedMap.keys_insert _ _ _).trans (if_pos known)
    have length := congrArg List.length same
    rw [ids, ids, OrderedMap.keys, OrderedMap.keys, List.length_map, List.length_map] at length
    exact ⟨same, length⟩

end Registry

end TypeGraph
