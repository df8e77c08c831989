import TypeGraph.Proofs.TypeExpr.Openers
import TypeGraph.Proofs.TypeExpr.Soundness

/-!
# What readers leave open

A triple over the openers of what a reader takes: where it reads something it tells what is open
behind that, and where it gives up for the nesting, how much is open there. A step that looks ahead
is told on the inputs that begin with what it has seen.
-/

namespace TypeGraph

namespace TypeReader

open Reader Openers

variable {α β : Type}

/-- What a reader does to openers on one input. -/
structure KeepsOn (input : List Lexeme) (openers : Openers) (floor : Nat)
    (reader : TypeReader α) (holds : α → Openers → Prop) : Prop where
  takes : ∀ {value : α} {rest : List Lexeme}, reader.run input = .ok (value, rest) →
    ∃ taken, input = taken ++ rest ∧ holds value (openers.behind (taken.map Lexeme.token))
  /-- Where the nesting is exhausted, no fewer levels than the floor are open. -/
  exhausts : reader.run input = .error .tooDeep →
    ∃ taken rest, input = taken ++ rest ∧ floor ≤ (openers.behind (taken.map Lexeme.token)).levels

/-- What a reader does to openers on the inputs that begin with some tokens. -/
def Keeps (ahead : List Token) (openers : Openers) (floor : Nat)
    (reader : TypeReader α) (holds : α → Openers → Prop) : Prop :=
  ∀ input, ahead <+: input.map Lexeme.token → KeepsOn input openers floor reader holds

variable {ahead : List Token} {openers : Openers} {floor : Nat}
  {holds : α → Openers → Prop} {gives : β → Openers → Prop}

/-! ## Steps -/

theorem Keeps.ofPrefix
    {front tokens : List Token} {reader : TypeReader α}
    (keeps : Keeps front openers floor reader holds) (begins : front <+: tokens) :
    Keeps tokens openers floor reader holds :=
  fun input more => keeps input (begins.trans more)

theorem Keeps.whatever
    {reader : TypeReader α} (keeps : Keeps [] openers floor reader holds) (tokens : List Token) :
    Keeps tokens openers floor reader holds :=
  keeps.ofPrefix List.nil_prefix

theorem Keeps.mono
    {reader : TypeReader α} {least : Nat} {weaker : α → Openers → Prop}
    (keeps : Keeps ahead openers floor reader holds)
    (lower : least ≤ floor)
    (implies : ∀ value behind, holds value behind → weaker value behind) :
    Keeps ahead openers least reader weaker := by
  intro input begins
  refine ⟨fun ran => ?_, fun ran => ?_⟩
  · obtain ⟨taken, shape, held⟩ := (keeps input begins).takes ran
    exact ⟨taken, shape, implies _ _ held⟩
  · obtain ⟨taken, rest, shape, deep⟩ := (keeps input begins).exhausts ran
    exact ⟨taken, rest, shape, lower.trans deep⟩

theorem Keeps.lower
    {reader : TypeReader α} {least : Nat}
    (keeps : Keeps ahead openers floor reader holds) (lower : least ≤ floor) :
    Keeps ahead openers least reader holds :=
  keeps.mono lower fun _ _ held => held

theorem Keeps.weaken
    {reader : TypeReader α} {weaker : α → Openers → Prop}
    (keeps : Keeps ahead openers floor reader holds)
    (implies : ∀ value behind, holds value behind → weaker value behind) :
    Keeps ahead openers floor reader weaker :=
  keeps.mono (Nat.le_refl floor) implies

theorem keeps_pure {value : α} (held : holds value openers) :
    Keeps ahead openers floor (pure value) holds := by
  intro input _
  refine ⟨fun ran => ?_, fun ran => ?_⟩
  · cases ran
    exact ⟨[], rfl, held⟩
  · cases ran

theorem keeps_unexpected (expectation : Expectation) :
    Keeps ahead openers floor (unexpected expectation : TypeReader α) holds := by
  intro input _
  refine ⟨fun ran => ?_, fun ran => ?_⟩
  · cases ran
  · cases input <;> cases ran

/-- What is left behind some tokens goes on from the openers behind them. -/
theorem KeepsOn.behind
    {front middle : List Lexeme} {whole reader : TypeReader α}
    (keeps : KeepsOn middle (openers.behind (front.map Lexeme.token)) floor reader holds)
    (same : whole.run (front ++ middle) = reader.run middle) :
    KeepsOn (front ++ middle) openers floor whole holds := by
  refine ⟨fun ran => ?_, fun ran => ?_⟩ <;> rw [same] at ran
  · obtain ⟨others, shape, held⟩ := keeps.takes ran
    refine ⟨front ++ others, ?_, ?_⟩
    · rw [shape, List.append_assoc]
    · rw [List.map_append, behind_append]
      exact held
  · obtain ⟨others, rest, shape, deep⟩ := keeps.exhausts ran
    refine ⟨front ++ others, rest, ?_, ?_⟩
    · rw [shape, List.append_assoc]
    · rw [List.map_append, behind_append]
      exact deep

theorem KeepsOn.of_run
    {input : List Lexeme} {whole reader : TypeReader α}
    (keeps : KeepsOn input openers floor reader holds)
    (same : whole.run input = reader.run input) :
    KeepsOn input openers floor whole holds :=
  ⟨fun ran => keeps.takes (same ▸ ran), fun ran => keeps.exhausts (same ▸ ran)⟩

/-- Two steps do what the first one does and then what the second does. -/
theorem KeepsOn.bind
    {input : List Lexeme} {first : TypeReader α} {next : α → TypeReader β}
    (keeps : KeepsOn input openers floor first holds)
    (later : ∀ value behind rest, first.run input = .ok (value, rest) → holds value behind →
      KeepsOn rest behind floor (next value) gives) :
    KeepsOn input openers floor (first >>= next) gives := by
  cases firstRan : first.run input with
  | error error =>
      have failed := run_bind_error firstRan next
      refine ⟨fun ran => ?_, fun ran => ?_⟩ <;> rw [failed] at ran <;> cases ran
      exact keeps.exhausts firstRan
  | ok success =>
      obtain ⟨value, middle⟩ := success
      obtain ⟨front, shape, held⟩ := keeps.takes firstRan
      have behind := later _ _ _ firstRan held
      rw [shape] at firstRan ⊢
      exact behind.behind (run_bind_ok firstRan next)

theorem Keeps.bind
    {first : TypeReader α} {next : α → TypeReader β}
    (keeps : Keeps ahead openers floor first holds)
    (later : ∀ value behind, holds value behind → Keeps [] behind floor (next value) gives) :
    Keeps ahead openers floor (first >>= next) gives :=
  fun input begins => (keeps input begins).bind fun value behind rest _ held =>
    later value behind held rest List.nil_prefix

theorem keeps_if
    {found : Bool} {present absent : TypeReader α}
    (whenPresent : Keeps ahead openers floor present holds)
    (whenAbsent : Keeps ahead openers floor absent holds) :
    Keeps ahead openers floor (if found = true then present else absent) holds := by
  cases found with
  | false =>
      exact whenAbsent
  | true =>
      exact whenPresent

theorem keepsOn_next
    {input : List Lexeme} {inClass : Lexeme → Bool} {next : Bool → TypeReader α}
    (later : ∀ found, KeepsOn input openers floor (next found) holds) :
    KeepsOn input openers floor (Reader.next inClass >>= next) holds := by
  cases input with
  | nil =>
      exact (later false).of_run rfl
  | cons head tail =>
      exact (later (inClass head)).of_run rfl

theorem keeps_next
    {inClass : Lexeme → Bool} {next : Bool → TypeReader α}
    (later : ∀ found, Keeps ahead openers floor (next found) holds) :
    Keeps ahead openers floor (Reader.next inClass >>= next) holds :=
  fun input begins => keepsOn_next fun found => later found input begins

/-- Where no level is left, the reader gives up in front of tokens that the floor allows for. -/
theorem keeps_within
    {inner : Option Level} {read : Level → TypeReader α}
    (empty : inner = none → floor ≤ (openers.behind ahead).levels)
    (keeps : ∀ level, inner = some level → Keeps [] openers floor (read level) holds) :
    Keeps ahead openers floor (within inner read) holds := by
  cases inner with
  | some level =>
      exact Keeps.whatever (keeps level rfl) ahead
  | none =>
      intro input begins
      refine ⟨nofun, fun _ => ?_⟩
      obtain ⟨others, shape⟩ := begins
      obtain ⟨taken, rest, same, tokens, -⟩ := List.map_eq_append_iff.mp shape.symm
      refine ⟨taken, rest, same, ?_⟩
      rw [tokens]
      exact empty rfl

/-! ## Single tokens -/

theorem keeps_accept
    {choices : List Token} {inClass : Lexeme → Bool} (among : Among choices inClass) :
    Keeps ahead openers floor (accept inClass) fun found behind =>
      if found = true then ∃ token ∈ choices, behind = openers.after token
      else behind = openers := by
  intro input _
  refine ⟨fun ran => ?_, fun ran => ?_⟩
  · obtain ⟨taken, shape, accepted⟩ := takes_accept among ran
    refine ⟨taken, shape, ?_⟩
    generalize taken.map Lexeme.token = tokens at accepted
    cases accepted with
    | absent =>
        exact rfl
    | present member =>
        exact ⟨_, member, rfl⟩
  · cases input with
    | nil =>
        cases ran
    | cons head tail =>
        rw [run_accept_cons] at ran
        split at ran <;> cases ran

theorem keeps_accept_if
    {choices : List Token} {inClass : Lexeme → Bool} {present absent : TypeReader α}
    (among : Among choices inClass)
    (whenPresent : ∀ token ∈ choices, Keeps [] (openers.after token) floor present holds)
    (whenAbsent : Keeps [] openers floor absent holds) :
    Keeps ahead openers floor
      (accept inClass >>= fun found => if found = true then present else absent) holds := by
  refine (keeps_accept among).bind fun found behind held => ?_
  cases found with
  | false =>
      cases held
      exact whenAbsent
  | true =>
      obtain ⟨token, member, rfl⟩ := held
      exact whenPresent token member

theorem keeps_acceptSymbol_if
    {kind : Symbol} {present absent : TypeReader α}
    (whenPresent : Keeps [] (openers.afterSymbol kind) floor present holds)
    (whenAbsent : Keeps [] openers floor absent holds) :
    Keeps ahead openers floor
      (acceptSymbol kind >>= fun found => if found = true then present else absent) holds := by
  refine keeps_accept_if (among_symbol kind) (fun token member => ?_) whenAbsent
  cases List.mem_singleton.mp member
  exact whenPresent

theorem keeps_acceptWord_if
    {word : String} {present absent : TypeReader α}
    (whenPresent : Keeps [] (openers.after (.name word)) floor present holds)
    (whenAbsent : Keeps [] openers floor absent holds) :
    Keeps ahead openers floor
      (acceptWord word >>= fun found => if found = true then present else absent) holds := by
  refine keeps_accept_if (among_word word) (fun token member => ?_) whenAbsent
  cases List.mem_singleton.mp member
  exact whenPresent

/-- A symbol that may be left out. -/
theorem keeps_acceptSymbol
    {kind : Symbol} {keptBy : Openers → Prop}
    (absent : keptBy openers) (present : keptBy (openers.afterSymbol kind)) :
    Keeps ahead openers floor (acceptSymbol kind) fun _ => keptBy := by
  refine (keeps_accept (among_symbol kind)).weaken fun found behind held => ?_
  cases found with
  | false =>
      cases held
      exact absent
  | true =>
      obtain ⟨token, member, rfl⟩ := held
      cases List.mem_singleton.mp member
      exact present

theorem keeps_expect_bind
    {kind : Symbol} {place : Place} {next : Unit → TypeReader β}
    (later : Keeps [] (openers.afterSymbol kind) floor (next ()) gives) :
    Keeps ahead openers floor (expect kind place >>= next) gives := by
  have expects : Keeps ahead openers floor (expect kind place)
      fun _ behind => behind = openers.afterSymbol kind :=
    keeps_acceptSymbol_if (keeps_pure rfl) (keeps_unexpected _)
  refine expects.bind fun _ behind held => ?_
  rw [held]
  exact later

/-! ## Decisions on two tokens -/

theorem keeps_nextTwo
    {branch : List Token → TypeReader α}
    (keeps : ∀ tokens, Keeps tokens openers floor (branch tokens) holds) :
    Keeps ahead openers floor (nextTwo >>= branch) holds := by
  intro input _
  have begins : firstTwo input <+: input.map Lexeme.token := (List.take_prefix 2 input).map _
  exact (keeps (firstTwo input) input begins).of_run rfl

theorem keeps_remaining
    {next : List Lexeme → TypeReader α}
    (later : ∀ input, Keeps ahead openers floor (next input) holds) :
    Keeps ahead openers floor (remaining >>= next) holds :=
  fun input begins => (later input input begins).of_run rfl

/-- Tokens that are known to be next may be passed over. -/
theorem keeps_skip
    (front : List Token) {others : List Token} {next : Unit → TypeReader α}
    (later : Keeps others (openers.behind front) floor (next ()) holds) :
    Keeps (front ++ others) openers floor (skip front.length >>= next) holds := by
  intro input begins
  obtain ⟨back, shape⟩ := begins
  rw [List.append_assoc] at shape
  obtain ⟨passed, rest, rfl, passedTokens, restTokens⟩ := List.map_eq_append_iff.mp shape.symm
  have length : passed.length = front.length := by
    rw [← passedTokens, List.length_map]
  have behind := later rest ⟨back, restTokens.symm⟩
  rw [← passedTokens] at behind
  refine behind.behind ?_
  rw [run_bind, run_skip, ← length, List.drop_left]

theorem keeps_name (place : Place) :
    Keeps ahead openers floor (name place)
      fun text behind => behind = openers.after (.name text) := by
  refine keeps_nextTwo fun tokens => ?_
  split
  · exact keeps_skip [.name _] (keeps_pure rfl)
  · exact keeps_unexpected _

theorem keeps_name_bind
    {place : Place} {next : String → TypeReader β}
    (later : ∀ text, Keeps [] (openers.after (.name text)) floor (next text) gives) :
    Keeps ahead openers floor (name place >>= next) gives := by
  refine (keeps_name place).bind fun text behind held => ?_
  rw [held]
  exact later text

/-! ## Lists -/

variable {invariant : Openers → Prop}

theorem keeps_separatedItems
    {separator : Symbol} {item : TypeReader α}
    (items : ∀ openers, invariant openers →
      Keeps [] (openers.afterSymbol separator) floor item fun _ => invariant)
    (start : invariant openers) :
    Keeps [] openers floor (separatedItems (isSymbol separator) item) fun _ => invariant := by
  -- By induction on the length of the input, which each separator makes shorter.
  intro input begins
  induction length : input.length using Nat.strongRecOn generalizing input openers with
  | ind size shorter =>
    refine KeepsOn.of_run ?_ (run_separatedItems _ _ _)
    refine (keeps_accept (among_symbol separator) input begins).bind
      fun found behind rest ran held => ?_
    cases found with
    | false =>
        cases held
        exact keeps_pure start rest List.nil_prefix
    | true =>
        obtain ⟨token, member, rfl⟩ := held
        cases List.mem_singleton.mp member
        have first := items _ start rest List.nil_prefix
        refine first.bind fun value behind others itemRan kept => ?_
        have fewer := (item.shrinks itemRan).trans_lt (length_lt_of_accept ran)
        rw [length] at fewer
        have inner := shorter _ fewer kept others List.nil_prefix rfl
        exact inner.bind fun values _ rest _ final => keeps_pure final rest List.nil_prefix

theorem keeps_separated
    {separator : Symbol} {item : TypeReader α}
    (first : Keeps [] openers floor item fun _ => invariant)
    (others : ∀ openers, invariant openers →
      Keeps [] (openers.afterSymbol separator) floor item fun _ => invariant) :
    Keeps [] openers floor (separated (isSymbol separator) item) fun _ => invariant :=
  first.bind fun _ _ start => (keeps_separatedItems others start).bind fun _ _ final =>
    keeps_pure final

theorem keeps_untilClosed
    {separators : List Token} {closes isSeparator : Lexeme → Bool} {item : TypeReader α}
    (among : Among separators isSeparator)
    (between : ∀ token ∈ separators, ∀ openers, invariant openers →
      invariant (openers.after token))
    (items : ∀ openers, invariant openers → Keeps [] openers floor item fun _ => invariant)
    (start : invariant openers) :
    Keeps [] openers floor (untilClosed closes isSeparator item) fun _ => invariant := by
  intro input begins
  induction length : input.length using Nat.strongRecOn generalizing input openers with
  | ind size shorter =>
    refine KeepsOn.of_run ?_ (run_untilClosed _ _ _ _)
    refine keepsOn_next fun closed => ?_
    cases closed with
    | true =>
        exact keeps_pure start input begins
    | false =>
        refine (items _ start input begins).bind fun value behind rest itemRan kept => ?_
        refine (keeps_accept among rest List.nil_prefix).bind fun found after others ran held => ?_
        cases found with
        | false =>
            cases held
            exact keeps_pure kept others List.nil_prefix
        | true =>
            obtain ⟨token, member, rfl⟩ := held
            have fewer := (length_lt_of_accept ran).trans_le (item.shrinks itemRan)
            rw [length] at fewer
            have next := between token member _ kept
            have inner := shorter _ fewer next others List.nil_prefix rfl
            exact inner.bind fun values _ rest _ final => keeps_pure final rest List.nil_prefix

end TypeReader

end TypeGraph
