/-!
# Readers

A reader takes a value off the front of a list of symbols, or fails. It carries the proof that it
never leaves more than it was given, so that a loop over items ends because each separator it
passes makes the rest shorter.
-/

namespace TypeGraph

/-- A function from symbols to a value and the symbols left over. -/
structure Reader (ε σ α : Type) where
  run : List σ → Except ε (α × List σ)
  shrinks : ∀ {input value rest}, run input = .ok (value, rest) → rest.length ≤ input.length

namespace Reader

variable {ε σ α β : Type}

/-- Takes nothing and succeeds. -/
protected def pure (value : α) : Reader ε σ α where
  run input := .ok (value, input)
  shrinks := by
    intro input other rest success
    cases success
    exact Nat.le_refl _

/-- Reads with `first`, then with the reader that its value selects. -/
protected def bind (first : Reader ε σ α) (next : α → Reader ε σ β) : Reader ε σ β where
  run input :=
    match first.run input with
    | .error error => .error error
    | .ok (value, rest) => (next value).run rest
  shrinks := by
    intro input value rest success
    split at success
    · cases success
    · next middle between ran =>
      exact Nat.le_trans ((next middle).shrinks success) (first.shrinks ran)

instance : Monad (Reader ε σ) where
  pure := Reader.pure
  bind := Reader.bind

@[simp]
theorem run_pure (value : α) (input : List σ) :
    (pure value : Reader ε σ α).run input = .ok (value, input) :=
  rfl

theorem run_bind (first : Reader ε σ α) (next : α → Reader ε σ β) (input : List σ) :
    (first >>= next).run input =
      match first.run input with
      | .error error => .error error
      | .ok (value, rest) => (next value).run rest :=
  rfl

/-- Fails with an error made of the symbols that are left. -/
def fail (error : List σ → ε) : Reader ε σ α where
  run input := .error (error input)
  shrinks := by
    intro input value rest success
    cases success

/-- All symbols that are left, without taking any. -/
def remaining : Reader ε σ (List σ) where
  run input := .ok (input, input)
  shrinks := by
    intro input value rest success
    cases success
    exact Nat.le_refl _

/-- Drops `count` symbols, or as many as there are. -/
def skip (count : Nat) : Reader ε σ Unit where
  run input := .ok ((), input.drop count)
  shrinks := by
    intro input value rest success
    cases success
    simp

@[simp]
theorem run_fail (error : List σ → ε) (input : List σ) :
    (fail error : Reader ε σ α).run input = .error (error input) :=
  rfl

@[simp]
theorem run_remaining (input : List σ) :
    (remaining : Reader ε σ (List σ)).run input = .ok (input, input) :=
  rfl

@[simp]
theorem run_skip (count : Nat) (input : List σ) :
    (skip count : Reader ε σ Unit).run input = .ok ((), input.drop count) :=
  rfl

/-- Takes the longest run of symbols in the class. -/
def takeWhile (inClass : σ → Bool) : Reader ε σ (List σ) where
  run input := .ok (input.takeWhile inClass, input.dropWhile inClass)
  shrinks := by
    intro input value rest success
    cases success
    exact (List.dropWhile_sublist inClass).length_le

@[simp]
theorem run_takeWhile (inClass : σ → Bool) (input : List σ) :
    (takeWhile inClass : Reader ε σ (List σ)).run input =
      .ok (input.takeWhile inClass, input.dropWhile inClass) :=
  rfl

def next (inClass : σ → Bool) : Reader ε σ Bool := do
  match ← remaining with
  | [] => return false
  | head :: _ => return inClass head

/-- Takes the next symbol if it is in the class, and tells whether it did. -/
def accept (inClass : σ → Bool) : Reader ε σ Bool := do
  if ← next inClass then
    skip 1
    return true
  else
    return false

theorem run_accept_nil (inClass : σ → Bool) :
    (accept inClass : Reader ε σ Bool).run [] = .ok (false, []) :=
  rfl

theorem run_accept_cons (inClass : σ → Bool) (head : σ) (tail : List σ) :
    (accept inClass : Reader ε σ Bool).run (head :: tail) =
      if inClass head then .ok (true, tail) else .ok (false, head :: tail) := by
  cases member : inClass head <;> simp [accept, next, run_bind, member]

def separatedFrom (isSeparator : σ → Bool) (item : Reader ε σ α) (input : List σ) :
    Except ε (List α × List σ) :=
  match input with
  | [] => .ok ([], [])
  | head :: tail =>
    if isSeparator head then
      match _ran : item.run tail with
      | .error error => .error error
      | .ok (value, rest) =>
        match separatedFrom isSeparator item rest with
        | .error error => .error error
        | .ok (values, final) => .ok (value :: values, final)
    else .ok ([], head :: tail)
termination_by input.length
decreasing_by
  have := item.shrinks _ran
  simp only [List.length_cons]
  omega

theorem separatedFrom_shrinks (isSeparator : σ → Bool) (item : Reader ε σ α) {input : List σ}
    {values : List α} {final : List σ}
    (success : separatedFrom isSeparator item input = .ok (values, final)) :
    final.length ≤ input.length := by
  fun_induction separatedFrom isSeparator item input generalizing values with
  | case1 => cases success; simp
  | case2 => cases success
  | case3 => cases success
  | case4 head tail separator value rest ran others last ran' inner =>
    cases success
    have := item.shrinks ran
    have := inner ran'
    simp only [List.length_cons]
    omega
  | case5 => cases success; simp

def separatedItems (isSeparator : σ → Bool) (item : Reader ε σ α) : Reader ε σ (List α) :=
  ⟨separatedFrom isSeparator item, separatedFrom_shrinks isSeparator item⟩

/-- At least one item, with a separator between every two. -/
def separated (isSeparator : σ → Bool) (item : Reader ε σ α) : Reader ε σ (List α) := do
  let first ← item
  let others ← separatedItems isSeparator item
  return first :: others

/-- Items up to a closing symbol, which is left in place. A separator stands between every two,
and one more may follow the last. -/
def untilClosedFrom (closes isSeparator : σ → Bool) (item : Reader ε σ α) (input : List σ) :
    Except ε (List α × List σ) :=
  if (input.head?.map closes).getD false then .ok ([], input)
  else
    match _ran : item.run input with
    | .error error => .error error
    | .ok (value, []) => .ok ([value], [])
    | .ok (value, head :: tail) =>
      if isSeparator head then
        match untilClosedFrom closes isSeparator item tail with
        | .error error => .error error
        | .ok (values, final) => .ok (value :: values, final)
      else .ok ([value], head :: tail)
termination_by input.length
decreasing_by
  have := item.shrinks _ran
  simp only [List.length_cons] at this
  omega

theorem untilClosedFrom_shrinks (closes isSeparator : σ → Bool) (item : Reader ε σ α)
    {input : List σ} {values : List α} {final : List σ}
    (success : untilClosedFrom closes isSeparator item input = .ok (values, final)) :
    final.length ≤ input.length := by
  fun_induction untilClosedFrom closes isSeparator item input generalizing values with
  | case1 => cases success; simp
  | case2 => cases success
  | case3 => cases success; simp
  | case4 => cases success
  | case5 input notClosed value head tail ran separator others last ran' inner =>
    cases success
    have := item.shrinks ran
    have := inner ran'
    simp only [List.length_cons] at *
    omega
  | case6 input notClosed value head tail ran separator =>
    cases success
    exact item.shrinks ran

/-- Items up to a closing symbol, which is left in place. -/
def untilClosed (closes isSeparator : σ → Bool) (item : Reader ε σ α) : Reader ε σ (List α) :=
  ⟨untilClosedFrom closes isSeparator item, untilClosedFrom_shrinks closes isSeparator item⟩

/-- Folds over parts of the input, each begun by a symbol in the class. -/
def foldHeadedFrom (begins : σ → Bool) (part : α → σ → Reader ε σ α) (state : α)
    (input : List σ) : Except ε (α × List σ) :=
  match input with
  | [] => .ok (state, [])
  | head :: tail =>
    if begins head then
      match _ran : (part state head).run tail with
      | .error error => .error error
      | .ok (state, rest) => foldHeadedFrom begins part state rest
    else .ok (state, head :: tail)
termination_by input.length
decreasing_by
  have := (part _ _).shrinks _ran
  simp only [List.length_cons]
  omega

theorem foldHeadedFrom_shrinks (begins : σ → Bool) (part : α → σ → Reader ε σ α) {state last : α}
    {input final : List σ}
    (success : foldHeadedFrom begins part state input = .ok (last, final)) :
    final.length ≤ input.length := by
  fun_induction foldHeadedFrom begins part state input with
  | case1 => cases success; simp
  | case2 => cases success
  | case3 state head tail member between rest ran inner =>
    have := (part _ _).shrinks ran
    have := inner success
    simp only [List.length_cons]
    omega
  | case4 => cases success; simp

/-- Folds over parts of the input, for as long as a symbol in the class begins one. -/
def foldHeaded (begins : σ → Bool) (part : α → σ → Reader ε σ α) (state : α) : Reader ε σ α :=
  ⟨foldHeadedFrom begins part state, foldHeadedFrom_shrinks begins part⟩

/-- The value that the reader takes off the front, if there is one. -/
def value? (reader : Reader ε σ α) (input : List σ) : Option α :=
  match reader.run input with
  | .ok (value, _) => some value
  | .error _ => none

end Reader

end TypeGraph
