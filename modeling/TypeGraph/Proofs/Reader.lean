import TypeGraph.Reader

/-!
# Runs of readers

What the loops of a reader do with the front of their input, as one step of the loop and the rest of
it.
-/

namespace TypeGraph

theorem takeWhile_of_all
    {σ : Type} {inClass : σ → Bool} {front rest : List σ}
    (every : front.all inClass)
    (stops : ∀ symbol ∈ rest.head?, inClass symbol = false) :
    (front ++ rest).takeWhile inClass = front ∧ (front ++ rest).dropWhile inClass = rest := by
  have members := List.all_eq_true.mp every
  rw [List.takeWhile_append_of_pos members, List.dropWhile_append_of_pos members]
  cases rest with
  | nil =>
      exact ⟨List.append_nil front, rfl⟩
  | cons symbol rest =>
      have outside := stops symbol rfl
      simp [outside]

namespace Reader

variable {ε σ α β : Type}

theorem run_bind_ok
    {first : Reader ε σ α} {value : α} {input rest : List σ}
    (ran : first.run input = .ok (value, rest)) (next : α → Reader ε σ β) :
    (first >>= next).run input = (next value).run rest := by
  rw [run_bind, ran]

theorem run_bind_error
    {first : Reader ε σ α} {error : ε} {input : List σ}
    (failed : first.run input = .error error) (next : α → Reader ε σ β) :
    (first >>= next).run input = .error error := by
  rw [run_bind, failed]

/-! ## Single symbols -/

theorem run_next_nil (inClass : σ → Bool) :
    (next inClass : Reader ε σ Bool).run [] = .ok (false, []) :=
  rfl

theorem run_next_cons (inClass : σ → Bool) (head : σ) (tail : List σ) :
    (next inClass : Reader ε σ Bool).run (head :: tail) = .ok (inClass head, head :: tail) :=
  rfl

theorem run_next_of_ne
    {inClass : σ → Bool} {input : List σ}
    (off : ∀ head ∈ input.head?, inClass head = false) :
    (next inClass : Reader ε σ Bool).run input = .ok (false, input) := by
  cases input with
  | nil =>
      rfl
  | cons head tail =>
      rw [run_next_cons, off head rfl]

theorem run_accept_of_ne
    {inClass : σ → Bool} {input : List σ}
    (off : ∀ head ∈ input.head?, inClass head = false) :
    (accept inClass : Reader ε σ Bool).run input = .ok (false, input) := by
  cases input with
  | nil =>
      rfl
  | cons head tail =>
      rw [run_accept_cons, off head rfl]
      rfl

theorem run_accept_self [BEq σ] [ReflBEq σ] (symbol : σ) (rest : List σ) :
    (accept (· == symbol) : Reader ε σ Bool).run (symbol :: rest) = .ok (true, rest) := by
  rw [run_accept_cons, BEq.rfl, if_pos rfl]

theorem length_lt_of_accept
    {inClass : σ → Bool} {input rest : List σ}
    (ran : (accept inClass : Reader ε σ Bool).run input = .ok (true, rest)) :
    rest.length < input.length := by
  cases input with
  | nil =>
      cases ran
  | cons head tail =>
      rw [run_accept_cons] at ran
      split at ran <;> cases ran
      exact Nat.lt_succ_self _

/-! ## Loops -/

theorem run_separatedItems
    (isSeparator : σ → Bool) (item : Reader ε σ α) (input : List σ) :
    (separatedItems isSeparator item).run input =
      (accept isSeparator >>= fun
        | true => item >>= fun value =>
          separatedItems isSeparator item >>= fun values => pure (value :: values)
        | false => pure []).run input := by
  change separatedFrom isSeparator item input = _
  cases input with
  | nil =>
      rw [separatedFrom]
      rfl
  | cons head tail =>
      rw [separatedFrom, run_bind, run_accept_cons]
      cases isSeparator head with
      | false =>
          rfl
      | true =>
          have later : (separatedItems isSeparator item).run = separatedFrom isSeparator item := rfl
          simp only [if_true, run_bind, later]
          split
          · next ran => rw [ran]
          · next ran =>
            rw [ran]
            dsimp only
            cases separatedFrom isSeparator item _ <;> rfl

/-- Behind a separator the other items are read as all items are. -/
theorem run_separatedItems_cons
    {isSeparator : σ → Bool} {head : σ} (separates : isSeparator head)
    (item : Reader ε σ α) (tail : List σ) :
    (separatedItems isSeparator item).run (head :: tail) =
      (separated isSeparator item).run tail := by
  rw [run_separatedItems, run_bind, run_accept_cons, if_pos separates]
  rfl

theorem run_untilClosed
    (closes isSeparator : σ → Bool) (item : Reader ε σ α) (input : List σ) :
    (untilClosed closes isSeparator item).run input =
      (next closes >>= fun
        | true => pure []
        | false => item >>= fun value => accept isSeparator >>= fun
          | true => untilClosed closes isSeparator item >>= fun values => pure (value :: values)
          | false => pure [value]).run input := by
  change untilClosedFrom closes isSeparator item input = _
  have later :
      (untilClosed closes isSeparator item).run = untilClosedFrom closes isSeparator item := rfl
  rw [untilClosedFrom, run_bind]
  have first : (next closes : Reader ε σ Bool).run input =
      .ok ((input.head?.map closes).getD false, input) := by
    cases input <;> rfl
  rw [first]
  cases (input.head?.map closes).getD false with
  | true =>
      rfl
  | false =>
      simp only [Bool.false_eq_true, if_false, run_bind]
      split
      · next ran => rw [ran]
      · next ran => rw [ran]; rfl
      · next value head tail ran =>
        rw [ran]
        dsimp only
        rw [run_accept_cons]
        cases isSeparator head with
        | false =>
            rfl
        | true =>
            simp only [if_true, run_bind]
            rw [later]
            cases untilClosedFrom closes isSeparator item tail <;> rfl

theorem run_foldHeaded_of_ne
    {begins : σ → Bool} {input : List σ}
    (off : ∀ head ∈ input.head?, begins head = false)
    (part : α → σ → Reader ε σ α) (state : α) :
    (foldHeaded begins part state).run input = .ok (state, input) := by
  change foldHeadedFrom begins part state input = _
  cases input with
  | nil =>
      rw [foldHeadedFrom]
  | cons head tail =>
      rw [foldHeadedFrom, off head rfl]
      rfl

theorem run_foldHeaded_cons
    (begins : σ → Bool) {part : α → σ → Reader ε σ α} {state next : α}
    {head : σ} {tail rest : List σ}
    (member : begins head)
    (ran : (part state head).run tail = .ok (next, rest)) :
    (foldHeaded begins part state).run (head :: tail) =
      (foldHeaded begins part next).run rest := by
  change foldHeadedFrom begins part state (head :: tail) = foldHeadedFrom begins part next rest
  rw [foldHeadedFrom, if_pos member]
  split
  · next failed =>
    rw [ran] at failed
    cases failed
  · next same =>
    rw [ran] at same
    cases same
    rfl

end Reader

end TypeGraph
