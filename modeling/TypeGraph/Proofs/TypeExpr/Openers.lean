import TypeGraph.TypeExpr.Basic
import TypeGraph.TypeExpr.Token
import Mathlib.Data.List.DropRight

/-!
# The levels that tokens open

What some tokens have begun and not yet ended, told by the tokens alone: the brackets that are open,
and inside of each of them the words and symbols behind which the type around goes on. Each of them
opens one level or two.
-/

namespace TypeGraph

/-- Something that tokens have begun. -/
inductive Opener where
  /-- An open bracket and the levels that it opens. -/
  | bracket (levels : Nat)
  /-- A word that makes a type out of its operand. -/
  | operator
  /-- The question mark of a conditional, or an optional mark. -/
  | question
  /-- A colon: that of a conditional, or one in front of the type of something. -/
  | colon
  | arrow
deriving DecidableEq, Repr

namespace Opener

def levels : Opener → Nat
  | bracket levels => levels
  | operator | question | colon => 1
  | arrow => 2

def isBracket : Opener → Bool
  | bracket _ => true
  | _ => false

def isOperator : Opener → Bool
  | operator => true
  | _ => false

/-- Whether an opener is no bracket and no question mark. -/
def isLight : Opener → Bool
  | operator | colon | arrow => true
  | bracket _ | question => false

end Opener

/-- Openers, the last one first. -/
abbrev Openers :=
  List Opener

namespace Openers

/-- The levels that are open at once. -/
def levels : Openers → Nat
  | [] => 0
  | opener :: openers => opener.levels + levels openers

/-- How many brackets are open at once. -/
def brackets (openers : Openers) : Nat :=
  openers.countP Opener.isBracket

/-- The innermost open bracket and what was begun before it. -/
def ground (openers : Openers) : Openers :=
  openers.dropWhile fun opener => !opener.isBracket

/-- The openers in front of the operators that wait for their operand. -/
def settled (openers : Openers) : Openers :=
  openers.dropWhile Opener.isOperator

/-- The openers in front of the last question mark that the innermost open bracket holds. -/
def questioned? : Openers → Option Openers
  | [] | .bracket _ :: _ => none
  | .question :: openers => some openers
  | _ :: openers => questioned? openers

/-- The openers behind a symbol. A closing bracket takes along what its opening one holds, a comma
or a semicolon what the open bracket around it holds, and a colon takes the place of a question
mark. -/
def afterSymbol (openers : Openers) : Symbol → Openers
  | .less | .openBracket => .bracket 2 :: openers
  | .openParen | .openBrace => .bracket 1 :: openers
  | .greater | .closeBracket | .closeParen | .closeBrace => openers.ground.tail
  | .comma | .semicolon => openers.ground
  | .pipe | .ampersand => openers.settled
  | .question => .question :: openers.settled
  | .colon => .colon :: openers.questioned?.getD openers.settled
  | .arrow => .arrow :: openers
  | .ellipsis | .dot | .minus | .plus | .equals => openers

def after (openers : Openers) : Token → Openers
  | .symbol kind => openers.afterSymbol kind
  | .name word => if (TypeOperator.ofWord? word).isSome then .operator :: openers else openers
  | .string _ | .number _ => openers

/-- The openers behind some tokens. -/
def behind (openers : Openers) (tokens : List Token) : Openers :=
  tokens.foldl after openers

variable {openers base : Openers}

theorem behind_append (openers : Openers) (first second : List Token) :
    openers.behind (first ++ second) = (openers.behind first).behind second :=
  List.foldl_append

/-! ## Levels -/

@[simp]
theorem levels_cons (opener : Opener) (openers : Openers) :
    levels (opener :: openers) = opener.levels + openers.levels :=
  rfl

theorem levels_append (first second : Openers) :
    (first ++ second).levels = first.levels + second.levels := by
  induction first with
  | nil =>
      exact (Nat.zero_add _).symm
  | cons opener first inner =>
      rw [List.cons_append, levels_cons, levels_cons, inner, Nat.add_assoc]

theorem levels_le_of_suffix (suffix : base <:+ openers) : base.levels ≤ openers.levels := by
  obtain ⟨front, rfl⟩ := suffix
  rw [levels_append]
  exact Nat.le_add_left _ _

theorem levels_ground_le (openers : Openers) : openers.ground.levels ≤ openers.levels :=
  levels_le_of_suffix (List.dropWhile_suffix _)

/-! ## The most levels open at once -/

/-- The most levels that are open at once behind openers on the way through some tokens. -/
def peak (openers : Openers) : List Token → Nat
  | [] => openers.levels
  | token :: tokens => max openers.levels (peak (openers.after token) tokens)

theorem levels_le_peak (openers : Openers) (tokens : List Token) :
    openers.levels ≤ openers.peak tokens := by
  cases tokens with
  | nil =>
      exact Nat.le_refl _
  | cons token tokens =>
      exact Nat.le_max_left _ _

theorem levels_behind_le_peak (openers : Openers) (taken rest : List Token) :
    (openers.behind taken).levels ≤ openers.peak (taken ++ rest) := by
  induction taken generalizing openers with
  | nil =>
      exact levels_le_peak openers rest
  | cons token taken inner =>
      exact (inner (openers.after token)).trans (Nat.le_max_right _ _)

theorem peak_append (openers : Openers) (first second : List Token) :
    openers.peak (first ++ second) =
      max (openers.peak first) ((openers.behind first).peak second) := by
  induction first generalizing openers with
  | nil =>
      exact (Nat.max_eq_right (levels_le_peak openers second)).symm
  | cons token first inner =>
      rw [List.cons_append, peak, inner, peak, Nat.max_assoc]
      rfl

/-! ## Brackets around -/

theorem ground_cons {opener : Opener} (inside : opener.isBracket = false) (openers : Openers) :
    ground (opener :: openers) = openers.ground := by
  rw [ground, List.dropWhile_cons_of_pos (by rw [inside]; rfl)]
  rfl

theorem ground_bracket (levels : Nat) (openers : Openers) :
    ground (.bracket levels :: openers) = .bracket levels :: openers :=
  List.dropWhile_cons_of_neg (by simp [Opener.isBracket])

theorem ground_ground (openers : Openers) : openers.ground.ground = openers.ground :=
  List.dropWhile_idempotent _ _

theorem ground_settled (openers : Openers) : openers.settled.ground = openers.ground := by
  induction openers with
  | nil =>
      rfl
  | cons opener openers inner =>
      cases opener with
      | operator =>
          exact inner
      | _ =>
          rfl

theorem levels_ground_le_settled (openers : Openers) :
    openers.ground.levels ≤ openers.settled.levels := by
  rw [← ground_settled]
  exact levels_ground_le _

theorem ground_of_questioned {rest : Openers} (found : openers.questioned? = some rest) :
    rest.ground = openers.ground := by
  induction openers with
  | nil =>
      cases found
  | cons opener openers inner =>
      cases opener with
      | bracket =>
          cases found
      | question =>
          cases found
          rfl
      | operator | colon | arrow =>
          exact inner found

/-- A colon leaves the brackets around as they are. -/
theorem ground_colon (openers : Openers) :
    (openers.afterSymbol .colon).ground = openers.ground := by
  rw [afterSymbol, ground_cons rfl]
  cases found : openers.questioned? with
  | none =>
      exact ground_settled openers
  | some rest =>
      exact ground_of_questioned found

theorem levels_ground_lt_colon (openers : Openers) :
    openers.ground.levels < (openers.afterSymbol .colon).levels := by
  rw [← ground_colon, afterSymbol, ground_cons rfl, levels_cons, Opener.levels]
  exact Nat.lt_one_add_iff.mpr (levels_ground_le _)

theorem ground_question (openers : Openers) :
    (openers.afterSymbol .question).ground = openers.ground :=
  ground_settled openers

/-! ## Words and symbols on top -/

/-- Whether openers are others with more of them on top that keep both the brackets around and the
last question mark. -/
def Over (base openers : Openers) : Prop :=
  ∃ top : Openers, top.all Opener.isLight ∧ openers = top ++ base

theorem Over.refl (base : Openers) : Over base base :=
  ⟨[], rfl, rfl⟩

theorem Over.cons {opener : Opener} (light : opener.isLight) (base : Openers) :
    Over base (opener :: base) :=
  ⟨[opener], by rw [List.all_cons, light]; rfl, rfl⟩

theorem Over.trans {middle : Openers} (first : Over base middle) (second : Over middle openers) :
    Over base openers := by
  obtain ⟨low, lowLight, rfl⟩ := first
  obtain ⟨high, highLight, rfl⟩ := second
  refine ⟨high ++ low, ?_, (List.append_assoc high low base).symm⟩
  rw [List.all_append, highLight, lowLight]
  rfl

theorem Over.levels_le (above : Over base openers) : base.levels ≤ openers.levels := by
  obtain ⟨top, -, shape⟩ := above
  exact levels_le_of_suffix ⟨top, shape.symm⟩

theorem Over.ground (above : Over base openers) : openers.ground = base.ground := by
  obtain ⟨top, light, rfl⟩ := above
  induction top with
  | nil =>
      rfl
  | cons opener top inner =>
      rw [List.all_cons, Bool.and_eq_true] at light
      rw [List.cons_append, ground_cons, inner light.2]
      cases opener <;> first | rfl | cases light.1

theorem Over.questioned (above : Over (.question :: base) openers) :
    openers.questioned? = some base := by
  obtain ⟨top, light, rfl⟩ := above
  induction top with
  | nil =>
      rfl
  | cons opener top inner =>
      rw [List.all_cons, Bool.and_eq_true] at light
      cases opener with
      | bracket | question =>
          cases light.1
      | operator | colon | arrow =>
          exact inner light.2

theorem over_settled (openers : Openers) : Over openers.settled openers := by
  refine ⟨openers.takeWhile Opener.isOperator, ?_, List.takeWhile_append_dropWhile.symm⟩
  refine List.all_eq_true.mpr fun opener member => ?_
  have operator := List.mem_takeWhile_imp member
  cases opener <;> first | rfl | cases operator

theorem settled_settled (openers : Openers) : openers.settled.settled = openers.settled :=
  List.dropWhile_idempotent _ _

/-- Openers on top of some that wait for no operand stay on top of them when they are settled. -/
theorem Over.settled (still : base.settled = base) (above : Over base openers) :
    Over base openers.settled := by
  obtain ⟨top, light, rfl⟩ := above
  induction top with
  | nil =>
      rw [List.nil_append, still]
      exact .refl base
  | cons opener top inner =>
      have others := light
      rw [List.all_cons, Bool.and_eq_true] at others
      cases opener with
      | operator =>
          exact inner others.2
      | bracket | question =>
          cases others.1
      | colon =>
          exact ⟨.colon :: top, light, rfl⟩
      | arrow =>
          exact ⟨.arrow :: top, light, rfl⟩

/-! ## Words -/

theorem over_after_name (openers : Openers) (word : String) :
    Over openers (openers.after (.name word)) := by
  rw [after]
  split
  · exact .cons rfl openers
  · exact .refl openers

theorem settled_after_name (openers : Openers) (word : String) :
    (openers.after (.name word)).settled = openers.settled := by
  rw [after]
  split <;> rfl

theorem ground_after_name (openers : Openers) (word : String) :
    (openers.after (.name word)).ground = openers.ground :=
  (over_after_name openers word).ground

theorem after_operator (operator : TypeOperator) (openers : Openers) :
    openers.after (.name operator.word) = .operator :: openers := by
  cases operator <;> rfl

/-! ## Brackets -/

def opensBracket : Token → Bool
  | .symbol .less | .symbol .openParen | .symbol .openBracket | .symbol .openBrace => true
  | _ => false

theorem brackets_le_of_sublist (sublist : base.Sublist openers) :
    base.brackets ≤ openers.brackets :=
  sublist.countP_le

theorem brackets_cons (opener : Opener) (openers : Openers) :
    brackets (opener :: openers) = openers.brackets + if opener.isBracket then 1 else 0 :=
  List.countP_cons

theorem questioned_sublist {rest : Openers} (found : openers.questioned? = some rest) :
    rest.Sublist openers := by
  induction openers with
  | nil =>
      cases found
  | cons opener openers inner =>
      cases opener with
      | bracket =>
          cases found
      | question =>
          cases found
          exact List.sublist_cons_self _ _
      | operator | colon | arrow =>
          exact (inner found).cons _

/-- Only a bracket that opens adds to the brackets that are open. -/
theorem brackets_after_le (openers : Openers) (token : Token) :
    (openers.after token).brackets ≤
      openers.brackets + if opensBracket token then 1 else 0 := by
  have ground : openers.ground.brackets ≤ openers.brackets :=
    brackets_le_of_sublist (List.dropWhile_sublist _)
  have settled : openers.settled.brackets ≤ openers.brackets :=
    brackets_le_of_sublist (List.dropWhile_sublist _)
  have outside : brackets openers.ground.tail ≤ openers.brackets :=
    (brackets_le_of_sublist (List.tail_sublist _)).trans ground
  have questioned : brackets (openers.questioned?.getD openers.settled) ≤ openers.brackets := by
    cases found : openers.questioned? with
    | none =>
        exact settled
    | some rest =>
        exact brackets_le_of_sublist (questioned_sublist found)
  cases token with
  | name word =>
      rw [after]
      split <;> exact Nat.le_refl _
  | string | number =>
      exact Nat.le_refl _
  | symbol kind =>
      cases kind with
      | less | openParen | openBracket | openBrace =>
          exact (brackets_cons _ _).le
      | greater | closeParen | closeBracket | closeBrace =>
          exact outside
      | comma | semicolon =>
          exact ground
      | pipe | ampersand | question =>
          exact settled
      | colon =>
          exact questioned
      | arrow | ellipsis | dot | minus | plus | equals =>
          exact Nat.le_refl _

theorem brackets_behind_le (openers : Openers) (tokens : List Token) :
    (openers.behind tokens).brackets ≤ openers.brackets + tokens.countP opensBracket := by
  induction tokens generalizing openers with
  | nil =>
      exact Nat.le_refl _
  | cons token tokens inner =>
      have step := brackets_after_le openers token
      have later := inner (openers.after token)
      rw [List.countP_cons]
      exact later.trans (by omega)

end Openers

end TypeGraph
