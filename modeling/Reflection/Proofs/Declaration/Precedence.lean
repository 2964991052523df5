import Mathlib.Data.List.Basic
import Mathlib.Tactic.IntervalCases
import Reflection.Declaration.Constant
/-!
# How expressions are written

`Spells` says which token lists write an expression: the operators bind as in C, binary ones to the
left, and whatever binds looser than its place allows stands in round brackets. The reader finds the
expression that a token list writes (`parse?_of_spells`).
-/

namespace Reflection.Declaration

open Reflection.Source

/-! ## Operators -/

/-- How tightly a binary operator binds. -/
def BinaryOperator.level : BinaryOperator → Nat
  | .or => 0
  | .xor => 1
  | .and => 2
  | .shiftLeft | .shiftRight => 3
  | .add | .subtract => 4
  | .multiply | .divide | .remainder => 5

/-- The level of what binary operators have no part in. -/
def operandLevel : Nat := 6

/-- The mark of a binary operator, if it has one of its own. -/
def BinaryOperator.mark? : BinaryOperator → Option String
  | .or => some "|"
  | .xor => some "^"
  | .and => some "&"
  | .shiftLeft => some "<<"
  | .shiftRight => none
  | .add => some "+"
  | .subtract => some "-"
  | .multiply => some "*"
  | .divide => some "/"
  | .remainder => some "%"

/-- The tokens of a binary operator. The right shift is two angle brackets without a gap. -/
inductive BinaryOperator.Marks : BinaryOperator → List Token → Prop
  | single {op : BinaryOperator} {mark : String} {t : Token} (own : op.mark? = some mark)
      (written : t.isMark mark) : Marks op [t]
  | shiftRight {first second : Token} (opens : first.isMark ">") (closes : second.isMark ">")
      (adjacent : second.offset = first.offset + 1) : Marks .shiftRight [first, second]

/-- The mark of a unary operator. -/
def UnaryOperator.mark : UnaryOperator → String
  | .negate => "-"
  | .plus => "+"
  | .complement => "~"
  | .not => "!"

/-! ## Written expressions -/

/-- A name, plain or with qualifiers before it, of which only the last component counts. -/
inductive Names : String → List Token → Prop
  | plain {t : Token} (word : t.kind = .identifier) : Names t.text [t]
  | qualified {t colons : Token} {key : String} {ts : List Token} (word : t.kind = .identifier)
      (between : colons.isMark "::") (rest : Names key ts) : Names key (t :: colons :: ts)

/-- The tokens write the expression, and its operators outside brackets bind at the given level or
tighter. -/
inductive Spells : Nat → Expression → List Token → Prop
  | integer {level : Nat} {t : Token} (literal : t.kind = .integer) :
      Spells level (.integer t.text) [t]
  | name {level : Nat} {key : String} {ts : List Token} (names : Names key ts) :
      Spells level (.name key) ts
  | unary {level : Nat} {op : UnaryOperator} {x : Expression} {t : Token} {ts : List Token}
      (written : t.isMark op.mark) (operand : Spells operandLevel x ts) :
      Spells level (.unary op x) (t :: ts)
  | binary {level : Nat} {op : BinaryOperator} {x y : Expression} {xs marks ys : List Token}
      (binds : level ≤ op.level) (left : Spells op.level x xs) (written : op.Marks marks)
      (right : Spells (op.level + 1) y ys) : Spells level (.binary op x y) (xs ++ (marks ++ ys))
  | brackets {level : Nat} {x : Expression} {opening closing : Token} {ts : List Token}
      (opens : opening.isMark "(") (inside : Spells 0 x ts) (closes : closing.isMark ")") :
      Spells level x (opening :: (ts ++ [closing]))

/-- What comes after the first word of a name: double colons, each with a token of some sort behind it. The
second text is that of the last token. -/
inductive Components (sort : Token → Prop) : String → List Token → String → Prop
  | last {key : String} : Components sort key [] key
  | more {text key : String} {colons next : Token} {ts : List Token} (between : colons.isMark "::")
      (component : sort next) (rest : Components sort next.text ts key) :
      Components sort text (colons :: next :: ts) key

/-- Writing as the reader takes it: with literals of characters, and with tokens of some sort as components
of names. -/
inductive Writes (sort : Token → Prop) : Nat → Expression → List Token → Prop
  | integer {level : Nat} {t : Token} (literal : t.kind = .integer) :
      Writes sort level (.integer t.text) [t]
  | character {level : Nat} {t : Token} (literal : t.kind = .character) :
      Writes sort level (.character t.text) [t]
  | name {level : Nat} {key : String} {t : Token} {ts : List Token} (word : t.kind = .identifier)
      (components : Components sort t.text ts key) : Writes sort level (.name key) (t :: ts)
  | unary {level : Nat} {op : UnaryOperator} {x : Expression} {t : Token} {ts : List Token}
      (written : t.isMark op.mark) (operand : Writes sort operandLevel x ts) :
      Writes sort level (.unary op x) (t :: ts)
  | binary {level : Nat} {op : BinaryOperator} {x y : Expression} {xs marks ys : List Token}
      (binds : level ≤ op.level) (left : Writes sort op.level x xs) (written : op.Marks marks)
      (right : Writes sort (op.level + 1) y ys) : Writes sort level (.binary op x y) (xs ++ (marks ++ ys))
  | brackets {level : Nat} {x : Expression} {opening closing : Token} {ts : List Token}
      (opens : opening.isMark "(") (inside : Writes sort 0 x ts) (closes : closing.isMark ")") :
      Writes sort level x (opening :: (ts ++ [closing]))

theorem Names.components {key : String} {t : Token} {ts : List Token} (h : Names key (t :: ts)) :
    t.kind = .identifier ∧ Components (·.kind = .identifier) t.text ts key := by
  generalize whole : t :: ts = tokens at h
  induction h generalizing t ts with
  | plain word =>
    cases whole
    exact ⟨word, .last⟩
  | @qualified t colons key tail word between names ih =>
    cases whole
    cases tail with
    | nil => cases names
    | cons next tail => exact ⟨word, .more between (ih rfl).1 (ih rfl).2⟩

theorem Spells.writes {level : Nat} {x : Expression} {ts : List Token} (h : Spells level x ts) :
    Writes (·.kind = .identifier) level x ts := by
  induction h with
  | integer literal => exact .integer literal
  | @name level key ts names =>
    cases ts with
    | nil => cases names
    | cons t ts => exact .name names.components.1 names.components.2
  | unary written _ ih => exact .unary written ih
  | binary binds _ written _ left right => exact .binary binds left written right
  | brackets opens _ closes ih => exact .brackets opens ih closes

/-! ## Reading operators -/

theorem isMark_iff {t : Token} {mark : String} :
    t.isMark mark = true ↔ t.kind = .punctuation ∧ t.text = mark := by
  simp [Token.isMark]

/-- A mark of an operator is read as this operator, and is no bracket, no comma and no qualifier. -/
theorem ofMark?_of_mark? {op : BinaryOperator} {mark : String} (own : op.mark? = some mark) :
    BinaryOperator.ofMark? mark = some op ∧
      mark ∉ ["(", ")", "[", "]", "\x7b", "\x7d", "<", ">", ",", "::"] := by
  cases op <;> cases own.symm.trans rfl <;> decide

theorem binaryOperator?_of_marks {op : BinaryOperator} {marks : List Token} (h : op.Marks marks)
    (rest : List Token) : binaryOperator? (marks ++ rest) = some (op, rest) := by
  cases h with
  | @single op mark t own written =>
    obtain ⟨kind, text⟩ := isMark_iff.1 written
    obtain ⟨read, other⟩ := ofMark?_of_mark? own
    have notAngle : mark ≠ ">" := fun e => other (by simp [e])
    simp [binaryOperator?, kind, text, notAngle, read]
  | @shiftRight first second opens closes adjacent =>
    obtain ⟨kind, text⟩ := isMark_iff.1 opens
    simp [binaryOperator?, kind, text, closes, adjacent]

/-- The operators at one level of the table. -/
theorem drop_precedence {level : Nat} (h : level < operandLevel) :
    ∃ ops, precedence.drop level = ops :: precedence.drop (level + 1) ∧
      ∀ op : BinaryOperator, ops.contains op = decide (op.level = level) := by
  have : level < 6 := h
  interval_cases level <;> exact ⟨_, rfl, fun op => by cases op <;> decide⟩

theorem level_lt (op : BinaryOperator) : op.level < operandLevel := by
  cases op <;> decide

/-- What follows goes on with no operator of the level or a tighter one, and with no name. -/
structure Ends (level : Nat) (rest : List Token) : Prop where
  operator : ∀ op after, binaryOperator? rest = some (op, after) → op.level < level
  qualifier : rest.head?.any (·.isMark "::") = false

theorem Ends.mono {level level' : Nat} {rest : List Token} (h : Ends level rest) (le : level ≤ level') :
    Ends level' rest :=
  ⟨fun op after found => by have := h.operator op after found; omega, h.qualifier⟩

theorem ends_marks {op : BinaryOperator} {marks : List Token} (h : op.Marks marks) (rest : List Token) :
    Ends (op.level + 1) (marks ++ rest) := by
  refine ⟨fun op' after found => ?_, ?_⟩
  · rw [binaryOperator?_of_marks h] at found
    cases found
    exact Nat.lt_succ_self _
  · cases h with
    | @single op mark t own written =>
      obtain ⟨kind, text⟩ := isMark_iff.1 written
      have other : mark ≠ "::" := fun e => (ofMark?_of_mark? own).2 (by simp [e])
      simp [Token.isMark, text, other]
    | shiftRight opens _ _ =>
      obtain ⟨kind, text⟩ := isMark_iff.1 opens
      simp [Token.isMark, text]

theorem ends_nil (level : Nat) : Ends level [] :=
  ⟨fun _ _ found => (nomatch found), rfl⟩

theorem ends_closing {closing : Token} (h : closing.isMark ")") (level : Nat) (rest : List Token) :
    Ends level (closing :: rest) := by
  obtain ⟨kind, text⟩ := isMark_iff.1 h
  refine ⟨fun op after found => ?_, by simp [Token.isMark, text]⟩
  simp [binaryOperator?, kind, text, BinaryOperator.ofMark?] at found

/-! ## Reading levels -/

/-- Reads what binds at the level or tighter. -/
def levelReader (n level : Nat) : Reader Expression :=
  operatorLevels (operand n) (precedence.drop level)

/-- The expression is read from the tokens, whatever ends it. -/
def IsRead (n level : Nat) (x : Expression) (ts : List Token) : Prop :=
  ∀ rest, Ends level rest → levelReader n level (ts ++ rest) = some (x, rest)

/-- The expression is read from the tokens as what stands left of the operators of the level. -/
def IsLeft (n level : Nat) (x : Expression) (ts : List Token) : Prop :=
  ∀ ops, precedence.drop level = ops :: precedence.drop (level + 1) →
    ∀ rest, Ends (level + 1) rest → ∃ m, rest.length ≤ m ∧
      levelReader n level (ts ++ rest) = operatorChain ops (levelReader n (level + 1)) m x rest

variable {n level : Nat} {x y : Expression} {ts xs ys marks : List Token}

theorem IsRead.isLeft (h : IsRead n (level + 1) x ts) : IsLeft n level x ts := by
  intro ops split rest ends
  refine ⟨rest.length, le_refl _, ?_⟩
  have tighter : operatorLevels (operand n) (precedence.drop (level + 1)) (ts ++ rest) = some (x, rest) :=
    h rest ends
  rw [levelReader, split, operatorLevels, tighter]
  rfl

theorem IsLeft.isRead (lt : level < operandLevel) (h : IsLeft n level x ts) : IsRead n level x ts := by
  intro rest ends
  obtain ⟨ops, split, members⟩ := drop_precedence lt
  obtain ⟨m, -, read⟩ := h ops split rest (ends.mono (Nat.le_succ _))
  rw [read]
  cases m with
  | zero => rfl
  | succ m =>
    rw [operatorChain]
    cases found : binaryOperator? rest with
    | none => rfl
    | some next =>
      have other : ops.contains next.1 = false := by
        rw [members, decide_eq_false_iff_not]
        have := ends.operator next.1 next.2 found
        omega
      simp only [other]
      rfl

/-- What binds tighter can stand where something looser may. -/
theorem IsRead.loosen {level' : Nat} (h : IsRead n level x ts) (le : level' ≤ level)
    (within : level ≤ operandLevel) : IsRead n level' x ts := by
  induction level, le using Nat.le_induction with
  | base => exact h
  | succ level le ih => exact ih (h.isLeft.isRead (by omega)) (by omega)

theorem IsLeft.binary {op : BinaryOperator} (left : IsLeft n op.level x xs) (written : op.Marks marks)
    (right : IsRead n (op.level + 1) y ys) : IsLeft n op.level (.binary op x y) (xs ++ (marks ++ ys)) := by
  intro ops split rest ends
  obtain ⟨m, fuel, read⟩ := left ops split (marks ++ (ys ++ rest)) (ends_marks written _)
  -- One more operator of the chain takes one from the bound on operators.
  have nonempty : 0 < marks.length := by cases written <;> simp
  obtain ⟨m, rfl⟩ : ∃ k, m = k + 1 := ⟨m - 1, by simp only [List.length_append] at fuel; omega⟩
  refine ⟨m, by simp only [List.length_append] at fuel; omega, ?_⟩
  obtain ⟨ops', split', members⟩ := drop_precedence (level_lt op)
  obtain rfl : ops' = ops := by
    rw [split] at split'
    cases split'
    rfl
  have chained : ops'.contains op = true := by rw [members, decide_eq_true rfl]
  rw [List.append_assoc, List.append_assoc, read, operatorChain, binaryOperator?_of_marks written]
  simp only [chained, if_true, right rest ends]

/-! ## Reading operands -/

theorem lastComponent?_of_components {sort : Token → Prop} {text key : String}
    (h : Components sort text ts key) {rest : List Token} (ends : rest.head?.any (·.isMark "::") = false) :
    lastComponent? text (ts ++ rest) = some (key, rest) := by
  induction h with
  | last =>
    cases rest with
    | nil => rfl
    | cons next rest =>
      have other : next.isMark "::" = false := ends
      rw [List.nil_append, lastComponent?.eq_def]
      simp [other]
  | more between _ _ ih => rw [List.cons_append, List.cons_append, lastComponent?, if_pos between, ih]

/-- The expression is read from the tokens as an operand. -/
theorem isRead_operand (h : ∀ rest, rest.head?.any (·.isMark "::") = false →
    operand n (ts ++ rest) = some (x, rest)) : IsRead n operandLevel x ts :=
  fun rest ends => h rest ends.qualifier

/-- A written expression is read, also as the left side of an operator. The first number has to bound
how deep operands are nested. -/
theorem isRead_of_writes {sort : Token → Prop} (h : Writes sort level x ts) {n : Nat} (fuel : ts.length ≤ n)
    (within : level ≤ operandLevel) :
    IsRead n level x ts ∧ (level < operandLevel → IsLeft n level x ts) := by
  have ofOperand {level n : Nat} {x : Expression} {ts : List Token} (within : level ≤ operandLevel)
      (h : IsRead n operandLevel x ts) :
      IsRead n level x ts ∧ (level < operandLevel → IsLeft n level x ts) :=
    ⟨h.loosen within (le_refl _), fun lt => (h.loosen lt (le_refl _)).isLeft⟩
  induction h generalizing n with
  | @integer level t literal | @character level t literal =>
    obtain ⟨n, rfl⟩ : ∃ k, n = k + 1 := ⟨n - 1, by simp at fuel; omega⟩
    refine ofOperand within (isRead_operand fun rest _ => ?_)
    simp [operand, literal]
  | @name level key t ts word components =>
    obtain ⟨n, rfl⟩ : ∃ k, n = k + 1 := ⟨n - 1, by simp at fuel; omega⟩
    refine ofOperand within (isRead_operand fun rest ends => ?_)
    simp [operand, word, lastComponent?_of_components components ends]
  | @unary level op x t ts written _ ih =>
    obtain ⟨n, rfl⟩ : ∃ k, n = k + 1 := ⟨n - 1, by simp at fuel; omega⟩
    have inner := (ih (n := n) (by simpa using fuel) (le_refl _)).1
    obtain ⟨kind, text⟩ := isMark_iff.1 written
    have mark : UnaryOperator.ofMark? op.mark = some op := by cases op <;> rfl
    refine ofOperand within (isRead_operand fun rest ends => ?_)
    have read : operand n (ts ++ rest) = some (x, rest) := inner rest ⟨fun op _ _ => level_lt op, ends⟩
    simp [operand, kind, text, mark, read]
  | @brackets level x opening closing ts opens _ closes ih =>
    obtain ⟨n, rfl⟩ : ∃ k, n = k + 1 := ⟨n - 1, by simp at fuel; omega⟩
    have inner := (ih (n := n) (by simp at fuel; omega) (Nat.zero_le _)).1
    obtain ⟨kind, text⟩ := isMark_iff.1 opens
    refine ofOperand within (isRead_operand fun rest _ => ?_)
    have read : operatorLevels (operand n) precedence (ts ++ closing :: rest) = some (x, closing :: rest) :=
      inner _ (ends_closing closes 0 rest)
    simp [operand, kind, text, UnaryOperator.ofMark?, read, closes]
  | @binary level op x y xs marks ys binds _ written _ left right =>
    simp only [List.length_append] at fuel
    have lt := level_lt op
    -- The left side may be a chain of the same level, so it is taken as one, the right side as a whole.
    have here : IsLeft n op.level (.binary op x y) (xs ++ (marks ++ ys)) :=
      ((left (by omega) (by omega)).2 lt).binary written (right (by omega) lt).1
    refine ⟨(here.isRead lt).loosen binds (by omega), fun _ => ?_⟩
    rcases binds.eq_or_lt with rfl | looser
    · exact here
    · exact ((here.isRead lt).loosen looser (by omega)).isLeft

/-- A token list that writes an expression is read as this expression. -/
theorem parse?_of_writes {sort : Token → Prop} (h : Writes sort 0 x ts) : Expression.parse? ts = some x := by
  have read := (isRead_of_writes h (le_refl _) (Nat.zero_le _)).1 [] (ends_nil 0)
  rw [List.append_nil] at read
  have read : operatorLevels (operand ts.length) precedence ts = some (x, []) := read
  rw [Expression.parse?, read]

theorem parse?_of_spells (h : Spells 0 x ts) : Expression.parse? ts = some x :=
  parse?_of_writes h.writes

end Reflection.Declaration
