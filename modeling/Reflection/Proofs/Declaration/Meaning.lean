import Mathlib.Data.List.Basic
import Mathlib.Data.Int.Init
import Mathlib.Tactic.IntervalCases
import Reflection.Declaration.Constant
/-!
# What constant expressions mean

The values of integer literals and of expressions, told in whole numbers: an operation is carried out
on integers, and what it gives is cut down to 64 bits in two's complement (`wrap`). `Expression.value?`
finds the value of every expression that has one (`value?_of_denotes`).
-/

namespace Reflection.Declaration

/-! ## Integer literals -/

/-- `c` is the digit of the value `d` in a base, as a capital letter or a small one. -/
def IsDigit (base : Nat) (c : Char) (d : Nat) : Prop :=
  d < base ∧ ("0123456789abcdef".toList[d]? = some c ∨ "0123456789ABCDEF".toList[d]? = some c)

/-- Digits one after the other, where a quote may stand between two of them, and the number that they
spell. -/
inductive Digits (base : Nat) : List Char → Nat → Prop
  | one {c : Char} {d : Nat} (last : IsDigit base c d) : Digits base [c] d
  | more {text : List Char} {n : Nat} {c : Char} {d : Nat} (front : Digits base text n)
      (last : IsDigit base c d) : Digits base (text ++ [c]) (n * base + d)
  | separated {text : List Char} {n : Nat} {c : Char} {d : Nat} (front : Digits base text n)
      (last : IsDigit base c d) : Digits base (text ++ ['\'', c]) (n * base + d)

/-- The letters that say what type a literal has. -/
def IsSuffix (suffix : List Char) : Prop :=
  ∀ c ∈ suffix, c ∈ ['u', 'U', 'l', 'L']

/-- An integer literal and the number that it stands for. -/
inductive IntegerLiteral : List Char → Nat → Prop
  | decimal {first : Char} {digits suffix : List Char} {n : Nat} (spelled : Digits 10 (first :: digits) n)
      (plain : first ≠ '0') (ends : IsSuffix suffix) : IntegerLiteral (first :: digits ++ suffix) n
  | octal {digits suffix : List Char} {n : Nat} (spelled : Digits 8 ('0' :: digits) n)
      (ends : IsSuffix suffix) : IntegerLiteral ('0' :: digits ++ suffix) n
  | marked {x : Char} {base : Nat} {digits suffix : List Char} {n : Nat}
      (mark : (x, base) ∈ [('x', 16), ('X', 16), ('b', 2), ('B', 2)]) (spelled : Digits base digits n)
      (ends : IsSuffix suffix) : IntegerLiteral ('0' :: x :: digits ++ suffix) n

theorem digitValue?_of_isDigit {base : Nat} {c : Char} {d : Nat} (small : base ≤ 16)
    (h : IsDigit base c d) : Text.digitValue? base c = some d := by
  obtain ⟨lt, spelled⟩ := h
  have value : (Text.digitValue? 16 c) = some d := by
    have : d < 16 := by omega
    rcases spelled with spelled | spelled <;> interval_cases d <;> cases spelled <;> decide
  unfold Text.digitValue? at value ⊢
  obtain ⟨found, -⟩ := Option.filter_eq_some_iff.1 value
  exact Option.filter_eq_some_iff.2 ⟨found, decide_eq_true lt⟩

theorem digitsValue?_append {base m : Nat} (front back : List Char) :
    Text.digitsValue? base m (front ++ back) =
      (Text.digitsValue? base m front).bind (Text.digitsValue? base · back) := by
  induction front generalizing m with
  | nil => rfl
  | cons c front ih =>
    rw [List.cons_append, Text.digitsValue?, Text.digitsValue?]
    cases Text.digitValue? base c with
    | none => rfl
    | some d => exact ih

/-- A character that is none of those around the digits of a literal. -/
def IsPlain (c : Char) : Prop :=
  c ≠ '\'' ∧ isIntegerSuffix c = false

theorem plain_of_isDigit {base : Nat} {c : Char} {d : Nat} (small : base ≤ 16) (h : IsDigit base c d) :
    IsPlain c := by
  obtain ⟨lt, spelled⟩ := h
  have : d < 16 := by omega
  rcases spelled with spelled | spelled <;> interval_cases d <;> cases spelled <;>
    exact ⟨by decide, by decide⟩

/-- Without its quotes a literal is made of digits up to its suffix, and these spell its number. -/
theorem Digits.unquoted {base : Nat} {text : List Char} {n : Nat} (small : base ≤ 16)
    (h : Digits base text n) :
    ∃ front last, text.filter (· ≠ '\'') = front ++ [last] ∧ IsPlain last ∧
      Text.digitsValue? base 0 (text.filter (· ≠ '\'')) = some n := by
  have one {c : Char} {d m : Nat} (h : IsDigit base c d) :
      Text.digitsValue? base m [c] = some (m * base + d) := by
    rw [Text.digitsValue?, digitValue?_of_isDigit small h]
    rfl
  have kept {c : Char} {d : Nat} (h : IsDigit base c d) : [c].filter (· ≠ '\'') = [c] := by
    simp [(plain_of_isDigit small h).1]
  induction h with
  | @one c d last =>
    rw [kept last]
    exact ⟨[], _, rfl, plain_of_isDigit small last, by simpa using one (m := 0) last⟩
  | more front last ih =>
    obtain ⟨-, -, -, -, value⟩ := ih
    rw [List.filter_append, kept last]
    exact ⟨_, _, rfl, plain_of_isDigit small last, by rw [digitsValue?_append, value]; exact one last⟩
  | @separated text n c d front last ih =>
    obtain ⟨-, -, -, -, value⟩ := ih
    have skipped : ['\'', c].filter (· ≠ '\'') = [c] := kept last
    rw [List.filter_append, skipped]
    exact ⟨_, _, rfl, plain_of_isDigit small last, by rw [digitsValue?_append, value]; exact one last⟩

theorem Digits.head {base : Nat} {text : List Char} {n : Nat} (h : Digits base text n) :
    ∃ c d, text.head? = some c ∧ IsDigit base c d := by
  induction h with
  | @one c d last => exact ⟨c, d, rfl, last⟩
  | more front last ih | separated front last ih =>
    obtain ⟨c, d, first, digit⟩ := ih
    exact ⟨c, d, by rw [List.head?_append, first]; rfl, digit⟩

theorem filter_suffix {suffix : List Char} (h : IsSuffix suffix) :
    suffix.filter (· ≠ '\'') = suffix ∧ ∀ c ∈ suffix, isIntegerSuffix c = true := by
  refine ⟨List.filter_eq_self.2 fun c hc => ?_, fun c hc => ?_⟩
  · have := h c hc
    simp only [List.mem_cons, List.not_mem_nil, or_false] at this
    rcases this with rfl | rfl | rfl | rfl <;> decide
  · have := h c hc
    simp only [List.mem_cons, List.not_mem_nil, or_false] at this
    rcases this with rfl | rfl | rfl | rfl <;> decide

/-- What is left of a literal whose digits end with a plain character. -/
theorem stripped_literal {front suffix : List Char} {last : Char} (plain : IsPlain last)
    (ends : ∀ c ∈ suffix, isIntegerSuffix c = true) :
    (((front ++ [last]) ++ suffix).reverse.dropWhile isIntegerSuffix).reverse = front ++ [last] := by
  rw [List.reverse_append, List.dropWhile_append_of_pos (by simpa using ends), List.reverse_append]
  simp [plain.2]

theorem integerValue?_eq {spelling : String} {text digits : List Char} {base n : Nat}
    {suffix : List Char} (ends : IsSuffix suffix) (spelled : spelling.toList = text ++ suffix)
    (stripped : ∃ front last, text.filter (· ≠ '\'') = front ++ [last] ∧ IsPlain last)
    (cut : integerDigits (text.filter (· ≠ '\'')) = (base, digits)) (digitsLeft : digits ≠ [])
    (value : Text.digitsValue? base 0 digits = some n) (fits : n < 2 ^ 64) :
    integerValue? spelling = some (.ofNat n) := by
  obtain ⟨front, last, e, plain⟩ := stripped
  obtain ⟨kept, letters⟩ := filter_suffix ends
  have digitsOf : ((spelling.toList.filter (· ≠ '\'')).reverse.dropWhile isIntegerSuffix).reverse =
      text.filter (· ≠ '\'') := by
    rw [spelled, List.filter_append, kept, e, stripped_literal plain letters]
  unfold integerValue?
  dsimp only
  rw [digitsOf, cut]
  cases digits with
  | nil => exact absurd rfl digitsLeft
  | cons d digits => simp only [value, if_pos (show n < UInt64.size from fits)]

theorem integerDigits_of_ne {first : Char} {digits : List Char} (h : first ≠ '0') :
    integerDigits (first :: digits) = (10, first :: digits) := by
  unfold integerDigits
  split <;> simp_all

/-- Octal digits are read in base eight, but for a zero that stands alone. -/
theorem integerDigits_octal {digits : List Char} {n : Nat}
    (value : Text.digitsValue? 8 0 ('0' :: digits) = some n) :
    ∃ base read, integerDigits ('0' :: digits) = (base, read) ∧ read ≠ [] ∧
      Text.digitsValue? base 0 read = some n := by
  cases digits with
  | nil => exact ⟨10, ['0'], rfl, List.cons_ne_nil _ _, value⟩
  | cons c digits =>
    have octal : Text.digitValue? 8 c ≠ none := by
      intro none
      have zero : Text.digitValue? 8 '0' = some 0 := by decide
      simp only [Text.digitsValue?, zero, none] at value
      cases value
    refine ⟨8, c :: digits, ?_, List.cons_ne_nil _ _, value⟩
    unfold integerDigits
    split <;> rename_i same <;> simp_all
    all_goals exact octal (by decide)

/-- A literal has the value of its number, if that fits 64 bits. -/
theorem integerValue?_of_literal {spelling : String} {n : Nat} (literal : IntegerLiteral spelling.toList n)
    (fits : n < 2 ^ 64) : integerValue? spelling = some (.ofNat n) := by
  generalize spelled : spelling.toList = text at literal
  cases literal with
  | @decimal first digits suffix _ digitsSpelled plain ends =>
    obtain ⟨front, last, e, unquoted, value⟩ := digitsSpelled.unquoted (by decide)
    obtain ⟨c, d, first', digit⟩ := digitsSpelled.head
    cases first'
    have kept : (first :: digits).filter (· ≠ '\'') = first :: digits.filter (· ≠ '\'') :=
      List.filter_cons_of_pos (by simpa using (plain_of_isDigit (by decide) digit).1)
    refine integerValue?_eq ends spelled ⟨front, last, e, unquoted⟩ ?_ (List.cons_ne_nil _ _)
      (kept ▸ value) fits
    rw [kept, integerDigits_of_ne plain]
  | @octal digits suffix _ digitsSpelled ends =>
    obtain ⟨front, last, e, unquoted, value⟩ := digitsSpelled.unquoted (by decide)
    obtain ⟨base, read, cut, digitsLeft, value⟩ := integerDigits_octal value
    exact integerValue?_eq ends spelled ⟨front, last, e, unquoted⟩ cut digitsLeft value fits
  | @marked x base digits suffix _ mark digitsSpelled ends =>
    -- The quotes are taken out before the mark of the base, which is none itself.
    simp only [List.mem_cons, Prod.mk.injEq, List.not_mem_nil, or_false] at mark
    obtain ⟨front, last, e, unquoted, value⟩ := digitsSpelled.unquoted (by omega)
    have kept : ('0' :: x :: digits).filter (· ≠ '\'') = '0' :: x :: (front ++ [last]) := by
      rcases mark with ⟨rfl, -⟩ | ⟨rfl, -⟩ | ⟨rfl, -⟩ | ⟨rfl, -⟩ <;> exact congrArg _ (congrArg _ e)
    have cut : integerDigits ('0' :: x :: (front ++ [last])) = (base, front ++ [last]) := by
      rcases mark with ⟨rfl, rfl⟩ | ⟨rfl, rfl⟩ | ⟨rfl, rfl⟩ | ⟨rfl, rfl⟩ <;> rfl
    exact integerValue?_eq ends spelled ⟨'0' :: x :: front, last, kept, unquoted⟩ (kept ▸ cut)
      (List.append_ne_nil_of_right_ne_nil _ (List.cons_ne_nil _ _)) (e ▸ value) fits

/-! ## Values of expressions -/

/-- An integer cut down to 64 bits, the highest of them the sign. -/
def wrap (n : Int) : Int :=
  n.bmod (2 ^ 64)

/-- What an operator makes of a number. -/
def UnaryOperator.meaning : UnaryOperator → Int → Int
  | .negate, a => wrap (-a)
  | .plus, a => a
  | .complement, a => -a - 1
  | .not, a => if a = 0 then 1 else 0

/-- Is something defined for two numbers? -/
def BinaryOperator.Defined : BinaryOperator → Int → Int → Prop
  | .shiftLeft, _, b | .shiftRight, _, b => 0 ≤ b ∧ b < 64
  | .divide, a, b | .remainder, a, b => b ≠ 0 ∧ ¬ (a = -2 ^ 63 ∧ b = -1)
  | _, _, _ => True

/-- What an operator makes of two numbers. The bits of a negative number are those of its two's
complement. A quotient is cut off, a right shift rounds down. -/
def BinaryOperator.meaning : BinaryOperator → Int → Int → Int
  | .or, a, b => (BitVec.ofInt 64 a ||| BitVec.ofInt 64 b).toInt
  | .xor, a, b => (BitVec.ofInt 64 a ^^^ BitVec.ofInt 64 b).toInt
  | .and, a, b => (BitVec.ofInt 64 a &&& BitVec.ofInt 64 b).toInt
  | .shiftLeft, a, b => wrap (a * 2 ^ b.toNat)
  | .shiftRight, a, b => a / 2 ^ b.toNat
  | .add, a, b => wrap (a + b)
  | .subtract, a, b => wrap (a - b)
  | .multiply, a, b => wrap (a * b)
  | .divide, a, b => a.tdiv b
  | .remainder, a, b => a.tmod b

/-- The last of the known values of a name. -/
def IsLatest (known : List (String × Int64)) (key : String) (v : Int64) : Prop :=
  ∃ front back, known = front ++ (key, v) :: back ∧ ∀ entry ∈ back, entry.1 ≠ key

/-- The value of an expression of literals and names, if the latter have the known values. -/
inductive Denotes (known : List (String × Int64)) : Expression → Int → Prop
  | integer {spelling : String} {n : Nat} (literal : IntegerLiteral spelling.toList n)
      (fits : n < 2 ^ 64) : Denotes known (.integer spelling) (wrap n)
  | name {key : String} {v : Int64} (latest : IsLatest known key v) :
      Denotes known (.name key) v.toInt
  | unary {op : UnaryOperator} {x : Expression} {a : Int} (operand : Denotes known x a) :
      Denotes known (.unary op x) (op.meaning a)
  | binary {op : BinaryOperator} {x y : Expression} {a b : Int} (left : Denotes known x a)
      (right : Denotes known y b) (isDefined : op.Defined a b) :
      Denotes known (.binary op x y) (op.meaning a b)

theorem UnaryOperator.toInt_apply (op : UnaryOperator) (v : Int64) :
    (op.apply v).toInt = op.meaning v.toInt := by
  cases op with
  | negate => exact Int64.toInt_neg v
  | plus => rfl
  | complement =>
    -- The complement is never out of range, so nothing is cut off.
    have lower := v.le_toInt
    have upper := v.toInt_lt
    show (~~~v).toInt = -v.toInt - 1
    rw [Int64.toInt_not]
    exact Int.bmod_eq_of_le (by omega) (by omega)
  | not =>
    have zero_iff : v = 0 ↔ v.toInt = 0 := Int64.toInt_inj.symm
    simp only [apply, meaning, zero_iff]
    by_cases zero : v.toInt = 0
    · rw [if_pos zero, if_pos zero]
      rfl
    · rw [if_neg zero, if_neg zero]
      rfl

/-- How far a shift goes. -/
theorem toNat_smod {w : Int64} (h : 0 ≤ w.toInt ∧ w.toInt < 64) :
    (w.toBitVec.smod 64).toNat = w.toInt.toNat := by
  have far : (w.toBitVec.smod 64).toInt = w.toInt := by
    rw [BitVec.toInt_smod, Int64.toInt_toBitVec]
    exact Int.fmod_eq_of_lt h.1 h.2
  rw [BitVec.toInt_eq_toNat_cond] at far
  split at far <;> omega

theorem toInt_shiftLeft {v w : Int64} (h : 0 ≤ w.toInt ∧ w.toInt < 64) :
    (v <<< w).toInt = wrap (v.toInt * 2 ^ w.toInt.toNat) := by
  rw [← Int64.toInt_toBitVec, Int64.toBitVec_shiftLeft, BitVec.shiftLeft_eq', toNat_smod h,
    BitVec.toInt_shiftLeft, Nat.shiftLeft_eq, wrap, ← Int64.toInt_toBitVec v,
    BitVec.toInt_eq_toNat_bmod v.toBitVec, Int.bmod_mul_bmod]
  push_cast
  rfl

theorem toInt_shiftRight {v w : Int64} (h : 0 ≤ w.toInt ∧ w.toInt < 64) :
    (v >>> w).toInt = v.toInt / 2 ^ w.toInt.toNat := by
  rw [← Int64.toInt_toBitVec, Int64.toBitVec_shiftRight, BitVec.sshiftRight_eq', toNat_smod h,
    BitVec.toInt_sshiftRight, Int64.toInt_toBitVec, Int.shiftRight_eq_div_pow]
  push_cast
  rfl

/-- Where an operator is defined, it is computed. -/
theorem BinaryOperator.compute?_eq_some {op : BinaryOperator} {v w : Int64}
    (h : op.Defined v.toInt w.toInt) :
    ∃ r, op.compute? v w = some r ∧ r.toInt = op.meaning v.toInt w.toInt := by
  have bits : ∀ v : Int64, BitVec.ofInt 64 v.toInt = v.toBitVec := fun v => by
    rw [← Int64.toInt_toBitVec, BitVec.ofInt_toInt]
  have within : 0 ≤ w.toInt ∧ w.toInt < 64 → (0 ≤ w && w < 64) = true := fun h => by
    simpa [Int64.le_iff_toInt_le, Int64.lt_iff_toInt_lt] using h
  have divides : w.toInt ≠ 0 ∧ ¬ (v.toInt = -2 ^ 63 ∧ w.toInt = -1) →
      (w = 0 || (v = Int64.minValue && w = -1)) = false ∧ (v ≠ Int64.minValue ∨ w ≠ -1) := fun h => by
    have zero : w = 0 ↔ w.toInt = 0 := Int64.toInt_inj.symm
    have least : v = Int64.minValue ↔ v.toInt = -2 ^ 63 := by
      rw [← Int64.toInt_inj, Int64.toInt_minValue]
    have minus : w = -1 ↔ w.toInt = -1 := Int64.toInt_inj.symm
    simp only [ne_eq, zero, least, minus, Bool.or_eq_false_iff, decide_eq_false_iff_not,
      Bool.and_eq_false_imp, decide_eq_true_eq]
    exact ⟨⟨h.1, fun hv hw => h.2 ⟨hv, hw⟩⟩, by omega⟩
  cases op with
  | or | xor | and =>
    refine ⟨_, rfl, ?_⟩
    simp only [meaning, bits]
    rfl
  | shiftLeft => exact ⟨_, if_pos (within h), toInt_shiftLeft h⟩
  | shiftRight => exact ⟨_, if_pos (within h), toInt_shiftRight h⟩
  | add => exact ⟨_, rfl, Int64.toInt_add v w⟩
  | subtract => exact ⟨_, rfl, Int64.toInt_sub v w⟩
  | multiply => exact ⟨_, rfl, Int64.toInt_mul v w⟩
  | divide =>
    obtain ⟨passes, fits⟩ := divides h
    refine ⟨_, if_neg (by simp [passes]), ?_⟩
    rcases fits with fits | fits
    · exact Int64.toInt_div_of_ne_left v w fits
    · exact Int64.toInt_div_of_ne_right v w fits
  | remainder => exact ⟨_, if_neg (by simp [(divides h).1]), Int64.toInt_mod v w⟩

theorem lookupKey_of_isLatest {known : List (String × Int64)} {key : String} {v : Int64}
    (h : IsLatest known key v) : lookupKey known key = some v := by
  obtain ⟨front, back, rfl, later⟩ := h
  unfold lookupKey
  have skipped : back.reverse.find? (·.1 = key) = none :=
    List.find?_eq_none.2 fun entry he => by simpa using later entry (List.mem_reverse.1 he)
  rw [List.reverse_append, List.reverse_cons, List.append_assoc, List.find?_append, skipped]
  simp

/-- An expression that has a value is found to have it. -/
theorem value?_of_denotes {known : List (String × Int64)} {x : Expression} {a : Int}
    (h : Denotes known x a) : ∃ v, x.value? known = some v ∧ v.toInt = a := by
  induction h with
  | @integer spelling n literal fits =>
    refine ⟨.ofNat n, integerValue?_of_literal literal fits, ?_⟩
    exact Int64.toInt_ofNat'
  | name latest => exact ⟨_, lookupKey_of_isLatest latest, rfl⟩
  | @unary op x a _ ih =>
    obtain ⟨v, value, rfl⟩ := ih
    exact ⟨op.apply v, by rw [Expression.value?, value]; rfl, op.toInt_apply v⟩
  | @binary op x y a b _ _ isDefined left right =>
    obtain ⟨v, leftValue, rfl⟩ := left
    obtain ⟨w, rightValue, rfl⟩ := right
    obtain ⟨r, computed, meaning⟩ := BinaryOperator.compute?_eq_some isDefined
    exact ⟨r, by rw [Expression.value?, leftValue, rightValue]; exact computed, meaning⟩

end Reflection.Declaration
