import Mathlib.Data.List.Induction
import Mathlib.Data.List.TakeWhile
import Mathlib.Data.List.Infix
import Reflection.Proofs.Declaration.Enumerations
/-!
# What token lists evaluate to

A token list has a value just if it writes an expression that has one, and then that value. Both parts are
told without the reader: an expression is read only from tokens that write it (`parse?_eq_some_iff`), and
it has no value just if something in it is undefined (`value?_eq_none_iff`). One thing is read that writes
no expression: behind a double colon any token will do, and only the last one counts
(`token_lists_have_the_values_of_expressions`).
-/

namespace Reflection.Declaration

open Reflection.Source

/-! ## Values of integer literals -/

theorem eq_ofNat_of_toNat {c : Char} {n : Nat} (h : c.toNat = n) : c = Char.ofNat n := by
  rw [← h, Char.ofNat_toNat]

theorem isDigit_of_digitValue? {base d : Nat} {c : Char} (h : Text.digitValue? base c = some d) :
    IsDigit base c d := by
  obtain ⟨value, small⟩ := Option.filter_eq_some_iff.1 h
  refine ⟨of_decide_eq_true small, ?_⟩
  split at value
  · rename_i digit
    obtain ⟨low, high⟩ : 48 ≤ c.toNat ∧ c.toNat ≤ 57 := by
      simpa [Char.isDigit, UInt32.le_iff_toNat_le] using digit
    interval_cases code : c.toNat <;> cases eq_ofNat_of_toNat code <;> cases value <;> decide
  split at value
  · rename_i small
    obtain ⟨low, high⟩ : 97 ≤ c.toNat ∧ c.toNat ≤ 102 := by
      simpa [Char.le_def, UInt32.le_iff_toNat_le] using small
    interval_cases code : c.toNat <;> cases eq_ofNat_of_toNat code <;> cases value <;> decide
  split at value
  · rename_i capital
    obtain ⟨low, high⟩ : 65 ≤ c.toNat ∧ c.toNat ≤ 70 := by
      simpa [Char.le_def, UInt32.le_iff_toNat_le] using capital
    interval_cases code : c.toNat <;> cases eq_ofNat_of_toNat code <;> cases value <;> decide
  · cases value

/-- A number that is read from digits is the one they spell. -/
theorem digits_of_digitsValue? {base n : Nat} {text : List Char} (ne : text ≠ [])
    (h : Text.digitsValue? base 0 text = some n) : Digits base text n := by
  induction text using List.reverseRecOn generalizing n with
  | nil => exact absurd rfl ne
  | append_singleton front c ih =>
    rw [digitsValue?_append, Option.bind_eq_some_iff] at h
    obtain ⟨m, before, last⟩ := h
    rw [Text.digitsValue?] at last
    cases found : Text.digitValue? base c with
    | none =>
      rw [found] at last
      cases last
    | some d =>
      rw [found] at last
      cases last
      have digit := isDigit_of_digitValue? found
      cases front with
      | nil =>
        cases before
        rw [Nat.zero_mul, Nat.zero_add]
        exact .one digit
      | cons first front => exact .more (ih (List.cons_ne_nil _ _) before) digit

/-- The characters of a literal without the quotes between them. -/
def unquoted (spelling : String) : List Char :=
  spelling.toList.filter (· ≠ '\'')

theorem integerValue?_unquoted (spelling : String) :
    integerValue? (String.ofList (unquoted spelling)) = integerValue? spelling := by
  simp [integerValue?, unquoted, List.filter_filter]

theorem exists_suffix (text : List Char) :
    ∃ suffix, text = (text.reverse.dropWhile isIntegerSuffix).reverse ++ suffix ∧ IsSuffix suffix := by
  refine ⟨(text.reverse.takeWhile isIntegerSuffix).reverse, ?_, fun c hc => ?_⟩
  · rw [← List.reverse_append, List.takeWhile_append_dropWhile, List.reverse_reverse]
  · have letter := List.mem_takeWhile_imp (List.mem_reverse.1 hc)
    simpa [isIntegerSuffix, or_assoc] using letter

/-- Digits in front of a suffix that have a value make a literal of this value. -/
theorem literal_of_digits {text digits suffix : List Char} {base n : Nat} (ends : IsSuffix suffix)
    (cut : integerDigits text = (base, digits)) (ne : digits ≠ [])
    (value : Text.digitsValue? base 0 digits = some n) : IntegerLiteral (text ++ suffix) n := by
  have spelled := digits_of_digitsValue? ne value
  unfold integerDigits at cut
  split at cut <;> cases cut
  case h_1 => exact .marked (by simp) spelled ends
  case h_2 => exact .marked (by simp) spelled ends
  case h_3 => exact .marked (by simp) spelled ends
  case h_4 => exact .marked (by simp) spelled ends
  case h_5 => exact .octal (digits_of_digitsValue? (List.cons_ne_nil _ _) value) ends
  case h_6 other =>
    match text, ne with
    | first :: rest, _ =>
      by_cases zero : first = '0'
      · -- No digit follows the zero: with one, the base would be eight.
        cases rest with
        | nil =>
          subst zero
          exact .octal (digits_of_digitsValue? (List.cons_ne_nil _ _) value) ends
        | cons c rest => exact absurd (zero ▸ rfl) (other c rest)
      · exact .decimal spelled zero ends

theorem integerValue?_eq_some_iff {spelling : String} {v : Int64} :
    integerValue? spelling = some v ↔ ∃ n, IntegerLiteral (unquoted spelling) n ∧ n < 2 ^ 64 ∧ v = .ofNat n := by
  constructor
  · intro found
    obtain ⟨suffix, split, ends⟩ := exists_suffix (unquoted spelling)
    unfold integerValue? at found
    unfold unquoted at split ⊢
    dsimp only at found
    split at found
    · cases found
    · rename_i base digits ne cut
      split at found
      · rename_i n value
        split at found
        · rename_i fits
          rw [split]
          exact ⟨n, literal_of_digits ends cut ne value, fits, (Option.some.inj found).symm⟩
        · cases found
      · cases found
  · rintro ⟨n, literal, fits, rfl⟩
    rw [← integerValue?_unquoted]
    exact integerValue?_of_literal (by rwa [String.toList_ofList]) fits

/-! ## Values of character literals -/

/-- The number of a character behind a backslash. -/
def escaped (c : Char) : Nat :=
  if c = 'n' then 10 else if c = 't' then 9 else if c = '0' then 0 else c.toNat

/-- What stands for a number between quotes: a character, or one behind a backslash. -/
inductive Character : List Char → Nat → Prop
  | plain {c : Char} (ascii : c.toNat < 128) : Character [c] c.toNat
  | escape {c : Char} (ascii : c.toNat < 128) : Character ['\\', c] (escaped c)

/-- A character literal, after a mark of its type if it has one, and the number that it stands for. -/
inductive CharacterLiteral : List Char → Nat → Prop
  | quoted {mark body : List Char} {last : Char} {n : Nat} (front : '\'' ∉ mark) (inside : Character body n) :
      CharacterLiteral (mark ++ '\'' :: (body ++ [last])) n

theorem Character.small {body : List Char} {n : Nat} (h : Character body n) : n < 128 := by
  cases h with
  | plain ascii => exact ascii
  | escape ascii =>
    unfold escaped
    split_ifs <;> omega

theorem CharacterLiteral.small {text : List Char} {n : Nat} (h : CharacterLiteral text n) : n < 128 := by
  cases h with
  | quoted _ inside => exact inside.small

theorem asciiValue?_eq_some_iff {c : Char} {v : Int64} :
    asciiValue? c = some v ↔ c.toNat < 128 ∧ v = .ofNat c.toNat := by
  unfold asciiValue?
  split
  · rename_i small
    simp [small, eq_comm]
  · rename_i large
    simp [large]

theorem escapeValue?_eq_some_iff {c : Char} {v : Int64} :
    escapeValue? c = some v ↔ c.toNat < 128 ∧ v = .ofNat (escaped c) := by
  have named {n : Char} {code : Nat} (small : n.toNat < 128) :
      some (Int64.ofNat code) = some v ↔ n.toNat < 128 ∧ v = .ofNat code := by
    simp [small, eq_comm]
  unfold escapeValue? escaped
  by_cases newline : c = 'n'
  · rw [if_pos newline, if_pos newline, newline]
    exact named (by decide)
  by_cases tab : c = 't'
  · rw [if_neg newline, if_neg newline, if_pos tab, if_pos tab, tab]
    exact named (by decide)
  by_cases zero : c = '0'
  · rw [if_neg newline, if_neg newline, if_neg tab, if_neg tab, if_pos zero, if_pos zero, zero]
    exact named (by decide)
  · rw [if_neg newline, if_neg newline, if_neg tab, if_neg tab, if_neg zero, if_neg zero]
    exact asciiValue?_eq_some_iff

/-- What stands between the quotes of a character literal. -/
def inner (text : List Char) : List Char :=
  ((text.dropWhile (· ≠ '\'')).drop 1).dropLast

theorem inner_append {mark body : List Char} {last : Char} (front : '\'' ∉ mark) :
    inner (mark ++ '\'' :: (body ++ [last])) = body := by
  have passed : ∀ c ∈ mark, decide (c ≠ '\'') = true := fun c hc => by
    simpa using ne_of_mem_of_not_mem hc front
  rw [inner, List.dropWhile_append_of_pos passed, List.dropWhile_cons_of_neg (by simp)]
  simp

theorem exists_mark {text body : List Char} (h : inner text = body) (ne : body ≠ []) :
    ∃ mark last, text = mark ++ '\'' :: (body ++ [last]) ∧ '\'' ∉ mark := by
  have front : '\'' ∉ text.takeWhile (· ≠ '\'') := fun hc => by
    have := List.mem_takeWhile_imp hc
    simp at this
  have whole := List.takeWhile_append_dropWhile (p := (· ≠ '\'')) (l := text)
  have quote := List.head?_dropWhile_not (· ≠ '\'') text
  unfold inner at h
  cases back : text.dropWhile (· ≠ '\'') with
  | nil =>
    rw [back] at h
    exact absurd h.symm ne
  | cons first tail =>
    rw [back] at h quote whole
    obtain rfl : first = '\'' := by simpa using quote
    cases tail using List.reverseRecOn with
    | nil => exact absurd h.symm ne
    | append_singleton front' last =>
      obtain rfl : front' = body := by simpa using h
      exact ⟨_, last, whole.symm, front⟩

theorem characterValue?_eq_some_iff {spelling : String} {v : Int64} :
    characterValue? spelling = some v ↔ ∃ n, CharacterLiteral spelling.toList n ∧ v = .ofNat n := by
  constructor
  · intro found
    unfold characterValue? at found
    split at found
    · rename_i c alone
      obtain ⟨small, rfl⟩ := asciiValue?_eq_some_iff.1 found
      obtain ⟨mark, last, whole, front⟩ := exists_mark alone (List.cons_ne_nil _ _)
      exact ⟨_, whole ▸ .quoted front (.plain small), rfl⟩
    · rename_i slash c pair
      split at found
      · rename_i same
        subst same
        obtain ⟨small, rfl⟩ := escapeValue?_eq_some_iff.1 found
        obtain ⟨mark, last, whole, front⟩ := exists_mark pair (List.cons_ne_nil _ _)
        exact ⟨_, whole ▸ .quoted front (.escape small), rfl⟩
      · cases found
    · cases found
  · rintro ⟨n, literal, rfl⟩
    unfold characterValue?
    generalize spelling.toList = text at literal
    cases literal with
    | @quoted mark body last n front inside =>
      have cut : (((mark ++ '\'' :: (body ++ [last])).dropWhile (· ≠ '\'')).drop 1).dropLast = body :=
        inner_append front
      rw [cut]
      cases inside with
      | plain small => exact asciiValue?_eq_some_iff.2 ⟨small, rfl⟩
      | escape small => exact (if_pos rfl).trans (escapeValue?_eq_some_iff.2 ⟨small, rfl⟩)

/-! ## Values of expressions -/

variable {known : List (String × Int64)}

theorem lookupKey_eq_some_iff {key : String} {v : Int64} :
    lookupKey known key = some v ↔ IsLatest known key v := by
  refine ⟨fun found => ?_, lookupKey_of_isLatest⟩
  obtain ⟨⟨name, value⟩, first, rfl⟩ := Option.map_eq_some_iff.1 found
  obtain ⟨same, after, before, split, others⟩ := List.find?_eq_some_iff_append.1 first
  obtain rfl : name = key := by simpa using same
  refine ⟨before.reverse, after.reverse, ?_, fun entry later => ?_⟩
  · rw [← List.reverse_reverse known, split]
    simp
  · simpa using others entry (List.mem_reverse.1 later)

theorem lookupKey_eq_none_iff {key : String} : lookupKey known key = none ↔ ∀ entry ∈ known, entry.1 ≠ key := by
  simp [lookupKey]

/-- The value of an expression of literals and names, if the latter have the known values. Quotes in integer
literals count for nothing. -/
inductive Evaluates (known : List (String × Int64)) : Expression → Int → Prop
  | integer {spelling : String} {n : Nat} (literal : IntegerLiteral (unquoted spelling) n) (fits : n < 2 ^ 64) :
      Evaluates known (.integer spelling) (wrap n)
  | character {spelling : String} {n : Nat} (literal : CharacterLiteral spelling.toList n) :
      Evaluates known (.character spelling) n
  | name {key : String} {v : Int64} (latest : IsLatest known key v) : Evaluates known (.name key) v.toInt
  | unary {op : UnaryOperator} {x : Expression} {a : Int} (operand : Evaluates known x a) :
      Evaluates known (.unary op x) (op.meaning a)
  | binary {op : BinaryOperator} {x y : Expression} {a b : Int} (left : Evaluates known x a)
      (right : Evaluates known y b) (isDefined : op.Defined a b) :
      Evaluates known (.binary op x y) (op.meaning a b)

/-- Something in the expression has no value: an integer literal of none that fits 64 bits, a character
literal of something else than a character, a name that is not known, or an operator where it is not
defined. -/
inductive Fails (known : List (String × Int64)) : Expression → Prop
  | integer {spelling : String} (large : ∀ n, IntegerLiteral (unquoted spelling) n → 2 ^ 64 ≤ n) :
      Fails known (.integer spelling)
  | character {spelling : String} (other : ∀ n, ¬ CharacterLiteral spelling.toList n) :
      Fails known (.character spelling)
  | name {key : String} (unknown : ∀ entry ∈ known, entry.1 ≠ key) : Fails known (.name key)
  | unary {op : UnaryOperator} {x : Expression} (operand : Fails known x) : Fails known (.unary op x)
  | left {op : BinaryOperator} {x y : Expression} (left : Fails known x) : Fails known (.binary op x y)
  | right {op : BinaryOperator} {x y : Expression} (right : Fails known y) : Fails known (.binary op x y)
  | binary {op : BinaryOperator} {x y : Expression} {a b : Int} (left : Evaluates known x a)
      (right : Evaluates known y b) (isUndefined : ¬ op.Defined a b) : Fails known (.binary op x y)

/-- Where an operator is not defined, nothing is computed. -/
theorem BinaryOperator.compute?_eq_none {op : BinaryOperator} {v w : Int64}
    (h : ¬ op.Defined v.toInt w.toInt) : op.compute? v w = none := by
  have zero : w = 0 ↔ w.toInt = 0 := Int64.toInt_inj.symm
  have least : v = Int64.minValue ↔ v.toInt = -2 ^ 63 := by
    rw [← Int64.toInt_inj, Int64.toInt_minValue]
  have minus : w = -1 ↔ w.toInt = -1 := Int64.toInt_inj.symm
  have outside (h : ¬ (0 ≤ w.toInt ∧ w.toInt < 64)) : (0 ≤ w && w < 64) ≠ true := by
    simpa [Int64.le_iff_toInt_le, Int64.lt_iff_toInt_lt] using h
  have undivided (h : ¬ (w.toInt ≠ 0 ∧ ¬ (v.toInt = -2 ^ 63 ∧ w.toInt = -1))) :
      (w = 0 || (v = Int64.minValue && w = -1)) = true := by
    simp only [zero, least, minus, Bool.or_eq_true, Bool.and_eq_true, decide_eq_true_eq]
    by_cases divisor : w.toInt = 0
    · exact .inl divisor
    · exact .inr (of_not_not fun fits => h ⟨divisor, fits⟩)
  cases op with
  | or | xor | and | add | subtract | multiply => exact absurd trivial h
  | shiftLeft | shiftRight => exact if_neg (outside h)
  | divide | remainder => exact if_pos (undivided h)

theorem toInt_character {text : List Char} {n : Nat} (h : CharacterLiteral text n) :
    (Int64.ofNat n).toInt = n :=
  Int64.toInt_ofNat_of_lt (h.small.trans (by decide))

/-- Every expression has a value that is found, or something in it has none and nothing is found. -/
theorem value?_evaluates_or_fails (known : List (String × Int64)) (x : Expression) :
    (∃ v, x.value? known = some v ∧ Evaluates known x v.toInt) ∨ (x.value? known = none ∧ Fails known x) := by
  induction x with
  | integer spelling =>
    rw [Expression.value?]
    cases found : integerValue? spelling with
    | some v =>
      obtain ⟨n, literal, fits, rfl⟩ := integerValue?_eq_some_iff.1 found
      exact .inl ⟨_, rfl, Int64.toInt_ofNat' ▸ .integer literal fits⟩
    | none =>
      refine .inr ⟨rfl, .integer fun n literal => Nat.le_of_not_lt fun fits => ?_⟩
      cases found.symm.trans (integerValue?_eq_some_iff.2 ⟨n, literal, fits, rfl⟩)
  | character spelling =>
    rw [Expression.value?]
    cases found : characterValue? spelling with
    | some v =>
      obtain ⟨n, literal, rfl⟩ := characterValue?_eq_some_iff.1 found
      exact .inl ⟨_, rfl, toInt_character literal ▸ .character literal⟩
    | none =>
      refine .inr ⟨rfl, .character fun n literal => ?_⟩
      cases found.symm.trans (characterValue?_eq_some_iff.2 ⟨n, literal, rfl⟩)
  | name key =>
    rw [Expression.value?]
    cases found : lookupKey known key with
    | some v => exact .inl ⟨v, rfl, .name (lookupKey_eq_some_iff.1 found)⟩
    | none => exact .inr ⟨rfl, .name (lookupKey_eq_none_iff.1 found)⟩
  | unary op x ih =>
    rw [Expression.value?]
    rcases ih with ⟨v, found, value⟩ | ⟨found, fails⟩ <;> rw [found]
    · exact .inl ⟨_, rfl, op.toInt_apply v ▸ .unary value⟩
    · exact .inr ⟨rfl, .unary fails⟩
  | binary op x y left right =>
    rw [Expression.value?]
    rcases left with ⟨v, found, leftValue⟩ | ⟨found, fails⟩ <;> rw [found]
    · rcases right with ⟨w, found, rightValue⟩ | ⟨found, fails⟩ <;> rw [found]
      · by_cases isDefined : op.Defined v.toInt w.toInt
        · obtain ⟨r, computed, meaning⟩ := BinaryOperator.compute?_eq_some isDefined
          exact .inl ⟨r, computed, meaning ▸ .binary leftValue rightValue isDefined⟩
        · exact .inr ⟨BinaryOperator.compute?_eq_none isDefined, .binary leftValue rightValue isDefined⟩
      · exact .inr ⟨rfl, .right fails⟩
    · exact .inr ⟨rfl, .left fails⟩

theorem Evaluates.value? {x : Expression} {a : Int} (h : Evaluates known x a) :
    ∃ v, x.value? known = some v ∧ v.toInt = a := by
  induction h with
  | integer literal fits => exact ⟨_, integerValue?_eq_some_iff.2 ⟨_, literal, fits, rfl⟩, Int64.toInt_ofNat'⟩
  | character literal => exact ⟨_, characterValue?_eq_some_iff.2 ⟨_, literal, rfl⟩, toInt_character literal⟩
  | name latest => exact ⟨_, lookupKey_of_isLatest latest, rfl⟩
  | @unary op x a _ ih =>
    obtain ⟨v, value, rfl⟩ := ih
    exact ⟨op.apply v, by rw [Expression.value?, value]; rfl, op.toInt_apply v⟩
  | @binary op x y a b _ _ isDefined left right =>
    obtain ⟨v, leftValue, rfl⟩ := left
    obtain ⟨w, rightValue, rfl⟩ := right
    obtain ⟨r, computed, meaning⟩ := BinaryOperator.compute?_eq_some isDefined
    exact ⟨r, by rw [Expression.value?, leftValue, rightValue]; exact computed, meaning⟩

theorem Fails.value? {x : Expression} (h : Fails known x) : x.value? known = none := by
  induction h with
  | integer large =>
    refine Option.eq_none_iff_forall_not_mem.2 fun v found => ?_
    obtain ⟨n, literal, fits, -⟩ := integerValue?_eq_some_iff.1 found
    exact Nat.not_le_of_lt fits (large n literal)
  | character other =>
    refine Option.eq_none_iff_forall_not_mem.2 fun v found => ?_
    obtain ⟨n, literal, -⟩ := characterValue?_eq_some_iff.1 found
    exact other n literal
  | name unknown => exact lookupKey_eq_none_iff.2 unknown
  | unary _ ih => rw [Expression.value?, ih]; rfl
  | left _ ih => rw [Expression.value?, ih]
  | right _ ih => rw [Expression.value?, ih]; split <;> trivial
  | binary left right isUndefined =>
    obtain ⟨v, leftValue, rfl⟩ := left.value?
    obtain ⟨w, rightValue, rfl⟩ := right.value?
    rw [Expression.value?, leftValue, rightValue]
    exact BinaryOperator.compute?_eq_none isUndefined

theorem value?_eq_some_iff {x : Expression} {v : Int64} :
    x.value? known = some v ↔ Evaluates known x v.toInt := by
  constructor
  · intro found
    rcases value?_evaluates_or_fails known x with ⟨w, found', value⟩ | ⟨none, -⟩
    · cases found.symm.trans found'
      exact value
    · cases found.symm.trans none
  · intro value
    obtain ⟨w, found, same⟩ := value.value?
    rwa [Int64.toInt_inj.1 same] at found

theorem value?_eq_none_iff {x : Expression} : x.value? known = none ↔ Fails known x := by
  constructor
  · intro none
    rcases value?_evaluates_or_fails known x with ⟨w, found, -⟩ | ⟨-, fails⟩
    · cases none.symm.trans found
    · exact fails
  · exact Fails.value?

/-! ## Expressions that are read -/

section Reading

variable {n level : Nat} {x y : Expression} {ts rest : List Token} {sort : Token → Prop}

theorem Writes.loosen {level' : Nat} (h : Writes sort level x ts) (le : level' ≤ level) :
    Writes sort level' x ts := by
  cases h with
  | integer literal => exact .integer literal
  | character literal => exact .character literal
  | name word components => exact .name word components
  | unary written operand => exact .unary written operand
  | binary binds left written right => exact .binary (le.trans binds) left written right
  | brackets opens inside closes => exact .brackets opens inside closes

theorem mark?_of_ofMark? {text : String} {op : BinaryOperator} (h : BinaryOperator.ofMark? text = some op) :
    op.mark? = some text := by
  unfold BinaryOperator.ofMark? at h
  split at h <;> cases h <;> rfl

theorem mark_of_ofMark? {text : String} {op : UnaryOperator} (h : UnaryOperator.ofMark? text = some op) :
    text = op.mark := by
  unfold UnaryOperator.ofMark? at h
  split at h <;> cases h <;> rfl

theorem marks_of_binaryOperator? {op : BinaryOperator} (h : binaryOperator? ts = some (op, rest)) :
    ∃ marks, ts = marks ++ rest ∧ op.Marks marks := by
  unfold binaryOperator? at h
  split at h
  · cases h
  rename_i t after
  split at h
  · cases h
  rename_i kind
  have kind : t.kind = .punctuation := by simpa using kind
  split at h
  · rename_i angle
    split at h
    · split at h
      · rename_i next rest' closes
        cases h
        obtain ⟨closes, adjacent⟩ : next.isMark ">" = true ∧ next.offset = t.offset + 1 := by
          simpa using closes
        exact ⟨[t, next], rfl, .shiftRight (isMark_iff.2 ⟨kind, angle⟩) closes adjacent⟩
      · cases h
    · cases h
  · obtain ⟨op', read, same⟩ := Option.map_eq_some_iff.1 h
    cases same
    exact ⟨[t], rfl, .single (mark?_of_ofMark? read) (isMark_iff.2 ⟨kind, rfl⟩)⟩

theorem components_of_lastComponent? {text key : String} (h : lastComponent? text ts = some (key, rest)) :
    ∃ used, ts = used ++ rest ∧ Components (fun _ => True) text used key := by
  fun_induction lastComponent? text ts with
  | case1 text =>
    cases h
    exact ⟨[], rfl, .last⟩
  | case2 text t between => cases h
  | case3 text t between next rest' ih =>
    obtain ⟨used, rfl, components⟩ := ih h
    exact ⟨t :: next :: used, rfl, .more between trivial components⟩
  | case4 text t rest' other =>
    cases h
    exact ⟨[], rfl, .last⟩

/-- What the reader takes from the front of a token list writes what it gives. -/
def IsSound (level : Nat) (reader : Reader Expression) : Prop :=
  ∀ ⦃ts x rest⦄, reader ts = some (x, rest) → ∃ used, ts = used ++ rest ∧ Writes (fun _ => True) level x used

theorem writes_of_operatorChain {ops : List BinaryOperator} {reader : Reader Expression} {m : Nat}
    (members : ∀ op : BinaryOperator, ops.contains op = decide (op.level = level))
    (sound : IsSound (level + 1) reader) {left : Expression} {xs : List Token}
    (written : Writes (fun _ => True) level left xs) (h : operatorChain ops reader m left ts = some (x, rest)) :
    ∃ used, ts = used ++ rest ∧ Writes (fun _ => True) level x (xs ++ used) := by
  have done {left : Expression} {xs ts : List Token} (written : Writes (fun _ => True) level left xs)
      (h : some (left, ts) = some (x, rest)) :
      ∃ used, ts = used ++ rest ∧ Writes (fun _ => True) level x (xs ++ used) := by
    cases h
    exact ⟨[], rfl, by rwa [List.append_nil]⟩
  induction m generalizing left xs ts with
  | zero => exact done written h
  | succ m ih =>
    rw [operatorChain] at h
    split at h
    · rename_i op after found
      split at h
      · rename_i member
        split at h
        · rename_i right after' read
          obtain ⟨marks, rfl, mark⟩ := marks_of_binaryOperator? found
          obtain ⟨ys, rfl, right⟩ := sound read
          obtain rfl : op.level = level := of_decide_eq_true ((members op).symm.trans member)
          obtain ⟨used, rfl, whole⟩ := ih (.binary (le_refl _) written mark right) h
          exact ⟨marks ++ (ys ++ used), by simp, by simpa using whole⟩
        · cases h
      · exact done written h
    · exact done written h

theorem IsSound.levelReader (h : IsSound operandLevel (operand n)) (within : level ≤ operandLevel) :
    IsSound level (levelReader n level) := by
  -- Each level rests on the next tighter one, the last on operands.
  induction within using Nat.decreasingInduction with
  | self => exact h
  | of_succ level lt ih =>
    obtain ⟨ops, split, members⟩ := drop_precedence lt
    intro ts x rest read
    rw [Declaration.levelReader, split, operatorLevels] at read
    split at read
    · rename_i left after found
      obtain ⟨xs, rfl, written⟩ := ih found
      obtain ⟨used, rfl, whole⟩ := writes_of_operatorChain members ih (written.loosen (Nat.le_succ _)) read
      exact ⟨xs ++ used, (List.append_assoc _ _ _).symm, whole⟩
    · cases read

theorem isSound_operand (n : Nat) : IsSound operandLevel (operand n) := by
  induction n with
  | zero =>
    intro ts x rest read
    cases read
  | succ n ih =>
    intro ts x rest read
    cases ts with
    | nil => cases read
    | cons t ts =>
      rw [operand] at read
      split at read
      · rename_i kind
        split at read
        · rename_i op mark
          obtain ⟨⟨y, after⟩, operandRead, same⟩ := Option.map_eq_some_iff.1 read
          cases same
          obtain ⟨used, rfl, written⟩ := ih operandRead
          exact ⟨t :: used, rfl, .unary (isMark_iff.2 ⟨kind, mark_of_ofMark? mark⟩) written⟩
        · split at read
          · rename_i opens
            split at read
            · rename_i y closing after inside
              split at read
              · rename_i closes
                cases read
                obtain ⟨used, split, written⟩ := ih.levelReader (Nat.zero_le _) inside
                exact ⟨t :: (used ++ [closing]), by simp [split],
                  .brackets (isMark_iff.2 ⟨kind, opens⟩) written closes⟩
              · cases read
            · cases read
          · cases read
      · rename_i kind
        cases read
        exact ⟨[t], rfl, .integer kind⟩
      · rename_i kind
        cases read
        exact ⟨[t], rfl, .character kind⟩
      · rename_i kind
        obtain ⟨⟨key, after⟩, named, same⟩ := Option.map_eq_some_iff.1 read
        cases same
        obtain ⟨used, rfl, components⟩ := components_of_lastComponent? named
        exact ⟨t :: used, rfl, .name kind components⟩
      · cases read

/-- An expression is read just from the token lists that write it. -/
theorem parse?_eq_some_iff : Expression.parse? ts = some x ↔ Writes (fun _ => True) 0 x ts := by
  refine ⟨fun read => ?_, parse?_of_writes⟩
  unfold Expression.parse? at read
  split at read
  · rename_i y found
    cases read
    obtain ⟨used, rfl, written⟩ := (isSound_operand ts.length).levelReader (Nat.zero_le _) found
    rwa [List.append_nil]
  · cases read

/-! ## Names as components -/

/-- Right behind each double colon stands a name, if anything. -/
def NamesBehindColons (ts : List Token) : Prop :=
  ∀ colons next, [colons, next] <:+: ts → colons.isMark "::" → next.kind = .identifier

theorem NamesBehindColons.within {us : List Token} (h : NamesBehindColons ts) (part : us <:+: ts) :
    NamesBehindColons us :=
  fun colons next here => h colons next (here.trans part)

theorem Components.of_names {text key : String} (h : Components sort text ts key) (names : NamesBehindColons ts) :
    Components (·.kind = .identifier) text ts key := by
  induction h with
  | last => exact .last
  | @more text key colons next ts between _ _ ih =>
    have word := names colons next ⟨[], ts, rfl⟩ between
    exact .more between word (ih (names.within (List.suffix_append [colons, next] ts).isInfix))

theorem Writes.of_names (h : Writes sort level x ts) (names : NamesBehindColons ts) :
    Writes (·.kind = .identifier) level x ts := by
  induction h with
  | integer literal => exact .integer literal
  | character literal => exact .character literal
  | name word components =>
    exact .name word (components.of_names (names.within (List.suffix_cons _ _).isInfix))
  | unary written _ ih => exact .unary written (ih (names.within (List.suffix_cons _ _).isInfix))
  | @binary level op x y xs marks ys binds _ written _ left right =>
    refine .binary binds (left (names.within (List.prefix_append _ _).isInfix)) written (right (names.within ?_))
    exact (List.suffix_append marks ys).trans (List.suffix_append xs _) |>.isInfix
  | @brackets level x opening closing ts opens _ closes ih =>
    exact .brackets opens (ih (names.within ⟨[opening], [closing], by simp⟩)) closes

end Reading

/-! ## Token lists -/

/-- A token list that writes an expression has the value of this expression, and none just if something in
the expression has none. A token list that writes no expression has no value, whatever stands behind its
double colons; the components of a name have to be names themselves only where that is so of the tokens. -/
theorem token_lists_have_the_values_of_expressions (known : List (String × Int64)) (ts : List Token) :
    (∀ sort x, Writes sort 0 x ts →
      (∀ v, evaluate? known ts = some v ↔ Evaluates known x v.toInt) ∧
        (evaluate? known ts = none ↔ Fails known x)) ∧
    ((∀ x, ¬ Writes (fun _ => True) 0 x ts) → evaluate? known ts = none) ∧
    (NamesBehindColons ts → (∀ x, ¬ Writes (·.kind = .identifier) 0 x ts) → evaluate? known ts = none) := by
  have unread (h : ∀ x, ¬ Writes (fun _ => True) 0 x ts) : evaluate? known ts = none := by
    have none : Expression.parse? ts = none :=
      Option.eq_none_iff_forall_not_mem.2 fun x read => h x (parse?_eq_some_iff.1 read)
    rw [evaluate?, none]
    rfl
  refine ⟨fun sort x written => ?_, unread, fun names h => unread fun x written => h x (written.of_names names)⟩
  rw [evaluate?, parse?_of_writes written]
  exact ⟨fun v => value?_eq_some_iff, value?_eq_none_iff⟩

/-- The tokens of `(wide + 1) * wide`. -/
def wideTokens : List Token :=
  [markAt "(" 0, wordAt "wide" 1, markAt "+" 6, numberAt "1" 8, markAt ")" 9, markAt "*" 11, wordAt "wide" 13]

/-- The last entry of a name counts. Where the name is not known, there is no value. -/
theorem wide_is_twenty_if_known :
    evaluate? [("wide", 2), ("wide", 4)] wideTokens = some 20 ∧ evaluate? [] wideTokens = none := by
  have sum : Writes (·.kind = .identifier) 0 (.binary .add (.name "wide") (.integer "1"))
      ([wordAt "wide" 1] ++ ([markAt "+" 6] ++ [numberAt "1" 8])) :=
    .binary (by decide) (.name (t := wordAt "wide" 1) rfl .last) (.single rfl rfl)
      (.integer (t := numberAt "1" 8) rfl)
  have left : Writes (·.kind = .identifier) 5 (.binary .add (.name "wide") (.integer "1"))
      (markAt "(" 0 :: (([wordAt "wide" 1] ++ ([markAt "+" 6] ++ [numberAt "1" 8])) ++ [markAt ")" 9])) :=
    .brackets rfl sum rfl
  have written : Writes (·.kind = .identifier) 0
      (.binary .multiply (.binary .add (.name "wide") (.integer "1")) (.name "wide"))
      ((markAt "(" 0 :: (([wordAt "wide" 1] ++ ([markAt "+" 6] ++ [numberAt "1" 8])) ++ [markAt ")" 9])) ++
        ([markAt "*" 11] ++ [wordAt "wide" 13])) :=
    .binary (by decide) left (.single rfl rfl) (.name (t := wordAt "wide" 13) rfl .last)
  have product : Writes (·.kind = .identifier) 0
      (.binary .multiply (.binary .add (.name "wide") (.integer "1")) (.name "wide")) wideTokens :=
    written
  have wide : Evaluates [("wide", 2), ("wide", 4)] (.name "wide") (Int64.toInt 4) :=
    .name ⟨[("wide", 2)], [], rfl, by decide⟩
  have one : Evaluates [("wide", 2), ("wide", 4)] (.integer "1") (wrap 1) := by
    have spelled : unquoted "1" = '1' :: [] ++ [] := by decide
    exact .integer (spelled ▸ .decimal (.one ⟨by decide, .inl (by decide)⟩) (by decide) (by simp [IsSuffix]))
      (by decide)
  have value : BinaryOperator.multiply.meaning (BinaryOperator.add.meaning (Int64.toInt 4) (wrap 1))
      (Int64.toInt 4) = Int64.toInt 20 := by decide
  refine ⟨?_, ?_⟩
  · refine (((token_lists_have_the_values_of_expressions _ _).1 _ _ product).1 _).2 ?_
    exact value ▸ .binary (.binary wide one trivial) wide trivial
  · refine ((token_lists_have_the_values_of_expressions _ _).1 _ _ product).2.2 ?_
    exact .right (.name fun _ h => nomatch h)

/-- A number between double colons is taken for the component of a name. -/
theorem number_passes_for_component :
    keysIn "class Lamp { H_OBJECT enum Step { wide = 3, high = Step::5::wide }; };" =
        some [[("Step", [("wide", 3), ("high", 3)])]] ∧
      evaluate? [("wide", 3)] [wordAt "Step" 0, markAt "::" 4, numberAt "5" 6, markAt "::" 7, wordAt "wide" 9] =
        some 3 ∧
      ∀ x, ¬ Writes (·.kind = .identifier) 0 x
        [wordAt "Step" 0, markAt "::" 4, numberAt "5" 6, markAt "::" 7, wordAt "wide" 9] := by
  refine ⟨(keysIn_of_toList String.toList_ofList).trans ?_, by decide +kernel, fun x written => ?_⟩
  · decide +kernel
  have read := parse?_of_writes written
  have named : Expression.parse? [wordAt "Step" 0, markAt "::" 4, numberAt "5" 6, markAt "::" 7,
      wordAt "wide" 9] = some (.name "wide") := by decide +kernel
  obtain rfl : Expression.name "wide" = x := Option.some.inj (named.symm.trans read)
  generalize same : [wordAt "Step" 0, markAt "::" 4, numberAt "5" 6, markAt "::" 7, wordAt "wide" 9] = ts
    at written
  cases written with
  | name word components =>
    cases same
    cases components with
    | more between component rest => cases component
  | brackets opens inside closes =>
    obtain ⟨rfl, -⟩ := List.cons.inj same
    cases opens

end Reflection.Declaration
