import Mathlib.Data.List.Basic
import Reflection.Json.Standard
import Reflection.Proofs.Lists
/-!
# Written values are read back

The reader of JSON texts undoes the writer. Numbers and strings come first: a number is read to its
end as long as nothing behind it would go on with it, a string character by character. The items of
an array and the members of an object are read by induction on them, and a value by induction on the
bound of the reader, since what is nested in a value is written on less text (`parse?_append_pretty`).
So the standard library keeps what is promised of a library (`lawful_standard`).
-/

namespace Reflection.Json

attribute [local simp] readPieces readItems readMembers write writeItems writeMembers

/-! ## Numbers -/

/-- Nothing at the front of the text would go on with a number. -/
def EndsNumber (rest : List Char) : Prop :=
  ∀ c ∈ rest.head?, c.isDigit = false ∧ c ≠ '.' ∧ c ≠ 'e' ∧ c ≠ 'E'

theorem digitValue?_of_isDigit {c : Char} (h : c.isDigit = true) :
    Text.digitValue? 10 c = some (c.toNat - '0'.toNat) := by
  have le : c.toNat ≤ 57 := by
    simp only [Char.isDigit, Bool.and_eq_true, decide_eq_true_eq] at h
    exact h.2
  have small : c.toNat - 48 < 10 := by omega
  simp [Text.digitValue?, h, Option.filter, small]

theorem digitsValue?_of_isDigit {digits : List Char} (h : ∀ c ∈ digits, c.isDigit = true) (n : Nat) :
    Text.digitsValue? 10 n digits = some (Nat.ofDigitChars 10 digits n) := by
  induction digits generalizing n with
  | nil => rfl
  | cons c digits ih =>
    obtain ⟨hc, hs⟩ := List.forall_mem_cons.1 h
    rw [Text.digitsValue?, digitValue?_of_isDigit hc, Nat.ofDigitChars_cons, Nat.mul_comm]
    exact ih hs _

/-- Only zero is written with a zero in front. -/
theorem head?_toDigits_ne {n : Nat} (h : 0 < n) : (Nat.toDigits 10 n).head? ≠ some '0' := by
  induction n using Nat.strongRecOn with
  | ind n ih =>
    rw [Nat.toDigits_eq_if (by decide)]
    split
    · rename_i small
      have all : ∀ n, n < 10 → 0 < n → [n.digitChar].head? ≠ some '0' := by decide
      exact all n small h
    · rw [List.head?_append_of_ne_nil _ Nat.toDigits_ne_nil]
      exact ih (n / 10) (by omega) (by omega)

theorem readNumber_toDigits (n : Nat) (negative : Bool) (nonzero : negative = true → 0 < n)
    {rest : List Char} (ends : EndsNumber rest) :
    readNumber negative (Nat.toDigits 10 n ++ rest) =
      some (.integer (if negative then -n else n), rest) := by
  have digits : ∀ c ∈ Nat.toDigits 10 n, c.isDigit = true := fun c hc =>
    Nat.isDigit_of_mem_toDigits (by decide) (by decide) hc
  have stop : ∀ c ∈ rest.head?, c.isDigit = false := fun c hc => (ends c hc).1
  have taken : (Nat.toDigits 10 n ++ rest).takeWhile Char.isDigit = Nat.toDigits 10 n := by
    rw [List.takeWhile_append_of_pos digits]
    cases rest with
    | nil => simp
    | cons c rest => simp [stop c rfl]
  have left : (Nat.toDigits 10 n ++ rest).dropWhile Char.isDigit = rest := by
    rw [List.dropWhile_append_of_pos digits]
    cases rest with
    | nil => rfl
    | cons c rest => simp [stop c rfl]
  have fraction : skipFraction rest = some (false, rest) := by
    unfold skipFraction
    split
    · exact absurd rfl (ends _ rfl).2.1
    · rfl
  have exponent : skipExponent rest = some (false, rest) := by
    cases rest with
    | nil => rfl
    | cons c rest => simp [skipExponent, (ends c rfl).2.2]
  have value := digitsValue?_of_isDigit digits 0
  rw [Nat.ofDigitChars_toDigits (by decide) (by decide)] at value
  unfold readNumber
  simp only [taken, left, fraction, exponent, value]
  cases spelled : Nat.toDigits 10 n with
  | nil => exact absurd spelled Nat.toDigits_ne_nil
  | cons d more =>
    -- A zero in front is all there is.
    have single : ¬ ((decide (d = '0') && !more.isEmpty) = true) := by
      intro zeros
      simp only [Bool.and_eq_true, decide_eq_true_eq, Bool.not_eq_true'] at zeros
      rcases Nat.eq_zero_or_pos n with rfl | pos
      · cases spelled
        simp at zeros
      · have head := head?_toDigits_ne pos
        rw [spelled, zeros.1] at head
        exact head rfl
    simp only [if_neg single, Bool.false_or]
    cases negative with
    | false => simp
    | true =>
      have : n ≠ 0 := Nat.ne_of_gt (nonzero rfl)
      simp [this]

theorem toList_toString_ofNat (n : Nat) : (toString (n : Int)).toList = Nat.toDigits 10 n :=
  String.toList_ofList

theorem toList_toString_negSucc (n : Nat) :
    (toString (Int.negSucc n)).toList = '-' :: Nat.toDigits 10 (n + 1) := by
  show ("-" ++ String.ofList (Nat.toDigits 10 (n + 1))).toList = _
  simp

/-! ## Strings -/

/-- The piece that a written character is read as. -/
def pieceOf (c : Char) : Piece :=
  if c.toNat < 0x20 ∧ c ∉ ['\x08', '\t', '\n', '\x0c', '\r'] then .unit c.toNat else .char c

/-- The digits in the escape of a control character. -/
def unitDigits (n : Nat) : List Char :=
  (if n < 0x10 then ['0', '0', '0'] else ['0', '0']) ++ Text.hexDigits n

theorem unitDigits_eq : ∀ n < 0x20,
    (unitDigits n).length = 4 ∧ Text.digitsValue? 16 0 (unitDigits n) = some n := by
  decide

theorem readPieces_unit {n : Nat} (h : n < 0x20) (rest : List Char) :
    readPieces ('\\' :: 'u' :: (unitDigits n ++ rest)) =
      (readPieces rest).map fun (pieces, after) => (.unit n :: pieces, after) := by
  obtain ⟨length, value⟩ := unitDigits_eq n h
  obtain ⟨a, b, c, d, e⟩ := List.length_eq_four.1 length
  rw [e] at value ⊢
  simp [readPieces, hexUnit?, value]

/-- A written character is read back in front of anything. -/
theorem readPieces_escapeChar (c : Char) (rest : List Char) :
    readPieces (escapeChar c ++ rest) =
      (readPieces rest).map fun (pieces, after) => (pieceOf c :: pieces, after) := by
  by_cases simple : c ∈ ['"', '\\', '\x08', '\t', '\n', '\x0c', '\r']
  · simp only [List.mem_cons, List.not_mem_nil, or_false] at simple
    rcases simple with rfl | rfl | rfl | rfl | rfl | rfl | rfl <;>
      simp [escapeChar, pieceOf, readPieces, simpleEscape?]
  · simp only [List.mem_cons, List.not_mem_nil, or_false, not_or] at simple
    obtain ⟨quote, backslash, b, t, n, f, r⟩ := simple
    by_cases control : c.toNat < 0x20
    · have piece : pieceOf c = .unit c.toNat := by simp [pieceOf, control, b, t, n, f, r]
      have escaped : escapeChar c = '\\' :: 'u' :: unitDigits c.toNat := by
        unfold escapeChar unitDigits
        by_cases low : c.toNat < 0x10 <;> simp [quote, backslash, b, t, n, f, r, low, control]
      rw [piece, escaped]
      exact readPieces_unit control rest
    · have piece : pieceOf c = .char c := by simp [pieceOf, control]
      have low : ¬ c.toNat < 0x10 := by omega
      have plain : escapeChar c = [c] := by
        simp [escapeChar, quote, backslash, b, t, n, f, r, control, low]
      rw [piece, plain]
      rw [List.singleton_append, readPieces.eq_def]
      simp [backslash, control]

theorem joinPieces_pieceOf (c : Char) (pieces : List Piece) :
    joinPieces (pieceOf c :: pieces) = (joinPieces pieces).map (c :: ·) := by
  unfold pieceOf
  split
  · rename_i control
    have high : isHighSurrogate c.toNat = false := by simp [isHighSurrogate]; omega
    have low : isLowSurrogate c.toNat = false := by simp [isLowSurrogate]; omega
    conv_lhs => unfold joinPieces
    simp [high, low]
  · rfl

/-- A written string is read back after its opening quote. -/
theorem readString_quote (s : String) (rest : List Char) :
    readString (s.toList.flatMap escapeChar ++ '"' :: rest) = some (some s, rest) := by
  have pieces : ∀ cs : List Char,
      readPieces (cs.flatMap escapeChar ++ '"' :: rest) = some (cs.map pieceOf, rest) := by
    intro cs
    induction cs with
    | nil => simp [readPieces]
    | cons c cs ih => rw [List.flatMap_cons, List.append_assoc, readPieces_escapeChar, ih]; rfl
  have joined : ∀ cs : List Char, joinPieces (cs.map pieceOf) = some cs := by
    intro cs
    induction cs with
    | nil => rfl
    | cons c cs ih => rw [List.map_cons, joinPieces_pieceOf, ih]; rfl
  rw [readString, pieces, Option.map_some]
  simp only [joined, Option.map_some, String.ofList_toList]

/-! ## Values -/

/-- A reader reads a written value back after blanks and in front of anything that does not go on
with a number. -/
def Reads (value : Reader Json) (depth : Nat) (j : Json) : Prop :=
  ∀ blank rest, (∀ c ∈ blank, isSpace c = true) → EndsNumber rest →
    value (blank ++ (write depth j ++ rest)) = some (j, rest)

theorem endsNumber_cons {c : Char} (h : c ∈ [',', ']', '\x7d', '\n']) (rest : List Char) :
    EndsNumber (c :: rest) := by
  intro c' e
  cases e
  simp only [List.mem_cons, List.not_mem_nil, or_false] at h
  rcases h with rfl | rfl | rfl | rfl <;> decide

theorem isSpace_of_mem_newLine {depth : Nat} : ∀ c ∈ newLine depth, isSpace c = true := by
  intro c hc
  rcases List.mem_cons.1 hc with rfl | hc
  · rfl
  · rw [List.eq_of_mem_replicate hc]
    rfl

theorem skipSpace_append {blank : List Char} (h : ∀ c ∈ blank, isSpace c = true) (text : List Char) :
    skipSpace (blank ++ text) = skipSpace text :=
  List.dropWhile_append_of_pos h

theorem skipSpace_cons {c : Char} (h : isSpace c = false) (rest : List Char) :
    skipSpace (c :: rest) = c :: rest :=
  List.dropWhile_cons_of_neg (by simp [h])

/-- A text behind blanks starts at its first character. -/
theorem skipSpace_before {blank : List Char} (h : ∀ c ∈ blank, isSpace c = true) {c : Char}
    (hc : isSpace c = false) (rest : List Char) : skipSpace (blank ++ c :: rest) = c :: rest :=
  (skipSpace_append h _).trans (skipSpace_cons hc rest)

/-- The items of a written array are read up to its bracket. -/
theorem readItems_written {value : Reader Json} {depth outer : Nat} {item : Json} {items : List Json}
    {n : Nat} (reads : ∀ i ∈ item :: items, Reads value depth i) (bound : items.length < n)
    (rest : List Char) :
    readItems value n (newLine depth ++ (write depth item ++
      (writeItems depth items ++ (newLine outer ++ ']' :: rest)))) = some (item :: items, rest) := by
  induction items generalizing item n with
  | nil =>
    obtain ⟨n, rfl⟩ := Nat.exists_eq_succ_of_ne_zero (Nat.ne_zero_of_lt bound)
    have first := reads item List.mem_cons_self (newLine depth) (newLine outer ++ ']' :: rest)
      isSpace_of_mem_newLine (endsNumber_cons (by decide) _)
    simp only [readItems, writeItems, List.nil_append, first]
    rw [skipSpace_before isSpace_of_mem_newLine rfl]
    rfl
  | cons next items ih =>
    obtain ⟨n, rfl⟩ := Nat.exists_eq_succ_of_ne_zero (Nat.ne_zero_of_lt bound)
    obtain ⟨readsFirst, readsLater⟩ := List.forall_mem_cons.1 reads
    have later := ih readsLater (Nat.lt_of_succ_lt_succ bound)
    have first := readsFirst (newLine depth)
      (writeItems depth (next :: items) ++ (newLine outer ++ ']' :: rest))
      isSpace_of_mem_newLine (endsNumber_cons (by decide) _)
    simp only [readItems, first]
    simp only [writeItems, List.cons_append, List.append_assoc]
    rw [skipSpace_cons rfl]
    simp only [later, Option.map_some]

theorem readName_quote (name : String) (rest : List Char) (depth : Nat) :
    readName (newLine depth ++ (quote (some name) ++ (':' :: ' ' :: rest))) =
      some (some name, ' ' :: rest) := by
  unfold readName
  rw [skipSpace_append isSpace_of_mem_newLine]
  simp only [quote, List.cons_append, List.append_assoc, Option.getD_some]
  rw [skipSpace_cons rfl]
  simp only [List.nil_append, readString_quote]
  rw [skipSpace_cons rfl]
  rfl

/-- The members of a written object are read up to its bracket. -/
theorem readMembers_written {value : Reader Json} {depth outer : Nat} {name : String} {j : Json}
    {members : List (Option String × Json)} {n : Nat}
    (names : ∀ m ∈ members, m.1.isSome) (reads : ∀ m ∈ (some name, j) :: members, Reads value depth m.2)
    (bound : members.length < n) (rest : List Char) :
    readMembers value n (newLine depth ++ (quote (some name) ++ (':' :: ' ' :: (write depth j ++
      (writeMembers depth members ++ (newLine outer ++ '\x7d' :: rest)))))) =
      some ((some name, j) :: members, rest) := by
  induction members generalizing name j n with
  | nil =>
    obtain ⟨n, rfl⟩ := Nat.exists_eq_succ_of_ne_zero (Nat.ne_zero_of_lt bound)
    have first := reads _ List.mem_cons_self [' '] (newLine outer ++ '\x7d' :: rest)
      (List.forall_mem_singleton.2 rfl) (endsNumber_cons (by decide) _)
    rw [List.singleton_append] at first
    simp only [readMembers, readName_quote, writeMembers, List.nil_append, first]
    rw [skipSpace_before isSpace_of_mem_newLine rfl]
    rfl
  | cons next members ih =>
    obtain ⟨n, rfl⟩ := Nat.exists_eq_succ_of_ne_zero (Nat.ne_zero_of_lt bound)
    obtain ⟨next, j'⟩ := next
    obtain ⟨isText, areTexts⟩ := List.forall_mem_cons.1 names
    obtain ⟨next, rfl⟩ := Option.isSome_iff_exists.1 isText
    obtain ⟨readsFirst, readsLater⟩ := List.forall_mem_cons.1 reads
    have later := ih areTexts readsLater (Nat.lt_of_succ_lt_succ bound)
    have first := readsFirst [' ']
      (writeMembers depth ((some next, j') :: members) ++ (newLine outer ++ '\x7d' :: rest))
      (List.forall_mem_singleton.2 rfl) (endsNumber_cons (by decide) _)
    rw [List.singleton_append] at first
    simp only [readMembers, readName_quote, first]
    simp only [writeMembers, List.cons_append, List.append_assoc, List.nil_append]
    rw [skipSpace_cons rfl]
    simp only [later, Option.map_some]

/-! ### Lengths -/

theorem writeItems_eq (depth : Nat) (items : List Json) :
    writeItems depth items = items.flatMap fun item => ',' :: (newLine depth ++ write depth item) := by
  induction items with
  | nil => simp [writeItems]
  | cons item items ih => simp [writeItems, ih]

theorem writeMembers_eq (depth : Nat) (members : List (Option String × Json)) :
    writeMembers depth members = members.flatMap fun (name, j) =>
      ',' :: (newLine depth ++ (quote name ++ (':' :: ' ' :: write depth j))) := by
  induction members with
  | nil => simp [writeMembers]
  | cons m members ih => simp [writeMembers, ih]

theorem length_write_item {depth : Nat} {items : List Json} {item : Json} (h : item ∈ items) :
    (write (depth + 1) item).length < (write depth (.array items)).length := by
  cases items with
  | nil => cases h
  | cons first items =>
    simp only [write, writeItems_eq, List.length_cons, List.length_append]
    rcases List.mem_cons.1 h with rfl | h
    · omega
    · have := length_le_of_mem_flatMap
        (f := fun item => ',' :: (newLine (depth + 1) ++ write (depth + 1) item)) h
      simp only [List.length_cons, List.length_append] at this
      omega

theorem length_write_member {depth : Nat} {members : List (Option String × Json)}
    {m : Option String × Json} (h : m ∈ members) :
    (write (depth + 1) m.2).length < (write depth (.object members)).length := by
  cases members with
  | nil => cases h
  | cons first members =>
    obtain ⟨name, j⟩ := first
    simp only [write, writeMembers_eq, List.length_cons, List.length_append]
    rcases List.mem_cons.1 h with rfl | h
    · dsimp only
      omega
    · have := length_le_of_mem_flatMap (f := fun (name, j) =>
        ',' :: (newLine (depth + 1) ++ (quote name ++ (':' :: ' ' :: write (depth + 1) j)))) h
      simp only [List.length_cons, List.length_append] at this
      omega

/-! ### Whole values -/

/-- Blanks before a value are skipped. -/
theorem readValue_succ {text start : List Char} (n : Nat) (h : skipSpace text = start) :
    readValue (n + 1) text = readStart (readValue n) start := by
  rw [← h]
  rfl

/-- Where a number starts, nothing else does. -/
theorem readStart_of_isDigit (value : Reader Json) {c : Char} (h : c.isDigit = true)
    (rest : List Char) : readStart value (c :: rest) = readNumber false (c :: rest) := by
  unfold readStart
  split <;> first | rfl | (rename_i found; cases found; cases h)

theorem isSpace_of_isDigit {c : Char} (h : c.isDigit = true) : isSpace c = false := by
  unfold isSpace
  simp only [Bool.or_eq_false_iff, decide_eq_false_iff_not]
  refine ⟨⟨⟨?_, ?_⟩, ?_⟩, ?_⟩ <;> (rintro rfl; cases h)

theorem reads_integer (n depth : Nat) (i : Int) : Reads (readValue (n + 1)) depth (.integer i) := by
  intro blank rest blanks ends
  have digits : ∀ n, ∀ c ∈ Nat.toDigits 10 n, c.isDigit = true := fun n c hc =>
    Nat.isDigit_of_mem_toDigits (by decide) (by decide) hc
  cases i with
  | ofNat k =>
    have number := readNumber_toDigits k false (nofun) ends
    have written : write depth (.integer (Int.ofNat k)) = Nat.toDigits 10 k := by
      rw [write]
      exact toList_toString_ofNat k
    rw [written]
    cases spelled : Nat.toDigits 10 k with
    | nil => exact absurd spelled Nat.toDigits_ne_nil
    | cons c more =>
      have digit : c.isDigit = true := digits k c (by simp [spelled])
      rw [spelled] at number
      have start : skipSpace (blank ++ (c :: more ++ rest)) = c :: (more ++ rest) := by
        rw [List.cons_append, skipSpace_before blanks (isSpace_of_isDigit digit)]
      rw [readValue_succ n start, readStart_of_isDigit _ digit, ← List.cons_append, number]
      rfl
  | negSucc k =>
    have number := readNumber_toDigits (k + 1) true (fun _ => Nat.succ_pos k) ends
    have written : write depth (.integer (Int.negSucc k)) = '-' :: Nat.toDigits 10 (k + 1) := by
      rw [write]
      exact toList_toString_negSucc k
    rw [written, List.cons_append, readValue_succ n (skipSpace_before blanks rfl _)]
    exact number

/-- A written value starts neither with a blank nor with a closing bracket. -/
theorem write_eq_cons (depth : Nat) (j : Json) :
    ∃ c text, write depth j = c :: text ∧ isSpace c = false ∧ c ≠ ']' := by
  cases j with
  | null => exact ⟨_, _, by rw [write], by decide, by decide⟩
  | bool b => cases b <;> exact ⟨_, _, by rw [write], by decide, by decide⟩
  | real => exact ⟨_, _, by rw [write], by decide, by decide⟩
  | string s => exact ⟨_, _, by rw [write]; rfl, by decide, by decide⟩
  | array items =>
    cases items with
    | nil => exact ⟨_, _, by rw [write], by decide, by decide⟩
    | cons => exact ⟨_, _, by rw [write]; rfl, by decide, by decide⟩
  | object members =>
    cases members with
    | nil => exact ⟨_, _, by rw [write], by decide, by decide⟩
    | cons => exact ⟨_, _, by rw [write]; rfl, by decide, by decide⟩
  | integer i =>
    rw [write]
    cases i with
    | negSucc k => exact ⟨_, _, toList_toString_negSucc k, by decide, by decide⟩
    | ofNat k =>
      cases spelled : Nat.toDigits 10 k with
      | nil => exact absurd spelled Nat.toDigits_ne_nil
      | cons c text =>
        have digit : c.isDigit = true :=
          Nat.isDigit_of_mem_toDigits (by decide) (by decide) (spelled ▸ List.mem_cons_self)
        refine ⟨c, text, (toList_toString_ofNat k).trans spelled, isSpace_of_isDigit digit, ?_⟩
        rintro rfl
        cases digit

theorem length_le_writeItems (depth : Nat) (items : List Json) :
    items.length ≤ (writeItems depth items).length := by
  induction items with
  | nil => exact Nat.zero_le _
  | cons item items ih =>
    simp only [writeItems, List.length_cons, List.length_append]
    omega

theorem length_le_writeMembers (depth : Nat) (members : List (Option String × Json)) :
    members.length ≤ (writeMembers depth members).length := by
  induction members with
  | nil => exact Nat.zero_le _
  | cons m members ih =>
    obtain ⟨name, j⟩ := m
    simp only [writeMembers, List.length_cons, List.length_append]
    omega

theorem readStart_of_bracket (value : Reader Json) {inside after : List Char} {c : Char}
    (first : skipSpace inside = c :: after) (ne : c ≠ ']') :
    readStart value ('[' :: inside) =
      (readItems value (inside.length + 1) inside).map fun (items, rest) => (.array items, rest) := by
  unfold readStart
  simp only [first]
  split
  · rename_i closed
    cases closed
    exact absurd rfl ne
  · rfl

theorem readStart_of_brace (value : Reader Json) {inside after : List Char} {c : Char}
    (first : skipSpace inside = c :: after) (ne : c ≠ '\x7d') :
    readStart value ('\x7b' :: inside) =
      (readMembers value (inside.length + 1) inside).map fun (members, rest) =>
        (.object members, rest) := by
  unfold readStart
  simp only [first]
  split
  · rename_i closed
    cases closed
    exact absurd rfl ne
  · rfl

theorem reads_array {n depth : Nat} {items : List Json}
    (reads : ∀ item ∈ items, Reads (readValue n) (depth + 1) item) :
    Reads (readValue (n + 1)) depth (.array items) := by
  intro blank rest blanks _
  cases items with
  | nil =>
    rw [write, List.cons_append, readValue_succ n (skipSpace_before blanks rfl _)]
    rfl
  | cons first items =>
    obtain ⟨c, text, spelled, space, bracket⟩ := write_eq_cons (depth + 1) first
    have few := length_le_writeItems (depth + 1) items
    rw [write]
    simp only [List.cons_append, List.append_assoc, List.nil_append]
    rw [readValue_succ n (skipSpace_before blanks rfl _),
      readStart_of_bracket _ (by rw [spelled, List.cons_append,
        skipSpace_before isSpace_of_mem_newLine space]) bracket, readItems_written reads]
    · rfl
    · simp only [List.length_append]
      omega

theorem reads_object {n depth : Nat} {members : List (Option String × Json)}
    (names : ∀ m ∈ members, m.1.isSome) (reads : ∀ m ∈ members, Reads (readValue n) (depth + 1) m.2) :
    Reads (readValue (n + 1)) depth (.object members) := by
  intro blank rest blanks _
  cases members with
  | nil =>
    rw [write, List.cons_append, readValue_succ n (skipSpace_before blanks rfl _)]
    rfl
  | cons first members =>
    obtain ⟨name, j⟩ := first
    obtain ⟨isText, areTexts⟩ := List.forall_mem_cons.1 names
    obtain ⟨name, rfl⟩ := Option.isSome_iff_exists.1 isText
    have few := length_le_writeMembers (depth + 1) members
    rw [write]
    simp only [List.cons_append, List.append_assoc, List.nil_append]
    rw [readValue_succ n (skipSpace_before blanks rfl _),
      readStart_of_brace _ (by rw [quote, List.cons_append, List.cons_append,
        skipSpace_before isSpace_of_mem_newLine rfl]) (by decide), readMembers_written areTexts reads]
    · rfl
    · simp only [List.length_append, List.length_cons]
      omega

/-- A value is read back by any reader whose bound is above the length of its text. -/
theorem reads_write {j : Json} (h : Textual j) {n depth : Nat} (bound : (write depth j).length < n) :
    Reads (readValue n) depth j := by
  -- What is nested in a value is written on less text.
  induction n generalizing j depth with
  | zero => exact absurd bound (Nat.not_lt_zero _)
  | succ n ih =>
    cases h with
    | integer i => exact reads_integer n depth i
    | null =>
      intro blank rest blanks _
      rw [write, List.cons_append, readValue_succ n (skipSpace_before blanks rfl _)]
      rfl
    | bool b =>
      intro blank rest blanks _
      cases b <;>
      · rw [write, List.cons_append, readValue_succ n (skipSpace_before blanks rfl _)]
        rfl
    | string s =>
      intro blank rest blanks _
      rw [write, quote, List.cons_append, List.cons_append,
        readValue_succ n (skipSpace_before blanks rfl _)]
      simp only [readStart, List.append_assoc, Option.getD_some, List.singleton_append,
        readString_quote, Option.map_some]
    | array values =>
      exact reads_array fun item hi =>
        ih (values item hi) (Nat.lt_of_lt_of_le (length_write_item hi) (Nat.le_of_lt_succ bound))
    | object names values =>
      exact reads_object names fun m hm =>
        ih (values m hm) (Nat.lt_of_lt_of_le (length_write_member hm) (Nat.le_of_lt_succ bound))

/-- A written text denotes the value that was written, also with blanks after it. -/
theorem parse?_append_pretty {j : Json} (h : Textual j) (blank : String)
    (blanks : ∀ c ∈ blank.toList, isSpace c = true) : parse? (j.pretty ++ blank) = some j := by
  have ends : EndsNumber blank.toList := by
    intro c hc
    have space := blanks c (List.mem_of_mem_head? hc)
    simp only [isSpace, Bool.or_eq_true, decide_eq_true_eq] at space
    rcases space with ((rfl | rfl) | rfl) | rfl <;> decide
  have bound : (write 0 j).length < (j.pretty ++ blank).length + 1 := by
    simp only [pretty, String.length_append, String.length_ofList]
    omega
  have read := reads_write h bound [] blank.toList (List.forall_mem_nil _) ends
  have nothing : skipSpace blank.toList = [] := by
    rw [← List.append_nil blank.toList, skipSpace_append blanks]
    rfl
  have text : (j.pretty ++ blank).toList = write 0 j ++ blank.toList := by simp [pretty]
  rw [List.nil_append, ← text] at read
  simp only [parse?, read, nothing, List.isEmpty_nil, if_true]

/-! ## The standard library -/

/-- Names that are all known are handed on. -/
theorem mapM_known (members : List (String × Json)) :
    (members.map fun (name, j) => (some name, j)).mapM
      (fun (name, j) => (name : Option String).map (·, j)) = some members := by
  induction members with
  | nil => rfl
  | cons m members ih => simp [ih]

/-- Of a written record exactly the known members are found. -/
theorem fields?_ofFields (names : List String) {members : List (String × Json)}
    (distinct : (members.map (·.1)).Nodup) :
    fields? names (ofFields members) =
      some ⟨false, members.filter fun (name, _) => names.contains name⟩ := by
  have kept : ((members.filter fun (name, _) => names.contains name).map (·.1)).Nodup :=
    distinct.sublist (List.filter_sublist.map _)
  simp only [fields?, ofFields, mapM_known]
  rw [if_pos kept]

theorem lawful_standard : Library.standard.Lawful where
  parse?_print _ h blank blanks := parse?_append_pretty h blank blanks
  record?_ofFields names _ distinct := fields?_ofFields names distinct
  variant?_text _ := rfl

end Reflection.Json
