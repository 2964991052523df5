import Mathlib.Data.List.Find
import Mathlib.Data.String.Basic
import Mathlib.Tactic.SplitIfs
import Reflection.Proofs.Source.Characters
/-!
# Places in bytes are ends of characters

The lexer computes places byte by byte. On the bytes of a text they are the places that the same pieces
have in the text: what takes `n` characters ends at the byte where the next character begins
(`place`). So nothing is ever cut inside a character, and the lexer yields what the walk over the
characters yields (`classify?_encode`, `items_eq_walk`).

A byte below `0x80` is a character of its own, and all bytes of any other character are above. A scanner
that looks for characters below `0x80` passes over the others, however many bytes they have.
-/

namespace Reflection.Source

/-! ## The bytes of characters -/

/-- The bytes of a list of characters. -/
def encode (text : List Char) : Bytes :=
  text.flatMap String.utf8EncodeChar

@[simp] theorem encode_nil : encode [] = [] := rfl

theorem encode_cons (c : Char) (text : List Char) : encode (c :: text) = String.utf8EncodeChar c ++ encode text := rfl

@[simp] theorem encode_append (p rest : List Char) : encode (p ++ rest) = encode p ++ encode rest :=
  List.flatMap_append

theorem toByteArray_encode (text : List Char) : (encode text).toByteArray = text.utf8Encode := rfl

theorem bytesOf_eq_encode (source : String) : bytesOf source = encode source.toList := by
  rw [bytesOf, String.toUTF8, ← String.utf8Encode_toList, ← toByteArray_encode, List.data_toByteArray]

theorem length_encode (text : List Char) : (encode text).length = byteLength text := by
  induction text with
  | nil => rfl
  | cons c text ih =>
    rw [encode_cons, List.length_append, String.length_utf8EncodeChar, ih]
    rfl

theorem prefix_of_encode {p text : List Char} (h : encode p <+: encode text) : p <+: text := by
  obtain ⟨more, e⟩ := h
  refine List.isPrefix_of_utf8Encode_append_eq_utf8Encode more.toByteArray ?_
  rw [← toByteArray_encode, ← toByteArray_encode, ← e, List.toByteArray_append]

theorem encode_prefix_iff {p text : List Char} : encode p <+: encode text ↔ p <+: text := by
  refine ⟨prefix_of_encode, ?_⟩
  rintro ⟨more, rfl⟩
  exact ⟨encode more, (encode_append p more).symm⟩

theorem encode_injective : Function.Injective encode := by
  intro a b e
  have front : a <+: b := prefix_of_encode (e ▸ List.prefix_rfl)
  have back : b <+: a := prefix_of_encode (e ▸ List.prefix_rfl)
  exact front.eq_of_length_le back.length_le

/-! ## One character -/

/-- A character of one byte. -/
def IsAscii (c : Char) : Prop :=
  c.toNat < 0x80

instance (c : Char) : Decidable (IsAscii c) := inferInstanceAs (Decidable (_ < _))

variable {c : Char} {b : UInt8} {text rest : List Char}

theorem encode_of_isAscii (h : IsAscii c) : String.utf8EncodeChar c = [c.toUInt8] := by
  have small : c.val.toNat ≤ 127 := Nat.le_of_lt_succ h
  rw [String.utf8EncodeChar, if_pos small]
  rfl

theorem ofUInt8_of_isAscii (h : IsAscii c) : Char.ofUInt8 c.toUInt8 = c := by
  refine Char.ext (UInt32.toNat_inj.1 ?_)
  have small : c.val.toNat < 256 := Nat.lt_trans h (by decide)
  show (c.val.toUInt8.toUInt32).toNat = c.val.toNat
  rw [UInt8.toNat_toUInt32, UInt32.toNat_toUInt8, Nat.mod_eq_of_lt small]

theorem encode_ascii_cons (h : IsAscii c) (rest : List Char) : encode (c :: rest) = c.toUInt8 :: encode rest := by
  rw [encode_cons, encode_of_isAscii h]
  rfl

theorem ascii_eq_encode {p : List Char} (h : ∀ c ∈ p, IsAscii c) : ascii p = encode p := by
  induction p with
  | nil => rfl
  | cons c p ih =>
    rw [encode_ascii_cons (h c List.mem_cons_self), ← ih fun x hx => h x (List.mem_cons_of_mem c hx)]
    rfl

/-- The bytes of a character that has more than one: the first says how many they are, the others go on. -/
theorem encode_of_not_isAscii (h : ¬ IsAscii c) :
    ∃ first more, String.utf8EncodeChar c = first :: more ∧ 0xc0 ≤ first ∧
      (∀ b ∈ more, Bytes.isContinuation b) ∧ ∀ rest, Bytes.characterSize (first :: rest) = more.length + 1 := by
  have large : ¬ c.val.toNat ≤ 127 := fun small => h (Nat.lt_succ_of_le small)
  have top : c.val.toNat < 0x110000 := c.valid.elim (Nat.lt_trans · (by decide)) And.right
  rw [String.utf8EncodeChar, if_neg large]
  generalize c.val.toNat = v at large top
  simp only [Bytes.isContinuation, Bytes.characterSize, Bool.and_eq_true, decide_eq_true_eq, UInt8.le_iff_toNat_le,
    UInt8.lt_iff_toNat_lt]
  split_ifs
  all_goals
    refine ⟨_, _, rfl, ?_, ?_, fun _ => ?_⟩
    · simp
      omega
    · simp
      omega
    · simp
      split_ifs <;> omega

theorem not_isAscii_ofUInt8 (h : 0x80 ≤ b) : ¬ IsAscii (Char.ofUInt8 b) := by
  have value : (Char.ofUInt8 b).toNat = b.toNat := UInt8.toNat_toUInt32 b
  rw [IsAscii, value, Nat.not_lt]
  exact UInt8.le_iff_toNat_le.1 h

theorem not_isAscii_of_isContinuation (h : Bytes.isContinuation b) : ¬ IsAscii (Char.ofUInt8 b) := by
  rw [Bytes.isContinuation, Bool.and_eq_true, decide_eq_true_eq] at h
  exact not_isAscii_ofUInt8 h.1

/-- Every byte of a character that is not ASCII is above. -/
theorem not_isAscii_of_mem_encode (h : ¬ IsAscii c) (hb : b ∈ String.utf8EncodeChar c) :
    ¬ IsAscii (Char.ofUInt8 b) := by
  obtain ⟨first, more, e, lead, go, -⟩ := encode_of_not_isAscii h
  rw [e] at hb
  rcases List.mem_cons.1 hb with rfl | hb
  · exact not_isAscii_ofUInt8 (UInt8.le_trans (by decide) lead)
  · exact not_isAscii_of_isContinuation (go b hb)

/-- A character begins with a byte that goes on with none. -/
theorem atCharacter_encode (text : List Char) : Bytes.atCharacter (encode text) := by
  cases text with
  | nil => rfl
  | cons c text =>
    rw [encode_cons]
    by_cases h : IsAscii c
    · rw [encode_of_isAscii h]
      have small : ¬ Bytes.isContinuation c.toUInt8 := fun go =>
        not_isAscii_of_isContinuation go (by rwa [ofUInt8_of_isAscii h])
      simpa [Bytes.atCharacter] using small
    · obtain ⟨first, more, e, lead, -⟩ := encode_of_not_isAscii h
      rw [e]
      have above : ¬ first < 0xc0 := UInt8.not_lt.2 lead
      simp [Bytes.atCharacter, Bytes.isContinuation, above]

/-! ## Places -/

/-- The byte at which the character after `n` others begins. -/
def place (text : List Char) (n : Nat) : Nat :=
  byteLength (text.take n)

@[simp] theorem place_zero (text : List Char) : place text 0 = 0 := rfl

theorem place_cons_succ (c : Char) (text : List Char) (n : Nat) :
    place (c :: text) (n + 1) = c.utf8Size + place text n := rfl

theorem place_wide_succ (c : Char) (text : List Char) (n : Nat) :
    place (c :: text) (n + 1) = place text n + (String.utf8EncodeChar c).length := by
  rw [place_cons_succ, String.length_utf8EncodeChar, Nat.add_comm]

theorem place_ascii_succ (h : IsAscii c) (text : List Char) (n : Nat) : place (c :: text) (n + 1) = place text n + 1 := by
  rw [place_cons_succ, ← String.length_utf8EncodeChar, encode_of_isAscii h, Nat.add_comm]
  rfl

theorem place_length (text : List Char) : place text text.length = (encode text).length := by
  rw [place, List.take_length, length_encode]

theorem encode_split (text : List Char) (n : Nat) : encode text = encode (text.take n) ++ encode (text.drop n) := by
  rw [← encode_append, List.take_append_drop]

theorem take_place (text : List Char) (n : Nat) : (encode text).take (place text n) = encode (text.take n) := by
  rw [encode_split text n, place, ← length_encode, List.take_left]

theorem drop_place (text : List Char) (n : Nat) : (encode text).drop (place text n) = encode (text.drop n) := by
  rw [encode_split text n, place, ← length_encode, List.drop_left]

theorem place_le (text : List Char) (n : Nat) : place text n ≤ (encode text).length := by
  rw [encode_split text n, List.length_append, place, ← length_encode]
  exact Nat.le_add_right _ _

theorem place_add (text : List Char) (m n : Nat) : place text (m + n) = place text m + place (text.drop m) n := by
  rw [place, place, place, List.take_add, byteLength_append]

/-- A place may be cut at. -/
theorem upTo?_place (text : List Char) (n : Nat) : Bytes.upTo? (place text n) (encode text) = some (encode (text.take n)) := by
  rw [Bytes.upTo?, drop_place, take_place, if_pos]
  simp [place_le, atCharacter_encode]

theorem from?_place (text : List Char) (n : Nat) : Bytes.from? (place text n) (encode text) = some (encode (text.drop n)) := by
  rw [Bytes.from?, drop_place, if_pos]
  simp [place_le, atCharacter_encode]

theorem cut?_place (text : List Char) (n : Nat) :
    Bytes.cut? (place text n) (encode text) = some (String.ofList (text.take n)) := by
  have valid : (encode (text.take n)).toByteArray.IsValidUTF8 := ByteArray.isValidUTF8_utf8Encode
  rw [Bytes.cut?, if_pos (atCharacter_encode text), upTo?_place, Option.bind_some, String.fromUTF8?, dif_pos valid]
  rfl

/-! ## Looking -/

/-- Looking for a character below `0x80` in front finds it in the bytes and the characters alike. -/
theorem head?_encode_eq_some_iff {x : Char} (ascii : IsAscii x) (text : List Char) :
    (encode text).head?.map Char.ofUInt8 = some x ↔ text.head? = some x := by
  cases text with
  | nil => exact ⟨nofun, nofun⟩
  | cons c text =>
    rw [encode_cons]
    by_cases h : IsAscii c
    · rw [encode_of_isAscii h, List.singleton_append, List.head?_cons, Option.map_some, ofUInt8_of_isAscii h,
        List.head?_cons]
    · obtain ⟨first, more, e, -⟩ := encode_of_not_isAscii h
      have above := not_isAscii_of_mem_encode h (e ▸ List.mem_cons_self : first ∈ _)
      rw [e, List.cons_append, List.head?_cons, Option.map_some, List.head?_cons]
      refine ⟨fun found => absurd ascii ?_, fun found => absurd ascii ?_⟩
      · exact Option.some.inj found ▸ above
      · exact Option.some.inj found ▸ h

theorem any_head?_encode {p : Char → Bool} (only : ∀ c, p c → IsAscii c) (text : List Char) :
    ((encode text).head?.map Char.ofUInt8).any p = text.head?.any p := by
  rw [Bool.eq_iff_iff, Option.any_eq_true, Option.any_eq_true]
  constructor
  · rintro ⟨x, found, holds⟩
    exact ⟨x, (head?_encode_eq_some_iff (only x holds) text).1 found, holds⟩
  · rintro ⟨x, found, holds⟩
    exact ⟨x, (head?_encode_eq_some_iff (only x holds) text).2 found, holds⟩

/-- A run of bytes is a run of characters, if it makes no difference between characters that are not ASCII. -/
theorem takeWhile_encode {p : Char → Bool} (uniform : ∀ c d, ¬ IsAscii c → ¬ IsAscii d → p c = p d)
    (text : List Char) : (encode text).takeWhile (fun b => p (Char.ofUInt8 b)) = encode (text.takeWhile p) := by
  induction text with
  | nil => rfl
  | cons c text ih =>
    have same : ∀ b ∈ String.utf8EncodeChar c, p (Char.ofUInt8 b) = p c := by
      by_cases h : IsAscii c
      · rw [encode_of_isAscii h]
        intro b hb
        rw [List.mem_singleton.1 hb, ofUInt8_of_isAscii h]
      · exact fun b hb => uniform _ _ (not_isAscii_of_mem_encode h hb) h
    rw [encode_cons]
    by_cases holds : p c
    · rw [List.takeWhile_append_of_pos fun b hb => (same b hb).trans holds, ih, List.takeWhile_cons_of_pos holds]
      rfl
    · obtain ⟨first, more, e⟩ := List.exists_cons_of_ne_nil (String.utf8EncodeChar_ne_nil (c := c))
      have stops : ¬ p (Char.ofUInt8 first) := by
        rwa [same first (e ▸ List.mem_cons_self)]
      rw [e, List.cons_append, List.takeWhile_cons, if_neg stops, List.takeWhile_cons_of_neg holds]
      rfl

theorem length_takeWhile_encode {p : Char → Bool} (uniform : ∀ c d, ¬ IsAscii c → ¬ IsAscii d → p c = p d)
    (text : List Char) : ((encode text).takeWhile fun b => p (Char.ofUInt8 b)).length =
      place text (text.takeWhile p).length := by
  rw [takeWhile_encode uniform, length_encode, place, ← List.prefix_iff_eq_take.1 (List.takeWhile_prefix p)]

/-- A pattern is found in the bytes where it is found in the text: it does not begin inside a character. -/
theorem find?_encode {pattern : List Char} (ne : pattern ≠ []) (text : List Char) :
    find? (encode pattern) (encode text) = (find? pattern text).map (place text) := by
  have lead : ∀ b bs, Bytes.isContinuation b → ¬ (encode pattern).isPrefixOf (b :: bs) := by
    intro b bs go front
    obtain ⟨x, more, rfl⟩ := List.exists_cons_of_ne_nil ne
    obtain ⟨first, others, e⟩ := List.exists_cons_of_ne_nil (String.utf8EncodeChar_ne_nil (c := x))
    have at' := atCharacter_encode (x :: more)
    rw [encode_cons, e, List.cons_append] at front at'
    rw [List.isPrefixOf_iff_prefix, List.cons_prefix_cons] at front
    rw [Bytes.atCharacter, front.1, go] at at'
    cases at'
  have inside : ∀ more bs, (∀ b ∈ more, Bytes.isContinuation b) →
      find? (encode pattern) (more ++ bs) = (find? (encode pattern) bs).map (· + more.length) := by
    intro more bs go
    induction more with
    | nil => simp
    | cons b more ih =>
      rw [List.cons_append, find?, if_neg (lead b _ (go b List.mem_cons_self)),
        ih fun x hx => go x (List.mem_cons_of_mem b hx), Option.map_map]
      rfl
  induction text with
  | nil =>
    obtain ⟨x, more, rfl⟩ := List.exists_cons_of_ne_nil ne
    obtain ⟨first, others, e⟩ := List.exists_cons_of_ne_nil (String.utf8EncodeChar_ne_nil (c := x))
    rw [encode_cons, e]
    rfl
  | cons c text ih =>
    obtain ⟨first, more, e, go⟩ : ∃ first more, String.utf8EncodeChar c = first :: more ∧
        ∀ b ∈ more, Bytes.isContinuation b := by
      by_cases h : IsAscii c
      · exact ⟨_, [], encode_of_isAscii h, by simp⟩
      · obtain ⟨first, more, e, -, go, -⟩ := encode_of_not_isAscii h
        exact ⟨first, more, e, go⟩
    have whole : first :: (more ++ encode text) = encode (c :: text) := by rw [encode_cons, e, List.cons_append]
    have size : c.utf8Size = more.length + 1 := by rw [← String.length_utf8EncodeChar, e, List.length_cons]
    have same : (encode pattern).isPrefixOf (first :: (more ++ encode text)) = pattern.isPrefixOf (c :: text) := by
      rw [Bool.eq_iff_iff, List.isPrefixOf_iff_prefix, List.isPrefixOf_iff_prefix, whole, encode_prefix_iff]
    rw [← whole, find?, find?, same]
    split
    · rfl
    · rw [inside more _ go, ih, Option.map_map, Option.map_map, Option.map_map]
      congr 1
      funext n
      simp only [Function.comp_apply, place_cons_succ, size]
      omega

/-! ## Character classes are ASCII -/

theorem isAscii_of_isSpace (h : isSpace c) : IsAscii c := by
  simp only [isSpace, Bool.or_eq_true, decide_eq_true_eq] at h
  rcases h with ((((rfl | rfl) | rfl) | rfl) | rfl) | rfl <;> decide

theorem isAscii_of_isDigit (h : isDigit c) : IsAscii c := by
  simp only [isDigit, Char.isDigit, Bool.and_eq_true, decide_eq_true_eq, UInt32.le_iff_toNat_le] at h
  exact Nat.lt_of_le_of_lt h.2 (by decide)

theorem isAscii_of_isAlpha (h : c.isAlpha) : IsAscii c := by
  delta Char.isAlpha Char.isUpper Char.isLower at h
  simp only [Bool.or_eq_true, Bool.and_eq_true, decide_eq_true_eq, UInt32.le_iff_toNat_le] at h
  rcases h with h | h
  · exact Nat.lt_of_le_of_lt h.2 (by decide)
  · exact Nat.lt_of_le_of_lt h.2 (by decide)

theorem isAscii_of_isWordStart (h : isWordStart c) : IsAscii c := by
  rw [isWordStart, Bool.or_eq_true, decide_eq_true_eq] at h
  rcases h with rfl | letter
  · decide
  · exact isAscii_of_isAlpha letter

theorem isAscii_of_isWordPart (h : isWordPart c) : IsAscii c := by
  rw [isWordPart, Char.isAlphanum, Bool.or_eq_true, Bool.or_eq_true, decide_eq_true_eq] at h
  rcases h with rfl | letter | digit
  · decide
  · exact isAscii_of_isAlpha letter
  · exact isAscii_of_isDigit digit

theorem isAscii_of_isHexDigit (h : isHexDigit c) : IsAscii c := by
  simp only [isHexDigit, Bool.or_eq_true, Bool.and_eq_true, decide_eq_true_eq, Char.le_def,
    UInt32.le_iff_toNat_le] at h
  rcases h with (digit | h) | h
  · exact isAscii_of_isDigit digit
  · exact Nat.lt_of_le_of_lt h.2 (by decide)
  · exact Nat.lt_of_le_of_lt h.2 (by decide)

theorem isAscii_of_isExponentMark {hex : Bool} (h : isExponentMark hex c) : IsAscii c := by
  cases hex <;> (simp [isExponentMark] at h; rcases h with rfl | rfl <;> decide)

theorem uniform_of_only {p : Char → Bool} (only : ∀ c, p c → IsAscii c) (c d : Char) (hc : ¬ IsAscii c)
    (hd : ¬ IsAscii d) : p c = p d := by
  rw [Bool.eq_false_iff.2 fun h => hc (only c h), Bool.eq_false_iff.2 fun h => hd (only d h)]

theorem ne_of_not_isAscii {x : Char} (h : ¬ IsAscii c) (ascii : IsAscii x) : c ≠ x := by
  rintro rfl
  exact h ascii

/-! ## Blanks -/

theorem spaceLength_encode (text : List Char) : Bytes.spaceLength (encode text) = place text (spaceLength text) :=
  length_takeWhile_encode (uniform_of_only fun _ => isAscii_of_isSpace) text

theorem wordLength_encode (text : List Char) : Bytes.wordLength (encode text) = place text (wordLength text) :=
  length_takeWhile_encode (uniform_of_only fun _ => isAscii_of_isWordPart) text

theorem lineLength_encode (text : List Char) : Bytes.lineLength (encode text) = place text (lineLength text) := by
  refine length_takeWhile_encode (p := (· ≠ '\n')) (fun c d hc hd => ?_) text
  have ascii : IsAscii '\n' := by decide
  simp [ne_of_not_isAscii hc ascii, ne_of_not_isAscii hd ascii]

theorem commentEnd_eq_encode : Bytes.commentEnd = encode ['*', '/'] := by decide

theorem place_of_find? {pattern : List Char} {n : Nat} (h : find? pattern text = some n) :
    place text (n + pattern.length) = place text n + (encode pattern).length := by
  rw [place, take_of_find? h, byteLength_append, ← length_encode pattern]
  rfl

theorem blockComment_encode (rest : List Char) :
    Bytes.blockComment (encode ('/' :: '*' :: rest)) = some (match blockCommentLength? ('/' :: '*' :: rest) with
      | some n => .ok (place ('/' :: '*' :: rest) n)
      | none => .error .unterminatedComment) := by
  have two (n : Nat) : place ('/' :: '*' :: rest) (n + 2) = place rest n + 2 := by
    rw [place_ascii_succ (by decide), place_ascii_succ (by decide)]
  have behind := from?_place ('/' :: '*' :: rest) 2
  rw [two 0, place_zero] at behind
  rw [Bytes.blockComment, behind, Option.map_some, commentEnd_eq_encode, find?_encode (by simp), blockCommentLength?]
  cases found : find? ['*', '/'] rest with
  | none => simp [found]
  | some n =>
    have past : place ('/' :: '*' :: rest) (n + 4) = place rest n + 4 := by
      rw [two (n + 2)]
      exact congrArg (· + 2) (place_of_find? found)
    simp [found, past]

theorem directiveLength?_above {more : Bytes} (above : ∀ b ∈ more, ¬ IsAscii (Char.ofUInt8 b)) (bytes : Bytes) :
    Bytes.directiveLength? (more ++ bytes) = (Bytes.directiveLength? bytes).map (· + more.length) := by
  induction more with
  | nil => simp
  | cons b more ih =>
    have plain {x : Char} (ascii : IsAscii x) : Char.ofUInt8 b ≠ x :=
      ne_of_not_isAscii (above b List.mem_cons_self) ascii
    have backslash := plain (x := '\\') (by decide)
    have feed := plain (x := '\n') (by decide)
    have slash := plain (x := '/') (by decide)
    rw [List.cons_append, Bytes.directiveLength?]
    simp only [backslash, feed, slash, decide_false, Bool.false_and, Bool.false_eq_true, if_false]
    rw [ih fun x hx => above x (List.mem_cons_of_mem b hx), Option.map_map]
    rfl

theorem from?_star (rest : List Char) : Bytes.from? 1 ('*'.toUInt8 :: encode rest) = some (encode rest) := by
  have behind := from?_place ('*' :: rest) 1
  rwa [encode_ascii_cons (by decide), place_ascii_succ (by decide)] at behind

theorem directiveLength?_encode (text : List Char) :
    Bytes.directiveLength? (encode text) = some (place text (directiveLength text)) := by
  fun_induction directiveLength text with
  | case1 =>
    rw [encode_nil, Bytes.directiveLength?]
    rfl
  | case2 rest ih =>
    rw [encode_ascii_cons (by decide), encode_ascii_cons (by decide), Bytes.directiveLength?,
      place_ascii_succ (by decide), place_ascii_succ (by decide)]
    show (Bytes.directiveLength? (encode rest)).map (· + 2) = _
    rw [ih]
    rfl
  | case3 rest ih =>
    rw [encode_ascii_cons (by decide), encode_ascii_cons (by decide), encode_ascii_cons (by decide),
      Bytes.directiveLength?, place_ascii_succ (by decide), place_ascii_succ (by decide),
      place_ascii_succ (by decide)]
    show (Bytes.directiveLength? (encode rest)).map (· + 3) = _
    rw [ih]
    rfl
  | case4 rest =>
    rw [encode_ascii_cons (by decide), Bytes.directiveLength?]
    rfl
  | case5 rest n closed ih =>
    have ended : place rest (n + 2) = place rest n + 2 := place_of_find? closed
    have past : (encode rest).drop (place rest n + 2) = encode (rest.drop (n + 2)) := by rw [← ended, drop_place]
    have whole (m : Nat) : place ('/' :: '*' :: rest) (m + (n + 4)) = place (rest.drop (n + 2)) m + (place rest n + 4) := by
      have order : m + (n + 4) = n + 2 + m + 1 + 1 := by omega
      rw [order, place_ascii_succ (by decide), place_ascii_succ (by decide), place_add, ended]
      omega
    rw [encode_ascii_cons (by decide), encode_ascii_cons (by decide), Bytes.directiveLength?, whole]
    rw [from?_star]
    dsimp only
    rw [commentEnd_eq_encode, find?_encode (by simp), closed]
    show (Bytes.directiveLength? ((encode rest).drop (place rest n + 2))).map (· + (place rest n + 4)) = _
    rw [past, ih]
    rfl
  | case6 rest unclosed =>
    rw [encode_ascii_cons (by decide), encode_ascii_cons (by decide), Bytes.directiveLength?]
    rw [from?_star]
    dsimp only
    rw [commentEnd_eq_encode, find?_encode (by simp), unclosed, place_length]
    rfl
  | case7 c rest escape escape' feed comment ih =>
    rw [place_wide_succ]
    by_cases ascii : IsAscii c
    · have first : Char.ofUInt8 c.toUInt8 = c := ofUInt8_of_isAscii ascii
      have next {x : Char} (ascii : IsAscii x) (front : (encode rest).head?.map Char.ofUInt8 = some x) :
          ∃ more, rest = x :: more :=
        List.head?_eq_some_iff.1 ((head?_encode_eq_some_iff ascii _).1 front)
      rw [encode_ascii_cons ascii, Bytes.directiveLength?, ih, encode_of_isAscii ascii]
      simp only [first, Bool.and_eq_true, decide_eq_true_eq]
      rw [if_neg, if_neg, if_neg feed, if_neg]
      · rfl
      · rintro ⟨slash, front⟩
        obtain ⟨more, rfl⟩ := next (by decide) front
        exact comment more slash rfl
      · rintro ⟨⟨backslash, front⟩, behind⟩
        obtain ⟨more, rfl⟩ := next (by decide) front
        rw [encode_ascii_cons (by decide), List.drop_one, List.tail_cons, head?_encode_eq_some_iff (by decide)] at behind
        obtain ⟨more, rfl⟩ := List.head?_eq_some_iff.1 behind
        exact escape' more backslash rfl
      · rintro ⟨backslash, front⟩
        obtain ⟨more, rfl⟩ := next (by decide) front
        exact escape more backslash rfl
    · rw [encode_cons, directiveLength?_above (fun b hb => not_isAscii_of_mem_encode ascii hb), ih]
      rfl

/-! ## Literals -/

theorem quotedLength?_cons {quote : Char} (plain : Char.ofUInt8 b ≠ '\\') (bytes : Bytes) :
    Bytes.quotedLength? quote (b :: bytes) =
      if Char.ofUInt8 b = '\n' then none
      else if Char.ofUInt8 b = quote then some 1
      else (Bytes.quotedLength? quote bytes).map (· + 1) := by
  cases bytes with
  | nil => exact if_neg plain
  | cons => rw [Bytes.quotedLength?, if_neg plain]

theorem quotedLength?_above {quote : Char} (marked : IsAscii quote) {more : Bytes}
    (above : ∀ b ∈ more, ¬ IsAscii (Char.ofUInt8 b)) (bytes : Bytes) :
    Bytes.quotedLength? quote (more ++ bytes) = (Bytes.quotedLength? quote bytes).map (· + more.length) := by
  induction more with
  | nil => simp
  | cons b more ih =>
    have plain {x : Char} (ascii : IsAscii x) : Char.ofUInt8 b ≠ x :=
      ne_of_not_isAscii (above b List.mem_cons_self) ascii
    rw [List.cons_append, quotedLength?_cons (plain (by decide)), if_neg (plain (by decide)), if_neg (plain marked), ih fun x hx => above x (List.mem_cons_of_mem b hx), Option.map_map]
    rfl

theorem quotedLength?_encode {quote : Char} (marked : IsAscii quote) (text : List Char) :
    Bytes.quotedLength? quote (encode text) = (quotedLength? quote text).map (place text) := by
  fun_induction quotedLength? quote text with
  | case1 => rfl
  | case2 => rfl
  | case3 d rest ih =>
    obtain ⟨first, more, e, above⟩ : ∃ first more, String.utf8EncodeChar d = first :: more ∧
        ∀ b ∈ more, ¬ IsAscii (Char.ofUInt8 b) := by
      by_cases ascii : IsAscii d
      · exact ⟨_, [], encode_of_isAscii ascii, by simp⟩
      · obtain ⟨first, more, e, -, go, -⟩ := encode_of_not_isAscii ascii
        exact ⟨first, more, e, fun b hb => not_isAscii_of_isContinuation (go b hb)⟩
    have whole (n : Nat) : place ('\\' :: d :: rest) (n + 2) = place rest n + more.length + 2 := by
      rw [place_ascii_succ (by decide), place_wide_succ, e]
      rfl
    rw [encode_ascii_cons (by decide), encode_cons, e, List.cons_append, Bytes.quotedLength?, if_pos (by decide)]
    show (Bytes.quotedLength? quote (more ++ encode rest)).map (· + 2) = _
    rw [quotedLength?_above marked above, ih]
    cases quotedLength? quote rest with
    | none => rfl
    | some n => exact congrArg some (whole n).symm
  | case4 rest =>
    rw [encode_ascii_cons (by decide), quotedLength?_cons (by decide)]
    rfl
  | case5 rest backslash feed =>
    have first := ofUInt8_of_isAscii marked
    rw [encode_ascii_cons marked, quotedLength?_cons (first.symm ▸ backslash), first, if_neg feed, if_pos rfl,
      Option.map_some, place_ascii_succ marked]
    rfl
  | case6 c rest backslash feed differs ih =>
    have past : (quotedLength? quote rest).map (fun n => place rest n + (String.utf8EncodeChar c).length) =
        ((quotedLength? quote rest).map (· + 1)).map (place (c :: rest)) := by
      rw [Option.map_map]
      exact congrArg (Option.map · _) (funext fun n => (place_wide_succ c rest n).symm)
    rw [← past]
    by_cases ascii : IsAscii c
    · have first := ofUInt8_of_isAscii ascii
      rw [encode_ascii_cons ascii, quotedLength?_cons (first.symm ▸ backslash), first, if_neg feed, if_neg differs, ih,
        encode_of_isAscii ascii, Option.map_map]
      rfl
    · rw [encode_cons, quotedLength?_above marked (fun b hb => not_isAscii_of_mem_encode ascii hb), ih, Option.map_map]
      rfl

theorem any_encode {p : Char → Bool} (only : ∀ c, p c → IsAscii c) (text : List Char) :
    (encode text).any (fun b => p (Char.ofUInt8 b)) = text.any p := by
  induction text with
  | nil => rfl
  | cons c text ih =>
    have same : (String.utf8EncodeChar c).any (fun b => p (Char.ofUInt8 b)) = p c := by
      by_cases ascii : IsAscii c
      · rw [encode_of_isAscii ascii, List.any_cons, ofUInt8_of_isAscii ascii, List.any_nil, Bool.or_false]
      · rw [Bool.eq_false_iff.2 fun h => ascii (only c h), List.any_eq_false]
        exact fun b hb h => not_isAscii_of_mem_encode ascii hb (only _ h)
    rw [encode_cons, List.any_append, same, ih, List.any_cons]

theorem any_isForbidden_encode (delimiter : List Char) : (encode delimiter).any Bytes.isForbidden =
    !delimiter.all (fun c => !isSpace c && c ≠ '\\' && c ≠ ')') := by
  have only (c : Char) (h : isSpace c || c = '\\' || c = ')') : IsAscii c := by
    simp only [Bool.or_eq_true, decide_eq_true_eq] at h
    rcases h with (space | rfl) | rfl
    · exact isAscii_of_isSpace space
    · decide
    · decide
  have forbidden := any_encode (p := fun c => isSpace c || c = '\\' || c = ')') only delimiter
  refine forbidden.trans ?_
  rw [List.not_all_eq_any_not]
  congr 1
  funext c
  simp

theorem rawString_encode (text : List Char) :
    Bytes.rawString (encode text) = some (match rawLength text with
      | .ok n => .ok (place text n)
      | .error .delimiter => .error .invalidRawString
      | .error .unclosed => .error .unterminatedString) := by
  have bracket : find? (ascii ['(']) (encode text) = (find? ['('] text).map (place text) := by
    rw [ascii_eq_encode (List.forall_mem_singleton.2 (by decide)), find?_encode (by simp)]
  rw [Bytes.rawString, bracket, rawLength, rawDelimiter?]
  cases found : find? ['('] text with
  | none => rfl
  | some n =>
    have within : (text.take n).length = n := by
      have cut := congrArg List.length (take_of_find? found)
      simp only [List.length_append, List.length_take, List.length_singleton] at cut ⊢
      omega
    rw [Option.map_some]
    dsimp only
    rw [upTo?_place, from?_place]
    dsimp only
    rw [any_isForbidden_encode, show byteLength (text.take n) = place text n from rfl]
    by_cases long : maxDelimiter < place text n
    · rw [if_pos long, if_neg]
      simp [Nat.not_le.2 long]
    rw [if_neg long]
    cases allowed : (text.take n).all (fun c => !isSpace c && c ≠ '\\' && c ≠ ')') with
    | false =>
      simp
    | true =>
      have closing : ascii [')'] ++ encode (text.take n) ++ ascii ['"'] = encode (')' :: (text.take n ++ ['"'])) := by
        rw [encode_ascii_cons (by decide), encode_append, encode_ascii_cons (by decide)]
        rfl
      simp only [Nat.not_lt.1 long, decide_true, Bool.and_self, if_true, Bool.not_true, Bool.false_eq_true, if_false,
        Option.map_some, closing, within]
      rw [find?_encode (by simp)]
      cases ended : find? (')' :: (text.take n ++ ['"'])) (text.drop n) with
      | none => rfl
      | some m =>
        simp only [Option.map_some]
        rw [Nat.add_assoc n, place_add, place_of_find? ended, ← Nat.add_assoc]

/-! ## Numbers -/

theorem numberTail_encode (hex afterMark : Bool) (text : List Char) :
    Bytes.numberTail hex afterMark (encode text) =
      (place text (numberTail hex afterMark text).1, (numberTail hex afterMark text).2) := by
  induction text generalizing afterMark with
  | nil => rfl
  | cons c rest ih =>
    by_cases ascii : IsAscii c
    · rw [encode_ascii_cons ascii, Bytes.numberTail, numberTail, ofUInt8_of_isAscii ascii,
        any_head?_encode fun _ => isAscii_of_isHexDigit]
      split_ifs <;> simp only [ih, place_ascii_succ ascii, place_zero]
    · obtain ⟨first, more, e, -⟩ := encode_of_not_isAscii ascii
      have above := not_isAscii_of_mem_encode ascii (e ▸ List.mem_cons_self : first ∈ _)
      have stops {d : Char} (wide : ¬ IsAscii d) (follows : Option Char) :
          ¬ (afterMark && (d = '+' || d = '-')) ∧ ¬ isExponentMark hex d ∧ d ≠ '.' ∧
            ¬ (isWordPart d || (d = '\'' && follows.any isHexDigit)) := by
        have ne {x : Char} (ascii : IsAscii x) : d ≠ x := ne_of_not_isAscii wide ascii
        have mark : ¬ isExponentMark hex d := fun h => wide (isAscii_of_isExponentMark h)
        have part : ¬ isWordPart d := fun h => wide (isAscii_of_isWordPart h)
        simp [ne (x := '+') (by decide), ne (x := '-') (by decide), ne (x := '.') (by decide),
          ne (x := '\'') (by decide), mark, part]
      obtain ⟨sign, mark, dot, part⟩ := stops above ((more ++ encode rest).head?.map Char.ofUInt8)
      obtain ⟨sign', mark', dot', part'⟩ := stops ascii rest.head?
      rw [encode_cons, e, List.cons_append, Bytes.numberTail, numberTail]
      dsimp only
      rw [if_neg sign, if_neg mark, if_neg dot, if_neg part, if_neg sign', if_neg mark', if_neg dot', if_neg part']
      rfl

theorem numberLength_of_not_hexadecimal {bytes : Bytes}
    (h : ∀ a b rest, bytes = a :: b :: rest → Char.ofUInt8 a = '0' → Char.ofUInt8 b ≠ 'x' ∧ Char.ofUInt8 b ≠ 'X') :
    Bytes.numberLength bytes = Bytes.numberTail false false bytes := by
  unfold Bytes.numberLength
  split
  · rename_i a b rest
    rw [if_neg]
    simp only [Bool.and_eq_true, Bool.or_eq_true, decide_eq_true_eq]
    rintro ⟨zero, hex | hex⟩
    · exact (h a b rest rfl zero).1 hex
    · exact (h a b rest rfl zero).2 hex
  · rfl

theorem numberLength_encode (text : List Char) :
    Bytes.numberLength (encode text) = (place text (numberLength text).1, (numberLength text).2) := by
  have marked {x : Char} (hex : x = 'x' ∨ x = 'X') (rest : List Char) :
      Bytes.numberLength (encode ('0' :: x :: rest)) =
        (place ('0' :: x :: rest) ((numberTail true false rest).1 + 2), (numberTail true false rest).2) := by
    have ascii : IsAscii x := by rcases hex with rfl | rfl <;> decide
    rw [encode_ascii_cons (by decide), encode_ascii_cons ascii, place_ascii_succ (by decide), place_ascii_succ ascii]
    have opens : Char.ofUInt8 '0'.toUInt8 = '0' && (Char.ofUInt8 x.toUInt8 = 'x' || Char.ofUInt8 x.toUInt8 = 'X') := by
      rcases hex with rfl | rfl <;> decide
    rw [Bytes.numberLength, if_pos opens, numberTail_encode]
  by_cases lower : ['0', 'x'] <+: text
  · obtain ⟨rest, rfl⟩ := lower
    exact marked (.inl rfl) rest
  by_cases upper : ['0', 'X'] <+: text
  · obtain ⟨rest, rfl⟩ := upper
    exact marked (.inr rfl) rest
  rw [numberLength_of_decimal lower upper, numberLength_of_not_hexadecimal, numberTail_encode]
  intro a b bytes e zero
  obtain ⟨rest, rfl⟩ : ∃ rest, text = '0' :: rest := by
    refine List.head?_eq_some_iff.1 ((head?_encode_eq_some_iff (by decide) _).1 ?_)
    rw [e, List.head?_cons, Option.map_some, zero]
  rw [encode_ascii_cons (by decide)] at e
  have second {x : Char} (ascii : IsAscii x) (hex : Char.ofUInt8 b = x) : ['0', x] <+: '0' :: rest := by
    obtain ⟨more, rfl⟩ : ∃ more, rest = x :: more := by
      refine List.head?_eq_some_iff.1 ((head?_encode_eq_some_iff ascii _).1 ?_)
      rw [(List.cons.inj e).2, List.head?_cons, Option.map_some, hex]
    exact ⟨more, rfl⟩
  exact ⟨fun hex => lower (second (by decide) hex), fun hex => upper (second (by decide) hex)⟩

/-! ## Punctuation -/

theorem characterSize_encode (c : Char) (text : List Char) :
    Bytes.characterSize (encode (c :: text)) = place (c :: text) 1 := by
  rw [place_wide_succ, place_zero, Nat.zero_add]
  by_cases ascii : IsAscii c
  · have small : c.toUInt8 < 0x80 := by
      have := ofUInt8_of_isAscii ascii
      by_contra large
      exact not_isAscii_ofUInt8 (UInt8.not_lt.1 large) (this.symm ▸ ascii)
    rw [encode_ascii_cons ascii, Bytes.characterSize, if_pos small, encode_of_isAscii ascii]
    rfl
  · obtain ⟨first, more, e, -, -, size⟩ := encode_of_not_isAscii ascii
    rw [encode_cons, e, List.cons_append, size, List.length_cons]

theorem punctuationLength_encode (c : Char) (rest : List Char) :
    Bytes.punctuationLength (encode (c :: rest)) = place (c :: rest) (punctuationLength (c :: rest)) := by
  have plain : ∀ p ∈ punctuators, ascii p = encode p ∧ p.length = (encode p).length := by decide
  have same : ∀ p ∈ punctuators, (ascii p).isPrefixOf (encode (c :: rest)) = p.isPrefixOf (c :: rest) := by
    intro p hp
    rw [(plain p hp).1, Bool.eq_iff_iff, List.isPrefixOf_iff_prefix, List.isPrefixOf_iff_prefix, encode_prefix_iff]
  rw [Bytes.punctuationLength, punctuationLength, List.find?_congr same]
  cases found : punctuators.find? (·.isPrefixOf (c :: rest)) with
  | none => exact characterSize_encode c rest
  | some p =>
    have front : p.isPrefixOf (c :: rest) := by simpa using List.find?_some found
    dsimp only
    rw [place, ← List.prefix_iff_eq_take.1 (List.isPrefixOf_iff_prefix.1 front), ← length_encode, ← (plain p (List.mem_of_find?_eq_some found)).2]

/-! ## Tokens -/

/-- A measured piece, in bytes. -/
def inBytes (text : List Char) (measured : Except LexFault (Kind × Nat)) : Except LexFault (Kind × Nat) :=
  measured.map fun found => (found.1, place text found.2)

variable {atLineStart : Bool} {before : Nat}

/-- Behind a quote at some place. -/
theorem place_quote {quote : Char} (marked : IsAscii quote) (opens : text.drop before = quote :: rest) :
    place text (before + 1) = place text before + 1 ∧ text.drop (before + 1) = rest := by
  refine ⟨?_, ?_⟩
  · rw [place_add, opens, place_ascii_succ marked, place_zero]
  · rw [← List.drop_drop, opens]
    rfl

theorem quoted_encode {quote : Char} (marked : IsAscii quote) (opens : text.drop before = quote :: rest) :
    Bytes.quoted (place text before) quote (encode text) = inBytes text (quoted before quote text) := by
  obtain ⟨behind, left⟩ := place_quote marked opens
  rw [Bytes.quoted, quoted, ← behind, drop_place, quotedLength?_encode marked]
  cases quotedLength? quote (text.drop (before + 1)) with
  | none => rfl
  | some n => exact congrArg (fun m => Except.ok (_, m)) (place_add text (before + 1) n).symm

theorem rawQuoted_encode (opens : text.drop before = '"' :: rest) :
    Bytes.rawQuoted (place text before) (encode text) = some (inBytes text (rawQuoted before text)) := by
  obtain ⟨behind, left⟩ := place_quote (by decide) opens
  rw [Bytes.rawQuoted, rawQuoted, ← behind, from?_place, Option.bind_some, rawString_encode, Option.map_some]
  cases rawLength (text.drop (before + 1)) with
  | error fault => cases fault <;> rfl
  | ok n => exact congrArg (fun m => some (Except.ok (_, m))) (place_add text (before + 1) n).symm

theorem classifyWord_encode (text : List Char) :
    Bytes.classifyWord (encode text) = some (inBytes text (classifyWord text)) := by
  have marks : ∀ p ∈ rawMarks ++ encodingMarks, ascii p = encode p := by decide
  have known {table : List (List Char)} (h : ∀ p ∈ table, ascii p = encode p) (word : List Char) :
      (table.map ascii).contains (encode word) = table.contains word := by
    rw [Bool.eq_iff_iff, List.contains_iff_mem, List.contains_iff_mem, List.map_congr_left h,
      List.mem_map_of_injective encode_injective]
  have raw := known fun p hp => marks p (List.mem_append_left _ hp)
  have encoding := known fun p hp => marks p (List.mem_append_right _ hp)
  rw [Bytes.classifyWord, wordLength_encode]
  dsimp only
  rw [upTo?_place, drop_place, Option.bind_some]
  -- The byte behind the word is a quote where the character is.
  have double := head?_encode_eq_some_iff (show IsAscii '"' by decide) (text.drop (wordLength text))
  have single := head?_encode_eq_some_iff (show IsAscii '\'' by decide) (text.drop (wordLength text))
  have word : some (inBytes text (.ok (.identifier, wordLength text))) =
    some (.ok (.identifier, place text (wordLength text))) := rfl
  simp only [raw, encoding, Bool.and_eq_true, decide_eq_true_eq, double, single, classifyWord]
  cases behind : text.drop (wordLength text) with
  | nil =>
    simp only [List.head?_nil, reduceCtorEq, and_false, if_false]
    rfl
  | cons quote more =>
    simp only [List.head?_cons, Option.some.injEq]
    by_cases isDouble : quote = '"'
    · subst isDouble
      simp only [and_true, Char.reduceEq, and_false, if_false]
      rw [rawQuoted_encode behind, quoted_encode (by decide) behind, apply_ite (inBytes text), apply_ite (inBytes text),
        apply_ite some, apply_ite some, word]
    by_cases isSingle : quote = '\''
    · subst isSingle
      simp only [and_true, Char.reduceEq, and_false, if_false]
      rw [quoted_encode (by decide) behind, apply_ite (inBytes text), apply_ite some, word]
    · simp only [isDouble, isSingle, and_false, if_false]
      split
      · rename_i e
        exact absurd (List.cons.inj e).1 isDouble
      · rename_i e
        exact absurd (List.cons.inj e).1 isSingle
      · exact word.symm

/-- A character that is not ASCII begins nothing but punctuation. -/
theorem not_special (h : ¬ IsAscii c) :
    isSpace c = false ∧ decide (c = '/') = false ∧ decide (c = '#') = false ∧ isWordStart c = false ∧
      isDigit c = false ∧ decide (c = '.') = false ∧ c ≠ '"' ∧ c ≠ '\'' := by
  have ne {x : Char} (ascii : IsAscii x) : c ≠ x := ne_of_not_isAscii h ascii
  refine ⟨?_, decide_eq_false (ne (by decide)), decide_eq_false (ne (by decide)), ?_, ?_,
    decide_eq_false (ne (by decide)), ne (by decide), ne (by decide)⟩
  · exact Bool.eq_false_iff.2 fun space => h (isAscii_of_isSpace space)
  · exact Bool.eq_false_iff.2 fun start => h (isAscii_of_isWordStart start)
  · exact Bool.eq_false_iff.2 fun digit => h (isAscii_of_isDigit digit)

theorem classify?_encode (atLineStart : Bool) (text : List Char) :
    Bytes.classify? atLineStart (encode text) = some (inBytes text (classify atLineStart text)) := by
  cases text with
  | nil => rfl
  | cons c rest =>
    have front {quote : Char} (either : quote = '"' ∨ quote = '\'') :
        Bytes.quoted 0 quote (encode (quote :: rest)) = inBytes (quote :: rest) (quoted 0 quote (quote :: rest)) := by
      have marked : IsAscii quote := by rcases either with rfl | rfl <;> decide
      have opens : (quote :: rest).drop 0 = quote :: rest := rfl
      exact quoted_encode marked opens
    have mark : (Bytes.from? 0 (encode (c :: rest))).map
        (fun text => Except.ok (Kind.punctuation, Bytes.punctuationLength text)) =
          some (inBytes (c :: rest) (.ok (.punctuation, punctuationLength (c :: rest)))) := by
      have behind := from?_place (c :: rest) 0
      rw [place_zero] at behind
      rw [behind, Option.map_some, List.drop_zero, punctuationLength_encode]
      rfl
    by_cases ascii : IsAscii c
    · have next {x : Char} (ascii : IsAscii x) := head?_encode_eq_some_iff ascii rest
      have digit := any_head?_encode (fun _ => isAscii_of_isDigit) rest
      have same := encode_ascii_cons ascii rest
      rw [same, Bytes.classify?, ofUInt8_of_isAscii ascii, classify, digit, ← same]
      simp only [Bool.and_eq_true, decide_eq_true_eq, next (x := '/') (by decide), next (x := '*') (by decide)]
      by_cases space : isSpace c
      · rw [if_pos space, if_pos space, spaceLength_encode]
        rfl
      rw [if_neg space, if_neg space]
      by_cases line : c = '/' ∧ rest.head? = some '/'
      · rw [if_pos line, if_pos line, lineLength_encode]
        rfl
      rw [if_neg line, if_neg line]
      by_cases block : c = '/' ∧ rest.head? = some '*'
      · rw [if_pos block, if_pos block]
        obtain ⟨rfl, star⟩ := block
        obtain ⟨more, rfl⟩ := List.head?_eq_some_iff.1 star
        rw [blockComment_encode, Option.map_some]
        cases blockCommentLength? ('/' :: '*' :: more) <;> rfl
      rw [if_neg block, if_neg block]
      by_cases directive : c = '#' ∧ atLineStart
      · rw [if_pos directive, if_pos directive, directiveLength?_encode]
        rfl
      rw [if_neg directive, if_neg directive]
      by_cases word : isWordStart c
      · rw [if_pos word, if_pos word, classifyWord_encode]
      rw [if_neg word, if_neg word]
      by_cases number : isDigit c || (decide (c = '.') && rest.head?.any isDigit)
      · rw [if_pos number, if_pos number, numberLength_encode]
        rfl
      rw [if_neg number, if_neg number]
      by_cases double : c = '"'
      · rw [if_pos double, if_pos double, double]
        exact congrArg some (front (.inl rfl))
      rw [if_neg double, if_neg double]
      by_cases single : c = '\''
      · rw [if_pos single, if_pos single, single]
        exact congrArg some (front (.inr rfl))
      rw [if_neg single, if_neg single, mark]
    · obtain ⟨first, more, e, -⟩ := encode_of_not_isAscii ascii
      have whole : encode (c :: rest) = first :: (more ++ encode rest) := by rw [encode_cons, e, List.cons_append]
      have above := not_isAscii_of_mem_encode ascii (e ▸ List.mem_cons_self : first ∈ _)
      rw [whole, Bytes.classify?, classify, ← whole]
      simp only [not_special above, not_special ascii, Bool.false_and, Bool.false_eq_true, if_false, Bool.or_self]
      exact mark

/-! ## The walk -/

/-- The place that the lexer is at. -/
def Walk.lexer (w : Walk) : Lexer :=
  ⟨encode w.rest, w.offset, w.line, w.atLineStart, false⟩

theorem lexer_start (source : String) : Lexer.start source = (Walk.start source).lexer := by
  rw [Lexer.start, bytesOf_eq_encode]
  rfl

theorem count_encode {x : Char} (ascii : IsAscii x) (text : List Char) : (encode text).count x.toUInt8 = text.count x := by
  induction text with
  | nil => rfl
  | cons c text ih =>
    have same : (String.utf8EncodeChar c).count x.toUInt8 = if c = x then 1 else 0 := by
      by_cases one : IsAscii c
      · have injective : c.toUInt8 = x.toUInt8 ↔ c = x := by
          refine ⟨fun e => ?_, congrArg _⟩
          rw [← ofUInt8_of_isAscii one, e, ofUInt8_of_isAscii ascii]
        rw [encode_of_isAscii one, List.count_singleton]
        simp [injective]
      · rw [if_neg (ne_of_not_isAscii one ascii), List.count_eq_zero]
        exact fun among => not_isAscii_of_mem_encode one among (by rwa [ofUInt8_of_isAscii ascii])
    rw [encode_cons, List.count_append, same, ih, List.count_cons, Nat.add_comm]
    simp

theorem contains_encode {x : Char} (ascii : IsAscii x) (text : List Char) :
    (encode text).contains x.toUInt8 = text.contains x := by
  rw [Bool.eq_iff_iff, List.contains_iff_mem, List.contains_iff_mem, ← List.count_pos_iff, count_encode ascii,
    List.count_pos_iff]

/-- A step of the lexer is a step of the walk. -/
theorem step?_lexer (w : Walk) : ∃ after : Lexer, w.lexer.step? = some (w.next.1, after) ∧
    (after.done ∧ w.next.2.rest = [] ∨ after = w.next.2.lexer) := by
  by_cases ended : w.rest = []
  · refine ⟨{ w.lexer with done := true }, ?_, .inl ⟨rfl, ?_⟩⟩
    · simp [Lexer.step?, Walk.lexer, Walk.next, ended]
    · rw [Walk.next_of_rest_nil ended, ended]
  have nonempty : w.rest.isEmpty = false := by simpa using ended
  have running : (w.lexer.done || w.lexer.rest.isEmpty) = false := by
    have some : encode w.rest ≠ [] := fun e => ended (encode_injective e)
    simpa [Walk.lexer] using some
  have front : Bytes.classify? w.lexer.atLineStart w.lexer.rest = some (inBytes w.rest (classify w.atLineStart w.rest)) :=
    classify?_encode w.atLineStart w.rest
  rw [Lexer.step?, running, front, Walk.next, nonempty]
  cases classify w.atLineStart w.rest with
  | error fault => exact ⟨_, rfl, .inl ⟨rfl, rfl⟩⟩
  | ok found =>
    obtain ⟨kind, n⟩ := found
    refine ⟨_, ?_, .inr rfl⟩
    have within : min (place w.rest n) w.lexer.rest.length = place w.rest n := Nat.min_eq_left (place_le w.rest n)
    have text : Bytes.cut? (place w.rest n) w.lexer.rest = some (String.ofList (w.rest.take n)) := cut?_place w.rest n
    show (Bytes.cut? (min (place w.rest n) w.lexer.rest.length) w.lexer.rest).map _ = _
    have behind : w.lexer.behind kind (place w.rest n) =
        ⟨encode (w.rest.drop n), w.offset + byteLength (w.rest.take n), w.line + lineFeeds (w.rest.take n),
          if kind = .blank then w.atLineStart || (w.rest.take n).contains '\n' else false, false⟩ := by
      simp only [Lexer.behind, Walk.lexer, take_place, drop_place, count_encode (x := '\n') (by decide),
        contains_encode (x := '\n') (by decide)]
      rfl
    rw [within, text, Option.map_some, behind]
    rfl

theorem Lexer.items_of_next_none {l : Lexer} (h : l.next.1 = none) : l.items = [] := by
  rw [Lexer.items]
  split
  · rfl
  · rename_i e
    rw [e] at h
    cases h

theorem Lexer.items_of_next_some {l : Lexer} {item : Except LexError Token}
    (h : l.next.1 = some item) : l.items = item :: l.next.2.items := by
  rw [Lexer.items]
  split
  · rename_i e
    rw [e] at h
    cases h
  · rename_i e
    rw [e] at h ⊢
    cases h
    rfl

theorem Lexer.next_of_done {l : Lexer} (h : l.done) : l.next.1 = none := by
  simp [Lexer.next, Lexer.step?, h]

theorem items_lexer (w : Walk) : w.lexer.items = w.items := by
  induction length : w.rest.length using Nat.strongRecOn generalizing w with
  | ind n ih =>
    obtain ⟨after, step, reached⟩ := step?_lexer w
    have next : w.lexer.next = (w.next.1, after) := by rw [Lexer.next, step, Option.getD_some]
    cases found : w.next.1 with
    | none => rw [Walk.items_of_next_none found, Lexer.items_of_next_none (by rw [next, found])]
    | some item =>
      rw [Walk.items_of_next_some found, Lexer.items_of_next_some (by rw [next, found]), next]
      congr 1
      rcases reached with ⟨done, ended⟩ | rfl
      · rw [Lexer.items_of_next_none (Lexer.next_of_done done),
          Walk.items_of_next_none (by rw [Walk.next_of_rest_nil ended])]
      · exact ih _ (length ▸ Walk.length_lt_of_next (Prod.ext found rfl)) _ rfl

/-- The lexer yields what the walk over the characters yields. -/
theorem items_eq_walk (source : String) : items source = (Walk.start source).items := by
  rw [items, lexer_start, items_lexer]

theorem tokens_eq_walk (source : String) : tokens source = (Walk.start source).items.mapM id := by
  rw [tokens, items_eq_walk]

/-! ## Every step has a result -/

/-- The lexer is where a character begins, or has ended. -/
def Lexer.AtCharacter (l : Lexer) : Prop :=
  l.done ∨ ∃ w : Walk, l = w.lexer

theorem Lexer.AtCharacter.step? {l : Lexer} (h : l.AtCharacter) :
    ∃ item after, l.step? = some (item, after) ∧ after.AtCharacter := by
  rcases h with done | ⟨w, rfl⟩
  · exact ⟨none, { l with done := true }, by simp [Lexer.step?, done], .inl rfl⟩
  · obtain ⟨after, step, reached⟩ := step?_lexer w
    exact ⟨w.next.1, after, step, reached.imp And.left fun e => ⟨_, e⟩⟩

end Reflection.Source
