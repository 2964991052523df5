import Reflection.Proofs.Declaration.Enumerators
import Reflection.Proofs.Declaration.Reading
/-!
# Enumerations of a class

An enumeration that the reader of a class body comes to is read with all its enumerators and what they
are worth, and is recorded with the class (`enumerators_have_their_values`). A name stands for the last
enumerator of that name, whatever qualifies it, so one of another enumeration may hide the one meant, and
not every enumeration that a class may have is one that its reader comes to (`other_enums_are_misread`).
-/

namespace Reflection.Declaration

open Reflection.Source

variable {endLine : Nat} {b : ClassBody} {keyword : Token} {rest after written : List Token} {e : NamedEnum}
  {values : List (String × Int64)}

/-- A class body with one more enumeration. -/
def ClassBody.withEnum (b : ClassBody) (d : EnumDeclaration) : ClassBody :=
  { b with declaration := { b.declaration with enums := b.declaration.enums ++ [d] } }

/-- All enumerators have a value, and in their order. -/
theorem Valued.keys {earlier before : List (String × Int64)} {next : Int64} {es : List Enumerator}
    (h : Valued earlier before next es values) : values.map (·.1) = es.map (·.key) := by
  induction h with
  | none => rfl
  | counted _ ih | initialized _ _ ih => exact congrArg _ ih

theorem itemStart_of_enum (h : keyword.isWord "enum") (rest : List Token) :
    itemStart endLine keyword rest = .ok .other := by
  have text : keyword.text = "enum" := by
    simp only [Token.isWord, Bool.and_eq_true, decide_eq_true_eq] at h
    exact h.2
  simp [itemStart, isClassWord, Token.isWord, text]

/-- What stands in a body after the word for an enumeration is read as one. -/
theorem bodyItem_of_enum (h : keyword.isWord "enum") (rest : List Token) :
    bodyItem endLine b keyword rest = (do
      let (d, after) ← enumeration? keyword.line b.declaration.enums rest
      let enums := b.declaration.enums ++ d.toList
      return ({ b with declaration := { b.declaration with enums := enums } }, after)) := by
  have ⟨kind, text⟩ : keyword.kind = .identifier ∧ keyword.text = "enum" := by
    simpa [Token.isWord] using h
  have noMark : ∀ mark, keyword.isMark mark = false := fun mark => isMark_of_word (by simp [kind])
  have noLabel : accessOf? keyword.text = none := by rw [text]; rfl
  have noMarker : markedKind? keyword.text = none := by rw [text]; rfl
  have noWord : ∀ word, word ≠ "enum" → keyword.isWord word = false := fun word ne => by
    simp [Token.isWord, text, Ne.symm ne]
  unfold bodyItem
  rw [if_neg (by simp [noMark]), if_neg (by simp [noMark]), if_neg (by simp [kind]), noLabel]
  dsimp only
  rw [if_neg (by simp [isSignalsWord, noWord]), if_neg (by simp [isSlotsWord, noWord]),
    if_neg (by simp [text]), if_neg (by simp [text]), if_neg (by simp [text]), if_neg (by simp [text]),
    noMarker]
  dsimp only
  rw [if_pos text]

theorem bodyStep_of_enum (enum : keyword.isWord "enum") (spelled : e.Spells written)
    (ends : skipStatement rest = .ok after)
    (valued : Valued (b.declaration.enums.flatMap (·.keys)) [] 0 e.enumerators values) :
    bodyStep endLine b keyword (written ++ rest) =
      .ok (.goOn (b.withEnum ⟨e.name, e.isScoped, values, keyword.line⟩) after) := by
  rw [bodyStep, itemStart_of_enum enum]
  refine bind_eq_ok_iff.2 ⟨_, rfl, ?_⟩
  dsimp only
  rw [bodyItem_of_enum enum, enumeration?_of_spells spelled valued ends]
  rfl

/-- A named enumeration that the reader comes to in a class body, and whose initializers have values, is
read: the reader goes on behind it, with the enumeration, its enumerators in order and their values. If
the file can be read, its classes have the class of the body with this enumeration, provided that it is
annotated. -/
theorem enumerators_have_their_values {source : String} {ts : List Token} {isTemplate : Bool}
    (tokens : significantTokens source = .ok ts)
    (here : Reaches (lastLine ts) ts (.body isTemplate b (keyword :: (written ++ rest))))
    (enum : keyword.isWord "enum") (spelled : e.Spells written) (ends : skipStatement rest = .ok after)
    (valued : Valued (b.declaration.enums.flatMap (·.keys)) [] 0 e.enumerators values) :
    values.map (·.1) = e.enumerators.map (·.key) ∧
      Reaches (lastLine ts) ts
        (.body isTemplate (b.withEnum ⟨e.name, e.isScoped, values, keyword.line⟩) after) ∧
      ∀ file classes, parse file source = .ok classes → ∃ whole left,
        ReadsBody (lastLine ts) (b.withEnum ⟨e.name, e.isScoped, values, keyword.line⟩) after whole left ∧
          whole.declaration.name = b.declaration.name ∧
          b.declaration.enums ++ [⟨e.name, e.isScoped, values, keyword.line⟩] <+: whole.declaration.enums ∧
          (whole.annotated = true → whole.declaration ∈ classes) := by
  have noMark : keyword.isMark "\x7d" = false := by
    have : keyword.kind = .identifier := by
      simp only [Token.isWord, Bool.and_eq_true, decide_eq_true_eq] at enum
      exact enum.1
    exact isMark_of_word (by simp [this])
  have behind := here.goOnInside noMark (bodyStep_of_enum enum spelled ends valued)
  refine ⟨valued.keys, behind, fun file classes parsed => ?_⟩
  rw [parse, tokens] at parsed
  have read := classesOfTokens_eq_ok_iff.1 (mapError_eq_ok_iff.1 parsed)
  obtain ⟨whole, left, own, body, found, within⟩ := finds_of_reaches read behind
  refine ⟨whole, left, body, body.grows.name, body.grows.enums, fun annotated => ?_⟩
  unfold ClassBody.classes at found
  rw [if_neg (by simp [annotated])] at found
  split at found <;> cases found
  exact within List.mem_cons_self

/-! ## A class with two enumerations -/

/-- A word on the first line. -/
def wordAt (text : String) (offset : Nat) : Token := ⟨.identifier, text, offset, 1⟩

/-- A mark on the first line. -/
def markAt (text : String) (offset : Nat) : Token := ⟨.punctuation, text, offset, 1⟩

/-- A number on the first line. -/
def numberAt (text : String) (offset : Nat) : Token := ⟨.integer, text, offset, 1⟩

/-- The second enumeration uses a name of the first. -/
def lamp : String :=
  "class Lamp \x7b H_OBJECT enum Step \x7b wide = 4 \x7d; " ++
    "enum class Level \x7b low, high = Step::wide << 2 | low \x7d; \x7d;"

/-- The tokens before the second enumeration. -/
def lampFront : List Token :=
  [wordAt "class" 0, wordAt "Lamp" 6, markAt "\x7b" 11, wordAt "H_OBJECT" 13, wordAt "enum" 22,
    wordAt "Step" 27, markAt "\x7b" 32, wordAt "wide" 34, markAt "=" 39, numberAt "4" 41, markAt "\x7d" 43,
    markAt ";" 44]

/-- What the body of the class is read to before the second enumeration. -/
def lampBody : ClassBody where
  declaration :=
    { name := "Lamp", scope := "", bases := [], line := 1, enums := [⟨"Step", false, [("wide", 4)], 1⟩] }
  annotated := true
  access := .isPrivate

/-- The second enumeration. -/
def levels : NamedEnum where
  isScoped := true
  name := "Level"
  enumerators :=
    [⟨"low", none⟩,
      ⟨"high", some (.binary .or (.binary .shiftLeft (.name "wide") (.integer "2")) (.name "low"))⟩]

/-- The tokens of the second enumeration after its keyword. -/
def levelTokens : List Token :=
  [wordAt "class" 51, wordAt "Level" 57, markAt "\x7b" 63, wordAt "low" 65, markAt "," 68, wordAt "high" 70,
    markAt "=" 75, wordAt "Step" 77, markAt "::" 81, wordAt "wide" 83, markAt "<<" 88, numberAt "2" 91,
    markAt "|" 93, wordAt "low" 95, markAt "\x7d" 99]

/-- The tokens after it. -/
def lampRest : List Token :=
  [markAt ";" 100, markAt "\x7d" 102, markAt ";" 103]

/-- All tokens of the class. -/
def lampTokens : List Token :=
  lampFront ++ wordAt "enum" 46 :: (levelTokens ++ lampRest)

theorem levels_spell : levels.Spells levelTokens := by
  have wide : Spells 3 (.name "wide") [wordAt "Step" 77, markAt "::" 81, wordAt "wide" 83] :=
    .name (.qualified rfl rfl (.plain (t := wordAt "wide" 83) rfl))
  have two : Spells 4 (.integer "2") [numberAt "2" 91] := .integer (t := numberAt "2" 91) rfl
  have low : Spells 1 (.name "low") [wordAt "low" 95] := .name (.plain (t := wordAt "low" 95) rfl)
  have shift : Spells 0 (.binary .shiftLeft (.name "wide") (.integer "2"))
      ([wordAt "Step" 77, markAt "::" 81, wordAt "wide" 83] ++ ([markAt "<<" 88] ++ [numberAt "2" 91])) :=
    .binary (by decide) wide (.single rfl rfl) two
  have value : Spells 0 (.binary .or (.binary .shiftLeft (.name "wide") (.integer "2")) (.name "low"))
      (([wordAt "Step" 77, markAt "::" 81, wordAt "wide" 83] ++ ([markAt "<<" 88] ++ [numberAt "2" 91])) ++
        ([markAt "|" 93] ++ [wordAt "low" 95])) :=
    .binary (by decide) shift (.single rfl rfl) low
  have entries := SpellEnumerators.more (.plain (t := wordAt "low" 65) rfl) rfl
    (show (markAt "," 68).isMark "," from rfl) (.last (.initialized (t := wordAt "high" 70)
      rfl (show (markAt "=" 75).isMark "=" from rfl) value))
  exact @NamedEnum.Spells.mk true _ [wordAt "class" 51] [] _ (wordAt "Level" 57) (markAt "\x7b" 63)
    (markAt "\x7d" 99) (.word rfl) rfl (by decide) rfl .none rfl entries rfl

theorem levels_valued :
    Valued (lampBody.declaration.enums.flatMap (·.keys)) [] 0 levels.enumerators
      [("low", 0), ("high", 16)] := by
  have wide : Denotes [("wide", 4), ("low", 0)] (.name "wide") (Int64.toInt 4) :=
    .name ⟨[], [("low", 0)], rfl, by decide⟩
  have low : Denotes [("wide", 4), ("low", 0)] (.name "low") (Int64.toInt 0) :=
    .name ⟨[("wide", 4)], [], rfl, by decide⟩
  have two : Denotes [("wide", 4), ("low", 0)] (.integer "2") (wrap 2) := by
    have spelled : "2".toList = '2' :: [] ++ [] := by decide
    refine .integer (spelled ▸ .decimal (.one ⟨by decide, .inl (by decide)⟩) (by decide) ?_) (by decide)
    exact fun c hc => nomatch hc
  have shift : Denotes [("wide", 4), ("low", 0)] (.binary .shiftLeft (.name "wide") (.integer "2")) 16 := by
    have value : BinaryOperator.shiftLeft.meaning (Int64.toInt 4) (wrap 2) = 16 := by decide
    exact value ▸ .binary wide two ⟨by decide, by decide⟩
  have high : Denotes [("wide", 4), ("low", 0)]
      (.binary .or (.binary .shiftLeft (.name "wide") (.integer "2")) (.name "low")) (Int64.toInt 16) := by
    have value : BinaryOperator.or.meaning 16 (Int64.toInt 0) = Int64.toInt 16 := by decide
    exact value ▸ .binary shift low trivial
  exact .counted (.initialized high .none)

/-- The first enumeration is known to the second, under its qualified name too. -/
theorem lamp_levels_have_values :
    ∃ classes, parse "lamp.h" lamp = .ok classes ∧ ∃ c ∈ classes, c.name = "Lamp" ∧
      [⟨"Step", false, [("wide", 4)], 1⟩, ⟨"Level", true, [("low", 0), ("high", 16)], 1⟩] <+: c.enums := by
  have chars : lamp.toList = _ := toList_append_of String.toList_ofList String.toList_ofList
  have tokens : significantTokens lamp = .ok lampTokens :=
    (significantTokens_of_toList chars).trans (by decide +kernel)
  have opened : Reaches 1 lampTokens (.body false (.start "" ⟨"Lamp", 1, [], false⟩) (lampTokens.drop 3)) :=
    .enter (t := wordAt "class" 0) .start (by decide +kernel)
  have annotated : Reaches 1 lampTokens (.body false
      { lampBody with declaration := { lampBody.declaration with enums := [] } } (lampTokens.drop 4)) :=
    .goOnInside (t := wordAt "H_OBJECT" 13) opened (by decide) (by decide +kernel)
  have here : Reaches 1 lampTokens (.body false lampBody (wordAt "enum" 46 :: (levelTokens ++ lampRest))) :=
    .goOnInside (t := wordAt "enum" 22) annotated (by decide) (by decide +kernel)
  have ends : skipStatement lampRest = .ok [markAt "\x7d" 102, markAt ";" 103] := by decide +kernel
  obtain ⟨-, -, found⟩ := enumerators_have_their_values tokens here rfl levels_spell ends levels_valued
  cases parsed : parse "lamp.h" lamp with
  | error e =>
    have accepted : (parse "lamp.h" lamp).toBool = true := by
      rw [parse, tokens]
      decide +kernel
    rw [parsed] at accepted
    cases accepted
  | ok classes =>
    obtain ⟨whole, left, read, name, enums, recorded⟩ := found _ classes parsed
    exact ⟨classes, rfl, whole.declaration, recorded (read.grows.annotated rfl), name, enums⟩

/-- The enumerators that are recorded of the classes in a source text. -/
def keysIn (source : String) : Option (List (List (String × List (String × Int64)))) :=
  (parse "lamp.h" source).toOption.map fun classes =>
    classes.map fun c => c.enums.map fun e => (e.name, e.keys)

theorem keysIn_of_toList {source : String} {chars : List Char} (h : source.toList = chars) :
    keysIn source = (parseCharacters "lamp.h" chars).toOption.map fun classes =>
      classes.map fun c => c.enums.map fun e => (e.name, e.keys) := by
  rw [keysIn, parse_of_toList h]

/-- The enumerator of another enumeration is taken for the one that a qualified name means, and a number
of 64 bits for a negative one. An enumeration with an attribute and one inside another declaration are
not recorded. The enumerators of one without a name are not known, and a comma after a right shift does
not end an enumerator. -/
theorem other_enums_are_misread :
    keysIn ("class Lamp \x7b H_OBJECT enum Step \x7b wide = 1 \x7d; " ++
        "enum class Level \x7b wide = 2, high = Step::wide \x7d; \x7d;") =
      some [[("Step", [("wide", 1)]), ("Level", [("wide", 2), ("high", 2)])]] ∧
    keysIn "class Lamp \x7b H_OBJECT enum Step \x7b wide = 0xffffffffffffffff / 2 \x7d; \x7d;" =
      some [[("Step", [("wide", 0)])]] ∧
    keysIn "class Lamp \x7b H_OBJECT enum [[deprecated]] Step \x7b wide = 1 \x7d; \x7d;" = some [[]] ∧
    keysIn "class Lamp \x7b H_OBJECT typedef enum Step \x7b wide = 1 \x7d Steps; \x7d;" = some [[]] ∧
    keysIn "class Lamp \x7b H_OBJECT enum \x7b wide = 1 \x7d; enum Step \x7b high = wide \x7d; \x7d;" = none ∧
    keysIn "class Lamp \x7b H_OBJECT enum Step \x7b wide = 8 >> 1, high \x7d; \x7d;" = none := by
  refine ⟨?_, ?_, ?_, ?_, ?_, ?_⟩
  · rw [keysIn_of_toList (toList_append_of String.toList_ofList String.toList_ofList)]
    decide +kernel
  all_goals
    rw [keysIn_of_toList String.toList_ofList]
    decide +kernel

end Reflection.Declaration
