import Reflection.Proofs.Declaration.Literals
import Reflection.Proofs.Declaration.Members
import Reflection.Proofs.Source.Spacing
/-!
# Notes on classes

A note is a marker with two literals. The reader of a class body records the texts of the notes among its
items, in their order, and nothing else adds to them (`ReadsNotes`, `ReadsNotes.classInfo`). A whole file is
written out in `notedClass`: one class with any notes, which is read with just these (`parse_notedClass`).
-/

namespace Reflection.Declaration

open Reflection.Source

/-! ## What is written -/

/-- The literal of a text. -/
structure WrittenText where
  token : Token
  kind : token.kind = .string
  text : String
  spelled : token.text = literal text

/-- A note on a class. -/
structure WrittenNote where
  marker : Word ["H_CLASSINFO"]
  opening : Mark "("
  key : WrittenText
  comma : Mark ","
  value : WrittenText
  closing : Mark ")"

/-- The tokens of a note behind its marker. -/
def WrittenNote.arguments (n : WrittenNote) : List Token :=
  [n.opening.token, n.key.token, n.comma.token, n.value.token, n.closing.token]

def WrittenNote.tokens (n : WrittenNote) : List Token :=
  n.marker.token :: n.arguments

/-- What the note says. -/
def WrittenNote.pair (n : WrittenNote) : String × String :=
  (n.key.text, n.value.text)

/-! ## Bodies with notes -/

variable {endLine : Nat} {b b' : ClassBody} {rest after ts : List Token} {notes : List (String × String)}

/-- A body with more notes. -/
def ClassBody.noted (b : ClassBody) (notes : List (String × String)) : ClassBody :=
  { b with declaration := { b.declaration with classInfo := b.declaration.classInfo ++ notes } }

theorem noted_nil (b : ClassBody) : b.noted [] = b := by
  simp [ClassBody.noted]

theorem noted_noted (b : ClassBody) (notes more : List (String × String)) :
    (b.noted notes).noted more = b.noted (notes ++ more) := by
  simp [ClassBody.noted]

theorem markerArguments_note (n : WrittenNote) (rest : List Token) :
    markerArguments n.marker.token (n.arguments ++ rest) =
      .ok ⟨[n.key.token, n.comma.token, n.value.token], n.closing.token, rest⟩ := by
  have literal (t : WrittenText) (mark : String) : t.token.isMark mark = false :=
    isMark_of_word (by simp [t.kind])
  have inside : ∀ t ∈ [n.key.token, n.comma.token, n.value.token], t.isMark "(" = false ∧ t.isMark ")" = false := by
    simp [literal]
  have found : group n.opening.token ([n.key.token, n.comma.token, n.value.token] ++ n.closing.token :: rest) = _ :=
    group_of_mark (closeGroup?_append inside (by simp) n.closing.isMark)
  rw [WrittenNote.arguments, List.cons_append, markerArguments, if_pos n.opening.isMark]
  exact found

/-- A note is one item of a body, and says the texts of its literals. -/
theorem bodyStep_of_note (n : WrittenNote) (rest : List Token) :
    bodyStep endLine b n.marker.token (n.arguments ++ rest) = .ok (.goOn (b.noted [n.pair]) rest) := by
  have read : bodyItem endLine b n.marker.token (n.arguments ++ rest) = .ok (b.noted [n.pair], rest) := by
    simp [bodyItem, accessOf?, isSignalsWord, isSlotsWord, markerArguments_note]
    refine bind_eq_ok_iff.2 ⟨_, rfl, ?_⟩
    simp [n.key.kind, n.value.kind, n.key.spelled, n.value.spelled, unquote_literal]
    rfl
  rw [bodyStep, itemStart_of_other (by simp)]
  exact bind_eq_ok_iff.2 ⟨_, rfl, bind_eq_ok_iff.2 ⟨_, read, rfl⟩⟩

theorem classInfo_of_bodyMember {kind : Option MethodKind} (h : bodyMember b kind ts = .ok (b', after)) :
    b'.declaration.classInfo = b.declaration.classInfo := by
  unfold bodyMember at h
  obtain ⟨⟨taken, left⟩, -, h⟩ := bind_eq_ok_iff.1 h
  cases kind with
  | none =>
    cases h
    rfl
  | some kind =>
    obtain ⟨f, -, h⟩ := bind_eq_ok_iff.1 h
    cases f <;> cases h <;> rfl

/-- Items that are no notes leave the notes alone. -/
theorem classInfo_of_goOn {t : Token} (other : t.text ≠ "H_CLASSINFO")
    (step : bodyStep endLine b t rest = .ok (.goOn b' after)) :
    b'.declaration.classInfo = b.declaration.classInfo := by
  obtain ⟨start, -, h⟩ := bind_eq_ok_iff.1 step
  cases start with
  | other =>
    obtain ⟨⟨b₁, after₁⟩, read, h⟩ := bind_eq_ok_iff.1 h
    cases h
    rcases bodyItem_cases read with ⟨kind, member⟩ | ⟨-, -, -, -, kept⟩
    · have kept := classInfo_of_bodyMember member
      exact kept
    · exact kept other
  | ofTemplate ts =>
    obtain ⟨⟨b₁, after₁⟩, member, h⟩ := bind_eq_ok_iff.1 h
    have kept := classInfo_of_bodyMember member
    cases h
    exact kept
  | ofClass start =>
    obtain ⟨⟨head, inside⟩, -, h⟩ := bind_eq_ok_iff.1 h
    cases head with
    | none =>
      obtain ⟨after₁, -, h⟩ := bind_eq_ok_iff.1 h
      cases h
      rfl
    | some head => cases h

/-- A class body is read from its tokens, and the notes among its own items are these. -/
inductive ReadsNotes (endLine : Nat) :
    ClassBody → List Token → List (String × String) → ClassBody → List Token → Prop
  | closed {b : ClassBody} {t : Token} {rest : List Token} (closes : t.isMark "\x7d") :
      ReadsNotes endLine b (t :: rest) [] b rest
  | note {b b' : ClassBody} (n : WrittenNote) {rest after : List Token} {notes : List (String × String)}
      (others : ReadsNotes endLine (b.noted [n.pair]) rest notes b' after) :
      ReadsNotes endLine b (n.tokens ++ rest) (n.pair :: notes) b' after
  | goOn {b b₁ b' : ClassBody} {t : Token} {rest ts after : List Token} {notes : List (String × String)}
      (goesOn : t.isMark "\x7d" = false) (other : t.text ≠ "H_CLASSINFO")
      (step : bodyStep endLine b t rest = .ok (.goOn b₁ ts)) (others : ReadsNotes endLine b₁ ts notes b' after) :
      ReadsNotes endLine b (t :: rest) notes b' after
  | enter {b inner b' : ClassBody} {t : Token} {rest inside left ts after : List Token} {isTemplate : Bool}
      {head : ClassHead} {nested : List ClassDeclaration} {notes : List (String × String)}
      (goesOn : t.isMark "\x7d" = false)
      (step : bodyStep endLine b t rest = .ok (.enter isTemplate head inside))
      (body : ReadsBody endLine (.start b.declaration.name head) inside inner left)
      (found : inner.classes isTemplate = .ok nested) (ends : skipStatement left = .ok ts)
      (others : ReadsNotes endLine (b.leave nested) ts notes b' after) :
      ReadsNotes endLine b (t :: rest) notes b' after

theorem ReadsNotes.readsBody (h : ReadsNotes endLine b ts notes b' after) : ReadsBody endLine b ts b' after := by
  induction h with
  | closed closes => exact .closed closes
  | note n _ ih => exact .goOn (by simp) (bodyStep_of_note n _) ih
  | goOn goesOn _ step _ ih => exact .goOn goesOn step ih
  | enter goesOn step body found ends _ ih => exact .enter goesOn step body found ends ih

/-- The notes of a body are recorded in their order, and nothing else is recorded as a note. -/
theorem ReadsNotes.classInfo (h : ReadsNotes endLine b ts notes b' after) :
    b'.declaration.classInfo = b.declaration.classInfo ++ notes := by
  induction h with
  | closed => exact (List.append_nil _).symm
  | note n _ ih =>
    rw [ih, ClassBody.noted, List.append_assoc]
    rfl
  | goOn _ other step _ ih => rw [ih, classInfo_of_goOn other step]
  | enter _ _ _ _ _ _ ih => exact ih

/-! ## A file with a noted class -/

/-- A note as it is written. -/
def noteText (note : String × String) : String :=
  "H_CLASSINFO(" ++ literal note.1 ++ ", " ++ literal note.2 ++ ")\n"

/-- A class with a base or without, and with notes. -/
def notedClass (name : String) (base : Option String) (notes : List (String × String)) : String :=
  "class " ++ name ++ (base.map (" : public " ++ ·)).getD "" ++ " \x7b H_OBJECT\n" ++
    String.join (notes.map noteText) ++ "\x7d;"

/-- What the tokens of a note say. -/
def noteSayings (note : String × String) : List (Kind × String) :=
  [(.identifier, "H_CLASSINFO"), (.punctuation, "("), (.string, literal note.1), (.punctuation, ","),
    (.string, literal note.2), (.punctuation, ")")]

/-- What the tokens of the file say. -/
def classSayings (name : String) (base : Option String) (notes : List (String × String)) :
    List (Kind × String) :=
  (.identifier, "class") :: (.identifier, name) ::
    (base.toList.flatMap (fun b => [(.punctuation, ":"), (.identifier, "public"), (.identifier, b)]) ++
      ([(.punctuation, "\x7b"), (.identifier, "H_OBJECT")] ++
        (notes.flatMap noteSayings ++ [(.punctuation, "\x7d"), (.punctuation, ";")])))

/-! ### Its tokens -/

section Lexing

variable {atLineStart : Bool} {chars : List Char} {said : List (Kind × String)}

theorem reads_mark {c : Char} (alone : ∀ flag, classify flag (c :: chars) = .ok (.punctuation, 1))
    (later : Reads false chars said) :
    Reads atLineStart (c :: chars) ((.punctuation, String.ofList [c]) :: said) :=
  Reads.token (p := [c]) (List.cons_ne_nil _ _) (alone _) (by decide) later

theorem classify_of_isWordStart {c : Char} (start : isWordStart c) :
    classify atLineStart (c :: chars) = classifyWord (c :: chars) := by
  have ne {d : Char} (noWord : isWordStart d = false) : c ≠ d := by
    rintro rfl
    rw [start] at noWord
    cases noWord
  have noSpace : ¬ isSpace c := by
    simp only [isSpace, Bool.or_eq_true, decide_eq_true_eq]
    rintro (((((rfl | rfl) | rfl) | rfl) | rfl) | rfl) <;> exact absurd start (by decide)
  have noSlash : c ≠ '/' := ne (by decide)
  have noHash : c ≠ '#' := ne (by decide)
  rw [classify, if_neg noSpace, if_neg (by simp [noSlash]), if_neg (by simp [noSlash]), if_neg (by simp [noHash]),
    if_pos start]

/-- An identifier up to a character that cannot make a longer word or a literal of it. -/
theorem reads_word {word : String} {next : Char} (identifier : TypeText.isIdentifier word.toList)
    (stops : isWordPart next = false ∧ next ≠ '"' ∧ next ≠ '\'') (later : Reads false (next :: chars) said) :
    Reads atLineStart (word.toList ++ next :: chars) ((.identifier, word) :: said) := by
  obtain ⟨noPart, noString, noCharacter⟩ := stops
  obtain ⟨first, more, spelled⟩ : ∃ first more, word.toList = first :: more := by
    refine List.exists_cons_of_ne_nil fun none => ?_
    rw [none] at identifier
    cases identifier
  rw [spelled] at identifier
  obtain ⟨start, parts⟩ : isWordStart first ∧ more.all isWordPart := Bool.and_eq_true_iff.1 identifier
  have all : ∀ c ∈ first :: more, isWordPart c := by
    refine List.forall_mem_cons.2 ⟨?_, List.all_eq_true.1 parts⟩
    simp only [isWordStart, isWordPart, Char.isAlphanum, Bool.or_eq_true] at start ⊢
    exact start.imp id .inl
  have length : wordLength (first :: more ++ next :: chars) = (first :: more).length := by
    rw [wordLength, List.takeWhile_append_of_pos all, List.takeWhile_cons_of_neg (by simp [noPart]), List.append_nil]
  have found : classify atLineStart (word.toList ++ next :: chars) = .ok (.identifier, word.toList.length) := by
    rw [spelled, List.cons_append, classify_of_isWordStart start, ← List.cons_append]
    dsimp only [classifyWord]
    rw [length, List.drop_left]
    split
    · rename_i quote
      exact absurd (List.cons.inj quote).1 noString
    · rename_i quote
      exact absurd (List.cons.inj quote).1 noCharacter
    · rfl
  have nonempty : word.toList ≠ [] := spelled ▸ List.cons_ne_nil first more
  have read := Reads.token nonempty found (by decide) later
  rwa [String.ofList_toList] at read

theorem reads_literal {text : String} (oneLine : '\n' ∉ text.toList) (later : Reads false chars said) :
    Reads atLineStart ((literal text).toList ++ chars) ((.string, literal text) :: said) := by
  have nonempty : (literal text).toList ≠ [] := by simp [literal]
  have read := Reads.token nonempty (classify_literal oneLine atLineStart chars) (by decide) later
  rwa [String.ofList_toList] at read

theorem reads_notes (oneLine : ∀ note ∈ notes, '\n' ∉ note.1.toList ∧ '\n' ∉ note.2.toList)
    (later : Reads true chars said) :
    Reads true ((String.join (notes.map noteText)).toList ++ chars) (notes.flatMap noteSayings ++ said) := by
  induction notes with
  | nil => exact later
  | cons note notes ih =>
    obtain ⟨⟨keyLine, valueLine⟩, others⟩ := List.forall_mem_cons.1 oneLine
    have spelled : (String.join ((note :: notes).map noteText)).toList ++ chars =
        "H_CLASSINFO".toList ++ '(' :: ((literal note.1).toList ++ ',' :: ' ' :: ((literal note.2).toList ++
          ')' :: '\n' :: ((String.join (notes.map noteText)).toList ++ chars))) := by
      rw [List.map_cons, String.join_cons]
      unfold noteText
      simp
    rw [spelled]
    refine reads_word (by decide) (by decide) (reads_mark (fun _ => rfl) (reads_literal keyLine ?_))
    refine reads_mark (fun _ => rfl) (Reads.space (by decide) (reads_literal valueLine ?_))
    exact reads_mark (fun _ => rfl) (Reads.space (by decide) (ih others))

/-- The tokens of the file say what is written. -/
theorem reads_notedClass {name : String} {base : Option String} (named : TypeText.isIdentifier name.toList)
    (derives : ∀ b ∈ base, TypeText.isIdentifier b.toList)
    (oneLine : ∀ note ∈ notes, '\n' ∉ note.1.toList ∧ '\n' ∉ note.2.toList) :
    Reads true (notedClass name base notes).toList (classSayings name base notes) := by
  have ends : Reads false [] [] := ⟨[], .ended, rfl⟩
  let inside : List Char := (String.join (notes.map noteText)).toList ++ ['\x7d', ';']
  let saidInside : List (Kind × String) := (.punctuation, "\x7b") :: (.identifier, "H_OBJECT") ::
    (notes.flatMap noteSayings ++ [(Kind.punctuation, "\x7d"), (Kind.punctuation, ";")])
  have body : Reads false (' ' :: '\x7b' :: ' ' :: ("H_OBJECT".toList ++ '\n' :: inside)) saidInside := by
    refine Reads.space (by decide) (reads_mark (fun _ => rfl) (Reads.space (by decide) ?_))
    refine reads_word (by decide) (by decide) (Reads.space (by decide) ?_)
    exact reads_notes oneLine (reads_mark (fun _ => rfl) (reads_mark (fun _ => rfl) ends))
  cases base with
  | none =>
    have spelled : (notedClass name none notes).toList = "class".toList ++ ' ' :: (name.toList ++
        ' ' :: '\x7b' :: ' ' :: ("H_OBJECT".toList ++ '\n' :: inside)) := by
      unfold notedClass
      simp [inside]
    rw [spelled]
    exact reads_word (by decide) (by decide) (Reads.space (by decide) (reads_word named (by decide) body))
  | some b =>
    have spelled : (notedClass name (some b) notes).toList = "class".toList ++ ' ' :: (name.toList ++
        ' ' :: ':' :: ' ' :: ("public".toList ++ ' ' :: (b.toList ++
          ' ' :: '\x7b' :: ' ' :: ("H_OBJECT".toList ++ '\n' :: inside)))) := by
      unfold notedClass
      simp [inside]
    have bases : Reads false (' ' :: ':' :: ' ' :: ("public".toList ++ ' ' :: (b.toList ++
        ' ' :: '\x7b' :: ' ' :: ("H_OBJECT".toList ++ '\n' :: inside))))
        ((.punctuation, ":") :: (.identifier, "public") :: (.identifier, b) :: saidInside) := by
      refine Reads.space (by decide) (reads_mark (fun _ => rfl) (Reads.space (by decide) ?_))
      refine reads_word (by decide) (by decide) (Reads.space (by decide) ?_)
      exact reads_word (derives b rfl) (by decide) body
    rw [spelled]
    exact reads_word (by decide) (by decide) (Reads.space (by decide) (reads_word named (by decide) bases))

end Lexing

/-! ### Its class -/

/-- What is recorded of it. -/
def notedDeclaration (name : String) (base : Option String) (notes : List (String × String)) (line : Nat) :
    ClassDeclaration where
  name := name
  scope := ""
  bases := base.toList
  line := line
  classInfo := notes

theorem exists_of_saying {kind : Kind} {text : String} {said : List (Kind × String)}
    (h : ts.map Token.saying = (kind, text) :: said) :
    ∃ t rest, ts = t :: rest ∧ t.kind = kind ∧ t.text = text ∧ rest.map Token.saying = said := by
  obtain ⟨t, rest, rfl, first, others⟩ := List.map_eq_cons_iff.1 h
  cases first
  exact ⟨t, rest, rfl, rfl, rfl, others⟩

theorem exists_spelled {mark : String} {said : List (Kind × String)}
    (h : ts.map Token.saying = (.punctuation, mark) :: said) :
    ∃ (m : Mark mark) (rest : List Token), ts = m.token :: rest ∧ rest.map Token.saying = said := by
  obtain ⟨t, rest, rfl, kind, text, others⟩ := exists_of_saying h
  exact ⟨⟨t, isMark_iff.2 ⟨kind, text⟩⟩, rest, rfl, others⟩

theorem exists_word {word : String} {said : List (Kind × String)} (among : List String) (known : word ∈ among)
    (h : ts.map Token.saying = (.identifier, word) :: said) :
    ∃ (w : Word among) (rest : List Token), ts = w.token :: rest ∧ w.token.text = word ∧
      rest.map Token.saying = said := by
  obtain ⟨t, rest, rfl, kind, text, others⟩ := exists_of_saying h
  exact ⟨⟨t, kind, text ▸ known⟩, rest, rfl, text, others⟩

theorem exists_name {name : String} {said : List (Kind × String)} (reserved : List String)
    (identifier : TypeText.isIdentifier name.toList) (free : name ∉ reserved)
    (h : ts.map Token.saying = (.identifier, name) :: said) :
    ∃ (n : Name reserved) (rest : List Token), ts = n.token :: rest ∧ n.text = name ∧
      rest.map Token.saying = said := by
  obtain ⟨t, rest, rfl, kind, text, others⟩ := exists_of_saying h
  exact ⟨⟨t, kind, text ▸ identifier, text ▸ free⟩, rest, rfl, text, others⟩

theorem exists_text {text : String} {said : List (Kind × String)}
    (h : ts.map Token.saying = (.string, literal text) :: said) :
    ∃ (t : WrittenText) (rest : List Token), ts = t.token :: rest ∧ t.text = text ∧
      rest.map Token.saying = said := by
  obtain ⟨t, rest, rfl, kind, spelled, others⟩ := exists_of_saying h
  exact ⟨⟨t, kind, text, spelled⟩, rest, rfl, rfl, others⟩

theorem exists_note {note : String × String} {said : List (Kind × String)}
    (h : ts.map Token.saying = noteSayings note ++ said) :
    ∃ (n : WrittenNote) (rest : List Token), ts = n.tokens ++ rest ∧ n.pair = note ∧
      rest.map Token.saying = said := by
  obtain ⟨marker, _, rfl, -, h₁⟩ := exists_word ["H_CLASSINFO"] (List.mem_singleton_self _) h
  obtain ⟨opening, _, rfl, h₂⟩ := exists_spelled h₁
  obtain ⟨key, _, rfl, isKey, h₃⟩ := exists_text h₂
  obtain ⟨comma, _, rfl, h₄⟩ := exists_spelled h₃
  obtain ⟨value, _, rfl, isValue, h₅⟩ := exists_text h₄
  obtain ⟨closing, rest, rfl, others⟩ := exists_spelled h₅
  exact ⟨⟨marker, opening, key, comma, value, closing⟩, rest, rfl, Prod.ext isKey isValue, others⟩

theorem exists_notes {said : List (Kind × String)} (h : ts.map Token.saying = notes.flatMap noteSayings ++ said) :
    ∃ (ns : List WrittenNote) (rest : List Token), ts = ns.flatMap (·.tokens) ++ rest ∧ ns.map (·.pair) = notes ∧
      rest.map Token.saying = said := by
  induction notes generalizing ts with
  | nil => exact ⟨[], ts, rfl, rfl, h⟩
  | cons note notes ih =>
    rw [List.flatMap_cons, List.append_assoc] at h
    obtain ⟨n, _, rfl, isNote, more⟩ := exists_note h
    obtain ⟨ns, rest, rfl, isNotes, others⟩ := ih more
    refine ⟨n :: ns, rest, ?_, ?_, others⟩
    · rw [List.flatMap_cons, List.append_assoc]
    · rw [List.map_cons, isNote, isNotes]

/-- The head of the class. -/
theorem exists_head {name : String} {base : Option String} {said : List (Kind × String)}
    (named : TypeText.isIdentifier name.toList) (notFinal : name ≠ "final")
    (derives : ∀ b ∈ base, TypeText.isIdentifier b.toList ∧ b ∉ inheritanceWords)
    (h : ts.map Token.saying = (.identifier, "class") :: (.identifier, name) ::
      (base.toList.flatMap (fun b => [(Kind.punctuation, ":"), (Kind.identifier, "public"), (Kind.identifier, b)]) ++
        said)) :
    ∃ (head : WrittenHead) (rest : List Token), ts = head.keyword.token :: (head.tokens ++ rest) ∧
      head.name.text = name ∧ head.baseTexts = base.toList ∧ rest.map Token.saying = said := by
  have isAccess : "public" ∈ inheritanceWords := by decide
  obtain ⟨keyword, _, rfl, -, h₁⟩ := exists_word ["class", "struct"] (by decide) h
  obtain ⟨called, _, rfl, isName, h₂⟩ := exists_name ["final"] named (by simpa using notFinal) h₁
  cases base with
  | none => exact ⟨⟨keyword, called, none, none⟩, _, rfl, isName, rfl, h₂⟩
  | some b =>
    obtain ⟨identifier, free⟩ := derives b rfl
    obtain ⟨colon, _, rfl, h₃⟩ := exists_spelled h₂
    obtain ⟨access, _, rfl, -, h₄⟩ := exists_word inheritanceWords isAccess h₃
    obtain ⟨parent, rest, rfl, isBase, others⟩ := exists_name inheritanceWords identifier free h₄
    refine ⟨⟨keyword, called, none, some ⟨colon, ⟨[access], none, ⟨parent, []⟩⟩, []⟩⟩, rest, rfl, isName, ?_, others⟩
    rw [Option.toList_some, ← isBase]
    simp [WrittenHead.baseTexts, WrittenBase.text, NameChain.texts]

theorem readsNotes_written (endLine : Nat) (ns : List WrittenNote) (closing : Mark "\x7d") (rest : List Token) :
    ReadsNotes endLine b (ns.flatMap (·.tokens) ++ closing.token :: rest) (ns.map (·.pair))
      (b.noted (ns.map (·.pair))) rest := by
  induction ns generalizing b with
  | nil =>
    rw [List.map_nil, noted_nil]
    exact .closed closing.isMark
  | cons n ns ih =>
    have others := ih (b := b.noted [n.pair])
    rw [noted_noted] at others
    rw [List.flatMap_cons, List.append_assoc]
    exact .note n others

/-- Whatever stands between the tokens, the file is read. -/
theorem parse_of_classSayings (file : String) {source name : String} {base : Option String}
    (named : TypeText.isIdentifier name.toList) (notFinal : name ≠ "final")
    (derives : ∀ b ∈ base, TypeText.isIdentifier b.toList ∧ b ∉ inheritanceWords)
    (tokens : significantTokens source = .ok ts) (said : ts.map Token.saying = classSayings name base notes) :
    ∃ line, parse file source = .ok [notedDeclaration name base notes line] := by
  obtain ⟨head, _, rfl, isName, bases, h₁⟩ := exists_head named notFinal derives said
  obtain ⟨opening, _, rfl, h₂⟩ := exists_spelled h₁
  obtain ⟨object, _, rfl, -, h₃⟩ := exists_word ["H_OBJECT"] (List.mem_singleton_self _) h₂
  obtain ⟨ns, _, rfl, isNotes, h₄⟩ := exists_notes h₃
  obtain ⟨closing, _, rfl, h₅⟩ := exists_spelled h₄
  obtain ⟨semicolon, _, rfl, h₆⟩ := exists_spelled h₅
  obtain rfl := List.map_eq_nil_iff.1 h₆
  have behind : (ns.flatMap (·.tokens) ++ closing.token :: [semicolon.token]).head?.any (·.isMark ";") = false := by
    cases ns <;> simp [WrittenNote.tokens]
  have body (endLine : Nat) := (ReadsNotes.goOn (by simp) (by simp)
    (bodyStep_of_object (b := .start (scopeName []) head.read) object none behind)
    (readsNotes_written endLine ns closing [semicolon.token])).readsBody
  have found : (({ ClassBody.start (scopeName []) head.read with annotated := true }).noted notes).classes false =
      .ok [notedDeclaration name base notes head.name.token.line] := by
    rw [notedDeclaration, ← isName, ← bases]
    rfl
  rw [isNotes] at body
  have read (endLine : Nat) := ReadsFile.enter (fileStep_of_head head opening _) (body endLine) found
    (.goOn (fileStep_of_semicolon semicolon []) .done)
  refine ⟨head.name.token.line, ?_⟩
  rw [parse, tokens]
  exact mapError_eq_ok_iff.2 (classesOfTokens_eq_ok_iff.2 (read _))

end Reflection.Declaration
