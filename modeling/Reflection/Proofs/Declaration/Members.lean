import Reflection.Proofs.Declaration.Enumerations
import Reflection.Proofs.Declaration.WrittenMembers
/-!
# Functions of a class

The functions of an annotated class that are recorded are those with a marker and those in a section of
signals or of slots, in their order, with the kind that the marker or else the section gives and with the
access in force (`marked_functions_are_recorded`). A signal with a result is refused instead
(`signal_with_result_is_refused`).
-/

namespace Reflection.Declaration

open Reflection.Source

/-! ## Items -/

variable {endLine : Nat} {b : ClassBody}

theorem accessOf?_eq_none {word : String} (h : word ∉ ["public", "protected", "private"]) :
    accessOf? word = none := by
  unfold accessOf?
  split <;> simp_all

theorem markedKind?_eq_none {word : String} (h : word ∉ ["H_INVOKABLE", "H_SIGNAL", "H_SLOT"]) :
    markedKind? word = none := by
  unfold markedKind?
  split <;> simp_all

theorem bodyStep_of_other {t : Token} (h : ∀ word ∈ ["class", "struct", "template"], t.isWord word = false)
    (rest : List Token) : bodyStep endLine b t rest =
      (bodyItem endLine b t rest).map fun (b, after) => .goOn b after := by
  rw [bodyStep, itemStart_of_other h]
  rfl

/-- What starts with a name is a member. -/
theorem bodyStep_of_name (n : Name reservedWords) (rest : List Token) :
    bodyStep endLine b n.token rest =
      (bodyMember { b with marker := none } (b.marker <|> b.section_.kind?) (n.token :: rest)).map
        fun (b, after) => .goOn b after := by
  have ne (word : String) (h : word ∈ reservedWords) : n.token.text ≠ word := n.text_ne h
  have notIn {words : List String} (h : words ⊆ reservedWords) : n.token.text ∉ words :=
    fun member => n.free (h member)
  have noWord (word : String) (h : word ∈ reservedWords) : n.token.isWord word = false := n.isWord_eq_false h
  have noAccess : accessOf? n.token.text = none := accessOf?_eq_none (notIn (by decide))
  have noMarker : markedKind? n.token.text = none := markedKind?_eq_none (notIn (by decide))
  have noSkip : n.token.text ∉ skippedWords := notIn (by decide)
  have noSignals : isSignalsWord n.token = false := by
    simp [isSignalsWord, noWord "signals" (by decide), noWord "H_SIGNALS" (by decide)]
  have noSlots : isSlotsWord n.token = false := by
    simp [isSlotsWord, noWord "slots" (by decide), noWord "H_SLOTS" (by decide)]
  rw [bodyStep_of_other (by simp [noWord "class" (by decide), noWord "struct" (by decide),
    noWord "template" (by decide)])]
  simp [bodyItem, noAccess, noMarker, noSkip, noSignals, noSlots, ne "H_OBJECT" (by decide),
    ne "H_PROPERTY" (by decide), ne "H_ENUM" (by decide), ne "H_FLAG" (by decide),
    ne "H_CLASSINFO" (by decide), ne "enum" (by decide)]

theorem expectMark_written {mark : String} (m : Mark mark) (rest : List Token) :
    expectMark endLine mark (m.token :: rest) = .ok rest := by
  simp [expectMark]

theorem isSlotsWord_written (word : Word ["slots", "H_SLOTS"]) : isSlotsWord word.token := by
  have text := word.text_mem
  simpa [isSlotsWord, Word.isWord_eq] using text

/-- An access label, which may start a section of slots. -/
theorem bodyStep_of_access (word : Word ["public", "protected", "private"])
    (sort : Option (Word ["slots", "H_SLOTS"])) (colon : Mark ":") (rest : List Token) :
    bodyStep endLine b word.token (Word.tokens? sort ++ colon.token :: rest) =
      .ok (.goOn { b with
        access := (accessOf? word.token.text).getD b.access
        section_ := if sort.isSome then .slots else .plain } rest) := by
  have text := word.text_mem
  simp only [List.mem_cons, List.not_mem_nil, or_false] at text
  obtain ⟨access, found⟩ : ∃ access, accessOf? word.token.text = some access := by
    rcases text with text | text | text <;> exact ⟨_, by rw [text]; rfl⟩
  rw [bodyStep_of_other (by simp), bodyItem, if_neg (by simp), if_neg (by simp), if_neg (by simp), found]
  cases sort with
  | none =>
    have noSlots : isSlotsWord colon.token = false := by simp [isSlotsWord]
    simp [Word.tokens?, noSlots, expectMark_written]
    rfl
  | some sort =>
    simp [Word.tokens?, isSlotsWord_written, expectMark_written]
    rfl

theorem bodyStep_of_signals (word : Word ["signals", "H_SIGNALS"]) (colon : Mark ":") (rest : List Token) :
    bodyStep endLine b word.token (colon.token :: rest) =
      .ok (.goOn { b with access := .isPublic, section_ := .signals } rest) := by
  have signals : isSignalsWord word.token := by simpa [isSignalsWord, Word.isWord_eq] using word.text_mem
  have noAccess : accessOf? word.token.text = none := accessOf?_eq_none (word.text_not_mem (by decide))
  rw [bodyStep_of_other (by simp), bodyItem, if_neg (by simp), if_neg (by simp), if_neg (by simp), noAccess]
  simp [signals, expectMark_written]
  rfl

theorem bodyStep_of_slots (word : Word ["slots", "H_SLOTS"]) (colon : Mark ":") (rest : List Token) :
    bodyStep endLine b word.token (colon.token :: rest) = .ok (.goOn { b with section_ := .slots } rest) := by
  have noAccess : accessOf? word.token.text = none := accessOf?_eq_none (word.text_not_mem (by decide))
  have noSignals : isSignalsWord word.token = false := by simp [isSignalsWord]
  rw [bodyStep_of_other (by simp), bodyItem, if_neg (by simp), if_neg (by simp), if_neg (by simp), noAccess]
  simp [noSignals, isSlotsWord_written, expectMark_written]
  rfl

theorem bodyStep_of_marker (word : Word ["H_INVOKABLE", "H_SIGNAL", "H_SLOT"]) (rest : List Token) :
    bodyStep endLine b word.token rest = .ok (.goOn { b with marker := markedKind? word.token.text } rest) := by
  rw [bodyStep_of_other (by simp)]
  have text := word.text_mem
  simp only [List.mem_cons, List.not_mem_nil, or_false] at text
  rcases text with text | text | text <;>
    · simp [bodyItem, text, accessOf?, isSignalsWord, isSlotsWord, markedKind?]
      rfl

/-! ## Bodies -/

variable {n : Nat} {rest : List Token}

/-- Goes on if no function is a signal with a result, and fails with the first that is. -/
def checked {α : Type} (fs : List FunctionDeclaration) (x : Except LocatedFault α) : Except LocatedFault α :=
  match fs.find? isSpoiled with
  | some f => .error ⟨f.line, .signalReturns f.name f.returnType⟩
  | none => x

theorem checked_append {α : Type} (fs gs : List FunctionDeclaration) (x : Except LocatedFault α) :
    checked (fs ++ gs) x = checked fs (checked gs x) := by
  simp only [checked, List.find?_append]
  cases fs.find? isSpoiled <;> rfl

theorem checked_bind {α β : Type} (fs : List FunctionDeclaration) (x : Except LocatedFault α)
    (f : α → Except LocatedFault β) : checked fs x >>= f = checked fs (x >>= f) := by
  unfold checked
  cases fs.find? isSpoiled <;> rfl

theorem checked_map {α β : Type} (fs : List FunctionDeclaration) (x : Except LocatedFault α) (f : α → β) :
    (checked fs x).map f = checked fs (x.map f) := by
  unfold checked
  cases fs.find? isSpoiled <;> rfl

/-- A body with one more function, if there is one. -/
def ClassBody.record (b : ClassBody) (f : Option FunctionDeclaration) : ClassBody :=
  { b with declaration := { b.declaration with methods := b.declaration.methods ++ f.toList } }

theorem record_none (b : ClassBody) : b.record none = b := by
  simp [ClassBody.record]

theorem bodyMember_written (f : WrittenFunction) (kind : Option MethodKind)
    (behind : rest.head?.any (·.isMark ";") = false) :
    bodyMember b kind (f.front ++ (f.ending.tokens ++ rest)) =
      checked (kind.map (f.declaration · b.access)).toList
        (.ok (b.record (kind.map (f.declaration · b.access)), rest)) := by
  rw [bodyMember, memberTokens_written f behind]
  cases kind with
  | none => rw [Option.map_none, record_none]; rfl
  | some kind =>
    show (function? kind b.access f.front >>= _) = _
    rw [function?_written]
    cases spoiled : isSpoiled (f.declaration kind b.access) with
    | true =>
      simp [checked, spoiled]
      rfl
    | false =>
      simp [checked, spoiled]
      rfl

theorem bodyMember_data (type name : Name reservedWords) (semicolon : Mark ";") (kind : Option MethodKind)
    (rest : List Token) :
    bodyMember b kind (type.token :: name.token :: semicolon.token :: rest) = .ok (b, rest) := by
  rw [bodyMember, memberTokens_data]
  cases kind with
  | none => rfl
  | some kind =>
    show (function? kind b.access [type.token, name.token] >>= _) = _
    rw [function?_data]
    rfl

/-- An item after which the reader goes on takes some of the bound, and leaves enough of it. -/
theorem classBody_goOn {t : Token} {b' : ClassBody} {ts after : List Token} (goesOn : t.isMark "\x7d" = false)
    (step : bodyStep endLine b t ts = .ok (.goOn b' after)) (fuel : (t :: ts).length < n) :
    ∃ m, after.length < m ∧ classBody endLine n b (t :: ts) = classBody endLine m b' after := by
  obtain ⟨n, rfl⟩ : ∃ k, n = k + 1 := ⟨n - 1, by omega⟩
  have shorter := (bodyStep_eq_ok goesOn step).2.length_le
  refine ⟨n, by simp only [List.length_cons] at fuel; omega, ?_⟩
  rw [classBody_cons n goesOn, step]
  rfl

/-- A function is read with the marker that waits for it, or for the section that it stands in. -/
theorem classBody_function (f : WrittenFunction) (behind : rest.head?.any (·.isMark ";") = false)
    (fuel : (f.front ++ (f.ending.tokens ++ rest)).length < n) :
    ∃ m, rest.length < m ∧ classBody endLine n b (f.front ++ (f.ending.tokens ++ rest)) =
      checked ((b.marker <|> b.section_.kind?).map (f.declaration · b.access)).toList
        (classBody endLine m ({ b with marker := none }.record
          ((b.marker <|> b.section_.kind?).map (f.declaration · b.access))) rest) := by
  obtain ⟨n, rfl⟩ : ∃ k, n = k + 1 := ⟨n - 1, by omega⟩
  simp only [List.length_append, WrittenFunction.front, List.length_cons] at fuel
  refine ⟨n, by omega, ?_⟩
  have read := bodyMember_written (b := { b with marker := none }) f (b.marker <|> b.section_.kind?) behind
  rw [WrittenFunction.front, List.cons_append] at read ⊢
  rw [classBody_cons n (by simp), bodyStep_of_name, read, checked_map, checked_bind]
  rfl

/-- A body after an item in it. -/
def ClassBody.pass (b : ClassBody) (item : WrittenItem) : ClassBody :=
  { b.record (item.recorded? ⟨b.access, b.section_⟩) with
    annotated := b.annotated || item.isObject
    access := (item.label ⟨b.access, b.section_⟩).access
    section_ := (item.label ⟨b.access, b.section_⟩).section_ }

/-- One item is read, and what it declares is recorded, unless it is a signal with a result. -/
theorem classBody_item (item : WrittenItem) (waits : b.marker = none)
    (behind : rest.head?.any (·.isMark ";") = false) (fuel : (item.tokens ++ rest).length < n) :
    ∃ m, rest.length < m ∧ classBody endLine n b (item.tokens ++ rest) =
      checked (item.recorded? ⟨b.access, b.section_⟩).toList (classBody endLine m (b.pass item) rest) := by
  have unmarked : { b with marker := none } = b := by rw [← waits]
  -- An item that is no function is one step of the reader, and records nothing.
  have passes {t : Token} {ts : List Token} (goesOn : t.isMark "\x7d" = false)
      (nothing : item.recorded? ⟨b.access, b.section_⟩ = none)
      (step : bodyStep endLine b t ts = .ok (.goOn { b with
        annotated := b.annotated || item.isObject
        access := (item.label ⟨b.access, b.section_⟩).access
        section_ := (item.label ⟨b.access, b.section_⟩).section_ } rest))
      (fuel : (t :: ts).length < n) : ∃ m, rest.length < m ∧ classBody endLine n b (t :: ts) =
        checked (item.recorded? ⟨b.access, b.section_⟩).toList (classBody endLine m (b.pass item) rest) := by
    rw [ClassBody.pass, nothing, record_none]
    exact classBody_goOn goesOn step fuel
  cases item with
  | object word semicolon =>
    refine passes (by simp) rfl ((bodyStep_of_object word semicolon behind).trans ?_) fuel
    simp [WrittenItem.label, WrittenItem.isObject]
  | access word sort colon =>
    rw [WrittenItem.tokens, List.cons_append, List.append_assoc] at fuel ⊢
    refine passes (by simp) rfl ((bodyStep_of_access word sort colon rest).trans ?_) fuel
    cases sort <;> simp [WrittenItem.label, WrittenItem.isObject]
  | signals word colon =>
    refine passes (by simp) rfl ((bodyStep_of_signals word colon rest).trans ?_) fuel
    simp [WrittenItem.label, WrittenItem.isObject]
  | slots word colon =>
    refine passes (by simp) rfl ((bodyStep_of_slots word colon rest).trans ?_) fuel
    simp [WrittenItem.label, WrittenItem.isObject]
  | data type name semicolon =>
    have read := bodyMember_data (b := { b with marker := none }) type name semicolon
      (b.marker <|> b.section_.kind?) rest
    refine passes (by simp) rfl ((bodyStep_of_name type (name.token :: semicolon.token :: rest)).trans ?_) fuel
    rw [read, unmarked]
    simp [WrittenItem.label, WrittenItem.isObject, Except.map]
  | function marker f =>
    rw [WrittenItem.tokens, List.append_assoc, List.append_assoc] at fuel ⊢
    have passed : b.pass (.function marker f) =
        b.record ((WrittenItem.function marker f).recorded? ⟨b.access, b.section_⟩) := by
      simp [ClassBody.pass, WrittenItem.isObject, WrittenItem.label, ClassBody.record]
    rw [passed]
    cases marker with
    | none =>
      obtain ⟨m, enough, read⟩ := classBody_function (b := b) f behind fuel
      refine ⟨m, enough, read.trans ?_⟩
      rw [unmarked, waits]
      rfl
    | some word =>
      obtain ⟨k, left, marks⟩ := classBody_goOn (by simp) (bodyStep_of_marker word _) fuel
      obtain ⟨m, enough, read⟩ :=
        classBody_function (b := { b with marker := markedKind? word.token.text }) f behind left
      refine ⟨m, enough, marks.trans (read.trans ?_)⟩
      dsimp only
      rw [unmarked]
      rfl

/-! ## Runs over all items -/

def itemTokens (items : List WrittenItem) : List Token :=
  items.flatMap (·.tokens)

/-- No item starts with a semicolon. -/
theorem head_itemTokens (items : List WrittenItem) (closing : Mark "\x7d") (rest : List Token) :
    (itemTokens items ++ closing.token :: rest).head?.any (·.isMark ";") = false := by
  cases items with
  | nil => simp [itemTokens]
  | cons item items =>
    cases item with
    | function marker f =>
      cases marker <;> simp [itemTokens, WrittenItem.tokens, Word.tokens?, WrittenFunction.front]
    | _ => simp [itemTokens, WrittenItem.tokens]

/-- A body is read to its end, up to a signal with a result. -/
theorem classBody_items (items : List WrittenItem) (waits : b.marker = none) (closing : Mark "\x7d")
    (fuel : (itemTokens items ++ closing.token :: rest).length < n) :
    classBody endLine n b (itemTokens items ++ closing.token :: rest) =
      checked (functionsOf ⟨b.access, b.section_⟩ items) (.ok (items.foldl ClassBody.pass b, rest)) := by
  induction items generalizing b n with
  | nil =>
    obtain ⟨n, rfl⟩ : ∃ k, n = k + 1 := ⟨n - 1, by omega⟩
    rw [itemTokens, List.flatMap_nil, List.nil_append, classBody, if_pos closing.isMark]
    rfl
  | cons item items ih =>
    rw [itemTokens, List.flatMap_cons, List.append_assoc] at fuel ⊢
    obtain ⟨m, enough, read⟩ := classBody_item item waits (head_itemTokens items closing rest) fuel
    have others := ih (b := b.pass item) waits enough
    rw [functionsOf, checked_append]
    exact read.trans (congrArg _ others)

/-- All items together add the functions that are recorded of them, and no nested class. -/
theorem foldl_pass (items : List WrittenItem) (b : ClassBody) :
    (items.foldl ClassBody.pass b).declaration =
        { b.declaration with
          methods := b.declaration.methods ++ functionsOf ⟨b.access, b.section_⟩ items } ∧
      (items.foldl ClassBody.pass b).annotated = (b.annotated || items.any (·.isObject)) ∧
      (items.foldl ClassBody.pass b).nested = b.nested := by
  induction items generalizing b with
  | nil => simp [functionsOf]
  | cons item items ih =>
    obtain ⟨declaration, annotated, nested⟩ := ih (b.pass item)
    rw [List.foldl_cons, declaration, annotated, nested]
    simp [ClassBody.pass, ClassBody.record, functionsOf, Bool.or_assoc]

/-! ## The functions of a class -/

/-- What is recorded of a class with the given items. -/
def recordedClass (scope : String) (head : ClassHead) (items : List WrittenItem) : ClassDeclaration :=
  { (ClassBody.start scope head).declaration with methods := functionsOf (.start head.isStruct) items }

theorem declaration_foldl_pass (scope : String) (head : ClassHead) (items : List WrittenItem) :
    (items.foldl ClassBody.pass (.start scope head)).declaration = recordedClass scope head items :=
  (foldl_pass items (.start scope head)).1

theorem annotated_foldl_pass (scope : String) (head : ClassHead) {items : List WrittenItem}
    (annotated : items.any (·.isObject)) :
    (items.foldl ClassBody.pass (.start scope head)).annotated = true :=
  (foldl_pass items (.start scope head)).2.1.trans annotated

/-- The classes of a file with one class, unless one of its signals has a result. -/
theorem classesOfTokens_written (h : WrittenHead) (opening : Mark "\x7b") {items : List WrittenItem}
    (closing : Mark "\x7d") (semicolon : Mark ";") (annotated : items.any (·.isObject)) :
    classesOfTokens (h.keyword.token :: (h.tokens ++ opening.token ::
        (itemTokens items ++ [closing.token, semicolon.token]))) =
      checked (functionsOf (.start h.read.isStruct) items) (.ok [recordedClass "" h.read items]) := by
  obtain ⟨n, length⟩ : ∃ n, (h.tokens ++ opening.token ::
      (itemTokens items ++ [closing.token, semicolon.token])).length = n + 1 := ⟨_, by simp; rfl⟩
  have fuel : (itemTokens items ++ closing.token :: [semicolon.token]).length < n + 2 := by
    simp only [List.length_append, List.length_cons] at length ⊢
    omega
  have own : (items.foldl ClassBody.pass (.start (scopeName []) h.read)).classes false =
      .ok [recordedClass "" h.read items] := by
    have alone : (items.foldl ClassBody.pass (.start (scopeName []) h.read)).nested = [] :=
      (foldl_pass items _).2.2
    rw [ClassBody.classes, annotated_foldl_pass _ _ annotated, alone, declaration_foldl_pass]
    rfl
  rw [classesOfTokens, List.length_cons, length, fileItems_cons, fileStep_of_head]
  show (classBody _ (n + 2) (.start (scopeName []) h.read) (itemTokens items ++
    closing.token :: [semicolon.token]) >>= _) = _
  rw [classBody_items items rfl closing fuel, checked_bind]
  refine congrArg _ (bind_eq_ok_iff.2 ⟨_, rfl, ?_⟩)
  dsimp only
  rw [own, fileItems_cons, fileStep_of_semicolon]
  cases n <;> rfl

/-- The recorded functions of an annotated class, whatever else its body holds. If the class is all that
stands in a file, the file is read and the class has just these functions, provided that its signals have
no result; otherwise the file is refused for the first signal that has one. In any other file that can be
read, and at any place in it that the reader comes by, the class has just these functions. -/
theorem marked_functions_are_recorded (items : List WrittenItem) (closing : Mark "\x7d")
    (annotated : items.any (·.isObject)) :
    (∀ (file : String) {source : String} (h : WrittenHead) (opening : Mark "\x7b") (semicolon : Mark ";"),
      significantTokens source = .ok (h.keyword.token :: (h.tokens ++ opening.token ::
        (itemTokens items ++ [closing.token, semicolon.token]))) →
      ((∀ f ∈ functionsOf (.start h.read.isStruct) items, f.kind = .signal → f.returnType = "void") →
        parse file source = .ok [recordedClass "" h.read items]) ∧
      ∀ f, (functionsOf (.start h.read.isStruct) items).find? isSpoiled = some f →
        parse file source = .error ⟨file, f.line, .signalReturns f.name f.returnType⟩) ∧
    ∀ (file : String) {source scope : String} {ts rest : List Token} {isTemplate : Bool} {head : ClassHead}
      {classes : List ClassDeclaration}, significantTokens source = .ok ts →
      Reaches (lastLine ts) ts
        (.body isTemplate (.start scope head) (itemTokens items ++ closing.token :: rest)) →
      parse file source = .ok classes → recordedClass scope head items ∈ classes := by
  refine ⟨fun file source h opening semicolon written => ?_, fun file source scope ts rest isTemplate head
    classes written here parsed => ?_⟩
  · have read := classesOfTokens_written h opening closing semicolon annotated
    rw [parse, written]
    dsimp only
    rw [read, checked]
    refine ⟨fun void => ?_, fun f first => ?_⟩
    · have none : (functionsOf (.start h.read.isStruct) items).find? isSpoiled = none := by
        rw [List.find?_eq_none]
        intro f hf
        simpa [isSpoiled] using void f hf
      rw [none]
      rfl
    · rw [first]
      rfl
  · rw [parse, written] at parsed
    have read := classesOfTokens_eq_ok_iff.1 (mapError_eq_ok_iff.1 parsed)
    obtain ⟨whole, left, own, body, found, within⟩ := finds_of_reaches read here
    have again := classBody_of_reads body (Nat.lt_succ_self _)
    rw [classBody_items items rfl closing (Nat.lt_succ_self _), checked] at again
    split at again
    · cases again
    · cases again
      rw [ClassBody.classes, annotated_foldl_pass _ _ annotated, declaration_foldl_pass] at found
      cases isTemplate <;> cases found
      exact within List.mem_cons_self

/-! ### A class with functions of all kinds -/

/-- Functions with a marker, without one, and in two sections. -/
def chime : String :=
  "class Chime \x7b H_OBJECT H_INVOKABLE int toll(); void oil() \x7b \x7b \x7d \x7d " ++
    "signals: void rung(int times = 3); protected slots: void ring(Rope, T n) const; int mass; \x7d;"

def chimeHead : WrittenHead where
  keyword := .classAt 0
  name := .placed "Chime" 6 (by decide) (by decide)
  final := none
  bases := none

def toll : WrittenFunction where
  result := .placed "int" 35 (by decide) (by decide)
  name := .placed "toll" 39 (by decide) (by decide)
  opening := .placed "(" 43
  parameters := none
  closing := .placed ")" 44
  const := none
  ending := .semicolon (.placed ";" 45)

/-- A body with brackets in it. -/
def oil : WrittenFunction where
  result := .placed "void" 47 (by decide) (by decide)
  name := .placed "oil" 52 (by decide) (by decide)
  opening := .placed "(" 55
  parameters := none
  closing := .placed ")" 56
  const := none
  ending := .body (.placed "\x7b" 58) [markAt "\x7b" 60, markAt "\x7d" 62]
    (.group (by decide) (show (markAt "\x7b" 60).isMark "\x7b" from rfl) .nil
      (show (markAt "\x7d" 62).isMark "\x7d" from rfl) .nil)
    (.placed "\x7d" 64)

def rung : WrittenFunction where
  result := .placed "void" 75 (by decide) (by decide)
  name := .placed "rung" 80 (by decide) (by decide)
  opening := .placed "(" 84
  parameters := some
    ({ type := .placed "int" 85 (by decide) (by decide)
       name := some (.placed "times" 89 (by decide) (by decide))
       value := some (.placed "=" 95, ⟨numberAt "3" 97, rfl, rfl⟩) }, [])
  closing := .placed ")" 98
  const := none
  ending := .semicolon (.placed ";" 99)

def ring : WrittenFunction where
  result := .placed "void" 118 (by decide) (by decide)
  name := .placed "ring" 123 (by decide) (by decide)
  opening := .placed "(" 127
  parameters := some
    (⟨.placed "Rope" 128 (by decide) (by decide), none, none⟩,
      [(.placed "," 132,
        ⟨.placed "T" 134 (by decide) (by decide), some (.placed "n" 136 (by decide) (by decide)), none⟩)])
  closing := .placed ")" 137
  const := some (.placed "const" 139 (by decide))
  ending := .semicolon (.placed ";" 144)

def chimeItems : List WrittenItem :=
  [.object (.objectAt 14) none,
    .function (some (.placed "H_INVOKABLE" 23 (by decide))) toll,
    .function none oil,
    .signals (.placed "signals" 66 (by decide)) (.placed ":" 73),
    .function none rung,
    .access (.placed "protected" 101 (by decide)) (some (.placed "slots" 111 (by decide))) (.placed ":" 116),
    .function none ring,
    .data (.placed "int" 146 (by decide) (by decide)) (.placed "mass" 150 (by decide) (by decide))
      (.placed ";" 154)]

/-- The tokens of the class. -/
def chimeTokens : List Token :=
  chimeHead.keyword.token :: (chimeHead.tokens ++ markAt "\x7b" 12 ::
    (itemTokens chimeItems ++ [markAt "\x7d" 156, markAt ";" 157]))

/-- A function without a marker is recorded only in a section. -/
theorem chime_functions_are_recorded :
    significantTokens chime = .ok chimeTokens ∧
      parse "chime.h" chime = .ok
        [⟨"Chime", "", [], 1,
          [⟨"toll", "int", [], .method, .isPrivate, false, 1⟩,
            ⟨"rung", "void", [⟨"int", some "times", some "3"⟩], .signal, .isPublic, false, 1⟩,
            ⟨"ring", "void", [⟨"Rope", none, none⟩, ⟨"T", some "n", none⟩], .slot, .isProtected, true, 1⟩],
          [], [], [], []⟩] ∧
      ∀ classes, parse "chime.h" chime = .ok classes → recordedClass "" chimeHead.read chimeItems ∈ classes := by
  have chars : chime.toList = _ := toList_append_of String.toList_ofList String.toList_ofList
  have written : significantTokens chime = .ok chimeTokens :=
    (significantTokens_of_toList chars).trans (by decide +kernel)
  have recorded := marked_functions_are_recorded chimeItems (.placed "\x7d" 156) (by decide)
  have here : Reaches (lastLine chimeTokens) chimeTokens (.body false (.start "" chimeHead.read)
      (itemTokens chimeItems ++ [markAt "\x7d" 156, markAt ";" 157])) :=
    .enter .start (fileStep_of_head chimeHead (.placed "\x7b" 12) _)
  refine ⟨written, ?_, fun classes parsed => recorded.2 "chime.h" written here parsed⟩
  have read := (recorded.1 "chime.h" chimeHead (.placed "\x7b" 12) (.placed ";" 157) written).1 (by decide +kernel)
  exact read.trans (by decide +kernel)

/-- A signal that has a result, in a class that has nothing else. -/
def countedRung : List WrittenItem :=
  [.object (.objectAt 14) none,
    .signals (.placed "signals" 23 (by decide)) (.placed ":" 30),
    .function none
      { result := .placed "int" 32 (by decide) (by decide)
        name := .placed "rung" 36 (by decide) (by decide)
        opening := .placed "(" 40
        parameters := none
        closing := .placed ")" 41
        const := none
        ending := .semicolon (.placed ";" 42) }]

/-- A signal with a result would be recorded like any other, but the file is refused. -/
theorem signal_with_result_is_refused :
    significantTokens "class Chime \x7b H_OBJECT signals: int rung(); \x7d;" =
        .ok (chimeHead.keyword.token :: (chimeHead.tokens ++ markAt "\x7b" 12 ::
          (itemTokens countedRung ++ [markAt "\x7d" 44, markAt ";" 45]))) ∧
      countedRung.any (·.isObject) = true ∧
      functionsOf (.start chimeHead.read.isStruct) countedRung =
        [⟨"rung", "int", [], .signal, .isPublic, false, 1⟩] ∧
      parse "chime.h" "class Chime \x7b H_OBJECT signals: int rung(); \x7d;" =
        .error ⟨"chime.h", 1, .signalReturns "rung" "int"⟩ := by
  refine ⟨(significantTokens_of_toList String.toList_ofList).trans ?_, ?_, ?_,
    (parse_of_toList String.toList_ofList).trans ?_⟩ <;> decide +kernel

end Reflection.Declaration
