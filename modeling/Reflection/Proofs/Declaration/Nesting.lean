import Reflection.Proofs.Declaration.Written
/-!
# Nested classes

Files that are made of namespaces, forward declarations and class definitions, nested at will
(`WrittenFile`), with their definitions in the order of their heads and with the names of what each stands
in (`WrittenFile.definitions`). A class is recorded if its own body has the marker, and the names around it
are in front of its own whether these have been recorded or not (`annotated_classes_are_listed`).
-/

namespace Reflection.Declaration

open Reflection.Source

/-! ## What is written -/

/-- Names joined by `::`. -/
structure NameChain (reserved : List String) where
  first : Name reserved
  more : List (Mark "::" × Name reserved)

/-- One base of a class: words that say how the class derives from it, and its name. -/
structure WrittenBase where
  words : List (Word inheritanceWords)
  leading : Option (Mark "::")
  names : NameChain inheritanceWords

/-- The base list of a class. -/
structure WrittenBases where
  colon : Mark ":"
  first : WrittenBase
  more : List (Mark "," × WrittenBase)

/-- The head of a class definition. -/
structure WrittenHead where
  keyword : Word ["class", "struct"]
  name : Name ["final"]
  final : Option (Word ["final"])
  bases : Option WrittenBases

/-- What stands between the brackets of a class: the marker that annotates it, classes that are only
declared, and classes that are defined. -/
inductive WrittenBody where
  | done
  | object (marker : Word ["H_OBJECT"]) (semicolon : Option (Mark ";")) (rest : WrittenBody)
  | forward (keyword : Word ["class", "struct"]) (name : Name ["final"]) (semicolon : Mark ";")
      (rest : WrittenBody)
  | definition (head : WrittenHead) (opening : Mark "\x7b") (inner : WrittenBody) (closing : Mark "\x7d")
      (semicolon : Mark ";") (rest : WrittenBody)

/-- What stands in a file or in a namespace: classes that are only declared, classes that are defined,
and namespaces, which need no name. -/
inductive WrittenFile where
  | done
  | forward (keyword : Word ["class", "struct"]) (name : Name ["final"]) (semicolon : Mark ";")
      (rest : WrittenFile)
  | definition (head : WrittenHead) (opening : Mark "\x7b") (body : WrittenBody) (closing : Mark "\x7d")
      (semicolon : Mark ";") (rest : WrittenFile)
  | space (keyword : Word ["namespace"]) (name : Option (NameChain ["inline"])) (opening : Mark "\x7b")
      (inner : WrittenFile) (closing : Mark "\x7d") (rest : WrittenFile)

/-! ## Its tokens -/

def NameChain.tokens {reserved : List String} (c : NameChain reserved) : List Token :=
  c.first.token :: c.more.flatMap fun (mark, name) => [mark.token, name.token]

def WrittenBase.tokens (b : WrittenBase) : List Token :=
  b.words.map (·.token) ++ (Mark.tokens? b.leading ++ b.names.tokens)

def WrittenBases.tokens (l : WrittenBases) : List Token :=
  l.colon.token :: (l.first.tokens ++ l.more.flatMap fun (comma, base) => comma.token :: base.tokens)

/-- The tokens of a class head after its keyword. -/
def WrittenHead.tokens (h : WrittenHead) : List Token :=
  h.name.token :: (Word.tokens? h.final ++ (h.bases.map (·.tokens)).getD [])

def WrittenBody.tokens : WrittenBody → List Token
  | .done => []
  | .object marker semicolon rest => marker.token :: (Mark.tokens? semicolon ++ rest.tokens)
  | .forward keyword name semicolon rest => keyword.token :: name.token :: semicolon.token :: rest.tokens
  | .definition head opening inner closing semicolon rest =>
    head.keyword.token :: (head.tokens ++ opening.token :: (inner.tokens ++
      closing.token :: semicolon.token :: rest.tokens))

def WrittenFile.tokens : WrittenFile → List Token
  | .done => []
  | .forward keyword name semicolon rest => keyword.token :: name.token :: semicolon.token :: rest.tokens
  | .definition head opening body closing semicolon rest =>
    head.keyword.token :: (head.tokens ++ opening.token :: (body.tokens ++
      closing.token :: semicolon.token :: rest.tokens))
  | .space keyword name opening inner closing rest =>
    keyword.token :: ((name.map (·.tokens)).getD [] ++ opening.token :: (inner.tokens ++
      closing.token :: rest.tokens))

/-! ## What it defines -/

def NameChain.texts {reserved : List String} (c : NameChain reserved) : List String :=
  c.first.text :: c.more.map (·.2.text)

/-- The name of a base, without the words in front. -/
def WrittenBase.text (b : WrittenBase) : String :=
  (if b.leading.isSome then "::" else "") ++ "::".intercalate b.names.texts

/-- The names of the bases in their order. -/
def WrittenHead.baseTexts (h : WrittenHead) : List String :=
  match h.bases with
  | none => []
  | some l => l.first.text :: l.more.map (·.2.text)

/-- Does the marker stand in the body, and not only in the body of a class in it? -/
def WrittenBody.isAnnotated : WrittenBody → Bool
  | .done => false
  | .object .. => true
  | .forward _ _ _ rest => rest.isAnnotated
  | .definition _ _ _ _ _ rest => rest.isAnnotated

/-- A class definition with the names of what it stands in, the outermost first. -/
structure Definition where
  path : List String
  head : WrittenHead
  body : WrittenBody

/-- The class definitions in a body, in the order of their heads. -/
def WrittenBody.definitions (path : List String) : WrittenBody → List Definition
  | .done => []
  | .object _ _ rest => rest.definitions path
  | .forward _ _ _ rest => rest.definitions path
  | .definition head _ inner _ _ rest =>
    ⟨path, head, inner⟩ :: (inner.definitions (path ++ [head.name.text]) ++ rest.definitions path)

/-- The class definitions in a file, in the order of their heads. -/
def WrittenFile.definitions (path : List String) : WrittenFile → List Definition
  | .done => []
  | .forward _ _ _ rest => rest.definitions path
  | .definition head _ body _ _ rest =>
    ⟨path, head, body⟩ :: (body.definitions (path ++ [head.name.text]) ++ rest.definitions path)
  | .space _ name _ inner _ rest =>
    inner.definitions (path ++ (name.map (·.texts)).getD []) ++ rest.definitions path

/-- What is recorded of an annotated class. -/
def Definition.declaration (d : Definition) : ClassDeclaration where
  name := "::".intercalate (d.path ++ [d.head.name.text])
  scope := "::".intercalate d.path
  bases := d.head.baseTexts
  line := d.head.name.token.line

/-- What is recorded of definitions. -/
def declarations (ds : List Definition) : List ClassDeclaration :=
  (ds.filter (·.body.isAnnotated)).map (·.declaration)

theorem declarations_append (ds ds' : List Definition) :
    declarations (ds ++ ds') = declarations ds ++ declarations ds' := by
  simp [declarations]

/-! ## Names -/

variable {reserved : List String}

theorem toList_intercalate_chain (first : Name reserved) (more : List (Mark "::" × Name reserved)) :
    ("::".intercalate (first.text :: more.map (·.2.text))).toList =
      first.text.toList ++ more.flatMap fun (_, name) => "::".toList ++ name.text.toList := by
  induction more generalizing first with
  | nil => simp
  | cons next more ih =>
    rw [List.map_cons, String.intercalate_cons_cons, String.toList_append, String.toList_append,
      ih next.2, List.flatMap_cons, List.append_assoc]
    rfl

/-- Between a name and a mark there is no space. -/
theorem renderTokens_chain (more : List (Mark "::" × Name reserved)) :
    renderTokens true (more.flatMap fun (mark, name) => [mark.token, name.token]) =
      more.flatMap fun (_, name) => "::".toList ++ name.text.toList := by
  induction more with
  | nil => rfl
  | cons next more ih => simp [renderTokens, isWordLike, ih, Name.text]

theorem NameChain.renderTokens_tokens (c : NameChain reserved) :
    renderTokens false c.tokens = ("::".intercalate c.texts).toList := by
  rw [texts, toList_intercalate_chain, tokens, renderTokens]
  simp [isWordLike, renderTokens_chain, Name.text]

theorem NameChain.join_tokens (c : NameChain reserved) :
    String.join (c.tokens.map (·.text)) = "::".intercalate c.texts := by
  apply String.toList_inj.1
  rw [texts, toList_intercalate_chain, tokens]
  simp [String.toList_join, Name.text, List.flatMap_assoc, List.flatMap_map]

theorem NameChain.forall_mem_tokens {P : Token → Prop} (c : NameChain reserved)
    (mark : ∀ m : Mark "::", P m.token) (name : ∀ n : Name reserved, P n.token) : ∀ t ∈ c.tokens, P t := by
  simp only [tokens, List.mem_cons, List.mem_flatMap, List.not_mem_nil, or_false, forall_eq_or_imp,
    forall_exists_index, and_imp]
  refine ⟨name _, fun t (m, n) _ ht => ?_⟩
  rcases ht with rfl | rfl
  · exact mark m
  · exact name n

/-! ## Heads -/

theorem baseText_tokens (base : WrittenBase) : baseText base.tokens = base.text := by
  have names : base.names.tokens.filter
      (fun t => !(t.kind = .identifier && inheritanceWords.contains t.text)) = base.names.tokens :=
    List.filter_eq_self.2 <| base.names.forall_mem_tokens (by simp) fun n => by simp [n.free]
  have words : (base.words.map (·.token)).filter
      (fun t => !(t.kind = .identifier && inheritanceWords.contains t.text)) = [] := by
    simp [List.filter_eq_nil_iff, Word.text_mem]
  apply String.toList_inj.1
  rw [baseText, WrittenBase.tokens, List.filter_append, words, List.filter_append, names, List.nil_append,
    render, String.toList_ofList, WrittenBase.text, String.toList_append, ← base.names.renderTokens_tokens]
  cases base.leading with
  | none => simp [Mark.tokens?]
  | some mark => simp [Mark.tokens?, renderTokens, isWordLike]

/-- A token that does not end a part of a base list and starts no brackets in it. -/
def staysInBase (t : Token) : Prop :=
  ∀ mark ∈ ["\x7b", ";", ",", "(", "<", ">"], t.isMark mark = false

theorem baseParts_append {e : LocatedFault} {ts : List Token} (h : ∀ t ∈ ts, staysInBase t)
    (rest : List Token) : baseParts e 0 (ts ++ rest) =
      (baseParts e 0 rest).map fun (first, later, after) => (ts ++ first, later, after) := by
  induction ts with
  | nil =>
    rw [List.nil_append]
    cases baseParts e 0 rest <;> rfl
  | cons t ts ih =>
    obtain ⟨stays, others⟩ := List.forall_mem_cons.1 h
    simp only [staysInBase, List.mem_cons, List.not_mem_nil, or_false, forall_eq_or_imp, forall_eq] at stays
    rw [List.cons_append, baseParts]
    simp only [stays, Bool.false_eq_true, Bool.or_false, Bool.and_false, ↓reduceIte, ih others]
    cases baseParts e 0 rest <;> rfl

theorem WrittenBase.stays (base : WrittenBase) : ∀ t ∈ base.tokens, staysInBase t := by
  have mark (m : Mark "::") : staysInBase m.token := by simp [staysInBase]
  have name (n : Name inheritanceWords) : staysInBase n.token := by simp [staysInBase]
  intro t ht
  simp only [tokens, Mark.tokens?, List.mem_append, List.mem_map, Option.mem_toList] at ht
  rcases ht with ⟨word, _, rfl⟩ | ⟨leading, _, rfl⟩ | ht
  · simp [staysInBase]
  · exact mark leading
  · exact base.names.forall_mem_tokens mark name t ht

theorem baseParts_written {e : LocatedFault} (opening : Mark "\x7b") (rest : List Token) (first : WrittenBase)
    (more : List (Mark "," × WrittenBase)) :
    baseParts e 0 (first.tokens ++ ((more.flatMap fun (comma, base) => comma.token :: base.tokens) ++
      opening.token :: rest)) = .ok (first.tokens, more.map (·.2.tokens), opening.token :: rest) := by
  induction more generalizing first with
  | nil =>
    rw [baseParts_append first.stays, List.flatMap_nil, List.nil_append, baseParts]
    simp [Except.map]
  | cons next more ih =>
    rw [baseParts_append first.stays, List.flatMap_cons, List.cons_append, List.cons_append, baseParts]
    rw [List.append_assoc, ih next.2]
    simp [Except.map]

theorem WrittenBase.text_ne_empty (base : WrittenBase) : base.text ≠ "" := fun e => by
  have := congrArg String.toList e
  rw [text, String.toList_append, NameChain.texts, toList_intercalate_chain] at this
  have none := (List.append_eq_nil_iff.1 (List.append_eq_nil_iff.1 this).2).1
  exact base.names.first.text_ne_empty (String.toList_inj.1 none)

/-- The head as it is read. -/
def WrittenHead.read (h : WrittenHead) : ClassHead :=
  ⟨h.name.text, h.name.token.line, h.baseTexts, h.keyword.token.text = "struct"⟩

/-- The name in a head is read up to what follows it. -/
theorem headName_written (h : WrittenHead) (line : Nat) {t : Token} (stops : t.isMark ":" ∨ t.isMark "\x7b")
    (rest : List Token) :
    headName ⟨"", line, false⟩ (h.name.token :: (Word.tokens? h.final ++ t :: rest)) =
      .ok (some ⟨h.name.text, h.name.token.line, false⟩, t :: rest) := by
  have name := h.name.text_ne (List.mem_singleton.2 rfl)
  have ends (n : HeadName) : headName n (t :: rest) = .ok (some n, t :: rest) := by
    have kind : t.kind = .punctuation := stops.elim (fun h => (isMark_iff.1 h).1) fun h => (isMark_iff.1 h).1
    have text : t.text = ":" ∨ t.text = "\x7b" :=
      stops.imp (fun h => (isMark_iff.1 h).2) fun h => (isMark_iff.1 h).2
    rw [headName]
    rcases text with text | text <;> simp [kind, text, Token.isMark]
  rw [headName]
  cases h.final with
  | none => simp [Word.tokens?, name, ends, Name.text]
  | some final => simp [Word.tokens?, name, ends, Name.text, headName]

theorem classHead_written (h : WrittenHead) (opening : Mark "\x7b") (rest : List Token) :
    classHead h.keyword.token (h.tokens ++ opening.token :: rest) = .ok (some h.read, rest) := by
  have named : h.name.token.text ≠ "" := h.name.text_ne_empty
  rw [classHead, WrittenHead.tokens, List.cons_append, List.append_assoc, WrittenHead.read,
    WrittenHead.baseTexts]
  cases h.bases with
  | none =>
    refine bind_eq_ok_iff.2 ⟨_, headName_written h _ (.inr opening.isMark) rest, ?_⟩
    simp [Name.text, named]
    rfl
  | some bases =>
    obtain ⟨colon, first, more⟩ := bases
    have texts : ((first.tokens :: more.map (·.2.tokens)).map baseText).filter (· ≠ "") =
        first.text :: more.map (·.2.text) := by
      have some : ∀ text ∈ first.text :: more.map (·.2.text), decide (text ≠ "") := by
        simp only [List.mem_cons, List.mem_map, decide_eq_true_eq]
        rintro text (rfl | ⟨base, -, rfl⟩) <;> exact WrittenBase.text_ne_empty _
      simp only [List.map_cons, List.map_map, Function.comp_def, baseText_tokens]
      exact List.filter_eq_self.2 some
    rw [Option.map_some, Option.getD_some, WrittenBases.tokens, List.cons_append, List.append_assoc]
    refine bind_eq_ok_iff.2 ⟨_, headName_written h _ (.inl colon.isMark) _, ?_⟩
    dsimp only
    rw [if_pos colon.isMark, baseParts_written]
    refine bind_eq_ok_iff.2 ⟨_, rfl, bind_eq_ok_iff.2 ⟨_, rfl, ?_⟩⟩
    dsimp only
    rw [texts]
    simp [Name.text, named]
    rfl

/-- A class that is only declared has no head. -/
theorem classHead_forward (keyword : Word ["class", "struct"]) (name : Name ["final"])
    (semicolon : Mark ";") (rest : List Token) :
    classHead keyword.token (name.token :: semicolon.token :: rest) = .ok (none, semicolon.token :: rest) := by
  have free := name.text_ne (List.mem_singleton.2 rfl)
  have ends (n : HeadName) :
      headName n (semicolon.token :: rest) = .ok (none, semicolon.token :: rest) := by
    rw [headName]
    simp
  have front : headName ⟨"", keyword.token.line, false⟩ (name.token :: semicolon.token :: rest) =
      .ok (none, semicolon.token :: rest) := by
    rw [headName]
    simp [free, ends]
  rw [classHead, front]
  rfl

/-! ## Bodies -/

variable {endLine : Nat} {b : ClassBody} {path : List String}

theorem bodyStep_of_forward (keyword : Word ["class", "struct"]) (name : Name ["final"]) (semicolon : Mark ";")
    (rest : List Token) : bodyStep endLine b keyword.token (name.token :: semicolon.token :: rest) =
      .ok (.goOn { b with marker := none } rest) := by
  rw [bodyStep, itemStart_of_keyword]
  refine bind_eq_ok_iff.2 ⟨_, rfl, ?_⟩
  dsimp only
  rw [classHead_forward]
  refine bind_eq_ok_iff.2 ⟨_, rfl, bind_eq_ok_iff.2 ⟨_, ?_, rfl⟩⟩
  simp [skipStatement]

theorem bodyStep_of_head (head : WrittenHead) (opening : Mark "\x7b") (rest : List Token) :
    bodyStep endLine b head.keyword.token (head.tokens ++ opening.token :: rest) =
      .ok (.enter false head.read rest) := by
  rw [bodyStep, itemStart_of_keyword]
  refine bind_eq_ok_iff.2 ⟨_, rfl, ?_⟩
  dsimp only
  rw [classHead_written]
  rfl

/-- No item starts with a semicolon. -/
theorem WrittenBody.head_tokens (body : WrittenBody) (closing : Mark "\x7d") (rest : List Token) :
    (body.tokens ++ closing.token :: rest).head?.any (·.isMark ";") = false := by
  cases body <;> simp [tokens]

/-- Names that are joined in two steps. -/
theorem intercalate_append {outer inner : List String} (named : ∀ n ∈ outer, n ≠ "") (ne : inner ≠ []) :
    "::".intercalate (outer ++ inner) =
      if "::".intercalate outer = "" then "::".intercalate inner
      else "::".intercalate outer ++ "::" ++ "::".intercalate inner := by
  cases outer with
  | nil => simp
  | cons first more =>
    have some : "::".intercalate (first :: more) ≠ "" := fun e => by
      have first_ne := named first List.mem_cons_self
      cases more with
      | nil => exact first_ne (String.intercalate_singleton.symm.trans e)
      | cons next more =>
        rw [String.intercalate_cons_cons, String.append_assoc] at e
        exact first_ne (String.append_eq_empty_iff.1 e).1
    rw [if_neg some, String.intercalate_append_of_ne_nil (List.cons_ne_nil _ _) ne]

/-- A class has the names of what it stands in in front of its own. -/
theorem start_read (named : ∀ n ∈ path, n ≠ "") (head : WrittenHead) (body : WrittenBody) :
    (ClassBody.start ("::".intercalate path) head.read).declaration =
      (Definition.mk path head body).declaration := by
  rw [Definition.declaration, intercalate_append named (List.cons_ne_nil _ _), String.intercalate_singleton]
  rfl

/-- A body with what is written in it. -/
def ClassBody.define (b : ClassBody) (path : List String) (body : WrittenBody) : ClassBody :=
  { b with
    annotated := b.annotated || body.isAnnotated
    nested := b.nested ++ declarations (body.definitions path) }

/-- The annotated classes of a definition are its own, if it is one, and those in its body. -/
theorem classes_define (named : ∀ n ∈ path, n ≠ "") (head : WrittenHead) (body : WrittenBody) :
    ((ClassBody.start ("::".intercalate path) head.read).define (path ++ [head.name.text]) body).classes false =
      .ok (declarations (⟨path, head, body⟩ :: body.definitions (path ++ [head.name.text]))) := by
  have own := start_read named head body
  unfold ClassBody.classes ClassBody.define declarations
  rw [List.filter_cons]
  cases annotated : body.isAnnotated with
  | false => simp [ClassBody.start]
  | true =>
    simp only [List.map_cons, ← own, if_true, Bool.or_true, Bool.not_true, Bool.false_eq_true, if_false]
    rfl

theorem named_append (named : ∀ n ∈ path, n ≠ "") (head : WrittenHead) :
    ∀ n ∈ path ++ [head.name.text], n ≠ "" := by
  rw [List.forall_mem_append, List.forall_mem_singleton]
  exact ⟨named, head.name.text_ne_empty⟩

/-- A body is read to its end, with the annotated classes that it defines. -/
theorem reads_written (body : WrittenBody) (waits : b.marker = none)
    (named : ∀ n ∈ path, n ≠ "") (scope : b.declaration.name = "::".intercalate path)
    (closing : Mark "\x7d") (rest : List Token) :
    ReadsBody endLine b (body.tokens ++ closing.token :: rest) (b.define path body) rest := by
  induction body generalizing b path closing rest with
  | done =>
    have unchanged : b.define path .done = b := by
      simp [ClassBody.define, WrittenBody.isAnnotated, WrittenBody.definitions, declarations]
    rw [unchanged]
    exact .closed closing.isMark
  | object marker semicolon others ih =>
    have read := ih (b := { b with annotated := true }) waits named scope closing rest
    rw [WrittenBody.tokens, List.cons_append, List.append_assoc]
    refine .goOn (by simp) (bodyStep_of_object marker semicolon (others.head_tokens closing rest)) ?_
    simpa [ClassBody.define, WrittenBody.isAnnotated, WrittenBody.definitions] using read
  | forward keyword name semicolon others ih =>
    have read := ih (b := { b with marker := none }) rfl named scope closing rest
    rw [WrittenBody.tokens]
    refine .goOn (by simp) (bodyStep_of_forward _ _ _ _) ?_
    simpa [ClassBody.define, WrittenBody.isAnnotated, WrittenBody.definitions, waits] using read
  | definition head opening inner closes semicolon others ihInner ih =>
    have own : (ClassBody.start b.declaration.name head.read).declaration.name =
        "::".intercalate (path ++ [head.name.text]) := by
      rw [scope, start_read named head inner]
      rfl
    have body := ihInner (b := .start b.declaration.name head.read) rfl (named_append named head) own closes
      (semicolon.token :: (others.tokens ++ closing.token :: rest))
    have found := classes_define named head inner
    have ends : skipStatement (semicolon.token :: (others.tokens ++ closing.token :: rest)) =
        .ok (others.tokens ++ closing.token :: rest) := by
      simp [skipStatement]
    have step : bodyStep endLine b head.keyword.token (head.tokens ++ opening.token :: (inner.tokens ++
        closes.token :: semicolon.token :: (others.tokens ++ closing.token :: rest))) =
        .ok (.enter false head.read _) :=
      bodyStep_of_head head opening _
    rw [← scope] at found
    have read := ih (b := b.leave (declarations
      (⟨path, head, inner⟩ :: inner.definitions (path ++ [head.name.text])))) rfl named scope closing rest
    simp only [WrittenBody.tokens, List.cons_append, List.append_assoc]
    refine .enter (by simp) step body found ends ?_
    simpa only [ClassBody.define, ClassBody.leave, WrittenBody.isAnnotated, WrittenBody.definitions,
      ← List.cons_append, declarations_append, List.append_assoc, waits] using read

/-! ## Files -/

variable {scopes : List String}

theorem fileStep_of_semicolon (semicolon : Mark ";") (rest : List Token) :
    fileStep endLine scopes semicolon.token rest = .ok (.goOn scopes rest) := by
  rw [fileStep, if_neg (by simp), itemStart_of_other (by simp)]
  refine bind_eq_ok_iff.2 ⟨_, rfl, ?_⟩
  simp
  rfl

theorem fileStep_of_closing (closing : Mark "\x7d") (rest : List Token) :
    fileStep endLine scopes closing.token rest = .ok (.goOn (scopes.drop 1) rest) := by
  rw [fileStep, if_neg (by simp), itemStart_of_other (by simp)]
  refine bind_eq_ok_iff.2 ⟨_, rfl, ?_⟩
  simp
  rfl

theorem fileStep_of_forward (keyword : Word ["class", "struct"]) (name : Name ["final"]) (semicolon : Mark ";")
    (rest : List Token) : fileStep endLine scopes keyword.token (name.token :: semicolon.token :: rest) =
      .ok (.goOn scopes (semicolon.token :: rest)) := by
  rw [fileStep, if_neg (by simp), itemStart_of_keyword]
  refine bind_eq_ok_iff.2 ⟨_, rfl, ?_⟩
  dsimp only
  rw [classHead_forward]
  rfl

theorem fileStep_of_head (head : WrittenHead) (opening : Mark "\x7b") (rest : List Token) :
    fileStep endLine scopes head.keyword.token (head.tokens ++ opening.token :: rest) =
      .ok (.enter false head.read rest) := by
  rw [fileStep, if_neg (by simp), itemStart_of_keyword]
  refine bind_eq_ok_iff.2 ⟨_, rfl, ?_⟩
  dsimp only
  rw [classHead_written]
  rfl

/-- The name that a namespace adds to those around it. -/
def spaceName (name : Option (NameChain ["inline"])) : String :=
  (name.map fun c => "::".intercalate c.texts).getD ""

theorem namespaceName_written (name : Option (NameChain ["inline"])) (opening : Mark "\x7b")
    (rest : List Token) :
    namespaceName ((name.map (·.tokens)).getD [] ++ opening.token :: rest) =
      (spaceName name, opening.token :: rest) := by
  cases name with
  | none => simp [namespaceName, spaceName, String.join]
  | some c =>
    have part : ∀ t ∈ c.tokens, (t.kind = .identifier || t.isMark "::") = true :=
      c.forall_mem_tokens (by simp) (by simp)
    have written : c.tokens.filter (·.text ≠ "inline") = c.tokens :=
      List.filter_eq_self.2 <| c.forall_mem_tokens (by simp) fun n => by
        simpa using n.text_ne (List.mem_singleton.2 rfl)
    rw [Option.map_some, Option.getD_some, namespaceName]
    rw [List.takeWhile_append_of_pos part, List.dropWhile_append_of_pos part,
      List.takeWhile_cons_of_neg (by simp), List.dropWhile_cons_of_neg (by simp), List.append_nil, written,
      c.join_tokens]
    rfl

theorem fileStep_of_space (keyword : Word ["namespace"]) (name : Option (NameChain ["inline"]))
    (opening : Mark "\x7b") (rest : List Token) :
    fileStep endLine scopes keyword.token ((name.map (·.tokens)).getD [] ++ opening.token :: rest) =
      .ok (.goOn (spaceName name :: scopes) rest) := by
  have space : keyword.token.isWord "namespace" := by simp [Token.isWord]
  rw [fileStep, if_pos space, namespaceName_written]
  simp
  rfl

theorem NameChain.forall_mem_texts (c : NameChain reserved) : ∀ n ∈ c.texts, n ≠ "" := by
  simp only [texts, List.forall_mem_cons, List.forall_mem_map]
  exact ⟨c.first.text_ne_empty, fun next _ => next.2.text_ne_empty⟩

theorem NameChain.texts_ne_nil (c : NameChain reserved) : c.texts ≠ [] :=
  List.cons_ne_nil _ _

theorem NameChain.intercalate_ne_empty (c : NameChain reserved) : "::".intercalate c.texts ≠ "" := fun e => by
  have := congrArg String.toList e
  rw [texts, toList_intercalate_chain] at this
  exact c.first.text_ne_empty (String.toList_inj.1 (List.append_eq_nil_iff.1 this).1)

/-- A namespace has its names behind those of what it stands in, and leaves no trace without a name. -/
theorem scopeName_space (scope : scopeName scopes = "::".intercalate path) (named : ∀ n ∈ path, n ≠ "")
    (name : Option (NameChain ["inline"])) :
    scopeName (spaceName name :: scopes) = "::".intercalate (path ++ (name.map (·.texts)).getD []) := by
  cases name with
  | none => simpa [scopeName, spaceName] using scope
  | some c =>
    have some : spaceName (some c) ≠ "" := c.intercalate_ne_empty
    have outer : ∀ n ∈ scopes.reverse.filter (· ≠ ""), n ≠ "" := fun n hn => by
      simpa using (List.mem_filter.1 hn).2
    rw [scopeName, List.reverse_cons, List.filter_append, List.filter_cons_of_pos (by simpa using some),
      List.filter_nil, intercalate_append outer (List.cons_ne_nil _ _), String.intercalate_singleton,
      Option.map_some, Option.getD_some, intercalate_append named c.texts_ne_nil, ← scope]
    rfl

/-- A file is read to its end, from any place in it, with the annotated classes that it defines. -/
theorem readsFile_written (items : WrittenFile) (scope : scopeName scopes = "::".intercalate path)
    (named : ∀ n ∈ path, n ≠ "") {rest : List Token} {others : List ClassDeclaration}
    (read : ReadsFile endLine scopes rest others) :
    ReadsFile endLine scopes (items.tokens ++ rest) (declarations (items.definitions path) ++ others) := by
  induction items generalizing scopes path rest others with
  | done => exact read
  | forward keyword name semicolon more ih =>
    exact .goOn (fileStep_of_forward _ _ _ _) (.goOn (fileStep_of_semicolon _ _) (ih scope named read))
  | definition head opening body closing semicolon more ih =>
    have own : (ClassBody.start (scopeName scopes) head.read).declaration.name =
        "::".intercalate (path ++ [head.name.text]) := by
      rw [scope, start_read named head body]
      rfl
    have inside : ReadsBody endLine (.start (scopeName scopes) head.read)
        (body.tokens ++ closing.token :: semicolon.token :: (more.tokens ++ rest)) _ _ :=
      reads_written body rfl (named_append named head) own closing _
    have found := classes_define named head body
    rw [← scope] at found
    have := ReadsFile.enter (fileStep_of_head head opening _) inside found
      (.goOn (fileStep_of_semicolon _ _) (ih scope named read))
    simpa only [WrittenFile.tokens, WrittenFile.definitions, ← List.cons_append, declarations_append,
      List.append_assoc] using this
  | space keyword name opening inner closing more ihInner ih =>
    have spaces : ∀ n ∈ path ++ (name.map (·.texts)).getD [], n ≠ "" := by
      rw [List.forall_mem_append]
      refine ⟨named, ?_⟩
      cases name with
      | none => exact fun _ hn => nomatch hn
      | some c => exact c.forall_mem_texts
    have behind : ReadsFile endLine (spaceName name :: scopes) (closing.token :: (more.tokens ++ rest))
        (declarations (more.definitions path) ++ others) :=
      .goOn (fileStep_of_closing closing _) (ih scope named read)
    have inside := ihInner (scopeName_space scope named name) spaces behind
    have := ReadsFile.goOn (fileStep_of_space keyword name opening _) inside
    simpa [WrittenFile.tokens, WrittenFile.definitions, declarations] using this

/-! ## The order of heads -/

theorem sublist_of_definition (d : Definition) (opening : Mark "\x7b") (closing : Mark "\x7d")
    (semicolon : Mark ";") {inside behind : List Definition} {ts us : List Token}
    (inner : (inside.map (·.head.name.token)).Sublist ts)
    (more : (behind.map (·.head.name.token)).Sublist us) :
    ((d :: (inside ++ behind)).map (·.head.name.token)).Sublist
      (d.head.keyword.token :: (d.head.tokens ++ opening.token :: (ts ++
        closing.token :: semicolon.token :: us))) := by
  have both := (inner.append ((more.cons semicolon.token).cons closing.token)).cons opening.token
  rw [List.map_cons, List.map_append, WrittenHead.tokens, List.cons_append]
  exact ((both.trans (List.sublist_append_right _ _)).cons_cons _).cons _

theorem WrittenBody.heads_sublist (body : WrittenBody) (path : List String) :
    ((body.definitions path).map (·.head.name.token)).Sublist body.tokens := by
  induction body generalizing path with
  | done => exact .refl _
  | object marker semicolon more ih => exact ((ih path).trans (List.sublist_append_right _ _)).cons _
  | forward keyword name semicolon more ih => exact (((ih path).cons _).cons _).cons _
  | definition head opening inner closing semicolon more ihInner ih =>
    exact sublist_of_definition ⟨path, head, inner⟩ opening closing semicolon (ihInner _) (ih path)

theorem WrittenFile.heads_sublist (items : WrittenFile) (path : List String) :
    ((items.definitions path).map (·.head.name.token)).Sublist items.tokens := by
  induction items generalizing path with
  | done => exact .refl _
  | forward keyword name semicolon more ih => exact (((ih path).cons _).cons _).cons _
  | definition head opening body closing semicolon more ih =>
    exact sublist_of_definition ⟨path, head, body⟩ opening closing semicolon (body.heads_sublist _) (ih path)
  | space keyword name opening inner closing more ihInner ih =>
    have both := ((ihInner (path ++ (name.map (·.texts)).getD [])).append
      ((ih path).cons closing.token)).cons opening.token
    rw [definitions, tokens, List.map_append]
    exact (both.trans (List.sublist_append_right _ _)).cons _

/-! ## The classes of a file -/

/-- A file that is made of namespaces, forward declarations and class definitions, nested at will, is read,
and its classes are the definitions whose own body has the marker, in the order in which their heads stand
in it. Each is recorded with its bases as written and without the words in front of them, with the
namespaces and classes around it as its scope, annotated or not, and with its own name behind these. -/
theorem annotated_classes_are_listed (file : String) {source : String} (items : WrittenFile)
    (written : significantTokens source = .ok items.tokens) :
    parse file source =
        .ok (((items.definitions []).filter (·.body.isAnnotated)).map (·.declaration)) ∧
      ((items.definitions []).map (·.head.name.token)).Sublist items.tokens := by
  refine ⟨?_, items.heads_sublist []⟩
  have read : ReadsFile (lastLine items.tokens) [] (items.tokens ++ [])
      (declarations (items.definitions []) ++ []) :=
    readsFile_written items rfl (by simp) .done
  rw [parse, written]
  simp only [List.append_nil] at read
  exact mapError_eq_ok_iff.2 (classesOfTokens_eq_ok_iff.2 read)

/-! ### A file with nested classes -/

/-- Namespaces of both kinds, and classes with and without the marker inside each other. -/
def steeple : String :=
  "namespace a::b \x7b class Yoke; namespace \x7b struct Frame final \x7b class Axle \x7b H_OBJECT " ++
    "class Pin \x7b H_OBJECT; \x7d; \x7d; \x7d; \x7d \x7d " ++
    "class Bell : public Beam, virtual ::a::Bar \x7b class Ring \x7b \x7d; H_OBJECT \x7d;"

/-- The head of a class without bases. -/
def plainHead (keyword : Word ["class", "struct"]) (name : Name ["final"]) : WrittenHead :=
  ⟨keyword, name, none, none⟩

def axleBody : WrittenBody :=
  .object (.objectAt 75) none <|
    .definition (plainHead (.classAt 84) (.placed "Pin" 90 (by decide) (by decide)))
      (.placed "\x7b" 94) (.object (.objectAt 96) (some (.placed ";" 104)) .done)
      (.placed "\x7d" 106) (.placed ";" 107) .done

def frameBody : WrittenBody :=
  .definition (plainHead (.classAt 62) (.placed "Axle" 68 (by decide) (by decide)))
    (.placed "\x7b" 73) axleBody (.placed "\x7d" 109) (.placed ";" 110) .done

def frameHead : WrittenHead :=
  ⟨.placed "struct" 41 (by decide), .placed "Frame" 48 (by decide) (by decide),
    some (.placed "final" 54 (by decide)), none⟩

def bellHead : WrittenHead where
  keyword := .classAt 119
  name := .placed "Bell" 125 (by decide) (by decide)
  final := none
  bases := some
    { colon := .placed ":" 130
      first := ⟨[.placed "public" 132 (by decide)], none, ⟨.placed "Beam" 139 (by decide) (by decide), []⟩⟩
      more := [(.placed "," 143, ⟨[.placed "virtual" 145 (by decide)], some (.placed "::" 153),
        ⟨.placed "a" 155 (by decide) (by decide),
          [(.placed "::" 156, .placed "Bar" 158 (by decide) (by decide))]⟩⟩)] }

def bellBody : WrittenBody :=
  .definition (plainHead (.classAt 164) (.placed "Ring" 170 (by decide) (by decide)))
      (.placed "\x7b" 175) .done (.placed "\x7d" 177) (.placed ";" 178) <|
    .object (.objectAt 180) none .done

def steepleFile : WrittenFile :=
  .space (.placed "namespace" 0 (by decide))
      (some ⟨.placed "a" 10 (by decide) (by decide),
        [(.placed "::" 11, .placed "b" 13 (by decide) (by decide))]⟩)
      (.placed "\x7b" 15)
      (.forward (.classAt 17) (.placed "Yoke" 23 (by decide) (by decide)) (.placed ";" 27) <|
        .space (.placed "namespace" 29 (by decide)) none (.placed "\x7b" 39)
          (.definition frameHead (.placed "\x7b" 60) frameBody (.placed "\x7d" 112) (.placed ";" 113) .done)
          (.placed "\x7d" 115) .done)
      (.placed "\x7d" 117) <|
    .definition bellHead (.placed "\x7b" 162) bellBody (.placed "\x7d" 189) (.placed ";" 190) .done

/-- A class without the marker is not listed, and is in front of the names of those that it encloses. -/
theorem steeple_classes_are_listed :
    significantTokens steeple = .ok steepleFile.tokens ∧
      parse "steeple.h" steeple = .ok
        [⟨"a::b::Frame::Axle", "a::b::Frame", [], 1, [], [], [], [], []⟩,
          ⟨"a::b::Frame::Axle::Pin", "a::b::Frame::Axle", [], 1, [], [], [], [], []⟩,
          ⟨"Bell", "", ["Beam", "::a::Bar"], 1, [], [], [], [], []⟩] := by
  have chars : steeple.toList = _ := toList_append_of
    (toList_append_of String.toList_ofList String.toList_ofList) String.toList_ofList
  have written : significantTokens steeple = .ok steepleFile.tokens :=
    (significantTokens_of_toList chars).trans (by decide +kernel)
  have read := (annotated_classes_are_listed "steeple.h" steepleFile written).1
  exact ⟨written, read.trans (by decide +kernel)⟩

end Reflection.Declaration
