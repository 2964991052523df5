import Reflection.Proofs.Declaration.Nesting
import Reflection.Proofs.Signature.ParameterNames
/-!
# Written members

What may stand in the body of a class without classes in it: the marker of the class, access labels,
sections of signals and of slots, data members and functions (`WrittenItem`), and the functions that are
recorded of it, each with what is in force where it stands (`functionsOf`). A function is taken whole, up
to the end of its body (`memberTokens_written`), and read as it is written, unless it is a signal with a
result (`function?_written`).
-/

namespace Reflection.Declaration

open Reflection.Source

/-! ## What is written -/

/-- The words that a body is read by, and those that belong to no name or type. -/
def reservedWords : List String :=
  ["public", "protected", "private", "signals", "H_SIGNALS", "slots", "H_SLOTS", "H_OBJECT", "H_PROPERTY",
    "H_ENUM", "H_FLAG", "H_CLASSINFO", "H_INVOKABLE", "H_SIGNAL", "H_SLOT", "class", "struct", "template",
    "enum", "operator"] ++ skippedWords ++ specifiers ++ TypeText.qualifierWords

/-- A single literal or word. -/
structure WrittenValue where
  token : Token
  isWordLike : isWordLike token
  free : token.isWord "operator" = false

/-- A parameter, which need not have a name or a default argument. -/
structure WrittenParameter where
  type : Name ("void" :: reservedWords)
  name : Option (Name (TypeText.builtinWords ++ reservedWords))
  value : Option (Mark "=" × WrittenValue)

/-- Tokens whose brackets match, each with one of its own shape. -/
inductive Balanced : List Token → Prop
  | nil : Balanced []
  | token {t : Token} {ts : List Token}
      (plain : ∀ mark ∈ ["(", ")", "[", "]", "\x7b", "\x7d"], t.isMark mark = false) (others : Balanced ts) :
      Balanced (t :: ts)
  | group {opening closing : Token} {ts us : List Token} {left right : String}
      (shape : (left, right) ∈ [("(", ")"), ("[", "]"), ("\x7b", "\x7d")]) (opens : opening.isMark left)
      (inner : Balanced ts) (closes : closing.isMark right) (others : Balanced us) :
      Balanced (opening :: (ts ++ closing :: us))

/-- What a member function ends with. -/
inductive WrittenEnd where
  | semicolon (mark : Mark ";")
  | body (opening : Mark "\x7b") (inside : List Token) (balanced : Balanced inside) (closing : Mark "\x7d")

/-- A member function. -/
structure WrittenFunction where
  result : Name reservedWords
  name : Name reservedWords
  opening : Mark "("
  parameters : Option (WrittenParameter × List (Mark "," × WrittenParameter))
  closing : Mark ")"
  const : Option (Word ["const"])
  ending : WrittenEnd

/-- An item of a class body. -/
inductive WrittenItem where
  | object (marker : Word ["H_OBJECT"]) (semicolon : Option (Mark ";"))
  | access (word : Word ["public", "protected", "private"]) (sort : Option (Word ["slots", "H_SLOTS"]))
      (colon : Mark ":")
  | signals (word : Word ["signals", "H_SIGNALS"]) (colon : Mark ":")
  | slots (word : Word ["slots", "H_SLOTS"]) (colon : Mark ":")
  | data (type name : Name reservedWords) (semicolon : Mark ";")
  | function (marker : Option (Word ["H_INVOKABLE", "H_SIGNAL", "H_SLOT"])) (f : WrittenFunction)

/-! ## Its tokens -/

def WrittenParameter.declared (p : WrittenParameter) : List Token :=
  p.type.token :: (p.name.map (·.token)).toList

def WrittenParameter.tokens (p : WrittenParameter) : List Token :=
  p.declared ++ (p.value.toList.flatMap fun (equals, value) => [equals.token, value.token])

def WrittenEnd.tokens : WrittenEnd → List Token
  | .semicolon mark => [mark.token]
  | .body opening inside _ closing => opening.token :: (inside ++ [closing.token])

/-- The tokens between the brackets of a parameter list. -/
def WrittenFunction.list (f : WrittenFunction) : List Token :=
  match f.parameters with
  | none => []
  | some (first, more) => first.tokens ++ more.flatMap fun (comma, p) => comma.token :: p.tokens

/-- The tokens of a function before what it ends with. -/
def WrittenFunction.front (f : WrittenFunction) : List Token :=
  f.result.token :: f.name.token :: f.opening.token :: (f.list ++ f.closing.token :: Word.tokens? f.const)

def WrittenItem.tokens : WrittenItem → List Token
  | .object marker semicolon => marker.token :: Mark.tokens? semicolon
  | .access word sort colon => word.token :: (Word.tokens? sort ++ [colon.token])
  | .signals word colon => [word.token, colon.token]
  | .slots word colon => [word.token, colon.token]
  | .data type name semicolon => [type.token, name.token, semicolon.token]
  | .function marker f => Word.tokens? marker ++ (f.front ++ f.ending.tokens)

/-! ## What it declares -/

/-- What is in force between two items. -/
structure Standing where
  access : Access
  section_ : Section

/-- The start of a body. -/
def Standing.start (isStruct : Bool) : Standing :=
  ⟨if isStruct then .isPublic else .isPrivate, .plain⟩

/-- What is in force after an item. -/
def WrittenItem.label (s : Standing) : WrittenItem → Standing
  | .access word none _ => ⟨(accessOf? word.token.text).getD s.access, .plain⟩
  | .access word (some _) _ => ⟨(accessOf? word.token.text).getD s.access, .slots⟩
  | .signals _ _ => ⟨.isPublic, .signals⟩
  | .slots _ _ => ⟨s.access, .slots⟩
  | .object _ _ | .data _ _ _ | .function _ _ => s

def WrittenParameter.declaration (p : WrittenParameter) : Parameter where
  type := p.type.text
  name := p.name.map (·.text)
  defaultArgument := p.value.map (·.2.token.text)

def WrittenFunction.declaration (f : WrittenFunction) (kind : MethodKind) (access : Access) :
    FunctionDeclaration where
  name := f.name.text
  returnType := f.result.text
  parameters := match f.parameters with
    | none => []
    | some (first, more) => first.declaration :: more.map (·.2.declaration)
  kind := kind
  access := access
  isConst := f.const.isSome
  line := f.name.token.line

/-- A function is recorded if it has a marker or stands in a section. -/
def WrittenItem.recorded? (s : Standing) : WrittenItem → Option FunctionDeclaration
  | .function marker f =>
    ((marker.bind fun w => markedKind? w.token.text) <|> s.section_.kind?).map fun kind =>
      f.declaration kind s.access
  | _ => none

/-- The functions that are recorded from items, in their order. -/
def functionsOf (s : Standing) : List WrittenItem → List FunctionDeclaration
  | [] => []
  | item :: items => (item.recorded? s).toList ++ functionsOf (item.label s) items

def WrittenItem.isObject : WrittenItem → Bool
  | .object _ _ => true
  | _ => false

/-- A signal has no result. -/
def isSpoiled (f : FunctionDeclaration) : Bool :=
  f.kind = .signal && f.returnType ≠ "void"

/-! ## Parameters -/

theorem render_singleton {t : Token} (word : isWordLike t) : render [t] = t.text := by
  simp [render, renderTokens, word]

theorem render_pair {t u : Token} (first : isWordLike t) (second : isWordLike u) :
    render [t, u] = String.ofList (t.text.toList ++ ' ' :: u.text.toList) := by
  simp [render, renderTokens, first, second]

variable {reserved : List String}

theorem Name.isWordLike (n : Name reserved) : isWordLike n.token := by
  simp [Declaration.isWordLike]

theorem splitParameter_type {w : String} (identifier : TypeText.isIdentifier w.toList) :
    TypeText.splitParameter w = (w, none) := by
  rw [TypeText.splitParameter, TypeText.tokens_identifier identifier]
  simp [TypeText.splitTokens, TypeText.render, TypeText.renderChars]

theorem splitParameter_named {w name : String} (identifier : TypeText.isIdentifier w.toList)
    (type : w ∉ TypeText.qualifierWords) (canName : TypeText.canName name) :
    TypeText.splitParameter (String.ofList (w.toList ++ ' ' :: name.toList)) = (w, some name) := by
  have named : TypeText.isIdentifier name.toList := by
    simp only [TypeText.canName, Bool.and_eq_true] at canName
    exact canName.1.1
  have apart : TypeText.Apart w.toList (' ' :: name.toList) :=
    TypeText.apart_of_word (TypeText.phrase_of_identifier identifier).last (by simp; decide)
  have blank : TypeText.tokens (' ' :: name.toList) = [name] :=
    (TypeText.tokens_blanks_append TypeText.blanks_space _).trans (TypeText.tokens_identifier named)
  rw [TypeText.splitParameter, String.toList_ofList, TypeText.tokens_append apart, blank,
    TypeText.tokens_identifier identifier]
  have ends : TypeText.endsType w := by simp [TypeText.endsType, identifier, type]
  simp [TypeText.splitTokens, canName, ends, TypeText.render, TypeText.renderChars]

theorem not_mem_qualifierWords (n : Name ("void" :: reservedWords)) : n.text ∉ TypeText.qualifierWords :=
  fun h => n.free (List.mem_cons_of_mem _ (List.subset_append_right _ _ h))

theorem canName_text (n : Name (TypeText.builtinWords ++ reservedWords)) : TypeText.canName n.text := by
  have builtin : n.text ∉ TypeText.builtinWords := fun h => n.free (List.mem_append_left _ h)
  have qualifier : n.text ∉ TypeText.qualifierWords :=
    fun h => n.free (List.mem_append_right _ (List.subset_append_right _ _ h))
  have identifier : TypeText.isIdentifier n.text.toList := n.identifier
  simp [TypeText.canName, identifier, builtin, qualifier]

theorem splitParameter_declared (p : WrittenParameter) :
    TypeText.splitParameter (render p.declared) = (p.type.text, p.name.map (·.text)) := by
  unfold WrittenParameter.declared
  cases p.name with
  | none =>
    rw [Option.map_none, Option.toList_none, render_singleton p.type.isWordLike]
    exact splitParameter_type p.type.identifier
  | some name =>
    rw [Option.map_some, Option.toList_some, render_pair p.type.isWordLike name.isWordLike]
    exact splitParameter_named p.type.identifier (not_mem_qualifierWords p.type) (canName_text name)

/-- A token that can stand in a part of a parameter list. -/
def IsPartToken (t : Token) : Prop :=
  (∀ mark ∈ ["(", ")", "[", "]", "\x7b", "\x7d", "<", ">", ",", "..."], t.isMark mark = false) ∧
    t.isWord "operator" = false

theorem isPartToken_of_name (n : Name reserved) (h : "operator" ∈ reserved) : IsPartToken n.token :=
  ⟨fun _ _ => n.isMark _, n.isWord_eq_false h⟩

theorem WrittenValue.isMark (v : WrittenValue) (mark : String) : v.token.isMark mark = false :=
  isMark_of_word fun h => by simpa [Declaration.isWordLike, h] using v.isWordLike

theorem WrittenParameter.plain (p : WrittenParameter) : ∀ t ∈ p.tokens, IsPartToken t := by
  rw [tokens, declared, List.cons_append, List.forall_mem_cons, List.forall_mem_append]
  refine ⟨isPartToken_of_name p.type (by decide), ?_, ?_⟩
  · cases p.name with
    | none => exact fun _ h => nomatch h
    | some name => exact List.forall_mem_singleton.2 (isPartToken_of_name name (by decide))
  · cases p.value with
    | none => exact fun _ h => nomatch h
    | some value =>
      obtain ⟨equals, value⟩ := value
      have other : IsPartToken equals.token := ⟨by simp, by simp⟩
      exact List.forall_mem_cons.2 ⟨other, List.forall_mem_singleton.2 ⟨fun _ _ => value.isMark _, value.free⟩⟩

theorem parameter_written (line : Nat) (p : WrittenParameter) :
    parameter line p.tokens = .ok p.declaration := by
  have noDots : ¬ p.tokens.any (·.isMark "...") := by
    simpa using fun t ht => (p.plain t ht).1 "..." (by decide)
  have declared : ∀ t ∈ p.declared, (!t.isMark "=") = true := by
    simp [WrittenParameter.declared]
  have split := splitParameter_declared p
  have named : p.type.text ≠ "" := p.type.text_ne_empty
  rw [parameter, if_neg noDots, WrittenParameter.tokens, List.takeWhile_append_of_pos declared,
    List.dropWhile_append_of_pos declared, WrittenParameter.declaration]
  cases p.value with
  | none =>
    rw [Option.toList_none, List.flatMap_nil, List.takeWhile_nil, List.append_nil]
    simp only [split, named, if_false]
    rfl
  | some value =>
    obtain ⟨equals, value⟩ := value
    rw [Option.toList_some, List.flatMap_singleton, List.takeWhile_cons_of_neg (by simp),
      List.dropWhile_cons_of_neg (by simp), List.append_nil]
    simp only [split, named, if_false, render_singleton value.isWordLike]
    rfl

theorem turns_of_part {ts : List Token} (h : ∀ t ∈ ts, IsPartToken t) : turns ts = 0 := by
  induction ts with
  | nil => rfl
  | cons t ts ih =>
    obtain ⟨⟨marks, -⟩, others⟩ := List.forall_mem_cons.1 h
    simp only [List.forall_mem_cons] at marks
    obtain ⟨a, b, c, d, e, f, g, h, -⟩ := marks
    rw [turns_cons, ih others]
    simp [turn, opensGroup, a, b, c, d, e, f, g, h]

theorem WrittenParameter.noComma (p : WrittenParameter) : ∀ t ∈ p.tokens, t.isMark "," = false :=
  fun t ht => (p.plain t ht).1 "," (by decide)

theorem commaParts_written (first : WrittenParameter) (more : List (Mark "," × WrittenParameter)) :
    commaParts (first.tokens ++ more.flatMap fun (comma, p) => comma.token :: p.tokens) =
      first.tokens :: more.map (·.2.tokens) := by
  induction more generalizing first with
  | nil => rw [List.flatMap_nil, List.append_nil, commaParts_of_no_comma first.noComma]; rfl
  | cons next more ih =>
    rw [List.flatMap_cons, List.cons_append, commaParts_cons first.noComma (turns_of_part first.plain)
      next.1.isMark, ih next.2]
    rfl

/-- A parameter is no `void` that stands alone. -/
theorem render_ne_void (p : WrittenParameter) : render p.tokens ≠ "void" := fun void => by
  have chars : p.type.text.toList ++ renderTokens true p.tokens.tail = "void".toList := by
    have := congrArg String.toList void
    rwa [render, String.toList_ofList, WrittenParameter.tokens, WrittenParameter.declared, List.cons_append,
      renderTokens, Bool.and_false, p.type.isWordLike] at this
  -- Whatever follows the type starts with a character that is not in the word.
  have apart : p.tokens.tail ≠ [] → ' ' ∈ "void".toList ∨ '=' ∈ "void".toList := by
    rw [← chars, WrittenParameter.tokens, WrittenParameter.declared, List.cons_append, List.tail_cons]
    cases p.name with
    | some name => simp [renderTokens, name.isWordLike]
    | none =>
      cases p.value with
      | none => simp
      | some value => simp [renderTokens]
  by_cases alone : p.tokens.tail = []
  · rw [alone, renderTokens, List.append_nil] at chars
    exact p.type.text_ne List.mem_cons_self (String.toList_inj.1 chars)
  · exact absurd (apart alone) (by decide)

theorem parameters_written (line : Nat) (f : WrittenFunction) (kind : MethodKind) (access : Access) :
    parameters line f.list = .ok (f.declaration kind access).parameters := by
  rw [WrittenFunction.list, WrittenFunction.declaration]
  dsimp only
  cases f.parameters with
  | none => rfl
  | some list =>
    obtain ⟨first, more⟩ := list
    have each : (first.tokens :: more.map (·.2.tokens)).mapM (parameter line) =
        .ok (first.declaration :: more.map (·.2.declaration)) :=
      mapM_eq_ok_iff.2 <| .cons (parameter_written line first) <| by
        simp [List.forall₂_map_left_iff, List.forall₂_map_right_iff, List.forall₂_same, parameter_written]
    dsimp only
    rw [parameters, commaParts_written]
    cases more with
    | nil =>
      have some : ¬ (first.tokens.isEmpty || render first.tokens = "void") := by
        rw [show first.tokens.isEmpty = false from rfl]
        simpa using render_ne_void first
      exact (if_neg some).trans each
    | cons next more => exact each

/-! ## Functions -/

/-- The tokens of a parameter list have no brackets among them. -/
theorem WrittenFunction.plain_list (f : WrittenFunction) : ∀ t ∈ f.list,
    t.isMark "(" = false ∧ t.isMark ")" = false ∧ t.isWord "operator" = false := by
  have part (p : WrittenParameter) : ∀ t ∈ p.tokens,
      t.isMark "(" = false ∧ t.isMark ")" = false ∧ t.isWord "operator" = false :=
    fun t ht => ⟨(p.plain t ht).1 _ (by decide), (p.plain t ht).1 _ (by decide), (p.plain t ht).2⟩
  rw [list]
  cases f.parameters with
  | none => exact fun _ h => nomatch h
  | some written =>
    obtain ⟨first, more⟩ := written
    refine List.forall_mem_append.2 ⟨part first, fun t ht => ?_⟩
    obtain ⟨⟨comma, p⟩, -, ht⟩ := List.mem_flatMap.1 ht
    rcases List.mem_cons.1 ht with rfl | ht
    · simp
    · exact part p t ht

/-- A name that is no builtin word is normal as it stands. -/
theorem normalize_name {w : String} (identifier : TypeText.isIdentifier w.toList)
    (type : w ∉ TypeText.qualifierWords) (other : w ∉ TypeText.builtinWords) : TypeText.normalize w = w := by
  have ne (mark : String) (noName : TypeText.isIdentifier mark.toList = false) : w ≠ mark := fun e => by
    rw [e, noName] at identifier
    cases identifier
  have reference : TypeText.isReference w = false := by
    simp [TypeText.isReference, ne "&" rfl, ne "&&" rfl]
  have qualifier : TypeText.isQualifier w = false := by
    have const : w ≠ "const" := fun e => type (e ▸ by decide)
    have volatile : w ≠ "volatile" := fun e => type (e ▸ by decide)
    simp [TypeText.isQualifier, const, volatile]
  have normal : TypeText.normalizeTokens [w] = [w] := by
    have noAlias : TypeText.builtinAlias? [] = none := rfl
    simp [TypeText.normalizeTokens, Text.dropEnd, TypeText.hasPointer, ne "*" rfl, reference, qualifier,
      TypeText.dropQualifiers, TypeText.collapseBuiltin, other, noAlias]
  rw [TypeText.normalize, TypeText.tokens_identifier identifier, normal]
  simp [TypeText.render, TypeText.renderChars]

theorem normalize_eq_void_iff {w : String} (identifier : TypeText.isIdentifier w.toList)
    (type : w ∉ TypeText.qualifierWords) : TypeText.normalize w = "void" ↔ w = "void" := by
  by_cases builtin : w ∈ TypeText.builtinWords
  · have all : ∀ w ∈ TypeText.builtinWords, TypeText.normalize w = "void" ↔ w = "void" := by decide +kernel
    exact all w builtin
  · rw [normalize_name identifier type builtin]

theorem not_mem_specifiers (n : Name reservedWords) : n.text ∉ specifiers := fun h =>
  n.free (List.mem_append_left _ (List.mem_append_right _ h))

/-- A name that stands alone in front of another is a result. -/
theorem returnType_written (n : Name reservedWords) : returnType [n.token] = n.text := by
  have free : n.token.text ∉ specifiers := not_mem_specifiers n
  simp only [returnType, dropAttributes, n.isMark, Bool.false_eq_true, if_false, if_true]
  rw [List.filter_cons_of_pos (by simp [free]), List.filter_nil, render_singleton n.isWordLike]
  rfl

/-- A function is read, unless it is a signal with a result. -/
theorem function?_written (f : WrittenFunction) (kind : MethodKind) (access : Access) :
    function? kind access f.front =
      if isSpoiled (f.declaration kind access) then
        .error ⟨f.name.token.line, .signalReturns f.name.text f.result.text⟩
      else .ok (some (f.declaration kind access)) := by
  have result : f.result.token.isWord "operator" = false := f.result.isWord_eq_false (by decide)
  have name : f.name.token.isWord "operator" = false := f.name.isWord_eq_false (by decide)
  have noOperator : ¬ f.front.any (·.isWord "operator") := by
    simp only [WrittenFunction.front, List.any_cons, List.any_append, Bool.or_eq_true, not_or]
    refine ⟨by simp [result], by simp [name], by simp, ?_, by simp, ?_⟩
    · simpa using fun t ht => (f.plain_list t ht).2.2
    · cases f.const <;> simp [Word.tokens?]
  have cut : cutAtParameters 0 f.front = some ([f.result.token, f.name.token],
      f.list ++ f.closing.token :: Word.tokens? f.const) := by
    simp [WrittenFunction.front, cutAtParameters]
  have group : closeGroup? "(" ")" 0 (f.list ++ f.closing.token :: Word.tokens? f.const) =
      some ⟨f.list, f.closing.token, Word.tokens? f.const⟩ :=
    closeGroup?_append (fun t ht => ⟨(f.plain_list t ht).1, (f.plain_list t ht).2.1⟩) (by simp) f.closing.isMark
  have const : (Word.tokens? f.const).head?.any (·.isWord "const") = f.const.isSome := by
    cases f.const <;> simp [Word.tokens?, Token.isWord]
  have void := normalize_eq_void_iff f.result.identifier fun h => f.result.free (List.mem_append_right _ h)
  rw [function?, if_neg noOperator, cut]
  simp only [List.getLast?_cons_cons, List.getLast?_singleton]
  simp [group, const, returnType_written, parameters_written _ f kind access, f.result.text_ne_empty]
  have spoiled : isSpoiled (f.declaration kind access) ↔
      kind = .signal ∧ ¬ TypeText.normalize f.result.text = "void" := by
    simp only [isSpoiled, Bool.and_eq_true, decide_eq_true_eq]
    exact and_congr_right fun _ => not_congr void.symm
  by_cases h : kind = .signal ∧ ¬ TypeText.normalize f.result.text = "void"
  · rw [if_pos (spoiled.2 h)]
    exact if_pos h
  · rw [if_neg (mt spoiled.1 h)]
    exact if_neg h

/-- A data member is no function. -/
theorem function?_data (type name : Name reservedWords) (kind : MethodKind) (access : Access) :
    function? kind access [type.token, name.token] = .ok none := by
  simp [function?, cutAtParameters]

/-! ## Members -/

/-- Tokens with matching brackets are passed over in the search for a bracket. -/
theorem Balanced.closeGroup? {ts : List Token} (h : Balanced ts) {left right : String}
    (shape : (left, right) ∈ [("(", ")"), ("[", "]"), ("\x7b", "\x7d")]) (depth : Nat) (rest : List Token) :
    closeGroup? left right depth (ts ++ rest) =
      (closeGroup? left right depth rest).map fun g => { g with inside := ts ++ g.inside } := by
  have other {t : Token} (depth : Nat) (ts : List Token) (opening : t.isMark left = false)
      (closing : t.isMark right = false) : Declaration.closeGroup? left right depth (t :: ts) =
        (Declaration.closeGroup? left right depth ts).map (·.push t) := by
    rw [Declaration.closeGroup?]
    simp [opening, closing]
  have brackets : left ∈ ["(", ")", "[", "]", "\x7b", "\x7d"] ∧ right ∈ ["(", ")", "[", "]", "\x7b", "\x7d"] ∧
      right ≠ left := by
    simp only [List.mem_cons, List.not_mem_nil, or_false, Prod.mk.injEq] at shape
    rcases shape with ⟨rfl, rfl⟩ | ⟨rfl, rfl⟩ | ⟨rfl, rfl⟩ <;> decide
  induction h generalizing depth rest with
  | nil => simp
  | token plain _ ih =>
    rw [List.cons_append, other depth _ (plain _ brackets.1) (plain _ brackets.2.1), ih, Option.map_map]
    rfl
  | @group opening closing ts us left' right' shape' opens _ closes _ ihInner ih =>
    rw [List.cons_append, List.append_assoc, List.cons_append]
    by_cases same : left' = left ∧ right' = right
    · obtain ⟨rfl, rfl⟩ := same
      have noOpening : closing.isMark left' = false := isMark_of_other closes brackets.2.2
      rw [Declaration.closeGroup?, if_pos opens, ihInner, Declaration.closeGroup?, if_neg (by simp [noOpening]),
        if_pos closes, if_neg (Nat.succ_ne_zero depth), Nat.add_sub_cancel, ih]
      cases Declaration.closeGroup? left' right' depth rest <;> simp [Group.push]
    · have apart : ∀ mark ∈ [left, right], left' ≠ mark ∧ right' ≠ mark := by
        simp only [List.mem_cons, List.not_mem_nil, or_false, Prod.mk.injEq] at shape shape'
        rcases shape with ⟨rfl, rfl⟩ | ⟨rfl, rfl⟩ | ⟨rfl, rfl⟩ <;>
          rcases shape' with ⟨rfl, rfl⟩ | ⟨rfl, rfl⟩ | ⟨rfl, rfl⟩ <;>
          first
          | exact absurd ⟨rfl, rfl⟩ same
          | decide
      have opener (mark) (h : mark ∈ [left, right]) := isMark_of_other opens (apart mark h).1
      have closer (mark) (h : mark ∈ [left, right]) := isMark_of_other closes (apart mark h).2
      rw [other depth _ (opener _ (by simp)) (opener _ (by simp)), ihInner,
        other depth _ (closer _ (by simp)) (closer _ (by simp)), ih]
      cases Declaration.closeGroup? left right depth rest <;> simp [Group.push]

/-- A bracket with its group behind it. -/
theorem group_of_balanced {ts : List Token} (h : Balanced ts) {left right : String}
    (shape : (left, right) ∈ [("(", ")"), ("[", "]"), ("\x7b", "\x7d")]) {opening closing : Token}
    (opens : opening.isMark left) (closes : closing.isMark right) (rest : List Token) :
    group opening (ts ++ closing :: rest) = .ok ⟨ts, closing, rest⟩ := by
  have closer : closerOf left = right ∧ right ≠ left := by
    simp only [List.mem_cons, List.not_mem_nil, or_false, Prod.mk.injEq] at shape
    rcases shape with ⟨rfl, rfl⟩ | ⟨rfl, rfl⟩ | ⟨rfl, rfl⟩ <;> decide
  have noOpening : closing.isMark left = false := isMark_of_other closes closer.2
  rw [group, (isMark_iff.1 opens).2, closer.1, h.closeGroup? shape]
  simp [Declaration.closeGroup?, noOpening, closes]

variable {previous : Option Token}

theorem memberTokens_word {t : Token} (word : t.kind ≠ .punctuation) (rest : List Token) :
    memberTokens previous false (t :: rest) =
      (memberTokens (some t) false rest).map fun (taken, after) => (t :: taken, after) := by
  have noMark (mark : String) : t.isMark mark = false := isMark_of_word word
  rw [memberTokens]
  simp [noMark]

theorem memberTokens_group {t : Token} {rest : List Token} {g : Group} (bracket : t.isMark "(")
    (grouped : group t rest = .ok g) : memberTokens previous false (t :: rest) =
      (memberTokens (some g.close) false g.after).map fun (taken, after) =>
        (t :: g.inside ++ g.close :: taken, after) := by
  have other (mark : String) (ne : "(" ≠ mark) := isMark_of_other bracket ne
  rw [memberTokens, if_neg (by simp [other]), if_neg (by simp [other]), if_neg (by simp [other]),
    if_pos (by simp [bracket])]
  split
  · rename_i failed
    cases grouped.symm.trans failed
  · rename_i found
    cases grouped.symm.trans found
    rfl

theorem memberTokens_semicolon (semicolon : Mark ";") (rest : List Token) :
    memberTokens previous false (semicolon.token :: rest) = .ok ([], rest) := by
  rw [memberTokens]
  simp

theorem group_of_mark {mark : String} {opening : Mark mark} {ts : List Token} {g : Group}
    (h : closeGroup? mark (closerOf mark) 0 ts = some g) : group opening.token ts = .ok g := by
  simp [group, h]

/-- A function with a body ends with it, and takes no semicolon that is not there. -/
theorem memberTokens_body (opening : Mark "\x7b") {inside : List Token} (balanced : Balanced inside)
    (closing : Mark "\x7d") {rest : List Token} (behind : rest.head?.any (·.isMark ";") = false) :
    memberTokens previous false (opening.token :: (inside ++ closing.token :: rest)) = .ok ([], rest) := by
  have grouped : group opening.token (inside ++ closing.token :: rest) = .ok ⟨inside, closing.token, rest⟩ :=
    group_of_balanced balanced (by decide) opening.isMark closing.isMark rest
  rw [memberTokens, if_neg (by simp), if_neg (by simp), if_pos opening.isMark]
  split
  · rename_i failed
    cases grouped.symm.trans failed
  · rename_i found
    cases grouped.symm.trans found
    cases rest with
    | nil => rfl
    | cons next rest =>
      have other : next.isMark ";" = false := behind
      simp [other]

theorem memberTokens_data (type name : Name reservedWords) (semicolon : Mark ";") (rest : List Token) :
    memberTokens none false (type.token :: name.token :: semicolon.token :: rest) =
      .ok ([type.token, name.token], rest) := by
  rw [memberTokens_word (by simp), memberTokens_word (by simp), memberTokens_semicolon]
  rfl

theorem memberTokens_written (f : WrittenFunction) {rest : List Token}
    (behind : rest.head?.any (·.isMark ";") = false) :
    memberTokens none false (f.front ++ (f.ending.tokens ++ rest)) = .ok (f.front, rest) := by
  have ends (previous : Option Token) : memberTokens previous false (f.ending.tokens ++ rest) = .ok ([], rest) := by
    cases f.ending with
    | semicolon mark => exact memberTokens_semicolon mark rest
    | body opening inside balanced closing =>
      rw [WrittenEnd.tokens, List.cons_append, List.append_assoc]
      exact memberTokens_body opening balanced closing behind
  have const (previous : Option Token) :
      memberTokens previous false (Word.tokens? f.const ++ (f.ending.tokens ++ rest)) =
        .ok (Word.tokens? f.const, rest) := by
    cases f.const with
    | none => exact ends previous
    | some word =>
      refine (memberTokens_word (by simp) (f.ending.tokens ++ rest)).trans ?_
      rw [ends]
      rfl
  have list : group f.opening.token (f.list ++
      f.closing.token :: (Word.tokens? f.const ++ (f.ending.tokens ++ rest))) =
      .ok ⟨f.list, f.closing.token, Word.tokens? f.const ++ (f.ending.tokens ++ rest)⟩ :=
    group_of_mark (closeGroup?_append (fun t ht => ⟨(f.plain_list t ht).1, (f.plain_list t ht).2.1⟩) (by simp)
      f.closing.isMark)
  rw [WrittenFunction.front]
  simp only [List.cons_append, List.append_assoc]
  rw [memberTokens_word (by simp), memberTokens_word (by simp), memberTokens_group f.opening.isMark list]
  simp only [const]
  rfl

end Reflection.Declaration
