import Reflection.Declaration.ClassHead
import Reflection.Declaration.Function
import Reflection.Declaration.Property
import Reflection.Declaration.StringLiteral
/-!
# Class bodies

Reads the body of a class: access labels, sections of signals and slots, markers, enumerations,
member functions and nested classes. Whatever else stands there is skipped. A class is recorded if
its own body carries the marker `H_OBJECT`.
-/

namespace Reflection.Declaration

open Reflection.Source

/-! ## What has been read -/

/-- What functions without a marker of their own are taken for. -/
inductive Section where
  | plain
  | signals
  | slots
deriving DecidableEq, Repr

/-- The kind of an unmarked function in a section, if it is recorded at all. -/
def Section.kind? : Section → Option MethodKind
  | .plain => none
  | .signals => some .signal
  | .slots => some .slot

/-- A class body as far as it has been read. -/
structure ClassBody where
  declaration : ClassDeclaration
  /-- Has `H_OBJECT` been seen? -/
  annotated : Bool := false
  access : Access
  section_ : Section := .plain
  /-- The marker that waits for its function. -/
  marker : Option MethodKind := none
  /-- The annotated classes in the nested classes so far. -/
  nested : List ClassDeclaration := []
deriving DecidableEq, Repr

/-- The empty body of a class in `scope`. -/
def ClassBody.start (scope : String) (head : ClassHead) : ClassBody :=
  { declaration :=
      { name := if scope = "" then head.name else scope ++ "::" ++ head.name
        scope := scope
        bases := head.bases
        line := head.line }
    access := if head.isStruct then .isPublic else .isPrivate }

/-- The annotated classes of a body that has been read to its end: the class itself, then those
nested in it. A template cannot be annotated. -/
def ClassBody.classes (isTemplate : Bool) (b : ClassBody) :
    Except LocatedFault (List ClassDeclaration) :=
  if !b.annotated then .ok b.nested
  else if isTemplate then
    .error ⟨b.declaration.line, .annotatedTemplate b.declaration.name⟩
  else .ok (b.declaration :: b.nested)

/-! ## Items of a body -/

/-- Requires the punctuation `mark` at the front. -/
def expectMark (endLine : Nat) (mark : String) : List Token → Except LocatedFault (List Token)
  | [] => .error ⟨endLine, .expected mark none⟩
  | t :: rest => if t.isMark mark then .ok rest else .error ⟨t.line, .expected mark (some t.text)⟩

/-- The arguments in round brackets that have to follow a marker. -/
def markerArguments (marker : Token) : List Token → Except LocatedFault Group
  | [] => .error ⟨marker.line, .argumentsExpected marker.text⟩
  | t :: rest =>
    if t.isMark "(" then group t rest else .error ⟨marker.line, .argumentsExpected marker.text⟩

/-- The access that a label gives. -/
def accessOf? : String → Option Access
  | "public" => some .isPublic
  | "protected" => some .isProtected
  | "private" => some .isPrivate
  | _ => none

/-- The kind that a marker gives to the function after it. -/
def markedKind? : String → Option MethodKind
  | "H_INVOKABLE" => some .method
  | "H_SIGNAL" => some .signal
  | "H_SLOT" => some .slot
  | _ => none

/-- The words that start something to be skipped as a statement. -/
def skippedWords : List String :=
  ["union", "friend", "using", "typedef", "static_assert"]

/-- Does the word start a section of slots? -/
def isSlotsWord (t : Token) : Bool :=
  t.isWord "slots" || t.isWord "H_SLOTS"

/-- Does the word start a section of signals? -/
def isSignalsWord (t : Token) : Bool :=
  t.isWord "signals" || t.isWord "H_SIGNALS"

/-- Reads a member and records it if it is a function and `kind` is given. -/
def bodyMember (b : ClassBody) (kind : Option MethodKind) (ts : List Token) :
    Except LocatedFault (ClassBody × List Token) := do
  let (taken, after) ← memberTokens none false ts
  match kind with
  | none => return (b, after)
  | some kind =>
    match ← function? kind b.access taken with
    | none => return (b, after)
    | some f =>
      let d := b.declaration
      return ({ b with declaration := { d with methods := d.methods ++ [f] } }, after)

/-- Reads an item that is neither a class nor a template, from its first token and what follows. -/
def bodyItem (endLine : Nat) (b : ClassBody) (t : Token) (rest : List Token) :
    Except LocatedFault (ClassBody × List Token) := do
  let d := b.declaration
  if t.isMark ";" then return (b, rest)
  else if t.isMark "\x7b" || t.isMark "[" then return (b, (← group t rest).after)
  else if t.kind ≠ .identifier then bodyMember { b with marker := none } (b.marker <|> b.section_.kind?) (t :: rest)
  else if let some access := accessOf? t.text then
    let hasSlots := rest.head?.any isSlotsWord
    let after ← expectMark endLine ":" (if hasSlots then rest.drop 1 else rest)
    return ({ b with access := access, section_ := if hasSlots then .slots else .plain }, after)
  else if isSignalsWord t then
    return ({ b with access := .isPublic, section_ := .signals }, ← expectMark endLine ":" rest)
  else if isSlotsWord t then
    return ({ b with section_ := .slots }, ← expectMark endLine ":" rest)
  else if t.text = "H_OBJECT" then
    return ({ b with annotated := true }, if rest.head?.any (·.isMark ";") then rest.drop 1 else rest)
  else if t.text = "H_PROPERTY" then
    let g ← markerArguments t rest
    let p ← property t.line g.inside
    return ({ b with declaration := { d with properties := d.properties ++ [p] } }, g.after)
  else if t.text = "H_ENUM" || t.text = "H_FLAG" then
    let g ← markerArguments t rest
    match g.inside with
    | [n] =>
      if n.kind ≠ .identifier then throw ⟨t.line, .enumNameExpected t.text⟩
      let r : EnumRegistration := ⟨n.text, t.text = "H_FLAG", t.line⟩
      return ({ b with declaration := { d with enumRegistrations := d.enumRegistrations ++ [r] } }, g.after)
    | _ => throw ⟨t.line, .enumNameExpected t.text⟩
  else if t.text = "H_CLASSINFO" then
    let g ← markerArguments t rest
    match g.inside with
    | [key, comma, value] =>
      if !(key.kind = .string && comma.isMark "," && value.kind = .string) then
        throw ⟨t.line, .classInfoExpected⟩
      let pair := (unquote key.text, unquote value.text)
      return ({ b with declaration := { d with classInfo := d.classInfo ++ [pair] } }, g.after)
    | _ => throw ⟨t.line, .classInfoExpected⟩
  else if let some kind := markedKind? t.text then
    return ({ b with marker := some kind }, rest)
  else if t.text = "enum" then
    let (e, after) ← enumeration? t.line d.enums rest
    return ({ b with declaration := { d with enums := d.enums ++ e.toList } }, after)
  else if skippedWords.contains t.text then
    return ({ b with marker := none }, ← skipStatement (t :: rest))
  else bodyMember { b with marker := none } (b.marker <|> b.section_.kind?) (t :: rest)

/-- What a template introduces: its first token, or nothing, and what follows that. -/
def afterTemplate (endLine : Nat) (ts : List Token) : Except LocatedFault (List Token) :=
  match ts with
  | [] => .ok []
  | t :: rest => if t.isMark "<" then skipAngles endLine 1 rest else .ok (t :: rest)

/-- A class that may start here: whether it is a template, its keyword and what follows that. -/
structure ClassStart where
  isTemplate : Bool
  keyword : Token
  after : List Token
deriving Repr

/-- How an item starts. -/
inductive ItemStart where
  | ofClass (start : ClassStart)
  /-- A template of something else, which starts at the given tokens. -/
  | ofTemplate (ts : List Token)
  | other
deriving Repr

/-- Looks for a class or a template at an item's first token. -/
def itemStart (endLine : Nat) (t : Token) (rest : List Token) : Except LocatedFault ItemStart :=
  if isClassWord t then .ok (.ofClass ⟨false, t, rest⟩)
  else if t.isWord "template" then
    match afterTemplate endLine rest with
    | .error e => .error e
    | .ok [] => .ok (.ofTemplate [])
    | .ok (u :: after) =>
      if isClassWord u then .ok (.ofClass ⟨true, u, after⟩) else .ok (.ofTemplate (u :: after))
  else .ok .other

/-! ## Bodies -/

/-- Reads a class body from inside its brackets, and what follows it. The first argument bounds the
number of items, nested ones included; a token list has at most as many as tokens. -/
def classBody (endLine : Nat) : Nat → ClassBody → List Token → Except LocatedFault (ClassBody × List Token)
  | 0, b, _ => .error ⟨b.declaration.line, .unterminatedBody b.declaration.name⟩
  | _ + 1, b, [] => .error ⟨b.declaration.line, .unterminatedBody b.declaration.name⟩
  | n + 1, b, t :: rest =>
    if t.isMark "\x7d" then .ok (b, rest)
    else do
      match ← itemStart endLine t rest with
      | .other =>
        let (b, after) ← bodyItem endLine b t rest
        classBody endLine n b after
      | .ofTemplate ts =>
        let (b, after) ← bodyMember b none ts
        classBody endLine n { b with marker := none } after
      | .ofClass start =>
        let (head, inside) ← classHead start.keyword start.after
        match head with
        | none => classBody endLine n { b with marker := none } (← skipStatement inside)
        | some head =>
          let (inner, after) ← classBody endLine n (.start b.declaration.name head) inside
          let nested ← inner.classes start.isTemplate
          classBody endLine n { b with marker := none, nested := b.nested ++ nested } (← skipStatement after)

end Reflection.Declaration
