import Reflection.Signature.TypeText
/-!
# Method signatures

A signature is a method's name with the normal spellings of its parameter types. Names and default
values of parameters leave no trace in it, so the same method can be declared and looked up with
different texts. `canonical` writes a signature, `parse` reads one, and `digest` is a fixed hash of
the canonical text.
-/

namespace Reflection

open Reflection.Text

/-- A method name with its parameter types in normal spelling. -/
structure Signature where
  name : String
  parameters : List String
deriving DecidableEq, Repr, Inhabited

/-- Why a text is no signature. -/
inductive SignatureFault where
  /-- There is no opening bracket. -/
  | missingParameterList
  /-- Brackets do not match, or something other than `const` follows the parameters. -/
  | unbalanced
  /-- What precedes the parameters is not an identifier. -/
  | invalidName
deriving DecidableEq, Repr

/-- A text that is no signature. -/
structure SignatureError where
  fault : SignatureFault
  text : String
deriving DecidableEq, Repr

/-- The wording of a signature error. -/
def SignatureError.message (e : SignatureError) : String :=
  match e.fault with
  | .missingParameterList => s!"signature `{e.text}` has no parameter list"
  | .unbalanced => s!"signature `{e.text}` has unbalanced brackets"
  | .invalidName => s!"signature `{e.text}` has an invalid method name"

namespace Signature

/-! ## Cutting texts -/

/-- An opening bracket of any of the four shapes. -/
def isOpening (c : Char) : Bool :=
  c = '(' || c = '<' || c = '[' || c = '{'

/-- A closing bracket of any of the four shapes. -/
def isClosing (c : Char) : Bool :=
  c = ')' || c = '>' || c = ']' || c = '}'

/-- The first part and the later parts of a text cut at each separator outside brackets, with
`depth` brackets open in front. The shapes of brackets need not match, only their number. -/
def splitParts (separator : Char) (depth : Nat) : List Char → Option (List Char × List (List Char))
  | [] => if depth = 0 then some ([], []) else none
  | c :: rest =>
    if isOpening c then
      (splitParts separator (depth + 1) rest).map fun (first, later) => (c :: first, later)
    else if isClosing c then
      if depth = 0 then none
      else (splitParts separator (depth - 1) rest).map fun (first, later) => (c :: first, later)
    else if c = separator && depth = 0 then
      (splitParts separator depth rest).map fun (first, later) => ([], first :: later)
    else (splitParts separator depth rest).map fun (first, later) => (c :: first, later)

/-- The text before the last `c` and the text after it. -/
def cutLast (c : Char) : List Char → Option (List Char × List Char)
  | [] => none
  | x :: rest =>
    match cutLast c rest with
    | some (before, after) => some (x :: before, after)
    | none => if x = c then some ([], rest) else none

/-- The pieces of a text around its first opening and its last closing round bracket. -/
def cutParameters (text : List Char) :
    Except SignatureFault (List Char × List Char × List Char) :=
  match text.dropWhile (· ≠ '(') with
  | [] => .error .missingParameterList
  | _ :: rest =>
    match cutLast ')' rest with
    | none => .error .unbalanced
    | some (parameters, trailing) => .ok (text.takeWhile (· ≠ '('), parameters, trailing)

/-! ## Parsing and writing -/

/-- The normal type of one declared parameter, without its name and default value. An empty
parameter and `void` declare none. -/
def parameterType (text : List Char) : Except SignatureFault (Option String) :=
  let text := trim text
  if text.isEmpty || text = ['v', 'o', 'i', 'd'] then .ok none
  else
    match splitParts '=' 0 text with
    | none => .error .unbalanced
    | some (declared, _) =>
      .ok (some (TypeText.normalize (TypeText.splitParameter (String.ofList declared)).1))

/-- The normal types of a declared parameter list. -/
def parameterTypes (text : List Char) : Except SignatureFault (List String) :=
  match splitParts ',' 0 text with
  | none => .error .unbalanced
  | some (first, later) => ((first :: later).mapM parameterType).map (·.filterMap id)

/-- Reads a signature from the characters of a declaration. -/
def parseChars (text : List Char) : Except SignatureFault Signature := do
  let (name, parameters, trailing) ← cutParameters text
  let name := trim name
  if !TypeText.isIdentifier name then throw .invalidName
  let trailing := trim trailing
  if !(trailing.isEmpty || trailing = ['c', 'o', 'n', 's', 't']) then throw .unbalanced
  return ⟨String.ofList name, ← parameterTypes parameters⟩

/-- Reads a signature from a declaration such as `setValue(const Foo& value, int)`. A `const` after
the parameters is accepted and means nothing here. -/
def parse (text : String) : Except SignatureError Signature :=
  (parseChars text.toList).mapError fun fault => ⟨fault, text⟩

/-- The signature of a method with declared types `types`. -/
def ofDeclared (name : String) (types : List String) : Signature :=
  ⟨name, types.map TypeText.normalize⟩

/-- The canonical text `name(T1,T2)`. -/
def canonical (s : Signature) : String :=
  s.name ++ "(" ++ ",".intercalate s.parameters ++ ")"

/-- The canonical text of the signature that a text spells. -/
def normalize (text : String) : Except SignatureError String :=
  (parse text).map canonical

/-! ## Digests -/

/-- The 64-bit FNV-1a hash of the UTF-8 bytes of a text. -/
def digestOf (text : String) : UInt64 :=
  text.toUTF8.data.toList.foldl (fun h b => (h ^^^ b.toUInt64) * 0x100000001b3) 0xcbf29ce484222325

/-- The hash of the canonical text. -/
def digest (s : Signature) : UInt64 :=
  digestOf s.canonical

/-- Can a slot that takes `slot` receive a signal that carries `signal`? Types must agree one by
one; nothing is converted. -/
def compatible (signal slot : List String) : Bool :=
  signal = slot

end Signature
end Reflection
