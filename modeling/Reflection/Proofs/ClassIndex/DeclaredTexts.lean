import Reflection.Proofs.ClassIndex.Tables
import Reflection.Proofs.Declaration.Enumerations
import Reflection.Proofs.Declaration.Functions
import Reflection.Proofs.Declaration.ParameterTexts
import Reflection.Proofs.Signature.NormalForm
/-!
# Methods by their declared texts

A method of a compiled class can be looked up by the text that it was declared with, without comments, if
its parameter list is plain: the text spells the signature that the table of the class has for it
(`declared_texts_of_plain_lists_are_looked_up`). Parameter lists that are not plain are cut at other places
by a look-up than by the compiler (`shift_hides_slot`).
-/

namespace Reflection

open Reflection.Source Reflection.Declaration

/-! ## Look-ups -/

namespace MetaClass

/-- A text leads to the method of a declared function, as a signal or a slot too if it is one. -/
def FindsDeclared (c : MetaClass) (text : String) (f : FunctionDeclaration) : Prop :=
  ∃ i m, c.indexOfMethod? text = some i ∧ c.method? i = some m ∧ m.owner = c ∧
    m.signature = f.canonical ∧ m.entry.Describes c.table.strings f.fullSpec ∧
    c.indexOfSignal? text = (if f.kind = .signal then some i else none) ∧
    c.indexOfSlot? text = if f.kind = .slot then some i else none

/-- A function that a class declares is found by its canonical signature, in the class itself. -/
theorem indexOfCanonical?_of_described {c : MetaClass} {isDeclared : String → Bool} {d : ClassDeclaration}
    {ms : List MethodSpec} (described : List.Forall₂ (·.Describes c.table.strings ·) c.table.methods ms)
    (lists : Lists isDeclared d.functionsByKind ms) {f : FunctionDeclaration} (hf : f ∈ d.methods) :
    ∃ i m, c.indexOfCanonical? f.canonical = some i ∧ c.method? i = some m ∧ m.owner = c ∧
      m.signature = f.canonical ∧ m.entry.Describes c.table.strings f.fullSpec := by
  have declared : f.canonical ∈ c.table.methods.map c.table.signature := by
    rw [ClassIndex.map_signature described]
    exact List.mem_map_of_mem (f := (·.signature.canonical))
      (lists.fullSpec_mem (d.functionsByKind_perm.mem_iff.2 hf))
  have own : c.HasOwn ClassTable.methods ClassTable.signature f.canonical := List.mem_map.1 declared
  have self : c ∈ c.lineage := by simp [lineage_eq c]
  obtain ⟨i, found⟩ : ∃ i, c.indexOfCanonical? f.canonical = some i := by
    rw [← Option.isSome_iff_exists, Option.isSome_iff_ne_none]
    exact fun none => (indexOf?_eq_none_iff ClassTable.methods ClassTable.signature).1 none c self own
  obtain ⟨below, a, above, k, split, others, ⟨⟨e, at', spells⟩, -⟩, rfl⟩ :=
    (indexOf?_eq_some_iff ClassTable.methods ClassTable.signature).1 found
  -- The class itself has the signature, so no other class decides.
  obtain ⟨rfl, rfl⟩ : below = [] ∧ a = c := by
    rw [lineage_eq c] at split
    cases below with
    | nil => exact ⟨rfl, (List.cons.inj split).1.symm⟩
    | cons b below => exact absurd ((List.cons.inj split).1 ▸ own) (others b List.mem_cons_self)
  refine ⟨_, ⟨a, e, a.offset ClassTable.methods + k⟩, found, ?_, rfl, spells, ?_⟩
  · refine (memberAt?_eq_some_iff ClassTable.methods).2 ⟨rfl, k, ?_, at'⟩
    exact getElem?_places ClassTable.methods self (List.getElem?_eq_some_iff.1 at').1
  · obtain ⟨m, hm, describes⟩ := exists_right_of_mem described e (List.mem_of_getElem? at')
    have same : m = f.fullSpec := by
      refine ClassIndex.eq_of_canonical lists hf hm ?_
      rw [← spells, ClassTable.signature, describes.signature.string]
    rwa [same] at describes

/-- A text that spells the signature of a declared function leads to its method. -/
theorem findsDeclared_of_parse {x : ClassIndex} {d : ClassDeclaration} {c : MetaClass}
    (table : x.tableOf d = .ok c.table) (fits : c.table.strings.length ≤ UInt32.size)
    {f : FunctionDeclaration} (hf : f ∈ d.methods) {text : String}
    (spells : Signature.parse text = .ok f.fullSpec.signature) : c.FindsDeclared text f := by
  obtain ⟨ms, described, -, lists⟩ := ClassIndex.described table fits
  obtain ⟨i, m, found, at', owner, signature, describes⟩ := indexOfCanonical?_of_described described lists hf
  have look : c.indexOfMethod? text = some i := by
    rw [indexOfMethod?, Signature.normalize, spells]
    exact found
  have kind : ∀ kind, c.hasKind kind i = decide (f.kind = kind) := by
    intro kind
    rw [hasKind, at', Option.any_some, describes.kind]
    rfl
  refine ⟨i, m, look, at', owner, signature, describes, ?_, ?_⟩
  · rw [indexOfSignal?, look, Option.filter_some, kind]
    simp
  · rw [indexOfSlot?, look, Option.filter_some, kind]
    simp

end MetaClass

/-! ## Declared texts -/

/-- The text of a declaration with the tokens `list` between its brackets. -/
def declaredText (name : String) (list : List Token) : String :=
  String.ofList (name.toList ++ '(' :: (withoutComments list ++ [')']))

theorem signature_fullSpec (f : FunctionDeclaration) :
    f.fullSpec.signature = ⟨f.name, f.parameters.map fun p => TypeText.normalize p.type⟩ := by
  rw [FunctionDeclaration.fullSpec, FunctionDeclaration.spec, List.take_length]
  simp [MethodSpec.signature, Signature.ofDeclared]

/-- A plain parameter list that is read in one piece spells the signature of its function. -/
theorem parse_declaredText {source : String} {f : FunctionDeclaration} {p : FunctionParts} {list : List Token}
    (declares : Declares source f p list) (whole : p.list.inside = list.filter Token.isSignificant)
    (plain : Plain list) : Signature.parse (declaredText f.name list) = .ok f.fullSpec.signature := by
  obtain ⟨front, back, lexed⟩ := declares.between
  have cut := cut_of_tokens lexed
  have lexemes := lexeme_of_cut cut
  have piece : list <:+: front ++ p.opening :: (list ++ p.list.close :: back) :=
    ⟨front ++ [p.opening], p.list.close :: back, by simp⟩
  obtain ⟨kind, name, params⟩ := declares.reads.parameters
  rw [whole] at params
  have types := parameterTypes_of_parameters (fun t ht => lexemes t (piece.subset ht))
    (separate_of_piece (isChain_separate cut) piece) plain params
  have identifier : TypeText.isIdentifier f.name.toList := by
    rw [name]
    exact (lexemes _ (declares.name_mem lexed)).identifier kind
  rw [declaredText, Signature.parse_enclosed identifier types, signature_fullSpec]

/-! ## Main theorem -/

/-- Each function of a class that is compiled is declared in the source text with a parameter list, which
is read in one piece if neither brackets nor a colon come before the name. If the list is plain and read
in one piece, the name of the function with the text of the list, comments left out, is a signature, and
it is the one that the table of the class has for the function. So a look-up of the text leads to the
function, as a signal or a slot if it is one. -/
theorem declared_texts_of_plain_lists_are_looked_up {file source : String} {classes : List ClassDeclaration}
    (parsed : parse file source = .ok classes) {d : ClassDeclaration} (hd : d ∈ classes)
    {f : FunctionDeclaration} (hf : f ∈ d.methods) :
    (∃ p list, Declares source f p list ∧ p.list.inside.Sublist (list.filter Token.isSignificant) ∧
      (p.IsFlat → p.list.inside = list.filter Token.isSignificant)) ∧
      ∀ p list, Declares source f p list → p.list.inside = list.filter Token.isSignificant → Plain list →
        Signature.parse (declaredText f.name list) = .ok f.fullSpec.signature ∧
        ∀ (x : ClassIndex) (c : MetaClass), x.tableOf d = .ok c.table → c.table.strings.length < 2 ^ 32 →
          c.FindsDeclared (declaredText f.name list) f := by
  refine ⟨exists_declares parsed hd hf, fun p list declares whole plain => ?_⟩
  have spells := parse_declaredText declares whole plain
  exact ⟨spells, fun x c table fits => MetaClass.findsDeclared_of_parse table (Nat.le_of_lt fits) hf spells⟩

/-! ### A class with a single slot -/

/-- The class, with the text of the parameters of its slot. -/
def bell (parameters : String) : String :=
  "class Bell \x7b H_OBJECT public slots: void ring(" ++ parameters ++ "); \x7d;"

/-- A token on the first line that means nothing. -/
def blankAt (text : String) (offset : Nat) : Token := ⟨.blank, text, offset, 1⟩

/-- The tokens before the parameters. -/
def bellFront : List Token :=
  [wordAt "class" 0, blankAt " " 5, wordAt "Bell" 6, blankAt " " 10, markAt "\x7b" 11, blankAt " " 12,
    wordAt "H_OBJECT" 13, blankAt " " 21, wordAt "public" 22, blankAt " " 28, wordAt "slots" 29, markAt ":" 34,
    blankAt " " 35, wordAt "void" 36, blankAt " " 40, wordAt "ring" 41]

/-- The tokens behind the parameters, whose closing bracket stands at `offset`. -/
def bellBack (offset : Nat) : List Token :=
  [markAt ";" (offset + 1), blankAt " " (offset + 2), markAt "\x7d" (offset + 3), markAt ";" (offset + 4)]

/-- The class with the functions that have been read. -/
def bellClass (methods : List FunctionDeclaration) : ClassDeclaration :=
  { name := "Bell", scope := "", bases := [], line := 1, methods := methods }

/-- The body of the class with these functions. -/
def bellBody (methods : List FunctionDeclaration) : ClassBody where
  declaration := bellClass methods
  annotated := true
  access := .isPublic
  section_ := .slots

/-- The slot. -/
def ringSlot (parameters : List Parameter) : FunctionDeclaration where
  name := "ring"
  returnType := "void"
  parameters := parameters
  kind := .slot
  access := .isPublic
  isConst := false
  line := 1

/-- The tokens of the slot, which mean something, around the brackets of its parameter list. -/
def ringParts (list : List Token) (offset : Nat) : FunctionParts where
  before := [wordAt "void" 36]
  name := wordAt "ring" 41
  opening := markAt "(" 45
  list := ⟨list.filter Token.isSignificant, markAt ")" offset, []⟩

/-- The tokens that mean something before the slot. -/
def bellHead : List Token :=
  [wordAt "class" 0, wordAt "Bell" 6, markAt "\x7b" 11, wordAt "H_OBJECT" 13, wordAt "public" 22,
    wordAt "slots" 29, markAt ":" 34]

theorem reaches_slot (endLine : Nat) (rest : List Token) :
    Reaches endLine (bellHead ++ rest) (.body false (bellBody []) rest) := by
  have named : headName ⟨"", 1, false⟩ (wordAt "Bell" 6 :: markAt "\x7b" 11 :: bellHead.drop 3 ++ rest) =
      .ok (some ⟨"Bell", 1, false⟩, markAt "\x7b" 11 :: bellHead.drop 3 ++ rest) := by
    simp [headName, wordAt, markAt, Token.isMark]
  have head : classHead (wordAt "class" 0) (bellHead.drop 1 ++ rest) =
      .ok (some ⟨"Bell", 1, [], false⟩, bellHead.drop 3 ++ rest) :=
    bind_eq_ok_iff.2 ⟨_, named, rfl⟩
  have enters : fileStep endLine [] (wordAt "class" 0) (bellHead.drop 1 ++ rest) =
      .ok (.enter false ⟨"Bell", 1, [], false⟩ (bellHead.drop 3 ++ rest)) :=
    bind_eq_ok_iff.2 ⟨_, rfl, bind_eq_ok_iff.2 ⟨_, head, rfl⟩⟩
  have opened := Reaches.enter .start enters
  have annotated := opened.goOnInside (t := wordAt "H_OBJECT" 13) rfl rfl
  exact annotated.goOnInside (t := wordAt "public" 22) rfl rfl

/-- The class declares its slot, with the tokens `list` between the brackets. -/
theorem declares_ring {parameters : String} {slot : FunctionDeclaration} {list : List Token} {offset : Nat}
    (lexed : tokens (bell parameters) =
      .ok (bellFront ++ markAt "(" 45 :: (list ++ markAt ")" offset :: bellBack offset)))
    (step : bodyStep 1 (bellBody []) (wordAt "void" 36) ((ringParts list offset).tokens.tail ++
      (bellBack offset).filter Token.isSignificant) =
        .ok (.goOn (bellBody [slot]) [markAt "\x7d" (offset + 3), markAt ";" (offset + 4)]))
    (member : memberTokens none false ((ringParts list offset).tokens ++
      (bellBack offset).filter Token.isSignificant) =
        .ok ((ringParts list offset).tokens, [markAt "\x7d" (offset + 3), markAt ";" (offset + 4)]))
    (reads : (ringParts list offset).Reads slot) :
    Declares (bell parameters) slot (ringParts list offset) list := by
  have front : bellFront.filter Token.isSignificant = bellHead ++ [wordAt "void" 36, wordAt "ring" 41] := by
    decide +kernel
  have significant : significantTokens (bell parameters) = .ok (bellHead ++
      ((ringParts list offset).tokens ++ (bellBack offset).filter Token.isSignificant)) := by
    refine map_eq_ok_iff.2 ⟨_, lexed, ?_⟩
    rw [List.filter_append, front]
    simp [FunctionParts.tokens, ringParts, Token.isSignificant, markAt]
  have last : lastLine (bellHead ++
      ((ringParts list offset).tokens ++ (bellBack offset).filter Token.isSignificant)) = 1 := by
    simp [lastLine, bellBack, Token.isSignificant, markAt, blankAt]
  refine ⟨⟨_, significant, ?_⟩, _, _, lexed⟩
  rw [last]
  exact .mk (reaches_slot 1 _) rfl step rfl member reads

/-- What stands between the brackets has blanks, a comment, names and a default value with a comma. -/
def ropes : String :=
  "const Rope& /* pull */ rope, int n = at(\"a,b\")"

/-- The tokens of `ropes` where they stand in the class. -/
def ropesList : List Token :=
  [wordAt "const" 46, blankAt " " 51, wordAt "Rope" 52, markAt "&" 56, blankAt " " 57,
    blankAt "/* pull */" 58, blankAt " " 68, wordAt "rope" 69, markAt "," 73, blankAt " " 74,
    wordAt "int" 75, blankAt " " 78, wordAt "n" 79, blankAt " " 80, markAt "=" 81,
    blankAt " " 82, wordAt "at" 83, markAt "(" 85, ⟨.string, "\"a,b\"", 86, 1⟩, markAt ")" 91]

/-- The slot with these parameters. -/
def ropesSlot : FunctionDeclaration :=
  ringSlot [⟨"const Rope&", some "rope", none⟩, ⟨"int", some "n", some "at(\"a,b\")"⟩]

theorem plain_ropes : Plain ropesList where
  signed := by decide +kernel
  closed := by decide +kernel
  declared := by decide +kernel
  tight := by decide +kernel
  alone part mem void := by
    have named : ∀ part ∈ commaParts ropesList, Text.trim (withoutComments part) ≠ "void".toList := by
      decide +kernel
    exact absurd void (named part mem)

/-- The slot is looked up by the text between its brackets, its comment left out. -/
theorem ring_is_looked_up_as_declared :
    declaredText "ring" ropesList = "ring(const Rope&   rope, int n = at(\"a,b\"))" ∧
      Signature.parse "ring(const Rope&   rope, int n = at(\"a,b\"))" = .ok ⟨"ring", ["Rope", "int"]⟩ ∧
      ∃ c : MetaClass, ClassIndex.tableOf ⟨[⟨0, bellClass [ropesSlot]⟩]⟩ (bellClass [ropesSlot]) = .ok c.table ∧
        c.FindsDeclared "ring(const Rope&   rope, int n = at(\"a,b\"))" ropesSlot := by
  have text : declaredText "ring" ropesList = "ring(const Rope&   rope, int n = at(\"a,b\"))" := by
    decide +kernel
  have chars : (bell ropes).toList = _ :=
    toList_append_of (toList_append_of String.toList_ofList String.toList_ofList) String.toList_ofList
  have parsed : parse "bell.h" (bell ropes) = .ok [bellClass [ropesSlot]] :=
    (parse_of_toList chars).trans (by decide +kernel)
  have declares : Declares (bell ropes) ropesSlot (ringParts ropesList 92) ropesList :=
    declares_ring ((tokens_of_toList chars).trans (by decide +kernel)) (by decide +kernel) (by decide +kernel)
      ⟨by decide +kernel, by decide +kernel, by decide, rfl⟩
  obtain ⟨-, found⟩ := declared_texts_of_plain_lists_are_looked_up (f := ropesSlot) parsed
    List.mem_cons_self List.mem_cons_self
  obtain ⟨spells, looked⟩ := found _ _ declares rfl plain_ropes
  rw [show ropesSlot.name = "ring" from rfl, text] at spells looked
  have types : ropesSlot.fullSpec.signature = ⟨"ring", ["Rope", "int"]⟩ := by decide +kernel
  have made : (ClassIndex.tableOf ⟨[⟨0, bellClass [ropesSlot]⟩]⟩ (bellClass [ropesSlot])).map
      (·.strings.length) = .ok 10 := by decide +kernel
  obtain ⟨t, table, count⟩ := map_eq_ok_iff.1 made
  have fits : t.strings.length < 2 ^ 32 := by omega
  exact ⟨text, types ▸ spells, ⟨t, []⟩, table, looked _ ⟨t, []⟩ table fits⟩

/-- The tokens of `int n = 1 << 2` where they stand in the class. -/
def shiftList : List Token :=
  [wordAt "int" 46, blankAt " " 49, wordAt "n" 50, blankAt " " 51, markAt "=" 52,
    blankAt " " 53, numberAt "1" 54, blankAt " " 55, markAt "<<" 56, blankAt " " 58,
    numberAt "2" 59]

/-- The signature that is recorded for the slot, and the one that a look-up takes its text for. -/
def recordedAndSpelled (parameters : String) : Option (List String) × Option String :=
  ((parse "bell.h" (bell parameters)).toOption.map fun classes =>
      classes.flatMap fun d => d.methods.map (·.canonical),
    (Signature.normalize ("ring(" ++ parameters ++ ")")).toOption)

theorem recordedAndSpelled_of_toList {parameters : String} {chars spelled : List Char}
    (h : (bell parameters).toList = chars) (hs : ("ring(" ++ parameters ++ ")").toList = spelled) :
    recordedAndSpelled parameters =
      ((parseCharacters "bell.h" chars).toOption.map fun classes =>
          classes.flatMap fun d => d.methods.map (·.canonical),
        (Signature.parseChars spelled).toOption.map Signature.canonical) := by
  rw [recordedAndSpelled, parse_of_toList h, Signature.normalize, ← Signature.toOption_parse_of_toList hs]
  cases Signature.parse ("ring(" ++ parameters ++ ")") <;> rfl

/-- A slot with a shift in a default value is recorded, but the text of its declaration is no signature,
since the shift is taken for brackets, and no look-up finds the slot by it. Other lists that are not plain
are taken for other signatures: a comma in a literal is taken for one between parameters, an equals sign
between brackets begins a default value only when a class is compiled, a blank before a colon ends a word
only when a method is looked up, and `void` is a type among others only when a class is compiled. -/
theorem shift_hides_slot :
    (∃ f p, parse "bell.h" (bell "int n = 1 << 2") = .ok [bellClass [f]] ∧
      Declares (bell "int n = 1 << 2") f p shiftList ∧
      p.list.inside = shiftList.filter Token.isSignificant ∧
      declaredText f.name shiftList = "ring(int n = 1 << 2)" ∧ f.canonical = "ring(int)" ∧
      (∀ s, Signature.parse "ring(int n = 1 << 2)" ≠ .ok s) ∧
      ∀ c : MetaClass, c.indexOfMethod? "ring(int n = 1 << 2)" = none) ∧
    recordedAndSpelled "char mark = ','" = (some ["ring(char)"], some "ring(char,')") ∧
    recordedAndSpelled "Rope<(n = 1)> rope" = (some ["ring(Rope<()"], some "ring(Rope<(n=1)>)") ∧
    recordedAndSpelled "const ::Rope& rope" = (some ["ring(const::Rope)"], some "ring(::Rope)") ∧
    recordedAndSpelled "void, int" = (some ["ring(void,int)"], some "ring(int)") := by
  have chars : (bell "int n = 1 << 2").toList = _ :=
    toList_append_of (toList_append_of String.toList_ofList String.toList_ofList) String.toList_ofList
  have parsed : parse "bell.h" (bell "int n = 1 << 2") = .ok [bellClass [ringSlot [⟨"int", some "n", some "1<<2"⟩]]] :=
    (parse_of_toList chars).trans (by decide +kernel)
  have declares : Declares (bell "int n = 1 << 2") (ringSlot [⟨"int", some "n", some "1<<2"⟩])
      (ringParts shiftList 60) shiftList :=
    declares_ring ((tokens_of_toList chars).trans (by decide +kernel)) (by decide +kernel) (by decide +kernel)
      ⟨by decide +kernel, by decide +kernel, by decide, rfl⟩
  have unread : (Signature.parse "ring(int n = 1 << 2)").toOption = none :=
    (Signature.toOption_parse_of_toList String.toList_ofList).trans (by decide +kernel)
  refine ⟨⟨_, _, parsed, declares, rfl, by decide +kernel, by decide +kernel, ?_, ?_⟩, ?_, ?_, ?_, ?_⟩
  · intro s read
    rw [read] at unread
    cases unread
  · intro c
    rw [MetaClass.indexOfMethod?, Signature.normalize]
    cases read : Signature.parse "ring(int n = 1 << 2)" with
    | error e => rfl
    | ok s =>
      rw [read] at unread
      cases unread
  all_goals
    rw [recordedAndSpelled_of_toList
      (toList_append_of (toList_append_of String.toList_ofList String.toList_ofList) String.toList_ofList)
      (toList_append_of (toList_append_of String.toList_ofList String.toList_ofList) String.toList_ofList)]
    decide +kernel

end Reflection
