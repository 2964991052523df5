import Reflection.Proofs.Signature.Spelling
/-!
# Names of parameters

The last word of a declared parameter is its name if a type stands before it. A type that is written
alone ends in something that cannot be a name, or in the only word of it that makes up a type
(`Anonymous`), so nothing of it is taken for a name, and the word that follows it always is.
`parameter_names_leave_no_trace` draws the conclusion for whole declarations.
-/

namespace Reflection.TypeText

open Reflection.Text Reflection.Signature

/-! ## Types alone -/

section

variable {ts : List String} {t : String}

/-- Tokens that make up a type, none of them taken for a name. -/
structure Anonymous (ts : List String) : Prop where
  isType : ts.any endsType
  unnamed : splitTokens ts = (ts, none)

/-- A token that belongs to the type before it or makes up one, whatever is before it. -/
def Closes (t : String) : Prop :=
  endsType t ∧ canName t = false

theorem anonymous_of_closes (h : Closes t) (ts : List String) : Anonymous (ts ++ [t]) := by
  refine ⟨by simp [h.1], ?_⟩
  rw [splitTokens_concat, h.2]
  rfl

theorem Anonymous.const (h : Anonymous ts) : Anonymous (ts ++ ["const"]) := by
  refine ⟨by simp [h.isType], ?_⟩
  rw [splitTokens_concat]
  rfl

/-- The word that follows a type is its name. -/
theorem Anonymous.named (h : Anonymous ts) (ht : canName t) :
    splitTokens (ts ++ [t]) = (ts, some t) := by
  rw [splitTokens_concat, ht, h.isType]
  rfl

theorem closes_of_mem_builtinWords (h : t ∈ builtinWords) : Closes t := by
  revert t
  unfold Closes
  decide

theorem closes_of_mark (h : t ∈ ["*", "&", "&&"]) : Closes t := by
  revert t
  unfold Closes
  decide

end

/-! ## Tokens of parts of types -/

section

variable {text : List Char}

theorem apart_of_head {a b : List Char} (h : ∀ y ∈ b.head?, isWordChar y = false ∧ y ≠ '&') :
    Apart a b := by
  intro x _ y hy
  simp [h y hy]

theorem Blanks.apart {gap b : List Char} (h : Blanks gap) : Apart gap b := by
  refine apart_of_last fun x hx => ?_
  have blank := h x (List.mem_of_mem_getLast? hx)
  refine ⟨not_isWordChar_of_isBlank blank, ?_⟩
  rintro rfl
  cases blank

theorem Blanks.head {gap : List Char} (h : Blanks gap) (ne : gap ≠ []) (b : List Char) :
    ∀ c ∈ (gap ++ b).head?, isWordChar c = false := by
  rw [List.head?_append_of_ne_nil _ ne]
  exact fun c hc => not_isWordChar_of_isBlank (h c (List.mem_of_mem_head? hc))

theorem tokens_blanks_append {gap : List Char} (h : Blanks gap) (b : List Char) :
    tokens (gap ++ b) = tokens b := by
  rw [tokens_append h.apart, tokens_of_blank h, List.nil_append]

theorem tokens_identifier {w : String} (h : isIdentifier w.toList) : tokens w.toList = [w] := by
  rw [tokens_of_word (ne_nil_of_isIdentifier h) (isWordChar_of_isIdentifier h), String.ofList_toList]

theorem Qualification.not_any_endsType (h : Qualification text) :
    (tokens text).any endsType = false := by
  cases h with
  | none => rw [tokens_nil]; rfl
  | @word w gap qualifier blanks ne =>
    have phrase := phrase qualifier
    rw [← List.append_nil gap, tokens_append (apart_of_word phrase.last (blanks.head ne [])),
      tokens_blanks_append blanks, tokens_nil, List.append_nil]
    rcases qualifier with rfl | rfl
    · rw [tokens_identifier rfl]
      rfl
    · rw [tokens_identifier rfl]
      rfl

theorem tokens_builtinRun (h : BuiltinRun text) :
    ∃ front t, tokens text = front ++ [t] ∧ Closes t := by
  induction h with
  | @word w builtin =>
    have identifier := isIdentifier_of_mem_builtinWords builtin
    exact ⟨[], w, tokens_identifier identifier, closes_of_mem_builtinWords builtin⟩
  | @more w gap rest builtin blanks ne _ ih =>
    obtain ⟨front, t, e, closes⟩ := ih
    have phrase := phrase_of_identifier (isIdentifier_of_mem_builtinWords builtin)
    refine ⟨tokens w.toList ++ front, t, ?_, closes⟩
    rw [tokens_append (apart_of_word phrase.last (blanks.head ne rest)),
      tokens_blanks_append blanks, e, List.append_assoc]

theorem Arguments.tokens (h : Arguments text) (ne : text ≠ []) :
    ∃ front t, tokens text = front ++ [t] ∧ Closes t := by
  cases h with
  | none => exact absurd rfl ne
  | @list gap inner blanks _ =>
    refine ⟨TypeText.tokens (gap ++ '<' :: inner), ">", ?_, by unfold Closes; decide⟩
    have apart : Apart (gap ++ '<' :: inner) ['>'] :=
      apart_of_head fun y hy => by cases hy; exact ⟨rfl, by decide⟩
    have last : TypeText.tokens ['>'] = [">"] := by
      simp [tokens_cons, tokens_nil, isBlank, isWordChar]
    rw [← last, ← tokens_append apart, List.append_assoc, List.cons_append]

theorem mem_tokens_of_marks (h : ∀ c ∈ text, isBlank c ∨ c = '*' ∨ c = '&') :
    ∀ t ∈ tokens text, t ∈ ["*", "&", "&&"] := by
  fun_induction tokens text with
  | case1 => simp
  | case2 x rest blank ih => exact ih fun c hc => h c (List.mem_cons_of_mem x hc)
  | case3 x rest blank word ih =>
    rcases h x List.mem_cons_self with blank' | rfl | rfl
    · exact absurd blank' blank
    · cases word
    · cases word
  | case4 x rest blank word double ih =>
    intro t ht
    rcases List.mem_cons.1 ht with rfl | ht
    · decide
    · exact ih (fun c hc => h c (List.mem_cons_of_mem x (List.mem_of_mem_tail hc))) t ht
  | case5 x rest blank word double ih =>
    intro t ht
    rcases List.mem_cons.1 ht with rfl | ht
    · rcases h x List.mem_cons_self with blank' | rfl | rfl
      · exact absurd blank' blank
      · decide
      · decide
    · exact ih (fun c hc => h c (List.mem_cons_of_mem x hc)) t ht

theorem Marks.tokens (h : Marks text) (ne : text ≠ []) :
    ∃ front t, tokens text = front ++ [t] ∧ Closes t := by
  have last := text.getLast?_eq_some_getLast ne
  have some := tokens_ne_nil (List.getLast_mem ne) (h.last _ last)
  refine ⟨_, _, (List.dropLast_concat_getLast some).symm, closes_of_mark ?_⟩
  exact mem_tokens_of_marks h.chars _ (List.getLast_mem some)

theorem Suffix.tokens {afterWord : Prop} (h : Suffix afterWord text) (ne : text ≠ []) :
    tokens text = ["const"] := by
  cases h with
  | none => exact absurd rfl ne
  | const blanks _ =>
    rw [tokens_blanks_append blanks]
    exact tokens_identifier rfl

end

/-! ## Types that are recognized -/

/-- A base that makes up a type by itself: builtin words, or a plain name that is no qualifier. -/
def MakesType (base : List Char) : Prop :=
  BuiltinRun base ∨ (isIdentifier base ∧ String.ofList base ∉ qualifierWords)

/-- A type that a declared parameter can have: not `void` alone, and with a base that makes up a type
by itself or with something after it that does. -/
structure SpelledType.Clear (T : SpelledType) : Prop where
  notVoid : T.text ≠ "void".toList
  isType : MakesType T.base ∨ T.arguments ≠ [] ∨ T.marks ≠ []

theorem anonymous_of_makesType {qualifier base : List Char} (hq : Qualification qualifier)
    (h : MakesType base) : Anonymous (tokens qualifier ++ tokens base) := by
  rcases h with run | ⟨identifier, notQualifier⟩
  · obtain ⟨front, t, e, closes⟩ := tokens_builtinRun run
    rw [e, ← List.append_assoc]
    exact anonymous_of_closes closes _
  · have word : tokens base = [String.ofList base] :=
      tokens_of_word (ne_nil_of_isIdentifier identifier) (isWordChar_of_isIdentifier identifier)
    have ends : endsType (String.ofList base) := by
      simp [endsType, identifier, notQualifier]
    refine ⟨by simp [word, ends], ?_⟩
    rw [word, splitTokens_concat, hq.not_any_endsType, Bool.and_false]
    rfl

/-- A recognized type that stands alone has all its tokens, and no name. -/
theorem SpelledType.anonymous {T : SpelledType} (h : T.Clear) : Anonymous (tokens T.text) := by
  have unsuffixed : Anonymous (tokens T.qualifier ++ (tokens T.base ++ (tokens T.arguments
      ++ tokens T.marks))) := by
    by_cases marks : T.marks = []
    · by_cases arguments : T.arguments = []
      · have makes : MakesType T.base := by simpa [arguments, marks] using h.isType
        simpa [arguments, marks, tokens_of_blank] using anonymous_of_makesType T.qualifies makes
      · obtain ⟨front, t, e, closes⟩ := T.applies.tokens arguments
        have := anonymous_of_closes closes (tokens T.qualifier ++ (tokens T.base ++ front))
        simpa [marks, tokens_of_blank, e] using this
    · obtain ⟨front, t, e, closes⟩ := T.refers.tokens marks
      have := anonymous_of_closes closes
        (tokens T.qualifier ++ (tokens T.base ++ (tokens T.arguments ++ front)))
      simpa [e] using this
  rw [T.tokens_text]
  by_cases suffix : T.suffix = []
  · simpa [suffix, tokens_of_blank] using unsuffixed
  · simpa [T.ends.tokens suffix] using unsuffixed.const

/-! ## Named parameters -/

/-- A declared parameter. Blanks keep its name from a word before it. -/
structure NamedParameter where
  type : SpelledType
  gap : List Char
  name : String
  blanks : Blanks gap
  apart : gap = [] → ∀ c ∈ type.text.getLast?, isWordChar c = false
  isName : canName name

/-- The characters of a parameter. -/
def NamedParameter.text (p : NamedParameter) : List Char :=
  p.type.text ++ (p.gap ++ p.name.toList)

namespace NamedParameter

variable (p : NamedParameter)

theorem isIdentifier_name : isIdentifier p.name.toList := by
  have name := p.isName
  simp only [canName, Bool.and_eq_true] at name
  exact name.1.1

theorem phrase_name : Phrase p.name.toList :=
  phrase_of_identifier p.isIdentifier_name

theorem apart_type : Apart p.type.text (p.gap ++ p.name.toList) := by
  by_cases gap : p.gap = []
  · intro x hx y hy
    rw [gap, List.nil_append] at hy
    refine ⟨by simp [p.apart gap x hx], ?_⟩
    rintro ⟨-, rfl⟩
    cases p.phrase_name.head _ hy
  · intro x _ y hy
    have blank : isBlank y := by
      rw [List.head?_append_of_ne_nil _ gap] at hy
      exact p.blanks y (List.mem_of_mem_head? hy)
    refine ⟨by simp [not_isWordChar_of_isBlank blank], ?_⟩
    rintro ⟨-, rfl⟩
    cases blank

theorem tokens_text : tokens p.text = tokens p.type.text ++ [p.name] := by
  rw [text, tokens_append p.apart_type, tokens_blanks_append p.blanks,
    tokens_identifier p.isIdentifier_name]

theorem trim_text : trim p.text = p.text := by
  have ne : p.gap ++ p.name.toList ≠ [] := by simp [p.phrase_name.ne_nil]
  refine trim_eq_self ?_ ?_
  · rw [text, List.head?_append_of_ne_nil _ p.type.text_ne_nil]
    exact p.type.head_text
  · rw [text, List.getLast?_append_of_ne_nil _ ne,
      List.getLast?_append_of_ne_nil _ p.phrase_name.ne_nil]
    exact fun c hc => not_isBlank_of_isWordChar (p.phrase_name.last c hc)

theorem uncut_text {separator : Char} {depth : Nat} (hs : separator = ',' ∨ separator = '=') :
    Uncut separator depth p.text :=
  (p.type.uncut_text hs).append <| (uncut_of_blanks p.blanks hs).append (uncut_of_phrase p.phrase_name hs)

variable {p}

theorem text_ne_nil : p.text ≠ [] := by
  simp [text, p.type.text_ne_nil]

/-- Something stands before the name, so the parameter is not the word `void`. -/
theorem text_ne_void : p.text ≠ "void".toList := by
  intro void
  have before : tokens p.type.text ≠ [] := by
    have last := p.type.text.getLast?_eq_some_getLast p.type.text_ne_nil
    exact tokens_ne_nil (List.getLast_mem p.type.text_ne_nil) (p.type.last_text _ last)
  have word := p.tokens_text
  rw [void, tokens_identifier rfl] at word
  have length := congrArg List.length word
  exact before (by simpa using length)

/-- What follows the type of a parameter is its name. -/
theorem splitParameter_text (h : p.type.Clear) :
    splitParameter (String.ofList p.text) = (render (tokens p.type.text), some p.name) := by
  rw [splitParameter, String.toList_ofList, p.tokens_text, (SpelledType.anonymous h).named p.isName]

end NamedParameter

/-- A type that stands alone has no name. -/
theorem SpelledType.splitParameter_text {T : SpelledType} (h : T.Clear) :
    splitParameter (String.ofList T.text) = (render (tokens T.text), none) := by
  rw [splitParameter, String.toList_ofList, (SpelledType.anonymous h).unnamed]

theorem parameterType_eq {text : List Char} {type : String} {name : Option String}
    (trimmed : trim text = text) (ne : text ≠ []) (notVoid : text ≠ "void".toList)
    (uncut : Uncut '=' 0 text) (split : splitParameter (String.ofList text) = (type, name)) :
    parameterType text = .ok (some (normalize type)) := by
  have some : (text.isEmpty || text = ['v', 'o', 'i', 'd']) = false := by
    simpa [ne] using notVoid
  rw [parameterType, trimmed]
  simp only [some, uncut.splitParts, split]
  rfl

/-- Declared with and without names, the parameters make up the same signature, and each name is
told apart from its type. -/
def NamesLeaveNoTrace (f : String) (ps : List NamedParameter) : Prop :=
  ∃ s, Signature.parse (declaration f (ps.map NamedParameter.text)) = .ok s
    ∧ Signature.parse (declaration f (ps.map (·.type.text))) = .ok s
    ∧ ∀ p ∈ ps, (splitParameter (String.ofList p.text)).2 = some p.name

/-- Names of parameters leave no trace in the signature of a method, whatever recognized types they
stand after. -/
theorem parameter_names_leave_no_trace {f : String} (identifier : isIdentifier f.toList)
    {ps : List NamedParameter} (clear : ∀ p ∈ ps, p.type.Clear) : NamesLeaveNoTrace f ps := by
  refine ⟨⟨f, ps.map fun p => normalize (render (tokens p.type.text))⟩, ?_, ?_, ?_⟩
  · refine parse_declaration identifier (fun p _ => p.uncut_text (.inl rfl)) fun p hp => ?_
    exact parameterType_eq p.trim_text p.text_ne_nil p.text_ne_void (p.uncut_text (.inr rfl))
      (NamedParameter.splitParameter_text (clear p hp))
  · refine parse_declaration identifier (fun p _ => p.type.uncut_text (.inl rfl)) fun p hp => ?_
    exact parameterType_eq p.type.trim_text p.type.text_ne_nil (clear p hp).notVoid
      (p.type.uncut_text (.inr rfl)) (SpelledType.splitParameter_text (clear p hp))
  · intro p hp
    rw [NamedParameter.splitParameter_text (clear p hp)]

/-! ### Declarations with names -/

theorem blanks_space : Blanks [' '] :=
  List.forall_mem_singleton.2 rfl

/-- `const QList<int> &` -/
def constListReference : SpelledType where
  qualifier := "const".toList ++ [' ']
  base := "QList".toList
  arguments := [] ++ '<' :: ("int".toList ++ ['>'])
  marks := [' ', '&']
  suffix := []
  qualifies := .word (.inl rfl) blanks_space (by decide)
  names := .name (.name rfl)
  applies := .list (by simp [Blanks])
    (.char rfl rfl (.char rfl rfl (.char rfl rfl .nil)))
  refers := ⟨by simp [isBlank], by simp [isBlank]⟩
  ends := .none

/-- A type that is only a base. -/
def SpelledType.ofBase (base : List Char) (names : Base base) : SpelledType :=
  ⟨[], base, [], [], [], .none, names, .none, ⟨by simp, by simp⟩, .none⟩

/-- A type and a name with one space between them. -/
def SpelledType.named (T : SpelledType) (name : String) (isName : canName name) : NamedParameter :=
  ⟨T, [' '], name, blanks_space, by simp, isName⟩

/-- `unsigned int` -/
def unsignedInt : SpelledType :=
  .ofBase ("unsigned".toList ++ ([' '] ++ "int".toList))
    (.builtin (.more (by decide) blanks_space (by decide) (.word (by decide))))

/-- The parameters of `setNames(const QList<int> &names, unsigned int count)`. -/
def setterParameters : List NamedParameter :=
  [⟨constListReference, [], "names", by simp [Blanks], by rintro - c ⟨⟩; rfl,
    rfl⟩, unsignedInt.named "count" rfl]

example : declaration "setNames" (setterParameters.map NamedParameter.text)
    = "setNames(const QList<int> &names, unsigned int count)" := by decide

theorem setter_names_leave_no_trace :
    isIdentifier "setNames".toList ∧ (∀ p ∈ setterParameters, p.type.Clear)
      ∧ NamesLeaveNoTrace "setNames" setterParameters := by
  have clear : ∀ p ∈ setterParameters, p.type.Clear := by
    intro p hp
    rcases List.mem_pair.1 hp with rfl | rfl
    · exact ⟨by decide, .inr (.inl (by decide))⟩
    · exact ⟨by decide, .inl (.inl (.more (by decide) blanks_space (by decide) (.word (by decide))))⟩
  exact ⟨rfl, clear, parameter_names_leave_no_trace rfl clear⟩

/-- `void x` -/
def voidParameter : NamedParameter :=
  (SpelledType.ofBase "void".toList (.builtin (.word (by decide)))).named "x" rfl

/-- `struct x` -/
def structParameter : NamedParameter :=
  (SpelledType.ofBase "struct".toList (.name (.name rfl))).named "x" rfl

/-- `std::string n` -/
def scopedParameter : NamedParameter :=
  (SpelledType.ofBase ("std".toList ++ ([] ++ ([':', ':'] ++ ([] ++ "string".toList))))
    (.name (.scope rfl (by simp [Blanks]) (by simp [Blanks]) (.name rfl)))).named "n" rfl

/-- Not so for types that are not recognized: `void` alone declares no parameter where it has no
name, a qualifier alone is no type that a name could follow, and neither is a scoped name. -/
theorem void_and_scoped_names_leave_traces :
    ¬ NamesLeaveNoTrace "f" [voidParameter] ∧ ¬ NamesLeaveNoTrace "f" [structParameter]
      ∧ ¬ NamesLeaveNoTrace "f" [scopedParameter] := by
  refine ⟨?_, ?_, ?_⟩
  · rintro ⟨s, named, bare, -⟩
    have declared : declaration "f" [voidParameter.text] = "f(void x)" := by decide
    have declared' : declaration "f" [voidParameter.type.text] = "f(void)" := by decide
    have kept : (Signature.parse "f(void x)").toOption = some ⟨"f", ["void"]⟩ := by decide +kernel
    have dropped : (Signature.parse "f(void)").toOption = some ⟨"f", []⟩ := by decide +kernel
    rw [List.map_singleton, declared] at named
    rw [List.map_singleton, declared'] at bare
    rw [named, ← bare, dropped] at kept
    cases kept
  · rintro ⟨-, -, -, names⟩
    have name := names structParameter List.mem_cons_self
    have spelled : String.ofList structParameter.text = "struct x" := by decide
    have unnamed : (splitParameter "struct x").2 = none := by decide +kernel
    rw [spelled, unnamed] at name
    cases name
  · rintro ⟨-, -, -, names⟩
    have name := names scopedParameter List.mem_cons_self
    have spelled : String.ofList scopedParameter.text = "std::string n" := by decide
    have unnamed : (splitParameter "std::string n").2 = none := by decide +kernel
    rw [spelled, unnamed] at name
    cases name

end Reflection.TypeText
