import Reflection.Proofs.Signature.Splitting
/-!
# Spellings of types

The types that declarations are written with: a qualifier, a builtin or named base, template
arguments, stars and ampersands, and a `const` at the end (`SpelledType`). Their tokens are those of
their parts (`tokens_text`), and cuts at commas and equals signs leave them whole (`uncut_text`).
-/

namespace Reflection.TypeText

open Reflection.Text Reflection.Signature

/-! ## Parts of types -/

/-- Blanks only. -/
def Blanks (text : List Char) : Prop :=
  ∀ c ∈ text, isBlank c

/-- Nothing, or a `const` or `volatile` with blanks after it. -/
inductive Qualification : List Char → Prop
  | none : Qualification []
  | word {w : String} {gap : List Char} : w = "const" ∨ w = "volatile" → Blanks gap → gap ≠ [] →
      Qualification (w.toList ++ gap)

/-- Builtin words with blanks between them. -/
inductive BuiltinRun : List Char → Prop
  | word {w : String} : w ∈ builtinWords → BuiltinRun w.toList
  | more {w : String} {gap rest : List Char} : w ∈ builtinWords → Blanks gap → gap ≠ [] →
      BuiltinRun rest → BuiltinRun (w.toList ++ (gap ++ rest))

/-- An identifier, or several with double colons between them. -/
inductive ScopedName : List Char → Prop
  | name {w : List Char} : isIdentifier w → ScopedName w
  | scope {w gap gap' rest : List Char} : isIdentifier w → Blanks gap → Blanks gap' →
      ScopedName rest → ScopedName (w ++ (gap ++ ([':', ':'] ++ (gap' ++ rest))))

/-- Builtin words or a name, which may begin at the global scope. -/
inductive Base : List Char → Prop
  | builtin {text : List Char} : BuiltinRun text → Base text
  | name {text : List Char} : ScopedName text → Base text
  | rooted {gap rest : List Char} : Blanks gap → ScopedName rest → Base ([':', ':'] ++ (gap ++ rest))

/-- Nothing, or template arguments in angle brackets. -/
inductive Arguments : List Char → Prop
  | none : Arguments []
  | list {gap inner : List Char} : Blanks gap → Balanced inner →
      Arguments (gap ++ '<' :: (inner ++ ['>']))

/-- Stars, ampersands and double ampersands, with blanks before and between them. -/
structure Marks (text : List Char) : Prop where
  chars : ∀ c ∈ text, isBlank c ∨ c = '*' ∨ c = '&'
  last : ∀ c ∈ text.getLast?, isBlank c = false

/-- Nothing, or a `const` at the end. Blanks keep it from a word before it. -/
inductive Suffix (afterWord : Prop) : List Char → Prop
  | none : Suffix afterWord []
  | const {gap : List Char} : Blanks gap → (afterWord → gap ≠ []) →
      Suffix afterWord (gap ++ "const".toList)

/-- A type as it is spelled. -/
structure SpelledType where
  qualifier : List Char
  base : List Char
  arguments : List Char
  marks : List Char
  suffix : List Char
  qualifies : Qualification qualifier
  names : Base base
  applies : Arguments arguments
  refers : Marks marks
  ends : Suffix (arguments = [] ∧ marks = []) suffix

/-- The characters of a type. -/
def SpelledType.text (T : SpelledType) : List Char :=
  T.qualifier ++ (T.base ++ (T.arguments ++ (T.marks ++ T.suffix)))

/-! ## Words with blanks between them -/

/-- Words with blanks between them, at least one. -/
structure Phrase (text : List Char) : Prop where
  ne_nil : text ≠ []
  chars : ∀ c ∈ text, isWordChar c ∨ isBlank c
  head : ∀ c ∈ text.head?, isWordChar c
  last : ∀ c ∈ text.getLast?, isWordChar c

theorem phrase_of_word {text : List Char} (ne : text ≠ []) (h : ∀ c ∈ text, isWordChar c) :
    Phrase text :=
  ⟨ne, fun c hc => .inl (h c hc), fun c hc => h c (List.mem_of_mem_head? hc),
    fun c hc => h c (List.mem_of_mem_getLast? hc)⟩

theorem Phrase.join {a gap b : List Char} (ha : Phrase a) (hg : Blanks gap) (hb : Phrase b) :
    Phrase (a ++ (gap ++ b)) := by
  refine ⟨by simp [ha.ne_nil], ?_, ?_, ?_⟩
  · intro c hc
    rcases List.mem_append.1 hc with hc | hc
    · exact ha.chars c hc
    rcases List.mem_append.1 hc with hc | hc
    · exact .inr (hg c hc)
    · exact hb.chars c hc
  · rw [List.head?_append_of_ne_nil _ ha.ne_nil]
    exact ha.head
  · rw [List.getLast?_append_of_ne_nil _ (by simp [hb.ne_nil]),
      List.getLast?_append_of_ne_nil _ hb.ne_nil]
    exact hb.last

theorem phrase_of_identifier {w : List Char} (h : isIdentifier w) : Phrase w :=
  phrase_of_word (ne_nil_of_isIdentifier h) (isWordChar_of_isIdentifier h)

theorem isIdentifier_of_mem_builtinWords {w : String} (h : w ∈ builtinWords) :
    isIdentifier w.toList := by
  revert w
  decide

theorem phrase_of_builtinRun {text : List Char} (h : BuiltinRun text) : Phrase text := by
  induction h with
  | word builtin => exact phrase_of_identifier (isIdentifier_of_mem_builtinWords builtin)
  | more builtin blanks _ _ rest =>
    exact (phrase_of_identifier (isIdentifier_of_mem_builtinWords builtin)).join blanks rest

theorem phrase_colons : Phrase [':', ':'] :=
  phrase_of_word (by simp) (List.all_eq_true.1 rfl)

theorem phrase_of_scopedName {text : List Char} (h : ScopedName text) : Phrase text := by
  induction h with
  | name identifier => exact phrase_of_identifier identifier
  | scope identifier before after _ rest =>
    exact (phrase_of_identifier identifier).join before (phrase_colons.join after rest)

theorem Base.phrase {text : List Char} (h : Base text) : Phrase text := by
  cases h with
  | builtin run => exact phrase_of_builtinRun run
  | name path => exact phrase_of_scopedName path
  | rooted blanks path => exact phrase_colons.join blanks (phrase_of_scopedName path)

/-! ## Types are not cut -/

variable {separator : Char} {depth : Nat} {text : List Char}

/-- Outside template arguments, types are written without brackets, commas and equals signs. -/
theorem plain_of_spelling {c : Char} (h : (isWordChar c ∨ isBlank c) ∨ c = '*' ∨ c = '&')
    (hs : separator = ',' ∨ separator = '=') : Plain separator depth c := by
  have others : ∀ x ∈ ['(', '<', '[', '{', ')', '>', ']', '}', ',', '='],
      !decide ((isWordChar x ∨ isBlank x) ∨ x = '*' ∨ x = '&') := List.all_eq_true.1 rfl
  have absent : c ∉ ['(', '<', '[', '{', ')', '>', ']', '}', ',', '='] := fun hc =>
    of_decide_eq_false (by simpa using others c hc) h
  simp only [List.mem_cons, not_or, List.not_mem_nil] at absent
  refine ⟨by simp [isOpening, absent], by simp [isClosing, absent], .inl ?_⟩
  rcases hs with rfl | rfl <;> simp [absent]

theorem uncut_of_phrase (h : Phrase text) (hs : separator = ',' ∨ separator = '=') :
    Uncut separator depth text :=
  uncut_of_plain fun c hc => plain_of_spelling (.inl (h.chars c hc)) hs

theorem uncut_of_blanks (h : Blanks text) (hs : separator = ',' ∨ separator = '=') :
    Uncut separator depth text :=
  uncut_of_plain fun c hc => plain_of_spelling (.inl (.inr (h c hc))) hs

theorem Qualification.phrase {w : String} (h : w = "const" ∨ w = "volatile") : Phrase w.toList := by
  rcases h with rfl | rfl <;> exact phrase_of_identifier rfl

theorem Qualification.uncut (h : Qualification text) (hs : separator = ',' ∨ separator = '=') :
    Uncut separator depth text := by
  cases h with
  | none => exact uncut_nil
  | word qualifier blanks _ =>
    exact (uncut_of_phrase (phrase qualifier) hs).append (uncut_of_blanks blanks hs)

theorem Arguments.uncut (h : Arguments text) (hs : separator = ',' ∨ separator = '=') :
    Uncut separator depth text := by
  cases h with
  | none => exact uncut_nil
  | list blanks balanced =>
    exact (uncut_of_blanks blanks hs).append (balanced.uncut.group rfl rfl rfl)

theorem Marks.uncut (h : Marks text) (hs : separator = ',' ∨ separator = '=') :
    Uncut separator depth text := by
  refine uncut_of_plain fun c hc => plain_of_spelling ?_ hs
  rcases h.chars c hc with blank | mark
  · exact .inl (.inr blank)
  · exact .inr mark

theorem Suffix.uncut {afterWord : Prop} (h : Suffix afterWord text)
    (hs : separator = ',' ∨ separator = '=') : Uncut separator depth text := by
  cases h with
  | none => exact uncut_nil
  | const blanks _ =>
    exact (uncut_of_blanks blanks hs).append (uncut_of_phrase (Qualification.phrase (.inl rfl)) hs)

theorem SpelledType.uncut_text (T : SpelledType) (hs : separator = ',' ∨ separator = '=') :
    Uncut separator depth T.text :=
  (T.qualifies.uncut hs).append <| (uncut_of_phrase T.names.phrase hs).append <|
    (T.applies.uncut hs).append <| (T.refers.uncut hs).append (T.ends.uncut hs)

/-! ## Ends of types -/

theorem Qualification.head (h : Qualification text) : ∀ c ∈ text.head?, isWordChar c := by
  cases h with
  | none => simp
  | word qualifier =>
    rw [List.head?_append_of_ne_nil _ (phrase qualifier).ne_nil]
    exact (phrase qualifier).head

theorem Qualification.last (h : Qualification text) : ∀ c ∈ text.getLast?, isBlank c := by
  cases h with
  | none => simp
  | word _ blanks ne =>
    rw [List.getLast?_append_of_ne_nil _ ne]
    exact fun c hc => blanks c (List.mem_of_mem_getLast? hc)

theorem Arguments.head (h : Arguments text) : ∀ c ∈ text.head?, isBlank c ∨ c = '<' := by
  cases h with
  | none => simp
  | @list gap _ blanks _ =>
    cases gap with
    | nil => simp
    | cons x gap =>
      rintro c ⟨⟩
      exact .inl (blanks x List.mem_cons_self)

theorem Arguments.last (h : Arguments text) : ∀ c ∈ text.getLast?, c = '>' := by
  cases h with
  | none => simp
  | list => simp [List.getLast?_append, List.getLast?_cons]

theorem Marks.last_mark (h : Marks text) : ∀ c ∈ text.getLast?, c = '*' ∨ c = '&' := by
  intro c hc
  rcases h.chars c (List.mem_of_mem_getLast? hc) with blank | mark
  · rw [h.last c hc] at blank
    cases blank
  · exact mark

theorem Suffix.head {afterWord : Prop} (h : Suffix afterWord text) (word : afterWord) :
    ∀ c ∈ text.head?, isBlank c := by
  cases h with
  | none => simp
  | @const gap blanks apart =>
    rw [List.head?_append_of_ne_nil _ (apart word)]
    exact fun c hc => blanks c (List.mem_of_mem_head? hc)

theorem Suffix.last {afterWord : Prop} (h : Suffix afterWord text) :
    ∀ c ∈ text.getLast?, c = 't' := by
  cases h with
  | none => simp
  | const => simp [List.getLast?_append]

theorem mem_getLast?_append {α : Type} {x : α} {a b : List α} (h : x ∈ (a ++ b).getLast?) :
    x ∈ b.getLast? ∨ x ∈ a.getLast? := by
  rcases eq_or_ne b [] with rfl | ne
  · exact .inr (by rwa [List.append_nil] at h)
  · exact .inl (by rwa [List.getLast?_append_of_ne_nil _ ne] at h)

theorem SpelledType.text_ne_nil (T : SpelledType) : T.text ≠ [] := by
  simp [text, T.names.phrase.ne_nil]

theorem SpelledType.head_text (T : SpelledType) : ∀ c ∈ T.text.head?, isBlank c = false := by
  intro c hc
  apply not_isBlank_of_isWordChar
  rw [text] at hc
  by_cases qualifier : T.qualifier = []
  · rw [qualifier, List.nil_append, List.head?_append_of_ne_nil _ T.names.phrase.ne_nil] at hc
    exact T.names.phrase.head c hc
  · rw [List.head?_append_of_ne_nil _ qualifier] at hc
    exact T.qualifies.head c hc

theorem SpelledType.last_text (T : SpelledType) : ∀ c ∈ T.text.getLast?, isBlank c = false := by
  intro c hc
  rw [text, List.getLast?_append_of_ne_nil _ (by simp [T.names.phrase.ne_nil])] at hc
  rcases mem_getLast?_append hc with hc | base
  · rcases mem_getLast?_append hc with hc | arguments
    · rcases mem_getLast?_append hc with suffix | marks
      · rw [T.ends.last c suffix]
        rfl
      · exact T.refers.last c marks
    · rw [T.applies.last c arguments]
      rfl
  · exact not_isBlank_of_isWordChar (T.names.phrase.last c base)

theorem SpelledType.trim_text (T : SpelledType) : trim T.text = T.text :=
  trim_eq_self T.head_text T.last_text

/-! ## Tokens of types -/

theorem apart_of_last {a b : List Char} (h : ∀ x ∈ a.getLast?, isWordChar x = false ∧ x ≠ '&') :
    Apart a b := by
  intro x hx y _
  simp [h x hx]

theorem apart_of_word {a b : List Char} (ha : ∀ x ∈ a.getLast?, isWordChar x)
    (hb : ∀ y ∈ b.head?, isWordChar y = false) : Apart a b := by
  intro x hx y hy
  refine ⟨by simp [hb y hy], ?_⟩
  rintro ⟨rfl, -⟩
  cases ha _ hx

theorem Qualification.apart {a b : List Char} (h : Qualification a) : Apart a b := by
  refine apart_of_last fun x hx => ⟨not_isWordChar_of_isBlank (h.last x hx), ?_⟩
  rintro rfl
  cases h.last _ hx

theorem Arguments.apart {a b : List Char} (h : Arguments a) : Apart a b := by
  refine apart_of_last fun x hx => ?_
  rw [h.last x hx]
  exact ⟨rfl, by decide⟩

theorem Marks.apart {a b : List Char} {afterWord : Prop} (ha : Marks a) (hb : Suffix afterWord b) :
    Apart a b := by
  intro x hx y hy
  have separate : y ≠ '&' := by
    cases hb with
    | none => cases hy
    | @const gap blanks _ =>
      cases gap with
      | nil => cases hy; decide
      | cons z gap =>
        rintro rfl
        cases hy
        cases blanks '&' List.mem_cons_self
  have symbol : isWordChar x = false := by
    rcases ha.last_mark x hx with rfl | rfl <;> rfl
  exact ⟨by simp [symbol], fun double => separate double.2⟩

/-- What follows the base of a type does not make its last word longer. -/
theorem SpelledType.head_after_base (T : SpelledType) :
    ∀ c ∈ (T.arguments ++ (T.marks ++ T.suffix)).head?, isWordChar c = false := by
  intro c hc
  by_cases arguments : T.arguments = []
  · rw [arguments, List.nil_append] at hc
    by_cases marks : T.marks = []
    · rw [marks, List.nil_append] at hc
      exact not_isWordChar_of_isBlank (T.ends.head ⟨arguments, marks⟩ c hc)
    · rw [List.head?_append_of_ne_nil _ marks] at hc
      rcases T.refers.chars c (List.mem_of_mem_head? hc) with blank | rfl | rfl
      · exact not_isWordChar_of_isBlank blank
      · rfl
      · rfl
  · rw [List.head?_append_of_ne_nil _ arguments] at hc
    rcases T.applies.head c hc with blank | rfl
    · exact not_isWordChar_of_isBlank blank
    · rfl

theorem SpelledType.tokens_text (T : SpelledType) :
    tokens T.text = tokens T.qualifier ++ (tokens T.base ++ (tokens T.arguments
      ++ (tokens T.marks ++ tokens T.suffix))) := by
  rw [text, tokens_append T.qualifies.apart,
    tokens_append (apart_of_word T.names.phrase.last T.head_after_base),
    tokens_append T.applies.apart, tokens_append (T.refers.apart T.ends)]

end Reflection.TypeText
