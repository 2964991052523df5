import Mathlib.Data.List.Basic
import Reflection.Proofs.Checks
import Reflection.Proofs.Signature.Tokens
import Reflection.Signature
/-!
# Cutting declarations

A declaration `f(T1, T2)` is cut at its outermost brackets and then at the commas outside brackets.
A piece that holds its separators in brackets only is never cut (`Uncut`), so the types of a
declaration are those of its pieces one by one (`parse_declaration`).
-/

namespace Reflection.Signature

open Reflection.Text

/-! ## Pieces that are not cut -/

/-- With `depth` brackets open in front, a cut at `separator` leaves the text in one piece, and as
many brackets are open after it. -/
def Uncut (separator : Char) (depth : Nat) (text : List Char) : Prop :=
  ∀ rest, splitParts separator depth (text ++ rest) =
    (splitParts separator depth rest).map fun parts => (text ++ parts.1, parts.2)

variable {separator : Char} {depth : Nat} {text more : List Char}

theorem uncut_nil : Uncut separator depth [] := by
  intro rest
  simp

theorem Uncut.append (h : Uncut separator depth text) (h' : Uncut separator depth more) :
    Uncut separator depth (text ++ more) := by
  intro rest
  rw [List.append_assoc, h, h', Option.map_map]
  simp [Function.comp_def]

/-- Neither a bracket nor a separator that counts. -/
def Plain (separator : Char) (depth : Nat) (c : Char) : Prop :=
  isOpening c = false ∧ isClosing c = false ∧ (c ≠ separator ∨ depth ≠ 0)

theorem uncut_of_plain (h : ∀ c ∈ text, Plain separator depth c) : Uncut separator depth text := by
  induction text with
  | nil => exact uncut_nil
  | cons c text ih =>
    obtain ⟨opening, closing, counts⟩ := h c List.mem_cons_self
    have here : (c = separator && depth = 0) = false := by
      rcases counts with other | inside
      · simp [other]
      · simp [inside]
    intro rest
    rw [List.cons_append, splitParts, opening, closing, here,
      ih (fun x hx => h x (List.mem_cons_of_mem c hx)) rest]
    simp [Function.comp_def]

theorem Uncut.group {o c : Char} (ho : isOpening o) (hc : isOpening c = false)
    (hc' : isClosing c) (h : Uncut separator (depth + 1) text) :
    Uncut separator depth (o :: (text ++ [c])) := by
  intro rest
  rw [List.cons_append, splitParts, if_pos ho, List.append_assoc, h, List.singleton_append,
    splitParts, hc]
  simp [hc', Function.comp_def]

/-- A text that closes each bracket it opens and no other. -/
inductive Balanced : List Char → Prop
  | nil : Balanced []
  | char {c : Char} {rest : List Char} : isOpening c = false → isClosing c = false →
      Balanced rest → Balanced (c :: rest)
  | group {o c : Char} {inner rest : List Char} : isOpening o → isClosing c →
      Balanced inner → Balanced rest → Balanced (o :: (inner ++ [c]) ++ rest)

theorem not_isOpening_of_isClosing {c : Char} (h : isClosing c) : isOpening c = false := by
  simp only [isClosing, Bool.or_eq_true, decide_eq_true_eq] at h
  rcases h with ((rfl | rfl) | rfl) | rfl <;> rfl

theorem Balanced.uncut (h : Balanced text) : Uncut separator (depth + 1) text := by
  induction h generalizing depth with
  | nil => exact uncut_nil
  | @char c rest opening closing _ ih =>
    have head : Uncut separator (depth + 1) [c] := by
      refine uncut_of_plain fun x hx => ?_
      rw [List.mem_singleton.1 hx]
      exact ⟨opening, closing, .inr (Nat.succ_ne_zero depth)⟩
    exact head.append ih
  | group opening closing _ _ inner rest =>
    exact (inner.group opening (not_isOpening_of_isClosing closing) closing).append rest

theorem Uncut.splitParts (h : Uncut separator 0 text) :
    splitParts separator 0 text = some (text, []) := by
  have whole := h []
  rwa [List.append_nil, Signature.splitParts, if_pos rfl, Option.map_some, List.append_nil] at whole

/-! ## Ends of texts -/

theorem dropWhile_eq_self {p : Char → Bool} (h : ∀ c ∈ text.head?, p c = false) :
    text.dropWhile p = text := by
  cases text with
  | nil => rfl
  | cons c text => exact List.dropWhile_cons_of_neg (by simp [h c rfl])

/-- A text that begins and ends with other characters than blanks has none to trim. -/
theorem trim_eq_self (head : ∀ c ∈ text.head?, isBlank c = false)
    (last : ∀ c ∈ text.getLast?, isBlank c = false) : trim text = text := by
  rw [trim, dropEnd, dropWhile_eq_self head, dropWhile_eq_self, List.reverse_reverse]
  rwa [List.head?_reverse]

theorem trim_cons_of_blank {c : Char} (h : isBlank c) : trim (c :: text) = trim text := by
  rw [trim, List.dropWhile_cons_of_pos h, trim]

/-- What is trimmed off a text is blank. -/
theorem exists_trim (text : List Char) : ∃ front back, text = front ++ (trim text ++ back) ∧
    (∀ c ∈ front, isBlank c) ∧ ∀ c ∈ back, isBlank c := by
  have ends : ∀ text : List Char, ∃ back, text = dropEnd isBlank text ++ back ∧ ∀ c ∈ back, isBlank c := by
    intro text
    refine ⟨(text.reverse.takeWhile isBlank).reverse, ?_, fun c hc => ?_⟩
    · rw [dropEnd, ← List.reverse_append, List.takeWhile_append_dropWhile, List.reverse_reverse]
    · exact List.mem_takeWhile_imp (List.mem_reverse.1 hc)
  obtain ⟨back, e, blank⟩ := ends (text.dropWhile isBlank)
  refine ⟨text.takeWhile isBlank, back, ?_, fun c hc => List.mem_takeWhile_imp hc, blank⟩
  rw [trim, ← e, List.takeWhile_append_dropWhile]

theorem trim_of_blank (h : ∀ c ∈ text, isBlank c) : trim text = [] := by
  rw [trim, List.dropWhile_eq_nil_iff.2 h]
  rfl

theorem trim_surrounded {front back : List Char} (hf : ∀ c ∈ front, isBlank c)
    (hb : ∀ c ∈ back, isBlank c) (ne : text ≠ []) (head : ∀ c ∈ text.head?, isBlank c = false)
    (last : ∀ c ∈ text.getLast?, isBlank c = false) : trim (front ++ (text ++ back)) = text := by
  have front' : (front ++ (text ++ back)).dropWhile isBlank = text ++ back := by
    rw [List.dropWhile_append_of_pos hf, dropWhile_eq_self]
    rwa [List.head?_append_of_ne_nil _ ne]
  have back' : ∀ c ∈ back.reverse, isBlank c := fun c hc => hb c (List.mem_reverse.1 hc)
  rw [trim, front', dropEnd, List.reverse_append, List.dropWhile_append_of_pos back', dropWhile_eq_self,
    List.reverse_reverse]
  rwa [List.head?_reverse]

theorem cutLast_concat (c : Char) (text : List Char) : cutLast c (text ++ [c]) = some (text, []) := by
  induction text with
  | nil => simp [cutLast]
  | cons x text ih => rw [List.cons_append, cutLast, ih]

/-! ## Declarations -/

/-- The declaration of a method `name` with a list of parameters, each as it is spelled. -/
def declaration (name : String) (parameters : List (List Char)) : String :=
  String.ofList (name.toList ++ '(' :: ([',', ' '].intercalate parameters ++ [')']))

/-- A declared parameter list is cut at its commas, and a blank stands before each later one. -/
theorem splitParts_intercalate {first : List Char} {later : List (List Char)}
    (h : ∀ t ∈ first :: later, Uncut ',' 0 t) :
    splitParts ',' 0 ([',', ' '].intercalate (first :: later))
      = some (first, later.map (' ' :: ·)) := by
  induction later generalizing first with
  | nil => simpa using (h first List.mem_cons_self).splitParts
  | cons second later ih =>
    have cut : splitParts ',' 0 (' ' :: [',', ' '].intercalate (second :: later))
        = some (' ' :: second, later.map (' ' :: ·)) := by
      rw [Signature.splitParts, ih fun t ht => h t (List.mem_cons_of_mem first ht)]
      rfl
    rw [List.intercalate_cons_cons, List.append_assoc, h first List.mem_cons_self,
      List.cons_append, List.cons_append, List.nil_append, Signature.splitParts, cut]
    simp [isOpening, isClosing]

section

variable {α : Type} {spelling : α → List Char} {type : α → String} {ps : List α}

theorem mapM_parameterType
    (types : ∀ p ∈ ps, parameterType (spelling p) = .ok (some (type p))) :
    (ps.map spelling).mapM parameterType = .ok (ps.map fun p => some (type p)) := by
  induction ps with
  | nil => rfl
  | cons p ps ih =>
    rw [List.map_cons, List.mapM_cons, types p List.mem_cons_self,
      ih fun q hq => types q (List.mem_cons_of_mem p hq)]
    rfl

/-- The types of a declared parameter list are those of its parameters one by one. -/
theorem parameterTypes_intercalate (uncut : ∀ p ∈ ps, Uncut ',' 0 (spelling p))
    (types : ∀ p ∈ ps, parameterType (spelling p) = .ok (some (type p))) :
    parameterTypes ([',', ' '].intercalate (ps.map spelling)) = .ok (ps.map type) := by
  cases ps with
  | nil => rfl
  | cons p ps =>
    have cut : splitParts ',' 0 ([',', ' '].intercalate ((p :: ps).map spelling))
        = some (spelling p, ps.map (' ' :: spelling ·)) := by
      rw [List.map_cons, splitParts_intercalate, List.map_map]
      · rfl
      · rw [← List.map_cons]
        simpa using uncut
    have first : parameterType (spelling p) = .ok (some (type p)) := types p List.mem_cons_self
    have later : (ps.map (' ' :: spelling ·)).mapM parameterType
        = .ok (ps.map fun q => some (type q)) := by
      refine mapM_parameterType fun q hq => ?_
      rw [← types q (List.mem_cons_of_mem p hq), parameterType, trim_cons_of_blank rfl]
      rfl
    rw [parameterTypes, cut]
    simp only [List.mapM_cons, first, later]
    change Except.ok (((p :: ps).map fun q => some (type q)).filterMap id) = _
    rw [List.filterMap_map]
    exact congrArg Except.ok (congrFun List.filterMap_eq_map (p :: ps))

/-- A text of these characters. -/
theorem toOption_parse_of_toList {text : String} {chars : List Char} (h : text.toList = chars) :
    (parse text).toOption = (parseChars chars).toOption := by
  rw [parse, h]
  cases parseChars chars <;> rfl

/-- A name and the parameters between brackets behind it. -/
theorem parse_enclosed {name : String} (identifier : TypeText.isIdentifier name.toList)
    {parameters : List Char} {types : List String} (h : parameterTypes parameters = .ok types) :
    parse (String.ofList (name.toList ++ '(' :: (parameters ++ [')']))) = .ok ⟨name, types⟩ := by
  have word := TypeText.isWordChar_of_isIdentifier identifier
  have blank : ∀ c ∈ name.toList, isBlank c = false :=
    fun c hc => TypeText.not_isBlank_of_isWordChar (word c hc)
  have unopened : ∀ c ∈ name.toList, decide (c ≠ '(') = true := by
    intro c hc
    refine decide_eq_true ?_
    rintro rfl
    cases word _ hc
  have trimmed : trim name.toList = name.toList :=
    trim_eq_self (fun c hc => blank c (List.mem_of_mem_head? hc))
      fun c hc => blank c (List.mem_of_mem_getLast? hc)
  have cut : cutParameters (String.ofList (name.toList ++ '(' :: (parameters ++ [')']))).toList
      = .ok (name.toList, parameters, []) := by
    rw [String.toList_ofList, cutParameters, List.dropWhile_append_of_pos unopened,
      List.takeWhile_append_of_pos unopened]
    simp [cutLast_concat]
  have untrailed : trim [] = [] := rfl
  rw [parse, parseChars, cut]
  simp only [bind, Except.bind, trimmed, untrailed, identifier, h, String.ofList_toList]
  rfl

/-- The signature of a declaration has the types of its parameters one by one. -/
theorem parse_declaration {name : String} (identifier : TypeText.isIdentifier name.toList)
    (uncut : ∀ p ∈ ps, Uncut ',' 0 (spelling p))
    (types : ∀ p ∈ ps, parameterType (spelling p) = .ok (some (type p))) :
    parse (declaration name (ps.map spelling)) = .ok ⟨name, ps.map type⟩ :=
  parse_enclosed identifier (parameterTypes_intercalate uncut types)

end

end Reflection.Signature
