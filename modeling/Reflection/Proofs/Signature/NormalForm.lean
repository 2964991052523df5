import Reflection.Proofs.MetaClass.Places
import Reflection.Proofs.Signature.Outline
/-!
# Canonical texts that are read again

The canonical text of a signature is read as a signature of the same name (`parse_canonical`). Its
parameters are read like declared ones, though. An empty one and `void` are none, the last word of one
can pass for a name, and a reference mark at the end of one, which the qualifiers after it have kept, is
dropped. Parameters to which none of this happens are `Settled`, and they are the ones that are read
back as they are (`reread_eq_some_self_iff`). `canonical_text_is_faithful_for_settled_parameters` says
what follows for signatures, and for methods that are looked up by their own signature.
-/

namespace Reflection.Signature

open Reflection.Text Reflection.TypeText

/-! ## Types that are read -/

/-- The normal spelling of a type that stood between commas, without a default value. -/
structure Spelled (p : String) : Prop where
  normal : ∃ ts, (∀ t ∈ ts, Token t) ∧ p = render (normalizeTokens ts)
  comma : isWhole ',' 0 p.toList
  equals : isWhole '=' 0 p.toList

theorem spelled_normalize {text : List Char} (comma : isWhole ',' 0 text) (equals : isWhole '=' 0 text) :
    Spelled (TypeText.normalize (splitParameter (String.ofList text)).1) := by
  let ts := (splitTokens (tokens text)).1
  have token : ∀ t ∈ ts, Token t := fun t ht =>
    token_of_mem_tokens t ((splitTokens_sublist _).subset ht)
  have type : TypeText.normalize (splitParameter (String.ofList text)).1 = render (normalizeTokens ts) := by
    rw [splitParameter, String.toList_ofList]
    exact normalize_render token
  -- The name that is taken off and what normalizing drops have no brackets.
  have same : ∀ {separator}, Separates separator →
      outline separator (render (normalizeTokens ts)).toList = outline separator text := by
    intro separator h
    rw [outline_render h, outlineOf_normalizeTokens h, outlineOf_splitTokens h, outline_tokens h]
  rw [type]
  refine ⟨⟨ts, token, rfl⟩, ?_, ?_⟩
  · rwa [isWhole_congr (same separates_comma)]
  · rwa [isWhole_congr (same separates_equals)]

theorem spelled_of_parameterType {text : List Char} {p : String} (whole : isWhole ',' 0 text)
    (h : parameterType text = .ok (some p)) : Spelled p := by
  rw [parameterType] at h
  split at h
  · cases h
  · split at h
    · cases h
    · rename_i declared later cut
      obtain rfl := Option.some.inj (Except.ok.inj h)
      obtain ⟨equals, -, e⟩ := whole_of_splitParts cut
      have comma : isWhole ',' 0 (trim text) := by
        rwa [isWhole_congr (outline_trim separates_comma text)]
      obtain ⟨rest, e⟩ : ∃ rest, trim text = declared ++ rest := by
        cases later with
        | nil => exact ⟨[], by rw [e]; simp⟩
        | cons part later => exact ⟨_, by rw [e, List.intercalate_cons_cons, List.append_assoc]⟩
      rw [e] at comma
      exact spelled_normalize (isWhole_of_append equals comma) equals

/-- A signature as it is read from a text. -/
structure Formed (s : Signature) : Prop where
  name : isIdentifier s.name.toList
  parameters : ∀ p ∈ s.parameters, Spelled p

theorem formed_of_parse {text : String} {s : Signature} (h : parse text = .ok s) : s.Formed := by
  rw [parse, mapError_eq_ok_iff, parseChars] at h
  obtain ⟨⟨name, parameters, trailing⟩, -, h⟩ := bind_eq_ok_iff.1 h
  obtain ⟨identifier, h⟩ := refuse_bind_eq_ok_iff.1 h
  obtain ⟨-, h⟩ := refuse_bind_eq_ok_iff.1 h
  obtain ⟨types, read, e⟩ := bind_eq_ok_iff.1 h
  cases e
  refine ⟨by simpa using identifier, fun p hp => ?_⟩
  rw [parameterTypes] at read
  split at read
  · cases read
  · rename_i first later cut
    obtain ⟨whole, parts, -⟩ := whole_of_splitParts cut
    obtain ⟨found, each, rfl⟩ := map_eq_ok_iff.1 read
    obtain ⟨_, mem, rfl⟩ := List.mem_filterMap.1 hp
    obtain ⟨part, hpart, type⟩ := exists_of_mem_mapM each mem
    have wholes : ∀ part ∈ first :: later, isWhole ',' 0 part :=
      List.forall_mem_cons.2 ⟨whole, parts⟩
    exact spelled_of_parameterType (wholes part hpart) type

/-! ## Types that are read again -/

/-- What the text of a type is read as. An empty text and `void` are read as no parameter. -/
def reread (p : String) : Option String :=
  if p = "" ∨ p = "void" then none else some (TypeText.normalize (splitParameter p).1)

theorem present_of_reread {p q : String} (read : reread p = some q) : ¬ (p = "" ∨ p = "void") := by
  intro absent
  rw [reread, if_pos absent] at read
  cases read

theorem spelled_of_reread {p q : String} (h : Spelled p) (read : reread p = some q) : Spelled q := by
  rw [reread] at read
  split at read
  · cases read
  · obtain rfl := Option.some.inj read
    have whole := spelled_normalize h.comma h.equals
    rwa [String.ofList_toList] at whole

/-- There is no blank at the beginning of rendered tokens. -/
theorem not_isBlank_head_render {ts : List String} (h : ∀ t ∈ ts, Token t) :
    ∀ c ∈ (render ts).toList.head?, isBlank c = false := by
  rw [render, String.toList_ofList]
  cases ts with
  | nil => simp [renderChars]
  | cons t ts =>
    have token := h t List.mem_cons_self
    rw [renderChars]
    simp only [Bool.and_false, Bool.false_eq_true, if_false, List.nil_append]
    rw [List.head?_append_of_ne_nil _ token.ne_nil]
    exact fun c hc => token.not_isBlank c (List.mem_of_mem_head? hc)

theorem renderChars_concat (afterWord : Bool) (ts : List String) (t : String) :
    ∃ front, renderChars afterWord (ts ++ [t]) = front ++ t.toList := by
  induction ts generalizing afterWord with
  | nil => exact ⟨_, by rw [List.nil_append, renderChars, renderChars, List.append_nil]⟩
  | cons u ts ih =>
    obtain ⟨front, e⟩ := ih (isWord u)
    exact ⟨_, by rw [List.cons_append, renderChars, e, ← List.append_assoc, ← List.append_assoc]⟩

/-- Rendered tokens end in the last character of the last of them. -/
theorem getLast?_render_concat {ts : List String} {t : String} (h : Token t) :
    (render (ts ++ [t])).toList.getLast? = t.toList.getLast? := by
  obtain ⟨front, e⟩ := renderChars_concat false ts t
  rw [render, String.toList_ofList, e, List.getLast?_append_of_ne_nil _ h.ne_nil]

theorem not_isBlank_last_render {ts : List String} (h : ∀ t ∈ ts, Token t) :
    ∀ c ∈ (render ts).toList.getLast?, isBlank c = false := by
  induction ts using List.reverseRecOn with
  | nil => simp [render, renderChars]
  | append_singleton ts t _ =>
    have token := h t (by simp)
    rw [getLast?_render_concat token]
    exact fun c hc => token.not_isBlank c (List.mem_of_mem_getLast? hc)

theorem trim_render {ts : List String} (h : ∀ t ∈ ts, Token t) :
    trim (render ts).toList = (render ts).toList :=
  trim_eq_self (not_isBlank_head_render h) (not_isBlank_last_render h)

theorem parameterType_of_spelled {p : String} (h : Spelled p) :
    parameterType p.toList = .ok (reread p) := by
  obtain ⟨ts, token, e⟩ := h.normal
  have trimmed : trim p.toList = p.toList := by
    rw [e]
    exact trim_render (token_of_mem_normalizeTokens token)
  have none : (p.toList.isEmpty || p.toList = ['v', 'o', 'i', 'd']) = decide (p = "" ∨ p = "void") := by
    have void : p.toList = ['v', 'o', 'i', 'd'] ↔ p = "void" :=
      ⟨fun h => String.toList_inj.1 (h.trans (by decide)), fun h => by rw [h]; decide⟩
    rw [Bool.eq_iff_iff]
    simp [void, List.isEmpty_iff, String.toList_eq_nil_iff]
  rw [parameterType, trimmed, reread, none]
  simp only [(uncut_of_isWhole h.equals).splitParts, String.ofList_toList, decide_eq_true_eq]
  split
  · rfl
  · rfl

theorem splitParts_of_spelled {p : String} {ps : List String} (h : ∀ q ∈ p :: ps, Spelled q) :
    splitParts ',' 0 ([','].intercalate ((p :: ps).map String.toList)) =
      some (p.toList, ps.map String.toList) := by
  refine splitParts_join ?_ ⟨rfl, rfl⟩
  rw [← List.map_cons, List.forall_mem_map]
  exact fun q hq => (h q hq).comma

theorem parameterTypes_of_spelled {ps : List String} (h : ∀ p ∈ ps, Spelled p) :
    parameterTypes ([','].intercalate (ps.map String.toList)) = .ok (ps.filterMap reread) := by
  have each : ∀ ps : List String, (∀ p ∈ ps, Spelled p) →
      (ps.map String.toList).mapM parameterType = .ok (ps.map reread) := by
    intro ps h
    rw [mapM_eq_ok_iff, List.forall₂_map_left_iff, List.forall₂_map_right_iff, List.forall₂_same]
    exact fun p hp => parameterType_of_spelled (h p hp)
  cases ps with
  | nil => rfl
  | cons p ps =>
    rw [parameterTypes, splitParts_of_spelled h]
    simp only [← List.map_cons, each _ h]
    change Except.ok (((p :: ps).map reread).filterMap id) = _
    rw [List.filterMap_map]
    rfl

theorem toList_canonical (s : Signature) : s.canonical.toList =
    s.name.toList ++ '(' :: ([','].intercalate (s.parameters.map String.toList) ++ [')']) := by
  have brackets : "(".toList = ['('] ∧ ")".toList = [')'] ∧ ",".toList = [','] := by decide
  simp [canonical, String.toList_append, String.toList_intercalate, brackets]

/-- The canonical text of a signature is read as a signature of the same name. -/
theorem parse_canonical {s : Signature} (h : s.Formed) :
    parse s.canonical = .ok ⟨s.name, s.parameters.filterMap reread⟩ := by
  rw [← parse_enclosed h.name (parameterTypes_of_spelled h.parameters), ← toList_canonical,
    String.ofList_toList]

/-! ## Types that are read back as they are -/

/-- The text of a type that is read back as it is: it is no empty text and not `void`, its last word
cannot be taken for a name, and it does not end in a reference mark. -/
structure Settled (p : String) : Prop where
  present : p ≠ "" ∧ p ≠ "void"
  unnamed : (splitParameter p).2 = none
  bare : p.toList.getLast? ≠ some '&'

instance (p : String) : Decidable (Settled p) :=
  decidable_of_iff
    ((p ≠ "" ∧ p ≠ "void") ∧ (splitParameter p).2 = none ∧ p.toList.getLast? ≠ some '&')
    ⟨fun ⟨present, unnamed, bare⟩ => ⟨present, unnamed, bare⟩,
      fun ⟨present, unnamed, bare⟩ => ⟨present, unnamed, bare⟩⟩

theorem weight_pos {t : String} (h : Token t) (ts : List String) : weight ts < weight (ts ++ [t]) := by
  have : 0 < t.length := by
    rw [← String.length_toList]
    exact List.length_pos_iff.2 h.ne_nil
  simp only [weight, List.map_append, List.map_cons, List.map_nil, List.sum_append, List.sum_cons]
  omega

/-- Tokens of the same text are of the same length together. -/
theorem weight_eq_of_render {ts us : List String} (hts : ∀ t ∈ ts, Token t) (hus : ∀ t ∈ us, Token t)
    (same : render ts = render us) : weight ts = weight us := by
  rw [← weight_singles ts, ← singles_tokens_render hts, same, singles_tokens_render hus,
    weight_singles us]

theorem isReference_iff {t : String} (h : Token t) :
    isReference t ↔ t.toList.getLast? = some '&' := by
  cases h with
  | @word cs ne word =>
    have plain : cs.getLast? ≠ some '&' := by
      intro last
      cases word '&' (List.mem_of_getLast? last)
    have single : isReference (String.ofList cs) = false := by
      rw [← Bool.not_eq_true]
      intro reference
      simp only [isReference, Bool.or_eq_true, decide_eq_true_eq] at reference
      apply plain
      rcases reference with e | e
      · rw [← String.toList_ofList (l := cs), e]; decide
      · rw [← String.toList_ofList (l := cs), e]; decide
    simp [single, plain]
  | @mark c blank other =>
    have single : String.ofList [c] = "&" ↔ c = '&' := by
      rw [← String.toList_inj, String.toList_ofList]
      simp
    have double : String.ofList [c] ≠ "&&" := by
      intro e
      have := congrArg (List.length ∘ String.toList) e
      simp at this
    rw [isReference, decide_eq_false double, Bool.or_false, decide_eq_true_eq, single]
    simp
  | double => decide

/-- The tokens of a type that is read again. -/
theorem reread_eq {ts : List String} (present : ¬ (render ts = "" ∨ render ts = "void")) :
    reread (render ts) = some (render (normalizeTokens (splitTokens (tokens (render ts).toList)).1)) := by
  rw [reread, if_neg present, splitParameter]
  refine congrArg some (normalize_render fun t ht => ?_)
  exact token_of_mem_tokens t ((splitTokens_sublist _).subset ht)

/-- Nothing is taken off a type that is read back as it is, in front of normalizing: what is taken off
makes the tokens shorter, and nothing makes them longer. -/
theorem weight_le_of_reread {ts : List String} (h : ∀ t ∈ ts, Token t)
    (read : reread (render ts) = some (render ts)) :
    weight (tokens (render ts).toList) ≤
      weight (normalizeTokens (splitTokens (tokens (render ts).toList)).1) := by
  rw [reread_eq (present_of_reread read)] at read
  refine Nat.le_of_eq (weight_eq_of_render token_of_mem_tokens ?_ ?_)
  · apply token_of_mem_normalizeTokens
    exact fun t ht => token_of_mem_tokens t ((splitTokens_sublist _).subset ht)
  · rw [Option.some_inj.1 read, render_tokens_render h]

theorem settled_of_reread {ts : List String} (h : ∀ t ∈ ts, Token t)
    (read : reread (render ts) = some (render ts)) : Settled (render ts) := by
  have kept := weight_le_of_reread h read
  have whole : splitTokens (tokens (render ts).toList) = (tokens (render ts).toList, none) := by
    rcases splitTokens_cases (tokens (render ts).toList) with whole | ⟨front, name, e, -, taken⟩
    · exact whole
    · have shorter := weight_pos (token_of_mem_tokens name (by rw [e]; simp)) front
      have lighter := weight_normalizeTokens_le front
      rw [taken, e] at kept
      simp only at kept
      omega
  refine ⟨not_or.1 (present_of_reread read), congrArg Prod.snd whole, fun last => ?_⟩
  simp only [whole] at kept
  rcases List.eq_nil_or_concat' (tokens (render ts).toList) with none | ⟨front, t, e⟩
  · rw [← render_tokens_render h, none] at last
    cases last
  · have token := token_of_mem_tokens t (by rw [e]; simp)
    have reference : isReference t := by
      rw [← render_tokens_render h, e, getLast?_render_concat token] at last
      exact (isReference_iff token).2 last
    have shorter := weight_pos token front
    have lighter := weight_normalizeTokens_le front
    rw [e, normalizeTokens_concat_reference reference] at kept
    omega

theorem reread_of_settled {ts : List String} (h : ∀ t ∈ ts, Token t)
    (settled : Settled (render (normalizeTokens ts))) :
    reread (render (normalizeTokens ts)) = some (render (normalizeTokens ts)) := by
  have normal := token_of_mem_normalizeTokens h
  have last : ∀ t ∈ (normalizeTokens ts).getLast?, isReference t = false := by
    intro t ht
    obtain ⟨front, e⟩ : ∃ front, normalizeTokens ts = front ++ [t] :=
      ⟨_, (List.dropLast_append_getLast? t ht).symm⟩
    have token := normal t (List.mem_of_mem_getLast? ht)
    rw [← Bool.not_eq_true, isReference_iff token, ← getLast?_render_concat token, ← e]
    exact settled.bare
  have whole : splitTokens (tokens (render (normalizeTokens ts)).toList) =
      (tokens (render (normalizeTokens ts)).toList, none) := by
    rcases splitTokens_cases (tokens (render (normalizeTokens ts)).toList) with whole | ⟨_, _, -, -, taken⟩
    · exact whole
    · have := settled.unnamed
      rw [splitParameter, taken] at this
      cases this
  rw [reread_eq (not_or.2 settled.present), whole, ← render_singles (normalizeTokens (tokens _)),
    ← normalizeTokens_singles, singles_tokens_render normal, normalizeTokens_singles,
    normalizeTokens_idem last, render_singles]

theorem reread_eq_some_self_iff {p : String} (h : Spelled p) : reread p = some p ↔ Settled p := by
  obtain ⟨ts, token, rfl⟩ := h.normal
  exact ⟨settled_of_reread (token_of_mem_normalizeTokens token), reread_of_settled token⟩

/-! ## Signatures that are read back as they are -/

theorem filterMap_eq_self_iff {ps : List String} :
    ps.filterMap reread = ps ↔ ∀ p ∈ ps, reread p = some p := by
  induction ps with
  | nil => simp
  | cons p ps ih =>
    rw [List.forall_mem_cons, ← ih, List.filterMap_cons]
    split
    · rename_i none
      refine ⟨fun same => ?_, fun same => absurd same.1 (by simp [none])⟩
      have shorter := List.length_filterMap_le reread ps
      rw [same, List.length_cons] at shorter
      omega
    · rename_i q read
      rw [List.cons.injEq, read, Option.some_inj]

/-- No parameters, or a single one whose type has no tokens left. Both are written alike. -/
def Bare (ps : List String) : Prop :=
  ps = [] ∨ ps = [""]

theorem intercalate_eq_iff {ps qs : List String} (hps : ∀ p ∈ ps, Spelled p) (hqs : ∀ q ∈ qs, Spelled q) :
    [','].intercalate (ps.map String.toList) = [','].intercalate (qs.map String.toList) ↔
      ps = qs ∨ (Bare ps ∧ Bare qs) := by
  constructor
  · intro same
    have cut := congrArg (splitParts ',' 0) same
    cases ps with
    | nil =>
      cases qs with
      | nil => exact .inl rfl
      | cons q qs =>
        rw [splitParts_of_spelled hqs] at cut
        obtain ⟨first, later⟩ := Prod.mk.inj (Option.some_inj.1 cut)
        rw [eq_comm, String.toList_eq_nil_iff] at first
        rw [eq_comm, List.map_eq_nil_iff] at later
        exact .inr ⟨.inl rfl, .inr (by rw [first, later])⟩
    | cons p ps =>
      rw [splitParts_of_spelled hps] at cut
      cases qs with
      | nil =>
        obtain ⟨first, later⟩ := Prod.mk.inj (Option.some_inj.1 cut)
        rw [String.toList_eq_nil_iff] at first
        rw [List.map_eq_nil_iff] at later
        exact .inr ⟨.inr (by rw [first, later]), .inl rfl⟩
      | cons q qs =>
        rw [splitParts_of_spelled hqs] at cut
        obtain ⟨first, later⟩ := Prod.mk.inj (Option.some_inj.1 cut)
        rw [String.toList_inj.1 first, (List.map_injective_iff.2 fun _ _ => String.toList_inj.1) later]
        exact .inl rfl
  · rintro (rfl | ⟨rfl | rfl, rfl | rfl⟩)
    · rfl
    · rfl
    · rfl
    · rfl
    · rfl

theorem canonical_eq_iff {s s' : Signature} (h : s.Formed) (h' : s'.Formed) :
    s.canonical = s'.canonical ↔
      s = s' ∨ (s.name = s'.name ∧ Bare s.parameters ∧ Bare s'.parameters) := by
  have parameters := intercalate_eq_iff h.parameters h'.parameters
  constructor
  · intro same
    -- Both texts are read as the same signature, so the names are the same.
    have read := parse_canonical h
    rw [same, parse_canonical h'] at read
    have name : s.name = s'.name := (Signature.mk.inj (Except.ok.inj read)).1.symm
    have texts := congrArg String.toList same
    rw [toList_canonical, toList_canonical, name, List.append_cancel_left_eq, List.cons.injEq,
      List.append_cancel_right_eq] at texts
    rcases parameters.1 texts.2 with types | bare
    · left
      cases s
      cases s'
      cases name
      cases types
      rfl
    · exact .inr ⟨name, bare⟩
  · rintro (rfl | ⟨name, bare⟩)
    · rfl
    · rw [← String.toList_inj, toList_canonical, toList_canonical, name, parameters.2 (.inr bare)]

theorem parse_canonical_eq_ok_self_iff {s : Signature} (h : s.Formed) :
    parse s.canonical = .ok s ↔ ∀ p ∈ s.parameters, Settled p := by
  have settled : (∀ p ∈ s.parameters, reread p = some p) ↔ ∀ p ∈ s.parameters, Settled p :=
    forall₂_congr fun p hp => reread_eq_some_self_iff (h.parameters p hp)
  rw [parse_canonical h, ← settled, ← filterMap_eq_self_iff, Except.ok.injEq]
  exact ⟨congrArg parameters, fun same => by rw [same]⟩

theorem formed_reread {s : Signature} (h : s.Formed) :
    Formed ⟨s.name, s.parameters.filterMap reread⟩ := by
  refine ⟨h.name, fun q hq => ?_⟩
  obtain ⟨p, hp, read⟩ := List.mem_filterMap.1 hq
  exact spelled_of_reread (h.parameters p hp) read

theorem normalize_canonical_eq_ok_self_iff {s : Signature} (h : s.Formed) :
    normalize s.canonical = .ok s.canonical ↔
      (∀ p ∈ s.parameters, Settled p) ∨ s.parameters = [""] := by
  rw [← parse_canonical_eq_ok_self_iff h, parse_canonical h, normalize, parse_canonical h]
  change Except.ok _ = Except.ok _ ↔ _
  rw [Except.ok.injEq, canonical_eq_iff (formed_reread h) h, Except.ok.injEq]
  constructor
  · rintro (same | ⟨-, -, none | empty⟩)
    · exact .inl same
    · left
      cases s
      cases none
      rfl
    · exact .inr empty
  · rintro (same | empty)
    · exact .inl same
    · refine .inr ⟨rfl, .inl ?_, .inr empty⟩
      simp [empty, reread]

end Reflection.Signature

namespace Reflection.MetaClass

/-! ## Methods that are found again -/

/-- A look-up by its own signature leads to the method, or to another one of the same signature. -/
def FoundAgain (c : MetaClass) (m : Method) : Prop :=
  ∃ i m', c.indexOfMethod? m.signature = some i ∧ c.method? i = some m' ∧ m'.signature = m.signature

/-- What is found by a canonical text is a method of this signature. -/
theorem method?_of_indexOfCanonical? {c : MetaClass} {text : String} {i : Nat}
    (h : c.indexOfCanonical? text = some i) : ∃ m, c.method? i = some m ∧ m.signature = text := by
  obtain ⟨below, a, above, k, split, -, ⟨⟨e, he, spells⟩, -⟩, rfl⟩ :=
    (indexOf?_eq_some_iff ClassTable.methods ClassTable.signature).1 h
  have mem : a ∈ c.lineage := by
    rw [split]
    simp
  have place := getElem?_places ClassTable.methods mem (List.getElem?_eq_some_iff.1 he).1
  exact ⟨⟨a, e, _⟩, (memberAt?_eq_some_iff ClassTable.methods).2 ⟨rfl, k, place, he⟩, spells⟩

theorem isSome_indexOfCanonical? {c : MetaClass} {i : Nat} {m : Method} (h : c.method? i = some m) :
    (c.indexOfCanonical? m.signature).isSome := by
  rw [Option.isSome_iff_ne_none]
  intro none
  obtain ⟨-, k, place, entry⟩ := (memberAt?_eq_some_iff ClassTable.methods).1 h
  obtain ⟨mem, -, -⟩ := index_of_getElem?_places ClassTable.methods place
  exact (indexOf?_eq_none_iff ClassTable.methods ClassTable.signature).1 none m.owner mem
    ⟨m.entry, List.mem_of_getElem? entry, rfl⟩

theorem foundAgain_iff {c : MetaClass} {i : Nat} {m : Method} (h : c.method? i = some m) :
    c.FoundAgain m ↔ Signature.normalize m.signature = .ok m.signature := by
  constructor
  · rintro ⟨j, m', found, at', same⟩
    rw [indexOfMethod?] at found
    split at found
    · rename_i canonical normal
      obtain ⟨m'', at'', spells⟩ := method?_of_indexOfCanonical? found
      rw [at', Option.some_inj] at at''
      rw [normal, ← spells, ← at'', same]
    · cases found
  · intro normal
    obtain ⟨j, found⟩ := Option.isSome_iff_exists.1 (isSome_indexOfCanonical? h)
    obtain ⟨m', at', same⟩ := method?_of_indexOfCanonical? found
    refine ⟨j, m', ?_, at', same⟩
    rw [indexOfMethod?, normal]
    exact found

end Reflection.MetaClass

namespace Reflection.Signature

open Reflection.TypeText

/-! ## Main theorem -/

/-- What becomes of a signature whose canonical text is read, written or looked up. -/
structure Faithful (s : Signature) : Prop where
  /-- The canonical text is read, as a signature of the same name. -/
  reads : parse s.canonical = .ok ⟨s.name, s.parameters.filterMap reread⟩
  /-- It is read as the same signature just if each parameter is read as it is. -/
  same_iff : parse s.canonical = .ok s ↔ ∀ p ∈ s.parameters, Settled p
  /-- A canonical text is normal in the same cases, and where the only parameter is empty. -/
  normal_iff : normalize s.canonical = .ok s.canonical ↔
    (∀ p ∈ s.parameters, Settled p) ∨ s.parameters = [""]
  /-- Only signatures with an empty parameter or none have a canonical text in common. -/
  equal_iff (text' : String) (s' : Signature) : parse text' = .ok s' →
    (s'.canonical = s.canonical ↔ s' = s ∨ (s'.name = s.name ∧ Bare s'.parameters ∧ Bare s.parameters))
  /-- A method of this signature is found by it in the cases where the canonical text is normal. -/
  found_iff (c : MetaClass) (i : Nat) (m : MetaClass.Method) : c.method? i = some m →
    m.signature = s.canonical →
    (c.FoundAgain m ↔ (∀ p ∈ s.parameters, Settled p) ∨ s.parameters = [""])

theorem faithful_of_formed {s : Signature} (h : s.Formed) : s.Faithful where
  reads := parse_canonical h
  same_iff := parse_canonical_eq_ok_self_iff h
  normal_iff := normalize_canonical_eq_ok_self_iff h
  equal_iff _ _ h' := canonical_eq_iff (formed_of_parse h') h
  found_iff c i m hm same := by
    rw [MetaClass.foundAgain_iff hm, same]
    exact normalize_canonical_eq_ok_self_iff h

/-- The canonical text of a signature that is read from any text stands for this signature just if all
its parameters are settled. The methods that are found by their own signatures are those whose signature
is such a text. -/
theorem canonical_text_is_faithful_for_settled_parameters (c : MetaClass) :
    (∀ text s, parse text = .ok s → s.Faithful) ∧
      ∀ i m, c.method? i = some m →
        (c.FoundAgain m ↔ ∃ text s, parse text = .ok s ∧ s.canonical = MetaClass.Method.signature m ∧
          ∀ p ∈ s.parameters, Settled p) := by
  refine ⟨fun text s h => faithful_of_formed (formed_of_parse h), fun i m hm => ?_⟩
  rw [MetaClass.foundAgain_iff hm]
  constructor
  · intro normal
    obtain ⟨s, read, same⟩ := map_eq_ok_iff.1 normal
    refine ⟨_, s, read, same, ?_⟩
    rw [← same] at read
    exact (parse_canonical_eq_ok_self_iff (formed_of_parse read)).1 read
  · rintro ⟨text, s, read, same, settled⟩
    rw [← same]
    exact (normalize_canonical_eq_ok_self_iff (formed_of_parse read)).2 (.inl settled)

/-! ### Settled and other parameters -/

/-- The signature of `connect(const Name & name, std::function<void(int)> then = {}, unsigned int)`. -/
def connectSignature : Signature :=
  ⟨"connect", ["Name", "std::function<void(int)>", "uint"]⟩

/-- A class with a single slot. -/
def oneSlot (signature : String) : MetaClass :=
  ⟨Registry.plainTable ["Bell", signature] none [(1, .slot)], []⟩

/-- A slot with parameters that are all settled is found by its own signature. -/
theorem connect_is_found_again :
    parse "connect(const Name & name, std::function<void(int)> then = {}, unsigned int)" =
        .ok connectSignature ∧
      parse connectSignature.canonical = .ok connectSignature ∧
      ∃ m, (oneSlot connectSignature.canonical).method? 0 = some m ∧
        (oneSlot connectSignature.canonical).FoundAgain m := by
  have read : parse "connect(const Name & name, std::function<void(int)> then = {}, unsigned int)" =
      .ok connectSignature :=
    toOption_eq_some_iff.1 ((toOption_parse_of_toList String.toList_ofList).trans (by decide +kernel))
  have settled : ∀ p ∈ connectSignature.parameters, Settled p := by decide +kernel
  obtain ⟨faithful, found⟩ :=
    canonical_text_is_faithful_for_settled_parameters (oneSlot connectSignature.canonical)
  obtain ⟨m, at', spells⟩ : ∃ m, (oneSlot connectSignature.canonical).method? 0 = some m ∧
      m.signature = connectSignature.canonical := ⟨_, rfl, rfl⟩
  refine ⟨read, (faithful _ _ read).same_iff.2 settled, m, at', ?_⟩
  exact (found 0 m at').2 ⟨_, _, read, spells.symm, settled⟩

/-- The type of a parameter with an attribute in front of it is taken for a name when it is read again,
and the slot is not found by its own signature. A reference to nothing is written like no parameter. -/
theorem attribute_hides_type :
    (∃ s, parse "ring([[maybe_unused]] Rope rope)" = .ok s ∧ parse s.canonical ≠ .ok s ∧
      normalize s.canonical ≠ .ok s.canonical ∧
      ∃ m, (oneSlot s.canonical).method? 0 = some m ∧ m.signature = s.canonical ∧
        ¬ (oneSlot s.canonical).FoundAgain m) ∧
    ∃ s s', parse "ring(&)" = .ok s ∧ parse "ring()" = .ok s' ∧ s.canonical = s'.canonical ∧ s ≠ s' := by
  have declared : parse "ring([[maybe_unused]] Rope rope)" = .ok ⟨"ring", ["[[maybe_unused]]Rope"]⟩ :=
    toOption_eq_some_iff.1 ((toOption_parse_of_toList String.toList_ofList).trans (by decide +kernel))
  have again : parse "ring([[maybe_unused]]Rope)" = .ok ⟨"ring", ["[[maybe_unused]]"]⟩ :=
    toOption_eq_some_iff.1 ((toOption_parse_of_toList String.toList_ofList).trans (by decide +kernel))
  have text : canonical ⟨"ring", ["[[maybe_unused]]Rope"]⟩ = "ring([[maybe_unused]]Rope)" := by decide
  refine ⟨⟨_, declared, ?_, ?_, ?_⟩, ⟨"ring", [""]⟩, ⟨"ring", []⟩, ?_, ?_, ?_, ?_⟩
  · rw [text, again]
    simp
  · rw [text, normalize, again]
    simp [Except.map, canonical]
  · rw [text]
    refine ⟨_, rfl, rfl, ?_⟩
    rintro ⟨i, m, found, -, -⟩
    have none : (oneSlot "ring([[maybe_unused]]Rope)").indexOfMethod? "ring([[maybe_unused]]Rope)" = none := by
      decide +kernel
    cases none.symm.trans found
  · exact toOption_eq_some_iff.1 (by decide +kernel)
  · exact toOption_eq_some_iff.1 (by decide +kernel)
  · decide
  · decide

end Reflection.Signature
