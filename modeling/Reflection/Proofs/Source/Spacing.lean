import Mathlib.Tactic.SplitIfs
import Reflection.Proofs.Source.Lookahead
/-!
# Spaces between tokens

Where a source is cut into tokens, spaces may be put without changing what it says: the tokens that are
not blank stay the same, in kind and in text (`spaces_between_tokens`). A token in front of the new space
is what it was because a space never makes a token longer; the tokens behind it are what they were because
the lexer comes to them as it did before, on a line that has held blanks only or not. Blank tokens do
change: a run of spaces, a comment up to the end of its line and a directive take the new spaces in.
-/

namespace Reflection.Source

variable {atLineStart : Bool} {p rest rest' text : List Char} {n g : Nat} {ts : List Token}

/-! ## What is read -/

/-- What a token says, wherever it stands. -/
def Token.saying (t : Token) : Kind × String :=
  (t.kind, t.text)

/-- What tokens say, blanks left out. -/
def sayings (ts : List Token) : List (Kind × String) :=
  (ts.filter Token.isSignificant).map Token.saying

theorem sayings_of_blank {t : Token} (blank : t.kind = .blank) : sayings (t :: ts) = sayings ts := by
  rw [sayings, List.filter_cons_of_neg (by simp [Token.isSignificant, blank])]
  rfl

theorem sayings_of_significant {t : Token} (significant : t.kind ≠ .blank) :
    sayings (t :: ts) = (t.kind, t.text) :: sayings ts := by
  rw [sayings, List.filter_cons_of_pos (by simpa [Token.isSignificant] using significant)]
  rfl

/-- The text is cut into tokens that say this. -/
def Reads (atLineStart : Bool) (text : List Char) (said : List (Kind × String)) : Prop :=
  ∃ ts, Cut atLineStart text ts ∧ sayings ts = said

variable {said : List (Kind × String)}

theorem Reads.blank (ne : p ≠ []) (found : classify atLineStart (p ++ rest) = .ok (.blank, p.length))
    (later : Reads (atLineStart || p.contains '\n') rest said) : Reads atLineStart (p ++ rest) said := by
  obtain ⟨ts, cut, rfl⟩ := later
  refine ⟨⟨.blank, String.ofList p, 0, 0⟩ :: ts, ?_, rfl⟩
  refine .token (List.append_ne_nil_of_left_ne_nil ne rest) found (by simp) ?_
  rwa [List.take_left, List.drop_left]

theorem Reads.token {kind : Kind} (ne : p ≠ []) (found : classify atLineStart (p ++ rest) = .ok (kind, p.length))
    (significant : kind ≠ .blank) (later : Reads false rest said) :
    Reads atLineStart (p ++ rest) ((kind, String.ofList p) :: said) := by
  obtain ⟨ts, cut, rfl⟩ := later
  refine ⟨⟨kind, String.ofList p, 0, 0⟩ :: ts, ?_, ?_⟩
  · refine .token (List.append_ne_nil_of_left_ne_nil ne rest) found (by simp) ?_
    rwa [List.drop_left, onlyBlanks, if_neg significant]
  · exact sayings_of_significant significant

/-- However the places are counted, the lexer yields tokens that say what is read. -/
theorem Cut.items {w : Walk} (h : Cut w.atLineStart w.rest ts) :
    ∃ us, w.items.mapM id = .ok us ∧ us.map Token.saying = ts.map Token.saying := by
  generalize flag : w.atLineStart = atLineStart at h
  generalize left : w.rest = text at h
  induction h generalizing w with
  | ended => exact ⟨[], by rw [Walk.items_of_next_none (by rw [Walk.next_of_rest_nil left])]; rfl, rfl⟩
  | @token atLineStart text t n ts ne found spelled later ih =>
    subst flag left
    obtain ⟨after, next, rest, line⟩ : ∃ after : Walk,
        w.next = (some (.ok ⟨t.kind, String.ofList (w.rest.take n), w.offset, w.line⟩), after) ∧
          after.rest = w.rest.drop n ∧ after.atLineStart = onlyBlanks w.atLineStart t.kind (w.rest.take n) := by
      have nonempty : ¬ w.rest.isEmpty := by simpa using ne
      simp only [Walk.next, if_neg nonempty, found]
      exact ⟨_, rfl, rfl, rfl⟩
    obtain ⟨us, items, same⟩ := ih line rest
    refine ⟨⟨t.kind, String.ofList (w.rest.take n), w.offset, w.line⟩ :: us, ?_, ?_⟩
    · rw [Walk.items_of_next_some (by rw [next]), List.mapM_cons, next, items]
      rfl
    · rw [List.map_cons, List.map_cons, same, ← spelled, String.ofList_toList]
      rfl

theorem sayings_eq_filter (ts : List Token) : sayings ts = (ts.map Token.saying).filter (·.1 ≠ .blank) := by
  rw [List.filter_map]
  rfl

/-- A source that is read yields the tokens that say what is read. -/
theorem Reads.significantTokens {source : String} (h : Reads true source.toList said) :
    ∃ us, significantTokens source = .ok us ∧ us.map Token.saying = said := by
  obtain ⟨ts, cut, rfl⟩ := h
  obtain ⟨us, items, same⟩ := Cut.items (w := Walk.start source) cut
  refine ⟨us.filter Token.isSignificant, ?_, ?_⟩
  · rw [Source.significantTokens, tokens_eq_walk, items]
    rfl
  · show sayings us = sayings ts
    rw [sayings_eq_filter, sayings_eq_filter, same]

/-! ## A space in front -/

theorem classify_space {c : Char} (space : isSpace c) :
    classify atLineStart (c :: rest) = .ok (.blank, spaceLength (c :: rest)) := by
  rw [classify, if_pos space]

theorem Reads.space {c : Char} (space : isSpace c) (h : Reads (atLineStart || c = '\n') text said) :
    Reads atLineStart (c :: text) said := by
  have whole (rest : List Char) : spaceLength (c :: rest) = spaceLength rest + 1 := by
    rw [spaceLength, List.takeWhile_cons_of_pos space]
    rfl
  have feeds (run : List Char) : (c :: run).contains '\n' = (decide (c = '\n') || run.contains '\n') := by
    rw [List.contains_cons, BEq.comm]
    rfl
  have alone (stop : spaceLength text = 0) : Reads atLineStart (c :: text) said := by
    refine Reads.blank (p := [c]) (List.cons_ne_nil _ _) ?_ ?_
    · rw [List.singleton_append, classify_space space, whole, stop]
      rfl
    · rw [feeds]
      simpa using h
  obtain ⟨ts, cut, rfl⟩ := h
  cases cut with
  | ended => exact alone rfl
  | @token _ _ t n ts ne found spelled later =>
    obtain ⟨d, rest, rfl⟩ := List.exists_cons_of_ne_nil ne
    by_cases more : isSpace d
    · -- The run of spaces that is there gets longer.
      rw [classify_space more] at found
      obtain ⟨blank, rfl⟩ := Prod.mk.inj (Except.ok.inj found)
      have length : ((d :: rest).take (spaceLength (d :: rest))).length = spaceLength (d :: rest) :=
        List.length_take_of_le (List.takeWhile_sublist isSpace).length_le
      have run : c :: d :: rest = (c :: (d :: rest).take (spaceLength (d :: rest))) ++
          (d :: rest).drop (spaceLength (d :: rest)) := by
        rw [List.cons_append, List.take_append_drop]
      rw [sayings_of_blank blank.symm, run]
      refine Reads.blank (List.cons_ne_nil _ _) ?_ ⟨ts, ?_, rfl⟩
      · rw [← run, classify_space space, whole, List.length_cons, length]
      · rw [← blank, onlyBlanks, if_pos rfl, Bool.or_assoc, ← feeds] at later
        exact later
    · refine alone ?_
      rw [spaceLength, List.takeWhile_cons_of_neg more]
      rfl

theorem Reads.spaces (h : Reads atLineStart text said) (g : Nat) :
    Reads atLineStart (List.replicate g ' ' ++ text) said := by
  induction g with
  | zero => exact h
  | succ g ih => exact Reads.space (by decide) (by simpa using ih)

/-! ## Spaces behind a blank token -/

/-- The blank token at the front of a text. -/
inductive Blank : Bool → List Char → Nat → Prop
  | spaces {atLineStart : Bool} {c : Char} {rest : List Char} (space : isSpace c) :
      Blank atLineStart (c :: rest) (spaceLength (c :: rest))
  | lineComment {atLineStart : Bool} {rest : List Char} :
      Blank atLineStart ('/' :: '/' :: rest) (lineLength ('/' :: '/' :: rest))
  | blockComment {atLineStart : Bool} {rest : List Char} {n : Nat}
      (closed : blockCommentLength? ('/' :: '*' :: rest) = some n) : Blank atLineStart ('/' :: '*' :: rest) n
  | directive {rest : List Char} : Blank true ('#' :: rest) (directiveLength ('#' :: rest))

theorem quoted_ne_blank {before : Nat} {quote : Char} : quoted before quote text ≠ .ok (.blank, n) := by
  unfold quoted
  split
  · split <;> simp
  · simp

theorem classifyWord_ne_blank : classifyWord text ≠ .ok (.blank, n) := by
  intro h
  dsimp only [classifyWord] at h
  split at h
  · split at h
    · unfold rawQuoted at h
      split at h <;> cases h
    · split at h
      · exact quoted_ne_blank h
      · cases h
  · split at h
    · exact quoted_ne_blank h
    · cases h
  · cases h

theorem Blank.of_classify (ne : text ≠ []) (h : classify atLineStart text = .ok (.blank, n)) :
    Blank atLineStart text n := by
  generalize read : (Except.ok (.blank, n) : Except LexFault (Kind × Nat)) = result at h
  cases frontToken_of_classify ne h with
  | space space =>
    cases read
    exact .spaces space
  | lineComment =>
    cases read
    exact .lineComment
  | blockComment closed =>
    cases read
    exact .blockComment closed
  | openComment => cases read
  | directive first =>
    cases read
    cases first
    exact .directive
  | word => exact absurd read.symm classifyWord_ne_blank
  | number =>
    obtain ⟨kind, -⟩ := Prod.mk.inj (Except.ok.inj read)
    split at kind <;> cases kind
  | literal => exact absurd read.symm quoted_ne_blank
  | mark => cases read

theorem Blank.classify (h : Blank atLineStart text n) : classify atLineStart text = .ok (.blank, n) := by
  cases h with
  | spaces space => exact classify_space space
  | lineComment => rfl
  | blockComment closed => simp [Source.classify, isSpace, closed]
  | directive => rfl

/-- A run that stops takes in spaces put where it stops. -/
theorem length_takeWhile_append_spaces {keep : Char → Bool} {next : Char}
    (run : ((p ++ next :: rest).takeWhile keep).length = p.length) (space : keep ' ') (g : Nat) (rest' : List Char) :
    ((p ++ (List.replicate g ' ' ++ next :: rest')).takeWhile keep).length = p.length + g := by
  have front : (p ++ next :: rest).takeWhile keep = p := by
    rw [List.prefix_iff_eq_take.1 (List.takeWhile_prefix keep), run, List.take_left]
  have inside : ∀ c ∈ p, keep c := fun c hc => List.mem_takeWhile_imp (front.symm ▸ hc)
  have stops : ¬ keep next := by
    intro more
    rw [List.takeWhile_append_of_pos inside, List.append_right_eq_self, List.takeWhile_cons_of_pos more] at front
    cases front
  rw [← List.append_assoc, List.takeWhile_append_of_pos, List.takeWhile_cons_of_neg stops, List.append_nil,
    List.length_append, List.length_replicate]
  intro c hc
  rcases List.mem_append.1 hc with before | among
  · exact inside c before
  · exact List.eq_of_mem_replicate among ▸ space

theorem add_two_le_of_find? {text : List Char} (h : find? ['*', '/'] text = some n) : n + 2 ≤ text.length := by
  have cut := congrArg List.length (take_of_find? h)
  simp only [List.length_append, List.length_take, List.length_cons, List.length_nil] at cut
  omega

/-- A directive ends at a line feed or with the text. -/
theorem head_drop_directiveLength (text : List Char) :
    ∀ c ∈ (text.drop (directiveLength text)).head?, c = '\n' := by
  fun_induction directiveLength text with
  | case1 => simp
  | case2 rest ih => exact ih
  | case3 rest ih => exact ih
  | case4 rest =>
    rintro c ⟨⟩
    rfl
  | case5 rest n closed ih =>
    rw [List.drop_drop] at ih
    have length (m : Nat) : m + (n + 4) = n + 2 + m + 2 := by omega
    rwa [length, List.drop_succ_cons, List.drop_succ_cons]
  | case6 rest =>
    rw [List.drop_length]
    rintro c ⟨⟩
  | case7 c rest _ _ _ _ ih => exact ih

/-- Spaces at the end of a directive belong to it. -/
theorem directiveLength_append_spaces (whole : directiveLength (p ++ '\n' :: rest) = p.length) (g : Nat)
    (rest' : List Char) : directiveLength (p ++ (List.replicate g ' ' ++ '\n' :: rest')) = p.length + g := by
  fun_induction directiveLength p with
  | case1 =>
    induction g with
    | zero =>
      show directiveLength ('\n' :: rest') = 0
      rw [directiveLength]
    | succ g ih =>
      show directiveLength (' ' :: (List.replicate g ' ' ++ '\n' :: rest')) = _
      rw [directiveLength]
      · exact congrArg (· + 1) ih
      all_goals simp
  | case2 p ih =>
    simp only [List.cons_append, directiveLength, List.length_cons] at whole ⊢
    rw [ih (by omega)]
    omega
  | case3 p ih =>
    simp only [List.cons_append, directiveLength, List.length_cons] at whole ⊢
    rw [ih (by omega)]
    omega
  | case4 p =>
    rw [List.cons_append, directiveLength] at whole
    cases whole
  | case5 p n closed ih =>
    have inside := add_two_le_of_find? closed
    have closed' (more : List Char) : find? ['*', '/'] (p ++ more) = some n := by
      rw [← List.append_nil p] at closed
      exact find?_append closed inside more
    simp only [List.cons_append, directiveLength, closed', List.length_cons,
      List.drop_append_of_le_length inside, List.length_drop] at whole ih ⊢
    rw [ih (by omega)]
    omega
  | case6 p open' =>
    simp only [List.cons_append, directiveLength, List.length_cons] at whole
    split at whole
    · rename_i n closed
      have inside : n + 2 ≤ p.length := by omega
      have closed' := find?_append closed inside []
      rw [List.append_nil, open'] at closed'
      cases closed'
    · simp at whole
  | case7 c p escape escape' feed comment ih =>
    have escaped : c = '\\' → p ≠ [] ∧ p ≠ ['\r'] := by
      rintro rfl
      refine ⟨?_, ?_⟩
      · rintro rfl
        simp [directiveLength] at whole
      · rintro rfl
        simp [directiveLength] at whole
    have plain (more : List Char) (noStar : more.head? ≠ some '*') :
        directiveLength (c :: p ++ more) = directiveLength (p ++ more) + 1 := by
      rw [List.cons_append, directiveLength]
      · intro r backslash e
        obtain ⟨x, q, rfl⟩ := List.exists_cons_of_ne_nil (escaped backslash).1
        cases e
        exact escape _ backslash rfl
      · intro r backslash e
        obtain ⟨x, q, rfl⟩ := List.exists_cons_of_ne_nil (escaped backslash).1
        cases q with
        | nil =>
          cases e
          exact (escaped backslash).2 rfl
        | cons y q =>
          cases e
          exact escape' _ backslash rfl
      · exact feed
      · intro r slash e
        cases p with
        | nil =>
          rw [List.nil_append] at e
          exact noStar (e ▸ rfl)
        | cons x p =>
          cases e
          exact comment _ slash rfl
    rw [plain _ (by simp)] at whole
    rw [plain, ih (Nat.succ.inj whole), List.length_cons, Nat.add_right_comm]
    cases g <;> simp [List.replicate_succ]

theorem begins_with_two {a b : Char} (long : 2 ≤ p.length) (whole : p ++ rest = a :: b :: text) :
    ∃ q, p = a :: b :: q := by
  match p, long with
  | x :: y :: q, _ =>
    cases whole
    exact ⟨q, rfl⟩

/-- Spaces behind a blank token belong to it, or follow it. -/
theorem Blank.append_spaces {next : Char} (h : Blank atLineStart (p ++ next :: rest) p.length) (g : Nat)
    (rest' : List Char) :
    ∃ k ≤ g, Blank atLineStart (p ++ (List.replicate g ' ' ++ next :: rest')) (p.length + k) := by
  generalize whole : p ++ next :: rest = text at h
  generalize length : p.length = n at h
  cases h with
  | @spaces _ c text space =>
    rcases List.append_eq_cons_iff.1 whole with ⟨rfl, -⟩ | ⟨q, rfl, rfl⟩
    · exact absurd length (spaceLength_pos space).ne
    · have run : ((c :: q ++ next :: rest).takeWhile isSpace).length = (c :: q).length := length.symm
      have grown : spaceLength (c :: q ++ (List.replicate g ' ' ++ next :: rest')) = (c :: q).length + g :=
        length_takeWhile_append_spaces run (by decide) g rest'
      refine ⟨g, Nat.le_refl g, ?_⟩
      rw [← length, ← grown]
      exact .spaces space
  | @lineComment _ text =>
    have long : 2 ≤ lineLength ('/' :: '/' :: text) := by simp [lineLength]
    obtain ⟨q, rfl⟩ := begins_with_two (length ▸ long) whole
    have grown : lineLength ('/' :: '/' :: q ++ (List.replicate g ' ' ++ next :: rest')) =
        ('/' :: '/' :: q).length + g :=
      length_takeWhile_append_spaces ((congrArg lineLength whole).trans length.symm) (by decide) g rest'
    refine ⟨g, Nat.le_refl g, ?_⟩
    rw [← length, ← grown]
    exact .lineComment
  | @blockComment _ text _ closed =>
    have long : 2 ≤ n := by
      obtain ⟨m, -, rfl⟩ := Option.map_eq_some_iff.1 closed
      omega
    obtain ⟨q, rfl⟩ := begins_with_two (length ▸ long) whole
    refine ⟨0, Nat.zero_le g, .blockComment ?_⟩
    rw [← whole] at closed
    exact blockCommentLength?_append closed (Nat.le_of_eq length.symm) _
  | @directive text =>
    rcases List.append_eq_cons_iff.1 whole with ⟨rfl, -⟩ | ⟨q, rfl, rfl⟩
    · exact absurd length (directiveLength_pos text).ne
    · have feed : next = '\n' := by
        refine head_drop_directiveLength ('#' :: (q ++ next :: rest)) next ?_
        have behind : ('#' :: q ++ next :: rest).drop ('#' :: q).length = next :: rest := List.drop_left
        rw [← length, ← List.cons_append, behind]
        rfl
      subst feed
      refine ⟨g, Nat.le_refl g, ?_⟩
      rw [← length, ← directiveLength_append_spaces length.symm g rest']
      exact .directive

/-! ## Tokens set apart -/

/-- The texts of the tokens with spaces between them: as many behind the first token as the first of `gaps`
says, and so on. -/
def spread : List Nat → List Token → String
  | g :: gaps, t :: u :: ts => t.text ++ String.ofList (List.replicate g ' ') ++ spread gaps (u :: ts)
  | _, ts => joined ts

theorem spread_nil (ts : List Token) : spread [] ts = joined ts := rfl

theorem spread_singleton (gaps : List Nat) (t : Token) : spread gaps [t] = joined [t] := by
  cases gaps <;> rfl

theorem spread_cons_cons (g : Nat) (gaps : List Nat) (t u : Token) (ts : List Token) :
    spread (g :: gaps) (t :: u :: ts) = t.text ++ String.ofList (List.replicate g ' ') ++ spread gaps (u :: ts) :=
  rfl

theorem Cut.toList_joined (h : Cut atLineStart text ts) : (joined ts).toList = text := by
  induction h with
  | ended => rfl
  | token ne found spelled later ih =>
    rw [joined_cons, String.toList_append, ih, spelled, List.take_append_drop]

/-- One space put behind the token `t`. -/
theorem spread_single (before : List Token) (t u : Token) (after : List Token) :
    spread (List.replicate before.length 0 ++ [1]) (before ++ t :: u :: after) =
      joined (before ++ [t]) ++ " " ++ joined (u :: after) := by
  induction before with
  | nil =>
    rw [List.length_nil, List.replicate_zero, List.nil_append, List.nil_append, List.nil_append, spread_cons_cons,
      spread_nil, joined_cons t, joined_nil, String.append_empty]
    rfl
  | cons s before ih =>
    obtain ⟨v, more, e⟩ : ∃ v more, before ++ t :: u :: after = v :: more :=
      List.exists_cons_of_ne_nil (by simp)
    rw [e] at ih
    rw [List.length_cons, List.replicate_succ, List.cons_append, List.cons_append, e, spread_cons_cons, ih,
      List.cons_append, joined_cons s, List.replicate_zero, String.ofList_nil, String.append_empty]
    simp only [String.append_assoc]

/-- Spread tokens are their source up to the first space put between them. -/
theorem toList_spread (gaps : List Nat) (t : Token) (ts : List Token) :
    spread gaps (t :: ts) = joined (t :: ts) ∨
      ∃ p q q', (joined (t :: ts)).toList = t.text.toList ++ p ++ q ∧
        (spread gaps (t :: ts)).toList = t.text.toList ++ p ++ ' ' :: q' := by
  induction gaps generalizing t ts with
  | nil => exact .inl rfl
  | cons g gaps ih =>
    cases ts with
    | nil => exact .inl rfl
    | cons u ts =>
      rw [spread_cons_cons]
      cases g with
      | succ g =>
        refine .inr ⟨[], (joined (u :: ts)).toList, List.replicate g ' ' ++ (spread gaps (u :: ts)).toList, ?_, ?_⟩
        · rw [joined_cons, String.toList_append, List.append_nil]
        · simp [List.replicate_succ]
      | zero =>
        rw [List.replicate_zero, String.ofList_nil, String.append_empty]
        rcases ih u ts with same | ⟨p, q, q', whole, apart⟩
        · left
          rw [same, joined_cons t]
        · refine .inr ⟨u.text.toList ++ p, q, q', ?_, ?_⟩
          · rw [joined_cons, String.toList_append, whole]
            simp only [List.append_assoc]
          · rw [String.toList_append, apart]
            simp only [List.append_assoc]

theorem Cut.reads (h : Cut atLineStart text ts) : Reads atLineStart text (sayings ts) :=
  ⟨ts, h, rfl⟩

/-- Tokens that are set apart begin as they did. -/
theorem Cut.head?_spread {t : Token} (h : Cut atLineStart text (t :: ts)) (gaps : List Nat) :
    (spread gaps (t :: ts)).toList.head? = text.head? := by
  have first (more : List Char) : (t.text.toList ++ more).head? = text.head? := by
    rw [List.head?_append_of_ne_nil _ (lexeme_of_cut h t List.mem_cons_self).ne_nil, h.head?]
  rcases toList_spread gaps t ts with same | ⟨p, q, q', -, apart⟩
  · rw [same, h.toList_joined]
  · rw [apart, List.append_assoc, first]

/-- A blank token and spaces behind it. -/
theorem Reads.blank_spaces {next : Char} (ne : p ≠ [])
    (found : classify atLineStart (p ++ next :: rest) = .ok (.blank, p.length))
    (later : Reads (atLineStart || p.contains '\n') (next :: rest') said) (g : Nat) :
    Reads atLineStart (p ++ (List.replicate g ' ' ++ next :: rest')) said := by
  have blank := Blank.of_classify (List.append_ne_nil_of_left_ne_nil ne _) found
  obtain ⟨k, le, blank'⟩ := blank.append_spaces g rest'
  obtain ⟨j, rfl⟩ := Nat.exists_eq_add_of_le le
  have cut : p ++ (List.replicate (k + j) ' ' ++ next :: rest') =
      p ++ List.replicate k ' ' ++ (List.replicate j ' ' ++ next :: rest') := by
    rw [List.replicate_add]
    simp only [List.append_assoc]
  have found' := blank'.classify
  rw [cut] at found' ⊢
  refine Reads.blank (List.append_ne_nil_of_left_ne_nil ne _) ?_ ?_
  · rw [found', List.length_append, List.length_replicate]
  · have feeds : (p ++ List.replicate k ' ').contains '\n' = p.contains '\n' := by simp
    rw [feeds]
    exact later.spaces j

/-- Tokens that are set apart are read as they were. -/
theorem Cut.reads_spread (h : Cut atLineStart text ts) (gaps : List Nat) :
    Reads atLineStart (spread gaps ts).toList (sayings ts) := by
  induction h generalizing gaps with
  | ended =>
    cases gaps <;> exact Cut.ended.reads
  | @token atLineStart text t n ts ne found spelled later ih =>
    have cut := Cut.token ne found spelled later
    match gaps, ts with
    | gaps, [] =>
      rw [spread_singleton, cut.toList_joined]
      exact cut.reads
    | [], u :: ts =>
      rw [spread_nil, cut.toList_joined]
      exact cut.reads
    | g :: gaps, u :: ts =>
      have nonempty : t.text.toList ≠ [] := (lexeme_of_cut cut t List.mem_cons_self).ne_nil
      obtain ⟨next, rest, behind⟩ := List.exists_cons_of_ne_nil later.ne_nil
      have length : t.text.toList.length = n := by
        have more := congrArg List.length behind
        rw [List.length_drop, List.length_cons] at more
        rw [spelled, List.length_take]
        omega
      have apart : (spread (g :: gaps) (t :: u :: ts)).toList =
          t.text.toList ++ (List.replicate g ' ' ++ (spread gaps (u :: ts)).toList) := by
        rw [spread_cons_cons, String.toList_append, String.toList_append, String.toList_ofList, List.append_assoc]
      have later' := ih gaps
      by_cases blank : t.kind = .blank
      · have whole : text = t.text.toList ++ next :: rest := by rw [spelled, ← behind, List.take_append_drop]
        obtain ⟨rest', first⟩ :=
          List.head?_eq_some_iff.1 ((later.head?_spread gaps).trans (congrArg List.head? behind))
        rw [blank, whole, ← length] at found
        rw [blank, onlyBlanks, if_pos rfl, ← spelled, first] at later'
        rw [sayings_of_blank blank, apart, first]
        exact Reads.blank_spaces nonempty found later' g
      · rcases toList_spread (g :: gaps) t (u :: ts) with same | ⟨p, q, q', cutAt, spaceAt⟩
        · rw [same, cut.toList_joined]
          exact cut.reads
        · have within : n ≤ (t.text.toList ++ p).length := by
            rw [List.length_append, length]
            exact Nat.le_add_right _ _
          rw [← cut.toList_joined, cutAt] at found
          have found' := classify_append_space (List.append_ne_nil_of_left_ne_nil nonempty _) found within blank q'
          rw [← spaceAt, apart, ← length] at found'
          rw [onlyBlanks, if_neg blank] at later'
          have read := Reads.token nonempty found' blank (later'.spaces g)
          rw [String.ofList_toList] at read
          rw [sayings_of_significant blank, apart]
          exact read

/-- Spacing never changes the tokens: where a source that has tokens is cut into them, one space may be put,
and any number of spaces in any of these places, and the new source has tokens that say the same. -/
theorem spaces_between_tokens {source : String} (h : tokens source = .ok ts) :
    joined ts = source ∧
      (∀ before t u after, ts = before ++ t :: u :: after →
        ∃ us, significantTokens (joined (before ++ [t]) ++ " " ++ joined (u :: after)) = .ok us ∧
          us.map Token.saying = sayings ts) ∧
      ∀ gaps, ∃ us, significantTokens (spread gaps ts) = .ok us ∧ us.map Token.saying = sayings ts := by
  have cut := cut_of_tokens h
  have apart (gaps : List Nat) := (cut.reads_spread gaps).significantTokens
  refine ⟨String.toList_injective cut.toList_joined, ?_, apart⟩
  rintro before t u after rfl
  rw [← spread_single]
  exact apart _

/-- A directive, a comment, a number, punctuation and a literal, with little between them. -/
def pealTokens : List Token :=
  [⟨.blank, "#if X", 0, 1⟩, ⟨.blank, "\n", 5, 1⟩, ⟨.float, ".5", 6, 2⟩, ⟨.punctuation, "->", 8, 2⟩,
    ⟨.string, "u8\"b\"", 10, 2⟩, ⟨.punctuation, "...", 15, 2⟩, ⟨.blank, "//", 18, 2⟩, ⟨.blank, "\n", 20, 2⟩]

/-- The directive and the comment take in the spaces behind them. -/
theorem peal_set_apart :
    tokens "#if X\n.5->u8\"b\"...//\n" = .ok pealTokens ∧
      spread [2, 1, 1, 3, 1, 1, 1] pealTokens = "#if X  \n .5 ->   u8\"b\" ... // \n" ∧
      ∃ us, significantTokens "#if X  \n .5 ->   u8\"b\" ... // \n" = .ok us ∧
        us.map Token.saying = [(.float, ".5"), (.punctuation, "->"), (.string, "u8\"b\""), (.punctuation, "...")] := by
  have cut : tokens "#if X\n.5->u8\"b\"...//\n" = .ok pealTokens := by
    rw [tokens_eq_walk]
    decide +kernel
  have apart : spread [2, 1, 1, 3, 1, 1, 1] pealTokens = "#if X  \n .5 ->   u8\"b\" ... // \n" := by
    decide +kernel
  exact ⟨cut, apart, apart ▸ (spaces_between_tokens cut).2.2 [2, 1, 1, 3, 1, 1, 1]⟩

end Reflection.Source
