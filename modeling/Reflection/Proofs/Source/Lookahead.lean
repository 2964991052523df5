import Mathlib.Data.List.TakeWhile
import Mathlib.Tactic.SplitIfs
import Reflection.Proofs.Source.Lexemes
/-!
# How far the lexer looks ahead

To cut off a token the lexer looks at a few characters behind it. What it sees there can only make the
token longer, and a space never does. So a token stays what it is when a space is put somewhere behind it
(`classify_append_space`), whatever comes after the space.
-/

namespace Reflection.Source

variable {p rest pattern : List Char} {n : Nat}

/-! ## Searching -/

theorem isPrefixOf_append_congr (short : pattern.length ≤ p.length) (rest rest' : List Char) :
    pattern.isPrefixOf (p ++ rest) = pattern.isPrefixOf (p ++ rest') := by
  have inside (rest : List Char) : pattern.isPrefixOf (p ++ rest) ↔ pattern <+: p := by
    rw [List.isPrefixOf_iff_prefix]
    exact ⟨fun h => List.prefix_of_prefix_length_le h (List.prefix_append p rest) short,
      fun h => h.trans (List.prefix_append p rest)⟩
  rw [Bool.eq_iff_iff, inside, inside]

/-- What has no space in it begins in front of the space or not at all. -/
theorem prefix_of_append_space (plain : ' ' ∉ pattern) (h : pattern <+: p ++ ' ' :: rest) : pattern <+: p := by
  have upTo : p ++ [' '] <+: p ++ ' ' :: rest := ⟨rest, by simp⟩
  rcases List.prefix_or_prefix_of_prefix h upTo with inside | beyond
  · rcases List.prefix_concat_iff.1 inside with rfl | inside
    · exact absurd (List.mem_append_right p (List.mem_singleton_self ' ')) plain
    · exact inside
  · exact absurd (beyond.subset (List.mem_append_right p (List.mem_singleton_self ' '))) plain

/-- What is found does not depend on what follows it. -/
theorem find?_append (h : find? pattern (p ++ rest) = some n) (within : n + pattern.length ≤ p.length)
    (rest' : List Char) : find? pattern (p ++ rest') = some n := by
  induction p generalizing n with
  | nil =>
    have empty : pattern = [] := List.length_eq_zero_iff.1 (Nat.le_zero.1 (Nat.le_trans (Nat.le_add_left _ _) within))
    subst empty
    have first : n = 0 := Nat.le_zero.1 within
    subst first
    cases rest' <;> rfl
  | cons c p ih =>
    have short : pattern.length ≤ (c :: p).length := Nat.le_trans (Nat.le_add_left _ _) within
    rw [List.cons_append, find?, ← List.cons_append, isPrefixOf_append_congr short rest rest'] at h
    rw [List.cons_append, find?, ← List.cons_append]
    split at h
    · rename_i front
      rwa [if_pos front]
    · rename_i missed
      obtain ⟨m, found, rfl⟩ := Option.map_eq_some_iff.1 h
      have inside : m + pattern.length ≤ p.length := by
        rw [List.length_cons] at within
        omega
      rw [if_neg missed, ih found inside]
      rfl

theorem blockCommentLength?_append (h : blockCommentLength? (p ++ rest) = some n) (within : n ≤ p.length)
    (rest' : List Char) : blockCommentLength? (p ++ rest') = some n := by
  obtain ⟨m, found, rfl⟩ := Option.map_eq_some_iff.1 h
  have opened : 2 ≤ p.length := by
    have long : m + 4 ≤ p.length := within
    omega
  rw [List.drop_append_of_le_length opened] at found
  have inside : m + ['*', '/'].length ≤ (p.drop 2).length := by
    rw [List.length_drop]
    exact Nat.le_sub_of_add_le within
  rw [blockCommentLength?, List.drop_append_of_le_length opened, find?_append found inside rest', Option.map_some]

/-! ## Literals -/

theorem quotedLength?_ne_zero (quote : Char) (text : List Char) : quotedLength? quote text ≠ some 0 := by
  fun_cases quotedLength? quote text <;> simp_all

theorem quotedLength?_append {quote : Char} (h : quotedLength? quote (p ++ rest) = some n)
    (within : n ≤ p.length) (rest' : List Char) : quotedLength? quote (p ++ rest') = some n := by
  fun_induction quotedLength? quote p generalizing n with
  | case1 =>
    obtain rfl := Nat.le_zero.1 within
    exact absurd h (quotedLength?_ne_zero quote _)
  | case2 =>
    -- The character behind the backslash would belong to the literal.
    cases rest with
    | nil => cases h
    | cons c rest =>
      obtain ⟨m, -, rfl⟩ := Option.map_eq_some_iff.1 h
      exact absurd within (by simp)
  | case3 c p ih =>
    obtain ⟨m, found, rfl⟩ := Option.map_eq_some_iff.1 h
    have inside : m ≤ p.length := by simpa using within
    show (quotedLength? quote (p ++ rest')).map (· + 2) = _
    rw [ih found inside, Option.map_some]
  | case4 p =>
    rw [List.cons_append, quotedLength?, if_pos rfl] at h
    · cases h
    · decide
  | case5 p plain notFeed =>
    rw [List.cons_append, quotedLength?, if_neg notFeed, if_pos rfl] at h ⊢
    · exact h
    · exact plain
    · exact plain
  | case6 c p plain notFeed notQuote ih =>
    rw [List.cons_append, quotedLength?, if_neg notFeed, if_neg notQuote] at h
    rw [List.cons_append, quotedLength?, if_neg notFeed, if_neg notQuote]
    · obtain ⟨m, found, rfl⟩ := Option.map_eq_some_iff.1 h
      have inside : m ≤ p.length := by simpa using within
      rw [ih found inside, Option.map_some]
    · exact plain
    · exact plain

theorem quoted_append {before : Nat} {quote : Char} {kind : Kind}
    (h : quoted before quote (p ++ rest) = .ok (kind, n)) (within : n ≤ p.length) (rest' : List Char) :
    quoted before quote (p ++ rest') = .ok (kind, n) := by
  unfold quoted at h ⊢
  split at h
  · rename_i m found
    cases h
    have opened : before + 1 ≤ p.length := Nat.le_trans (Nat.le_add_right _ m) within
    rw [List.drop_append_of_le_length opened] at found ⊢
    have inside : m ≤ (p.drop (before + 1)).length := by
      rw [List.length_drop]
      omega
    rw [quotedLength?_append found inside rest']
  · cases h

theorem rawLength_append (h : rawLength (p ++ rest) = .ok n) (within : n ≤ p.length) (rest' : List Char) :
    rawLength (p ++ rest') = .ok n := by
  unfold rawLength at h ⊢
  split at h
  · cases h
  · rename_i delimiter delimited
    dsimp only at h
    split at h
    · cases h
    · rename_i m found
      cases h
      -- The bracket that opens the string, its closing bracket and its quote are among the characters of `p`.
      have inside : delimiter.length + 2 ≤ p.length := by
        simp only [List.length_cons, List.length_append, List.length_nil] at within
        omega
      have delimited' : rawDelimiter? (p ++ rest') = some delimiter := by
        unfold rawDelimiter? at delimited ⊢
        split at delimited
        · cases delimited
        · rename_i k bracket
          dsimp only at delimited
          split at delimited
          · rename_i allowed
            cases delimited
            have short : k ≤ (p ++ rest).length := by
              have cut := congrArg List.length (take_of_find? bracket)
              simp only [List.length_append, List.length_take, List.length_singleton] at cut ⊢
              omega
            rw [List.length_take_of_le short] at inside
            rw [find?_append bracket (Nat.le_of_succ_le inside) rest']
            dsimp only
            rw [List.take_append_of_le_length (by omega)] at allowed ⊢
            rw [if_pos allowed, List.take_append_of_le_length (by omega)]
          · cases delimited
      rw [delimited']
      dsimp only
      rw [List.drop_append_of_le_length (by omega)] at found ⊢
      rw [find?_append found ?_ rest']
      rw [List.length_drop]
      omega

theorem rawQuoted_append {before : Nat} {kind : Kind} (h : rawQuoted before (p ++ rest) = .ok (kind, n))
    (within : n ≤ p.length) (rest' : List Char) : rawQuoted before (p ++ rest') = .ok (kind, n) := by
  unfold rawQuoted at h ⊢
  split at h
  · rename_i m found
    cases h
    have opened : before + 1 ≤ p.length := Nat.le_trans (Nat.le_add_right _ m) within
    rw [List.drop_append_of_le_length opened] at found ⊢
    rw [rawLength_append found (by rw [List.length_drop]; omega) rest']
  · cases h
  · cases h

/-! ## Numbers -/

theorem numberTail_of_zero {hex afterMark : Bool} {text : List Char} (h : (numberTail hex afterMark text).1 = 0) :
    numberTail hex afterMark text = (0, false) := by
  cases text with
  | nil => rfl
  | cons c rest =>
    rw [numberTail] at h ⊢
    split_ifs at h ⊢
    rfl

theorem isWordPart_of_isHexDigit {c : Char} (h : isHexDigit c) : isWordPart c := by
  simp only [isHexDigit, isWordPart, Char.isAlphanum] at h ⊢
  delta Char.isAlpha Char.isUpper Char.isLower
  simp only [Char.le_def, Bool.or_eq_true, Bool.and_eq_true, decide_eq_true_eq] at h ⊢
  grind

theorem numberTail_space (hex afterMark : Bool) (rest : List Char) :
    numberTail hex afterMark (' ' :: rest) = (0, false) := by
  cases hex <;> simp [numberTail, isExponentMark, isWordPart]

/-- A digit behind a separator belongs to the number. -/
theorem not_isHexDigit_of_numberTail {hex afterMark : Bool}
    (within : (numberTail hex afterMark ('\'' :: rest)).1 ≤ 1) : rest.head?.any isHexDigit = false := by
  have unmarked : isExponentMark hex '\'' = false := by cases hex <;> rfl
  rw [numberTail, if_neg (by simp), if_neg (by simp [unmarked]), if_neg (by decide)] at within
  cases digit : rest.head?.any isHexDigit with
  | false => rfl
  | true =>
    rw [if_pos (by simp [digit])] at within
    have ended : (numberTail hex false rest).1 = 0 := Nat.le_zero.1 (Nat.le_of_succ_le_succ within)
    obtain ⟨c, first, isDigit⟩ := (Option.any_eq_true _ _).1 digit
    have outside := head_drop_numberTail hex false rest c (by rwa [ended])
    rw [isWordPart_of_isHexDigit isDigit] at outside
    cases outside

theorem numberTail_append_space {hex afterMark : Bool} (within : (numberTail hex afterMark (p ++ rest)).1 ≤ p.length)
    (rest' : List Char) : numberTail hex afterMark (p ++ ' ' :: rest') = numberTail hex afterMark (p ++ rest) := by
  induction p generalizing afterMark with
  | nil =>
    rw [List.nil_append] at within ⊢
    rw [numberTail_space, List.nil_append, numberTail_of_zero (Nat.le_zero.1 within)]
  | cons c p ih =>
    have shorter {n : Nat} (h : n + 1 ≤ (c :: p).length) : n ≤ p.length := Nat.le_of_succ_le_succ h
    have separates : (decide (c = '\'') && (p ++ ' ' :: rest').head?.any isHexDigit) =
        (decide (c = '\'') && (p ++ rest).head?.any isHexDigit) := by
      by_cases separator : c = '\''
      · subst separator
        cases p with
        | cons => rfl
        | nil =>
          have absent : rest.head?.any isHexDigit = false := not_isHexDigit_of_numberTail within
          show (_ && isHexDigit ' ') = (_ && rest.head?.any isHexDigit)
          rw [absent]
          rfl
      · simp [separator]
    rw [List.cons_append, numberTail] at within ⊢
    rw [List.cons_append, numberTail, separates]
    split_ifs at within ⊢
    · rw [ih (shorter within)]
    · rw [ih (shorter within)]
    · rw [ih (shorter within)]
    · rw [ih (shorter within)]
    · rfl

theorem numberLength_append_space (within : (numberLength (p ++ rest)).1 ≤ p.length) (rest' : List Char) :
    numberLength (p ++ ' ' :: rest') = numberLength (p ++ rest) := by
  have tail {hex : Bool} {p : List Char} (within : (numberTail hex false (p ++ rest)).1 + 2 ≤ p.length + 2) :
      numberTail hex false (p ++ ' ' :: rest') = numberTail hex false (p ++ rest) :=
    numberTail_append_space (Nat.le_of_add_le_add_right within) rest'
  -- The mark of a hexadecimal number belongs to it.
  have inside {x : Char} (marked : ['0', x] <+: p ++ rest) (hex : x = 'x' ∨ x = 'X') : ['0', x] <+: p := by
    refine List.prefix_of_prefix_length_le marked (List.prefix_append p rest) ?_
    obtain ⟨q, e⟩ := marked
    rw [← e] at within
    rcases hex with rfl | rfl
    · exact Nat.le_trans (Nat.le_add_left 2 _) within
    · exact Nat.le_trans (Nat.le_add_left 2 _) within
  by_cases lower : ['0', 'x'] <+: p ++ rest
  · obtain ⟨p, rfl⟩ := inside lower (.inl rfl)
    have same : numberTail true false (p ++ ' ' :: rest') = numberTail true false (p ++ rest) := tail within
    show ((numberTail true false (p ++ ' ' :: rest')).1 + 2, (numberTail true false (p ++ ' ' :: rest')).2) = _
    rw [same]
    rfl
  by_cases upper : ['0', 'X'] <+: p ++ rest
  · obtain ⟨p, rfl⟩ := inside upper (.inr rfl)
    have same : numberTail true false (p ++ ' ' :: rest') = numberTail true false (p ++ rest) := tail within
    show ((numberTail true false (p ++ ' ' :: rest')).1 + 2, (numberTail true false (p ++ ' ' :: rest')).2) = _
    rw [same]
    rfl
  have decimal := numberLength_of_decimal lower upper
  rw [decimal] at within ⊢
  rw [numberLength_of_decimal, numberTail_append_space within rest']
  · exact fun marked => lower ((prefix_of_append_space (by decide) marked).trans (List.prefix_append p rest))
  · exact fun marked => upper ((prefix_of_append_space (by decide) marked).trans (List.prefix_append p rest))

/-! ## Words and punctuation -/

theorem wordLength_append_space (within : wordLength (p ++ rest) ≤ p.length) (rest' : List Char) :
    wordLength (p ++ ' ' :: rest') = wordLength (p ++ rest) := by
  unfold wordLength at within ⊢
  rw [List.takeWhile_append] at within ⊢
  rw [List.takeWhile_append]
  split at within
  · rename_i whole
    rw [if_pos whole, if_pos whole]
    have ended : rest.takeWhile isWordPart = [] := by
      rw [List.length_append] at within
      exact List.length_eq_zero_iff.1 (by omega)
    have space : isWordPart ' ' = false := by decide
    rw [ended, List.takeWhile_cons_of_neg (by simp [space])]
  · rename_i part
    rw [if_neg part, if_neg part]

theorem punctuationLength_append_space (within : punctuationLength (p ++ rest) ≤ p.length) (rest' : List Char) :
    punctuationLength (p ++ ' ' :: rest') = punctuationLength (p ++ rest) := by
  have plain : ∀ q ∈ punctuators, ' ' ∉ q := by decide
  have begins {q : List Char} (known : q ∈ punctuators) :
      q.isPrefixOf (p ++ ' ' :: rest') → q.isPrefixOf (p ++ rest) := by
    simp only [List.isPrefixOf_iff_prefix]
    exact fun h => (prefix_of_append_space (plain q known) h).trans (List.prefix_append p rest)
  unfold punctuationLength at within ⊢
  cases found : punctuators.find? (·.isPrefixOf (p ++ rest)) with
  | some q =>
    rw [found] at within
    obtain ⟨front, before, after, e, missed⟩ := List.find?_eq_some_iff_append.1 found
    have front' : q.isPrefixOf (p ++ ' ' :: rest') := by
      rwa [isPrefixOf_append_congr within (' ' :: rest') rest]
    have found' : punctuators.find? (·.isPrefixOf (p ++ ' ' :: rest')) = some q := by
      refine List.find?_eq_some_iff_append.2 ⟨front', before, after, e, fun q' hq' => ?_⟩
      have known : q' ∈ punctuators := e ▸ List.mem_append_left _ hq'
      have missed := missed q' hq'
      simp only [Bool.not_eq_true'] at missed ⊢
      exact Bool.eq_false_iff.2 fun h => Bool.eq_false_iff.1 missed (begins known h)
    rw [found']
  | none =>
    have none : punctuators.find? (·.isPrefixOf (p ++ ' ' :: rest')) = none :=
      List.find?_eq_none.2 fun q hq h => List.find?_eq_none.1 found q hq (begins hq h)
    rw [none]

theorem lt_of_quoted {before : Nat} {quote : Char} {kind : Kind} {text : List Char}
    (h : quoted before quote text = .ok (kind, n)) : before < n := by
  unfold quoted at h
  split at h
  · cases h
    omega
  · cases h

theorem lt_of_rawQuoted {before : Nat} {kind : Kind} {text : List Char}
    (h : rawQuoted before text = .ok (kind, n)) : before < n := by
  unfold rawQuoted at h
  split at h
  · cases h
    omega
  · cases h
  · cases h

/-- A word is an identifier, or a literal that is longer than the word. -/
theorem classifyWord_cases {kind : Kind} {text : List Char} (h : classifyWord text = .ok (kind, n)) :
    (kind = .identifier ∧ n = wordLength text) ∨ wordLength text < n := by
  dsimp only [classifyWord] at h
  split at h
  · split at h
    · exact .inr (lt_of_rawQuoted h)
    · split at h
      · exact .inr (lt_of_quoted h)
      · cases h
        exact .inl ⟨rfl, rfl⟩
  · split at h
    · exact .inr (lt_of_quoted h)
    · cases h
      exact .inl ⟨rfl, rfl⟩
  · cases h
    exact .inl ⟨rfl, rfl⟩

theorem classifyWord_append_space {kind : Kind} (h : classifyWord (p ++ rest) = .ok (kind, n))
    (within : n ≤ p.length) (rest' : List Char) : classifyWord (p ++ ' ' :: rest') = .ok (kind, n) := by
  have cases := classifyWord_cases h
  have inside : wordLength (p ++ rest) ≤ p.length :=
    Nat.le_trans (cases.elim (fun word => Nat.le_of_eq word.2.symm) Nat.le_of_lt) within
  have same := wordLength_append_space inside rest'
  dsimp only [classifyWord] at h ⊢
  rw [same, List.take_append_of_le_length inside, List.drop_append_of_le_length inside]
  rw [List.take_append_of_le_length inside, List.drop_append_of_le_length inside] at h
  -- Behind the word stands the space, or what stood there before.
  cases behind : p.drop (wordLength (p ++ rest)) with
  | nil =>
    have ended : p.length ≤ wordLength (p ++ rest) := List.drop_eq_nil_iff.1 behind
    rcases cases with ⟨rfl, rfl⟩ | longer
    · rfl
    · exact absurd (Nat.lt_of_le_of_lt ended longer) (Nat.not_lt.2 within)
  | cons c more =>
    rw [behind, List.cons_append] at h
    rw [List.cons_append]
    split at h
    · rename_i double
      cases double
      split at h
      · rename_i raw
        rw [if_pos raw]
        exact rawQuoted_append h within _
      · rename_i plain
        rw [if_neg plain]
        split at h
        · rename_i marked
          rw [if_pos marked]
          exact quoted_append h within _
        · rename_i unmarked
          rw [if_neg unmarked]
          exact h
    · rename_i single
      cases single
      show (if _ then quoted _ _ _ else _) = _
      split at h
      · rename_i marked
        rw [if_pos marked]
        exact quoted_append h within _
      · rename_i unmarked
        rw [if_neg unmarked]
        exact h
    · rename_i notDouble notSingle
      split
      · rename_i double
        cases double
        exact absurd rfl (notDouble _)
      · rename_i single
        cases single
        exact absurd rfl (notSingle _)
      · exact h

/-! ## Tokens -/

/-- A dot and a digit behind it belong to the number they begin. -/
theorem two_le_numberLength_of_dot (digit : rest.head?.any isDigit) : 2 ≤ (numberLength ('.' :: rest)).1 := by
  obtain ⟨d, first, isDigit⟩ := (Option.any_eq_true _ _).1 digit
  obtain ⟨rest, rfl⟩ := List.head?_eq_some_iff.1 first
  rw [numberLength_of_decimal (by rintro ⟨_, ⟨⟩⟩) (by rintro ⟨_, ⟨⟩⟩)]
  exact Nat.succ_le_succ (numberTail_pos (.inl isDigit))

/-- A token that means something stays what it is when a space is put somewhere behind it. -/
theorem classify_append_space {atLineStart : Bool} {kind : Kind} (first : p ≠ [])
    (h : classify atLineStart (p ++ rest) = .ok (kind, n)) (within : n ≤ p.length) (significant : kind ≠ .blank)
    (rest' : List Char) : classify atLineStart (p ++ ' ' :: rest') = .ok (kind, n) := by
  obtain ⟨c, q, rfl⟩ := List.exists_cons_of_ne_nil first
  have notBlank {m : Nat} (e : (Except.ok (.blank, m) : Except LexFault (Kind × Nat)) = .ok (kind, n)) : False := by
    cases e
    exact significant rfl
  -- What follows the first character is the space only if the token has no second one.
  have next {x : Char} (plain : x ≠ ' ') : (q ++ ' ' :: rest').head? = some x → (q ++ rest).head? = some x := by
    cases q with
    | nil => exact fun e => absurd (Option.some.inj e).symm plain
    | cons => exact id
  have next' (long : 2 ≤ n) : (q ++ ' ' :: rest').head? = (q ++ rest).head? := by
    cases q with
    | nil => exact absurd (Nat.le_trans long within) (by simp)
    | cons => rfl
  have opens {x : Char} (plain : x ≠ ' ') (closed : ¬ (c = '/' && (q ++ rest).head? = some x)) :
      ¬ (c = '/' && (q ++ ' ' :: rest').head? = some x) := by
    simp only [Bool.and_eq_true, decide_eq_true_eq] at closed ⊢
    exact fun e => closed (e.imp_right (next plain))
  rw [List.cons_append, classify] at h ⊢
  by_cases space : isSpace c
  · rw [if_pos space] at h
    exact (notBlank h).elim
  rw [if_neg space] at h ⊢
  by_cases lineComment : c = '/' && (q ++ rest).head? = some '/'
  · rw [if_pos lineComment] at h
    exact (notBlank h).elim
  rw [if_neg lineComment] at h
  rw [if_neg (opens (by decide) lineComment)]
  by_cases blockComment : c = '/' && (q ++ rest).head? = some '*'
  · rw [if_pos blockComment] at h
    split at h
    · exact (notBlank h).elim
    · cases h
  rw [if_neg blockComment] at h
  rw [if_neg (opens (by decide) blockComment)]
  by_cases directive : c = '#' && atLineStart
  · rw [if_pos directive] at h
    exact (notBlank h).elim
  rw [if_neg directive] at h ⊢
  by_cases word : isWordStart c
  · rw [if_pos word] at h ⊢
    exact classifyWord_append_space h within rest'
  rw [if_neg word] at h ⊢
  by_cases number : isDigit c || (c = '.' && (q ++ rest).head?.any isDigit)
  · rw [if_pos number] at h
    obtain ⟨rfl, rfl⟩ := Prod.mk.inj (Except.ok.inj h)
    rw [← List.cons_append] at within next'
    rw [if_pos, ← List.cons_append, numberLength_append_space within]
    · rfl
    · rw [Bool.or_eq_true, Bool.and_eq_true, decide_eq_true_eq] at number ⊢
      refine number.imp_right ?_
      rintro ⟨dot, digit⟩
      refine ⟨dot, ?_⟩
      rw [next' (dot ▸ two_le_numberLength_of_dot digit)]
      exact digit
  have number' : ¬ (isDigit c || (c = '.' && (q ++ ' ' :: rest').head?.any isDigit)) := by
    rw [Bool.or_eq_true, Bool.and_eq_true, decide_eq_true_eq] at number ⊢
    refine fun digits => number (digits.imp_right ?_)
    rintro ⟨dot, digit⟩
    refine ⟨dot, ?_⟩
    obtain ⟨d, behind, isDigit⟩ := (Option.any_eq_true _ _).1 digit
    have plain : d ≠ ' ' := by
      rintro rfl
      cases isDigit
    rw [Option.mem_def.1 (next plain behind)]
    exact isDigit
  rw [if_neg number] at h
  rw [if_neg number']
  by_cases double : c = '"'
  · rw [if_pos double] at h ⊢
    exact quoted_append h within _
  rw [if_neg double] at h ⊢
  by_cases single : c = '\''
  · rw [if_pos single] at h ⊢
    exact quoted_append h within _
  rw [if_neg single] at h ⊢
  obtain ⟨rfl, rfl⟩ := Prod.mk.inj (Except.ok.inj h)
  rw [← List.cons_append] at within
  rw [← List.cons_append, punctuationLength_append_space within]
  rfl

end Reflection.Source
