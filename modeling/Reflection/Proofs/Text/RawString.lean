import Mathlib.Data.List.TakeWhile
import Mathlib.Order.MinMax
import Reflection.Text.RawString
/-!
# Raw string literals hold their text

A raw string literal goes on to the first quote that has as many hash signs behind it as stand in front
of the text (`Quotes`). The literal for a text has just enough of them: no quote in the text is followed
by that many, and fewer would not do (`lt_hashes_iff`), so what is read is the text (`quotes_write_iff`).
-/

namespace Reflection.Text.RawString

variable {n : Nat} {c : Char} {text text' source after after' rest : List Char}

/-! ## Hash signs -/

theorem le_leadingHashes_iff : n ≤ leadingHashes text ↔ ∃ after, text = List.replicate n '#' ++ after := by
  induction n generalizing text with
  | zero => simp
  | succ n ih =>
    cases text with
    | nil => simp [leadingHashes]
    | cons c text =>
      by_cases sign : c = '#'
      · have more : leadingHashes (c :: text) = leadingHashes text + 1 := by simp [leadingHashes, sign]
        rw [more, Nat.add_le_add_iff_right, ih]
        simp [List.replicate_succ, sign]
      · simp [leadingHashes, sign, List.replicate_succ]

theorem leadingHashes_replicate_append (h : rest.head? ≠ some '#') :
    leadingHashes (List.replicate n '#' ++ rest) = n := by
  have stops : rest.takeWhile (· = '#') = [] := by
    cases rest with
    | nil => rfl
    | cons c rest =>
      have other : c ≠ '#' := by simpa using h
      simp [other]
  simp [leadingHashes, stops]

/-- What stands behind a quote is not looked at. -/
theorem leadingHashes_append_quote : leadingHashes (text ++ '"' :: rest) = leadingHashes text := by
  induction text with
  | nil => simp [leadingHashes]
  | cons c text ih =>
    rw [leadingHashes, leadingHashes] at ih
    by_cases sign : c = '#' <;> simp [leadingHashes, sign, ih]

theorem mem_hashesAfterQuotes :
    n ∈ hashesAfterQuotes text ↔ ∃ before behind, text = before ++ '"' :: behind ∧ n = leadingHashes behind := by
  induction text with
  | nil => simp [hashesAfterQuotes]
  | cons c text ih =>
    have split : (∃ before behind, c :: text = before ++ '"' :: behind ∧ n = leadingHashes behind) ↔
        (c = '"' ∧ n = leadingHashes text) ∨
          ∃ before behind, text = before ++ '"' :: behind ∧ n = leadingHashes behind := by
      constructor
      · rintro ⟨_ | ⟨_, before⟩, behind, same, rfl⟩
        · cases same
          exact .inl ⟨rfl, rfl⟩
        · cases same
          exact .inr ⟨before, behind, rfl, rfl⟩
      · rintro (⟨rfl, rfl⟩ | ⟨before, behind, rfl, rfl⟩)
        · exact ⟨[], text, rfl, rfl⟩
        · exact ⟨c :: before, behind, rfl, rfl⟩
    rw [split, ← ih, hashesAfterQuotes]
    split <;> simp [*]

theorem le_foldr_max_iff {ns : List Nat} : n ≤ ns.foldr max 0 ↔ n = 0 ∨ ∃ k ∈ ns, n ≤ k := by
  induction ns with
  | nil => simp
  | cons k ns ih =>
    rw [List.foldr_cons, le_max_iff, ih]
    simp only [List.mem_cons, exists_eq_or_imp]
    exact or_left_comm

/-! ## The rule of raw string literals -/

/-- A quote with `n` hash signs behind it stands in `source` between `text` and `after`. -/
def Closes (n : Nat) (source text after : List Char) : Prop :=
  source = text ++ '"' :: (List.replicate n '#' ++ after)

theorem exists_closes_iff :
    (∃ before after, Closes n text before after) ↔ ∃ k ∈ hashesAfterQuotes text, n ≤ k := by
  constructor
  · rintro ⟨before, after, rfl⟩
    exact ⟨_, mem_hashesAfterQuotes.2 ⟨before, _, rfl, rfl⟩, le_leadingHashes_iff.2 ⟨after, rfl⟩⟩
  · rintro ⟨k, hk, le⟩
    obtain ⟨before, behind, rfl, rfl⟩ := mem_hashesAfterQuotes.1 hk
    obtain ⟨after, rfl⟩ := le_leadingHashes_iff.1 le
    exact ⟨before, after, rfl⟩

/-- A number of hash signs is too small for a text just if a quote in it is followed by as many. -/
theorem lt_hashes_iff (some : 0 < n) : n < hashes text ↔ ∃ before after, Closes n text before after := by
  rw [hashes, Nat.lt_succ_iff, le_foldr_max_iff, exists_closes_iff]
  exact or_iff_right (Nat.ne_of_gt some)

/-- A source starts with the raw string literal of a text: the letter, hash signs and a quote, and then the
text up to the first quote with as many hash signs behind it. -/
def Quotes (source text after : List Char) : Prop :=
  ∃ n body, source = 'r' :: (List.replicate n '#' ++ '"' :: body) ∧ Closes n body text after ∧
    ∀ text' after', Closes n body text' after' → text.length ≤ text'.length

/-- The first quote with the hash signs of a text behind it is the one behind the text. -/
theorem length_le_of_closes
    (closes : Closes (hashes text) (text ++ '"' :: (List.replicate (hashes text) '#' ++ rest)) text' after) :
    text.length ≤ text'.length := by
  rcases List.append_eq_append_iff.1 closes with ⟨more, rfl, -⟩ | ⟨inside, split, same⟩
  · simp
  · cases inside with
    | nil => simp [split]
    | cons c behind =>
      -- A quote inside the text would be followed by as many hash signs as mark the end of it.
      rw [List.cons_append, List.cons.injEq] at same
      obtain ⟨rfl, same⟩ := same
      have enough : hashes text ≤ leadingHashes (behind ++ '"' :: (List.replicate (hashes text) '#' ++ rest)) :=
        le_leadingHashes_iff.2 ⟨after, same.symm⟩
      rw [leadingHashes_append_quote] at enough
      obtain ⟨more, rfl⟩ := le_leadingHashes_iff.1 enough
      exact absurd ((lt_hashes_iff (Nat.succ_pos _)).2 ⟨text', more, split⟩) (Nat.lt_irrefl _)

theorem closes_unique (h : Closes n source text after) (h' : Closes n source text' after')
    (same : text.length = text'.length) : text = text' ∧ after = after' := by
  obtain ⟨rfl, behind⟩ := List.append_inj (h.symm.trans h') same
  exact ⟨rfl, List.append_cancel_left (List.cons.inj behind).2⟩

/-- A source quotes one text at most. -/
theorem Quotes.unique (h : Quotes source text after) (h' : Quotes source text' after') :
    text = text' ∧ after = after' := by
  obtain ⟨n, body, rfl, closes, first⟩ := h
  obtain ⟨n', body', same, closes', first'⟩ := h'
  have marks := (List.cons.inj same).2
  have count := congrArg leadingHashes marks
  rw [leadingHashes_replicate_append (by simp), leadingHashes_replicate_append (by simp)] at count
  subst count
  cases List.append_cancel_left marks
  exact closes_unique closes closes' (Nat.le_antisymm (first _ _ closes') (first' _ _ closes))

theorem quotes_write (text rest : List Char) : Quotes (write text ++ rest) text rest :=
  ⟨hashes text, text ++ '"' :: (List.replicate (hashes text) '#' ++ rest), by simp [write], rfl,
    fun _ _ => length_le_of_closes⟩

/-- The literal of a text is read as this text, whatever stands behind it. -/
theorem quotes_write_iff : Quotes (write text ++ rest) text' after ↔ text' = text ∧ after = rest := by
  constructor
  · exact fun h => h.unique (quotes_write text rest)
  · rintro ⟨rfl, rfl⟩
    exact quotes_write text' after

/-! ## The reader -/

/-- The body of a literal is read up to the first quote that closes it. -/
theorem readBody?_eq_some_iff : readBody? n source = some (text, after) ↔
    Closes n source text after ∧ ∀ text' after', Closes n source text' after' → text.length ≤ text'.length := by
  induction source generalizing text with
  | nil => simp [readBody?, Closes]
  | cons c source ih =>
    have closes_nil (after : List Char) : Closes n (c :: source) [] after ↔
        c = '"' ∧ source = List.replicate n '#' ++ after := by simp [Closes]
    have closes_cons (d : Char) (text after : List Char) :
        Closes n (c :: source) (d :: text) after ↔ c = d ∧ Closes n source text after := by simp [Closes]
    rw [readBody?]
    by_cases here : c = '"' ∧ n ≤ leadingHashes source
    · obtain ⟨rfl, enough⟩ := here
      obtain ⟨behind, rfl⟩ := le_leadingHashes_iff.1 enough
      have first : Closes n ('"' :: (List.replicate n '#' ++ behind)) [] behind := rfl
      rw [if_pos (by simpa using enough), List.drop_left' (List.length_replicate ..)]
      constructor
      · rintro ⟨⟩
        exact ⟨first, by simp⟩
      · rintro ⟨closes, least⟩
        have none := List.length_eq_zero_iff.1 (Nat.le_zero.1 (least _ _ first))
        obtain ⟨rfl, rfl⟩ := closes_unique first closes (by rw [none])
        rfl
    · have later : ∀ text after, Closes n (c :: source) text after →
          ∃ more, text = c :: more ∧ Closes n source more after := by
        rintro (_ | ⟨d, more⟩) after closes
        · obtain ⟨quote, marks⟩ := (closes_nil after).1 closes
          exact absurd ⟨quote, le_leadingHashes_iff.2 ⟨after, marks⟩⟩ here
        · obtain ⟨rfl, inside⟩ := (closes_cons d more after).1 closes
          exact ⟨more, rfl, inside⟩
      rw [if_neg (by simpa using here), Option.map_eq_some_iff]
      constructor
      · rintro ⟨⟨more, behind⟩, read, ⟨⟩⟩
        obtain ⟨inside, least⟩ := ih.1 read
        refine ⟨(closes_cons ..).2 ⟨rfl, inside⟩, fun text' after' closes' => ?_⟩
        obtain ⟨more', rfl, later'⟩ := later _ _ closes'
        exact Nat.succ_le_succ (least _ _ later')
      · rintro ⟨closes, least⟩
        obtain ⟨more, rfl, inside⟩ := later _ _ closes
        refine ⟨(more, after), ih.2 ⟨inside, fun text' after' closes' => ?_⟩, rfl⟩
        exact Nat.le_of_succ_le_succ (least _ _ ((closes_cons ..).2 ⟨rfl, closes'⟩))

/-- The reader follows the rule. -/
theorem read?_eq_some_iff : read? source = some (text, after) ↔ Quotes source text after := by
  constructor
  · intro read
    unfold read? at read
    split at read
    · rename_i rest
      split at read
      · rename_i body behind
        obtain ⟨closes, least⟩ := readBody?_eq_some_iff.1 read
        refine ⟨leadingHashes rest, body, ?_, closes, least⟩
        have marks : rest.takeWhile (· = '#') = List.replicate (leadingHashes rest) '#' :=
          List.eq_replicate_of_mem fun c hc => by simpa using List.mem_takeWhile_imp hc
        rw [← marks, ← behind, List.takeWhile_append_dropWhile]
      · cases read
    · cases read
  · rintro ⟨n, body, rfl, closes⟩
    have behind : (List.replicate n '#' ++ '"' :: body).dropWhile (· = '#') = '"' :: body := by
      rw [List.dropWhile_append_of_pos (by simp)]
      rfl
    have marks : leadingHashes (List.replicate n '#' ++ '"' :: body) = n :=
      leadingHashes_replicate_append (by simp)
    simp only [read?, behind, marks]
    exact readBody?_eq_some_iff.2 closes

end Reflection.Text.RawString
