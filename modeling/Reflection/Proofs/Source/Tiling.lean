import Reflection.Proofs.Source.Bytes
/-!
# Tokens tile their source

What the lexer yields stands in the source side by side: each token begins where the one before it
ends, and all of them together reach the end of the source or the place of the error (`Tiles`,
`tiles_items`). `tokens_tile_source` says so in terms of texts, bytes and lines, and of the calls of
`next` by which the items are had.
-/

namespace Reflection.Source

/-! ## Openings -/

/-- The beginnings of literals and comments that a fault can be about. -/
def openings : LexFault → List (List Char)
  | .unterminatedString => ([] :: encodingMarks ++ rawMarks).map (· ++ ['"'])
  | .unterminatedCharacter => ([] :: encodingMarks).map (· ++ ['\''])
  | .unterminatedComment => [['/', '*']]
  | .invalidRawString => rawMarks.map (· ++ ['"'])

/-- A literal or comment that a fault can be about begins here. -/
def Opens (fault : LexFault) (text : List Char) : Prop :=
  ∃ opening ∈ openings fault, opening <+: text

theorem opens_quoted {mark text : List Char} {quote : Char} {fault : LexFault}
    (hm : mark ∈ [] :: encodingMarks) (hq : quote = '"' ∨ quote = '\'')
    (begins : mark ++ [quote] <+: text) (h : quoted mark.length quote text = .error fault) :
    Opens fault text := by
  unfold quoted at h
  split at h
  · cases h
  · refine ⟨mark ++ [quote], ?_, begins⟩
    rcases hq with rfl | rfl
    · cases h
      exact List.mem_map_of_mem (List.mem_append_left rawMarks hm)
    · cases h
      exact List.mem_map_of_mem hm

theorem opens_rawQuoted {mark text : List Char} {fault : LexFault} (hm : mark ∈ rawMarks)
    (begins : mark ++ ['"'] <+: text) (h : rawQuoted mark.length text = .error fault) :
    Opens fault text := by
  unfold rawQuoted at h
  split at h
  · cases h
  · cases h
    exact ⟨_, List.mem_map_of_mem hm, begins⟩
  · cases h
    exact ⟨_, List.mem_map_of_mem (List.mem_append_right ([] :: encodingMarks) hm), begins⟩

theorem opens_classifyWord {text : List Char} {fault : LexFault}
    (h : classifyWord text = .error fault) : Opens fault text := by
  dsimp only [classifyWord] at h
  have begins : ∀ quote more, text.drop (wordLength text) = quote :: more →
      text.take (wordLength text) ++ [quote] <+: text := by
    intro quote more e
    refine ⟨more, ?_⟩
    rw [List.append_assoc, List.singleton_append, ← e, List.take_append_drop]
  have length : (text.take (wordLength text)).length = wordLength text :=
    List.length_take_of_le (text.takeWhile_sublist isWordPart).length_le
  split at h
  · rename_i more e
    split at h
    · rename_i raw
      exact opens_rawQuoted (List.contains_iff_mem.1 raw) (begins _ _ e) (length.symm ▸ h)
    · split at h
      · rename_i mark
        exact opens_quoted (List.mem_cons_of_mem _ (List.contains_iff_mem.1 mark)) (.inl rfl)
          (begins _ _ e) (length.symm ▸ h)
      · cases h
  · rename_i more e
    split at h
    · rename_i mark
      exact opens_quoted (List.mem_cons_of_mem _ (List.contains_iff_mem.1 mark)) (.inr rfl)
        (begins _ _ e) (length.symm ▸ h)
    · cases h
  · cases h

/-- Where no token begins there begins a literal or comment that does not end. -/
theorem opens_classify {atLineStart : Bool} {text : List Char} {fault : LexFault}
    (h : classify atLineStart text = .error fault) : Opens fault text := by
  have ne : text ≠ [] := by
    rintro rfl
    cases h
  generalize read : (Except.error fault : Except LexFault (Kind × Nat)) = result at h
  cases frontToken_of_classify ne h with
  | space | lineComment | blockComment | directive | number | mark => cases read
  | @openComment rest =>
    cases read
    exact ⟨['/', '*'], List.mem_singleton_self _, rest, rfl⟩
  | word => exact opens_classifyWord read.symm
  | @literal quote rest either =>
    have unmarked : [] ∈ [] :: encodingMarks := List.mem_cons_self
    exact opens_quoted unmarked either ⟨rest, rfl⟩ read.symm

/-! ## Tiles -/

/-- Items side by side: after `read`, they cover `rest`, or what is before the place of an error. -/
inductive Tiles : List Char → List Char → List (Except LexError Token) → Prop
  | ended (read : List Char) : Tiles read [] []
  | failed {read rest : List Char} {fault : LexFault} (opens : Opens fault rest) :
      Tiles read rest [.error ⟨fault, byteLength read⟩]
  | token {read lexeme rest : List Char} {items : List (Except LexError Token)} (kind : Kind)
      (ne : lexeme ≠ []) (later : Tiles (read ++ lexeme) rest items) :
      Tiles read (lexeme ++ rest)
        (.ok ⟨kind, String.ofList lexeme, byteLength read, 1 + lineFeeds read⟩ :: items)

/-- The walk knows the bytes and lines of what it has read. -/
structure Walk.HasRead (w : Walk) (read : List Char) : Prop where
  offset : w.offset = byteLength read
  line : w.line = 1 + lineFeeds read

/-- What is still to be yielded covers what is still to be read. -/
theorem Walk.tiles_items {w : Walk} {read : List Char} (h : w.HasRead read) :
    Tiles read w.rest w.items := by
  induction length : w.rest.length using Nat.strongRecOn generalizing w read with
  | ind n ih =>
    by_cases ended : w.rest = []
    · rw [Walk.items_of_next_none (by rw [Walk.next_of_rest_nil ended]), ended]
      exact .ended read
    · have nonempty : ¬ w.rest.isEmpty := by simpa using ended
      cases hc : classify w.atLineStart w.rest with
      | error fault =>
        have next : w.next = (some (.error ⟨fault, w.offset⟩), { w with rest := [] }) := by
          simp only [Walk.next, if_neg nonempty, hc]
        rw [Walk.items_of_next_some (by rw [next]), next,
          Walk.items_of_next_none (by rw [Walk.next_of_rest_nil rfl]), h.offset]
        exact .failed (opens_classify hc)
      | ok found =>
        obtain ⟨kind, n⟩ := found
        let after : Walk :=
          { rest := w.rest.drop n
            offset := w.offset + byteLength (w.rest.take n)
            line := w.line + lineFeeds (w.rest.take n)
            atLineStart :=
              if kind = .blank then w.atLineStart || (w.rest.take n).contains '\n' else false }
        have next : w.next =
            (some (.ok ⟨kind, String.ofList (w.rest.take n), w.offset, w.line⟩), after) := by
          simp only [Walk.next, if_neg nonempty, hc, after]
        have pos : 0 < n := classify_pos ended hc
        have read' : after.HasRead (read ++ w.rest.take n) := by
          refine ⟨?_, ?_⟩
          · rw [byteLength_append, ← h.offset]
          · rw [lineFeeds_append, ← Nat.add_assoc, ← h.line]
        have shorter : after.rest.length < w.rest.length := Walk.length_lt_of_next next
        have later := ih _ (length ▸ shorter) read' rfl
        have ne : w.rest.take n ≠ [] := fun e =>
          (List.take_eq_nil_iff.1 e).elim (Nat.ne_of_gt pos) ended
        rw [Walk.items_of_next_some (by rw [next]), next, h.offset, h.line]
        conv => arg 2; rw [← List.take_append_drop n w.rest]
        exact .token kind ne later

/-! ## Texts -/

/-- The texts of tokens, put together. -/
def joined (ts : List Token) : String :=
  String.join (ts.map (·.text))

@[simp] theorem joined_nil : joined [] = "" := rfl

@[simp] theorem joined_cons (t : Token) (ts : List Token) :
    joined (t :: ts) = t.text ++ joined ts :=
  String.join_cons

theorem byteLength_toList (s : String) : byteLength s.toList = s.utf8ByteSize := by
  have : ∀ cs, byteLength cs = String.utf8Len cs := by
    intro cs
    induction cs with
    | nil => rfl
    | cons c cs ih =>
      show c.utf8Size + byteLength cs = String.utf8Len cs + c.utf8Size
      rw [ih, Nat.add_comm]
  rw [this, ← String.utf8ByteSize_ofList, String.ofList_toList]

/-- A token stands in the source right behind the text `before`. -/
structure Token.Follows (t : Token) (before : String) : Prop where
  nonempty : t.text ≠ ""
  offset : t.offset = before.utf8ByteSize
  line : t.line = 1 + before.toList.count '\n'

/-- Tiles are tokens that follow each other, with an error where they end if something is left. -/
theorem Tiles.exists_tokens {read rest : List Char} {items : List (Except LexError Token)}
    (h : Tiles read rest items) :
    ∃ (tokens : List Token) (error : Option LexError) (left : String),
      items = tokens.map .ok ++ (error.map .error).toList ∧
      String.ofList rest = joined tokens ++ left ∧
      (error = none → left = "") ∧
      (∀ e, error = some e → e.offset = (String.ofList read ++ joined tokens).utf8ByteSize ∧
        Opens e.fault left.toList) ∧
      ∀ (before : List Token) (t : Token) (after : List Token), tokens = before ++ t :: after →
        t.Follows (String.ofList read ++ joined before) := by
  induction h with
  | ended read => exact ⟨[], none, "", rfl, rfl, fun _ => rfl, nofun, by simp⟩
  | @failed read rest fault opens =>
    refine ⟨[], some ⟨fault, byteLength read⟩, String.ofList rest, rfl, by simp, nofun, ?_, by simp⟩
    rintro e ⟨⟩
    refine ⟨?_, by simpa using opens⟩
    simp [← byteLength_toList]
  | @token read lexeme rest items kind ne later ih =>
    obtain ⟨tokens, error, left, rfl, split, all, fails, follows⟩ := ih
    rw [String.ofList_append] at fails follows
    refine ⟨⟨kind, String.ofList lexeme, byteLength read, 1 + lineFeeds read⟩ :: tokens, error, left,
      rfl, ?_, all, fun e he => ?_, fun before t after e => ?_⟩
    · rw [String.ofList_append, split, joined_cons, String.append_assoc]
    · rw [joined_cons, ← String.append_assoc]
      exact fails e he
    · cases before with
      | nil =>
        cases e
        refine ⟨by simpa using ne, ?_, ?_⟩
        · simp [← byteLength_toList]
        · simp [lineFeeds]
      | cons first before =>
        obtain ⟨rfl, rfl⟩ := List.cons.inj e
        rw [joined_cons, ← String.append_assoc]
        exact follows before t after rfl

/-! ## Places -/

/-- The bytes of a source from one place up to another. -/
def IsSlice (source : String) (first past : Nat) (text : String) : Prop :=
  String.Pos.Raw.IsValid source ⟨first⟩ ∧ String.Pos.Raw.IsValid source ⟨past⟩ ∧
    String.Pos.Raw.extract source ⟨first⟩ ⟨past⟩ = text

/-- A text behind another is cut out at the ends of characters. -/
theorem isSlice_append (before text after : String) :
    IsSlice (before ++ text ++ after) before.utf8ByteSize
      (before.utf8ByteSize + text.utf8ByteSize) text := by
  refine ⟨?_, ?_, ?_⟩
  · exact String.Pos.Raw.isValid_iff_exists_append.2
      ⟨before, text ++ after, String.append_assoc, rfl⟩
  · refine String.Pos.Raw.isValid_iff_exists_append.2 ⟨before ++ text, after, rfl, ?_⟩
    rw [String.Pos.Raw.ext_iff, String.byteIdx_rawEndPos, String.utf8ByteSize_append]
  · have := String.extract_of_valid before.toList text.toList after.toList
    simpa [← String.utf8ByteSize_ofList, String.append_assoc] using this

/-! ## Calls -/

/-- The lexer after some calls of `next`. -/
def Lexer.after (l : Lexer) : Nat → Lexer
  | 0 => l
  | n + 1 => l.next.2.after n

theorem Lexer.done_of_next_none {l : Lexer} (h : l.next.1 = none) : l.next.2.done := by
  unfold Lexer.next Lexer.step? at h ⊢
  split
  · rfl
  · rename_i more
    rw [if_neg more] at h
    split
    · rfl
    · rename_i found
      rw [found] at h
      cases h
    · rename_i kind length found
      rw [found] at h
      dsimp only at h ⊢
      cases cut : Bytes.cut? (min length l.rest.length) l.rest with
      | none => rfl
      | some text =>
        rw [cut] at h
        cases h

/-- The calls of `next` yield the items one by one, and nothing after the last. -/
theorem Lexer.next_after (l : Lexer) (n : Nat) : (l.after n).next.1 = l.items[n]? := by
  induction n generalizing l with
  | zero =>
    rw [Lexer.after]
    cases h : l.next.1 with
    | none => rw [Lexer.items_of_next_none h, List.getElem?_nil]
    | some item => rw [Lexer.items_of_next_some h, List.getElem?_cons_zero]
  | succ n ih =>
    rw [Lexer.after, ih]
    cases h : l.next.1 with
    | none =>
      have ended := Lexer.next_of_done (Lexer.done_of_next_none h)
      rw [Lexer.items_of_next_none ended, Lexer.items_of_next_none h, List.getElem?_nil, List.getElem?_nil]
    | some item => rw [Lexer.items_of_next_some h, List.getElem?_cons_succ]

theorem Lexer.AtCharacter.after {l : Lexer} (h : l.AtCharacter) (n : Nat) : (l.after n).AtCharacter := by
  induction n generalizing l with
  | zero => exact h
  | succ n ih =>
    obtain ⟨item, after, step, reached⟩ := h.step?
    refine ih ?_
    rwa [Lexer.next, step, Option.getD_some]

/-! ## Main theorem -/

/-- Every call of `next` on a source has a result: none cuts inside a character. The calls yield finitely
many items and then nothing. The items are tokens, followed by an error if not all of the source is
tokens. Together the texts of the tokens are the source, or what stands before the place of the error,
where a literal or comment begins that does not end. Each token has a text, begins where the one before it
ends, knows the line feeds before it, and is a slice of the source between two ends of characters. -/
theorem tokens_tile_source (source : String) :
    (∀ n, (((Lexer.start source).after n).step?).isSome) ∧
    ∃ (tokens : List Token) (error : Option LexError) (left : String),
      (∀ n, ((Lexer.start source).after n).next.1 =
        (tokens.map .ok ++ (error.map .error).toList)[n]?) ∧
      source = joined tokens ++ left ∧
      (error = none → left = "") ∧
      (∀ e, error = some e → e.offset = (joined tokens).utf8ByteSize ∧
        String.Pos.Raw.IsValid source ⟨e.offset⟩ ∧ Opens e.fault left.toList) ∧
      ∀ before t after, tokens = before ++ t :: after →
        t.text ≠ "" ∧ t.offset = (joined before).utf8ByteSize ∧
        t.line = 1 + (joined before).toList.count '\n' ∧
        IsSlice source t.offset (t.offset + t.text.utf8ByteSize) t.text := by
  have start : (Walk.start source).HasRead [] := ⟨rfl, rfl⟩
  obtain ⟨tokens, error, left, items, split, all, fails, follows⟩ :=
    (Walk.tiles_items start).exists_tokens
  have whole : source = joined tokens ++ left := by
    rw [← split]
    exact String.ofList_toList.symm
  simp only [String.ofList_nil, String.empty_append] at fails follows
  refine ⟨fun n => ?_, tokens, error, left, fun n => ?_, whole, all, fun e he => ?_, fun before t after ht => ?_⟩
  · have first : (Lexer.start source).AtCharacter := .inr ⟨_, lexer_start source⟩
    obtain ⟨item, after, step, -⟩ := (first.after n).step?
    rw [step]
    rfl
  · rw [Lexer.next_after, lexer_start, items_lexer, items]
  · obtain ⟨offset, opens⟩ := fails e he
    refine ⟨offset, ?_, opens⟩
    rw [offset]
    exact String.Pos.Raw.isValid_iff_exists_append.2 ⟨joined tokens, left, whole, rfl⟩
  · obtain ⟨nonempty, offset, line⟩ := follows before t after ht
    refine ⟨nonempty, offset, line, ?_⟩
    have around : source = joined before ++ t.text ++ (joined after ++ left) := by
      rw [whole, ht, joined, List.map_append, String.join_append, List.map_cons, String.join_cons]
      simp only [joined, String.append_assoc]
    rw [around, offset]
    exact isSlice_append (joined before) t.text (joined after ++ left)

end Reflection.Source
