import Mathlib.Data.List.Basic
import Reflection.Declaration.Header
import Reflection.Proofs.Checks
import Reflection.Proofs.Source.Bytes
/-!
# What readers leave

A reader leaves an end part of the tokens that it was given, and an item of a file or of a class body
takes at least one token.
-/

namespace Reflection.Declaration

open Reflection.Source

variable {endLine : Nat} {t : Token} {ts rest after : List Token}

/-! ## Texts whose characters are known -/

theorem toList_append_of {s t : String} {cs ds : List Char} (hs : s.toList = cs) (ht : t.toList = ds) :
    (s ++ t).toList = cs ++ ds := by
  rw [String.toList_append, hs, ht]

/-- The characters of a long text are better found by lemmas about it than by decoding it. -/
theorem tokens_of_toList {source : String} {chars : List Char} (h : source.toList = chars) :
    tokens source = (Walk.mk chars 0 1 true).items.mapM id := by
  rw [tokens_eq_walk, ← h]
  rfl

theorem significantTokens_of_toList {source : String} {chars : List Char} (h : source.toList = chars) :
    significantTokens source =
      ((Walk.mk chars 0 1 true).items.mapM id).map (·.filter Token.isSignificant) := by
  rw [significantTokens, tokens_of_toList h]

/-- What `parse` does with a text of these characters. -/
def parseCharacters (file : String) (chars : List Char) : Except CompileError (List ClassDeclaration) :=
  match ((Walk.mk chars 0 1 true).items.mapM id).map (·.filter Token.isSignificant) with
  | .error e => .error ⟨file, parse.lineAt e.offset chars, .lexical e⟩
  | .ok ts => (classesOfTokens ts).mapError (·.inFile file)

theorem parse_of_toList {file source : String} {chars : List Char} (h : source.toList = chars) :
    parse file source = parseCharacters file chars := by
  rw [parse, significantTokens_of_toList h, h]
  rfl

/-! ## Groups and statements -/

theorem eq_of_group {opening : Token} {g : Group} (h : group opening ts = .ok g) :
    ts = g.inside ++ g.close :: g.after := by
  unfold group at h
  split at h
  · cases h
    rename_i found
    exact eq_of_closeGroup? found
  · cases h

theorem suffix_of_group {opening : Token} {g : Group} (h : group opening ts = .ok g) : g.after <:+ ts := by
  rw [eq_of_group h]
  exact (List.suffix_cons _ _).trans (List.suffix_append _ _)

theorem suffix_of_skipStatement (h : skipStatement ts = .ok after) : after <:+ ts := by
  fun_induction skipStatement ts with
  | case1 => cases h; exact List.suffix_refl _
  | case2 t rest => cases h; exact List.suffix_cons _ _
  | case3 t rest => cases h; exact List.suffix_refl _
  | case4 t rest _ _ _ g found ih =>
    exact ((ih h).trans (suffix_of_group found)).trans (List.suffix_cons _ _)
  | case5 => cases h
  | case6 t rest _ _ _ ih => exact (ih h).trans (List.suffix_cons _ _)

theorem skipStatement_of_word (h : t.kind ≠ .punctuation) :
    skipStatement (t :: rest) = skipStatement rest := by
  have noMark : ∀ mark, t.isMark mark = false := fun mark => by simp [Token.isMark, h]
  rw [skipStatement]
  simp [opensGroup, noMark]

theorem suffix_of_skipAngles {depth : Nat} (h : skipAngles endLine depth ts = .ok after) : after <:+ ts := by
  fun_induction skipAngles endLine depth ts with
  | case1 => cases h
  | case2 depth t rest _ ih => exact (ih h).trans (List.suffix_cons _ _)
  | case3 depth t rest => cases h; exact List.suffix_cons _ _
  | case4 depth t rest _ _ _ ih => exact (ih h).trans (List.suffix_cons _ _)
  | case5 depth t rest _ _ _ g found ih =>
    exact ((ih h).trans (suffix_of_group found)).trans (List.suffix_cons _ _)
  | case6 => cases h
  | case7 depth t rest _ _ _ ih => exact (ih h).trans (List.suffix_cons _ _)

theorem suffix_of_afterTemplate (h : afterTemplate endLine ts = .ok after) : after <:+ ts := by
  unfold afterTemplate at h
  split at h
  · cases h
    exact List.suffix_refl _
  · split at h
    · exact (suffix_of_skipAngles h).trans (List.suffix_cons _ _)
    · cases h
      exact List.suffix_refl _

/-! ## Classes -/

theorem suffix_of_headName {n : HeadName} {name : Option HeadName} (h : headName n ts = .ok (name, after)) :
    after <:+ ts := by
  fun_induction headName n ts with
  | case1 => cases h; exact List.suffix_refl _
  | case2 n t rest _ _ ih => exact (ih h).trans (List.suffix_cons _ _)
  | case3 n t rest _ _ _ ih => exact (ih h).trans (List.suffix_cons _ _)
  | case4 n t rest _ _ ih => exact (ih h).trans (List.suffix_cons _ _)
  | case5 n t rest _ _ _ g found ih =>
    exact ((ih h).trans (suffix_of_group found)).trans (List.suffix_cons _ _)
  | case6 => cases h
  | case7 => cases h; exact List.suffix_refl _
  | case8 => cases h; exact List.suffix_refl _

theorem suffix_of_baseParts {e : LocatedFault} {angles : Int} {first : List Token} {later : List (List Token)}
    (h : baseParts e angles ts = .ok (first, later, after)) : after <:+ ts := by
  fun_induction baseParts e angles ts generalizing first later with
  | case1 => cases h
  | case2 => cases h; exact List.suffix_refl _
  | case3 | case6 =>
    rename_i ih
    obtain ⟨⟨first, later, after⟩, read, e⟩ := map_eq_ok_iff.1 h
    cases e
    exact (ih read).trans (List.suffix_cons _ _)
  | case4 angles t rest _ _ _ g found ih =>
    exact ((ih h).trans (suffix_of_group found)).trans (List.suffix_cons _ _)
  | case5 => cases h

/-- The opening of the body is looked for at two places, behind the name and behind the bases. -/
theorem suffix_of_opening {keyword : Token} {n : HeadName} {bases : List String} {head : Option ClassHead}
    (h : (match ts with
      | [] => pure (none, [])
      | t :: rest =>
        if !t.isMark "\x7b" then pure (none, t :: rest)
        else if n.name = "" then do
          let g ← group t rest
          pure (none, g.after)
        else pure (some ⟨n.name, n.line, bases, keyword.text = "struct"⟩, rest) :
          Except LocatedFault (Option ClassHead × List Token)) = .ok (head, after)) : after <:+ ts := by
  cases ts with
  | nil =>
    cases h
    exact List.suffix_refl _
  | cons t rest =>
    dsimp only at h
    split at h
    · cases h
      exact List.suffix_refl _
    · split at h
      · obtain ⟨g, found, e⟩ := bind_eq_ok_iff.1 h
        cases e
        exact (suffix_of_group found).trans (List.suffix_cons _ _)
      · cases h
        exact List.suffix_cons _ _

theorem suffix_of_classHead {keyword : Token} {head : Option ClassHead}
    (h : classHead keyword ts = .ok (head, after)) : after <:+ ts := by
  unfold classHead at h
  obtain ⟨⟨name, named⟩, read, h'⟩ := bind_eq_ok_iff.1 h
  refine List.IsSuffix.trans ?_ (suffix_of_headName read)
  cases name with
  | none =>
    cases h'
    exact List.suffix_refl _
  | some n =>
    cases named with
    | nil =>
      cases h'
      exact List.suffix_refl _
    | cons t rest =>
      dsimp only at h'
      split at h'
      · obtain ⟨⟨first, later, based⟩, readBases, h'⟩ := bind_eq_ok_iff.1 h'
        exact ((suffix_of_opening h').trans (suffix_of_baseParts readBases)).trans (List.suffix_cons _ _)
      · exact suffix_of_opening h'

theorem suffix_of_itemStart {start : ItemStart} (h : itemStart endLine t rest = .ok start) :
    match start with
    | .ofClass start => start.after <:+ rest
    | .ofTemplate ts => ts <:+ rest
    | .other => True := by
  unfold itemStart at h
  split at h
  · cases h
    exact List.suffix_refl _
  · split at h
    · cases found : afterTemplate endLine rest with
      | error e =>
        rw [found] at h
        cases h
      | ok ts =>
        have suffix := suffix_of_afterTemplate found
        rw [found] at h
        cases ts with
        | nil =>
          cases h
          exact suffix
        | cons u ts =>
          simp only at h
          split at h <;> cases h
          · exact (List.suffix_cons _ _).trans suffix
          · exact suffix
    · cases h
      trivial

/-! ## Members -/

/-- A member takes at least one token unless its class ends here. -/
theorem suffix_of_memberTokens {previous : Option Token} {inits : Bool} {taken : List Token}
    (h : memberTokens previous inits ts = .ok (taken, after)) :
    after <:+ ts ∧ (ts.head?.any (·.isMark "\x7d") = false → after <:+ ts.tail) := by
  have both {t : Token} {rest : List Token} (h : after <:+ rest) :
      after <:+ t :: rest ∧ ((t :: rest).head?.any (·.isMark "\x7d") = false → after <:+ rest) :=
    ⟨h.trans (List.suffix_cons _ _), fun _ => h⟩
  fun_induction memberTokens previous inits ts generalizing taken with
  | case1 =>
    cases h
    exact ⟨List.suffix_refl _, fun _ => List.suffix_refl _⟩
  | case2 =>
    cases h
    exact both (List.suffix_refl _)
  | case3 _ _ t _ _ closes =>
    cases h
    exact ⟨List.suffix_refl _, fun goesOn => by simp [closes] at goesOn⟩
  | case4 | case8 => cases h
  | case5 =>
    rename_i g found _ ih
    exact both ((ih h).1.trans (suffix_of_group found))
  | case6 =>
    rename_i g found _ next rest' e
    cases h
    refine both (List.IsSuffix.trans ?_ (e ▸ suffix_of_group found))
    split
    · exact List.suffix_cons _ _
    · exact List.suffix_refl _
  | case7 =>
    cases h
    exact both List.nil_suffix
  | case9 =>
    rename_i g found ih
    obtain ⟨⟨_, _⟩, read, e⟩ := map_eq_ok_iff.1 h
    cases e
    exact both ((ih read).1.trans (suffix_of_group found))
  | case10 =>
    rename_i ih
    obtain ⟨⟨_, _⟩, read, e⟩ := map_eq_ok_iff.1 h
    cases e
    exact both (ih read).1

theorem memberTokens_of_bodyMember {b b' : ClassBody} {kind : Option MethodKind}
    (h : bodyMember b kind ts = .ok (b', after)) : ∃ taken, memberTokens none false ts = .ok (taken, after) := by
  unfold bodyMember at h
  obtain ⟨⟨taken, left⟩, read, h'⟩ := bind_eq_ok_iff.1 h
  obtain rfl : left = after := by
    cases kind with
    | none =>
      cases h'
      rfl
    | some kind =>
      obtain ⟨f, -, h'⟩ := bind_eq_ok_iff.1 h'
      cases f <;> cases h' <;> rfl
  exact ⟨taken, read⟩

theorem suffix_of_bodyMember {b b' : ClassBody} {kind : Option MethodKind}
    (h : bodyMember b kind ts = .ok (b', after)) :
    after <:+ ts ∧ (ts.head?.any (·.isMark "\x7d") = false → after <:+ ts.tail) := by
  obtain ⟨taken, read⟩ := memberTokens_of_bodyMember h
  exact suffix_of_memberTokens read

theorem suffix_of_expectMark {mark : String} (h : expectMark endLine mark ts = .ok after) : after <:+ ts := by
  cases ts with
  | nil => cases h
  | cons t rest =>
    by_cases here : t.isMark mark
    · rw [expectMark, if_pos here] at h
      cases h
      exact List.suffix_cons _ _
    · rw [expectMark, if_neg here] at h
      cases h

theorem suffix_of_markerArguments {marker : Token} {g : Group} (h : markerArguments marker ts = .ok g) :
    g.after <:+ ts := by
  cases ts with
  | nil => cases h
  | cons t rest =>
    by_cases here : t.isMark "("
    · rw [markerArguments, if_pos here] at h
      exact (suffix_of_group h).trans (List.suffix_cons _ _)
    · rw [markerArguments, if_neg here] at h
      cases h

theorem suffix_of_enumHead (ts : List Token) : (enumHead ts).after <:+ ts := by
  have dropped : ∀ (c : Bool) (ts : List Token), (if c then ts.drop 1 else ts) <:+ ts := fun c ts => by
    cases c
    · exact List.suffix_refl _
    · exact List.drop_suffix _ _
  unfold enumHead
  dsimp only
  have scope := dropped (ts.head?.any isClassWord) ts
  generalize (if ts.head?.any isClassWord then ts.drop 1 else ts) = named at scope ⊢
  have name := dropped (named.head?.any (·.kind = .identifier)) named
  generalize (if named.head?.any (·.kind = .identifier) then named.drop 1 else named) = based at name ⊢
  refine List.IsSuffix.trans ?_ (name.trans scope)
  split
  · exact (List.dropWhile_suffix _).trans (List.drop_suffix _ _)
  · exact List.suffix_refl _

theorem suffix_of_enumeration? {line : Nat} {earlier : List EnumDeclaration} {e : Option EnumDeclaration}
    (h : enumeration? line earlier ts = .ok (e, after)) : after <:+ ts := by
  unfold enumeration? at h
  refine List.IsSuffix.trans ?_ (suffix_of_enumHead ts)
  dsimp only at h
  cases head : (enumHead ts).after with
  | nil =>
    rw [head] at h
    cases h
    exact List.suffix_refl _
  | cons opening rest =>
    rw [head] at h
    dsimp only at h
    split at h
    · obtain ⟨left, skipped, e⟩ := bind_eq_ok_iff.1 h
      cases e
      exact suffix_of_skipStatement skipped
    · obtain ⟨body, found, h⟩ := bind_eq_ok_iff.1 h
      obtain ⟨left, skipped, h⟩ := bind_eq_ok_iff.1 h
      obtain ⟨keys, -, h⟩ := bind_eq_ok_iff.1 h
      have same : left = after := by
        split at h <;> cases h <;> rfl
      subst same
      exact ((suffix_of_skipStatement skipped).trans (suffix_of_group found)).trans (List.suffix_cons _ _)

/-! ## Items of a body -/

/-- What has been read of a class stays, and more comes after it. -/
structure ClassBody.Grows (b b' : ClassBody) : Prop where
  name : b'.declaration.name = b.declaration.name
  scope : b'.declaration.scope = b.declaration.scope
  bases : b'.declaration.bases = b.declaration.bases
  line : b'.declaration.line = b.declaration.line
  methods : b.declaration.methods <+: b'.declaration.methods
  properties : b.declaration.properties <+: b'.declaration.properties
  enums : b.declaration.enums <+: b'.declaration.enums
  enumRegistrations : b.declaration.enumRegistrations <+: b'.declaration.enumRegistrations
  classInfo : b.declaration.classInfo <+: b'.declaration.classInfo
  annotated : b.annotated = true → b'.annotated = true
  nested : b.nested <+: b'.nested

theorem ClassBody.Grows.refl (b : ClassBody) : b.Grows b where
  name := rfl
  scope := rfl
  bases := rfl
  line := rfl
  methods := List.prefix_refl _
  properties := List.prefix_refl _
  enums := List.prefix_refl _
  enumRegistrations := List.prefix_refl _
  classInfo := List.prefix_refl _
  annotated := id
  nested := List.prefix_refl _

theorem ClassBody.Grows.trans {b b' b'' : ClassBody} (h : b.Grows b') (h' : b'.Grows b'') : b.Grows b'' where
  name := h'.name.trans h.name
  scope := h'.scope.trans h.scope
  bases := h'.bases.trans h.bases
  line := h'.line.trans h.line
  methods := h.methods.trans h'.methods
  properties := h.properties.trans h'.properties
  enums := h.enums.trans h'.enums
  enumRegistrations := h.enumRegistrations.trans h'.enumRegistrations
  classInfo := h.classInfo.trans h'.classInfo
  annotated := h'.annotated ∘ h.annotated
  nested := h.nested.trans h'.nested

theorem grows_of_bodyMember {b b' : ClassBody} {kind : Option MethodKind}
    (h : bodyMember b kind ts = .ok (b', after)) : b.Grows b' := by
  unfold bodyMember at h
  obtain ⟨⟨taken, left⟩, -, h'⟩ := bind_eq_ok_iff.1 h
  cases kind with
  | none =>
    cases h'
    exact .refl b
  | some kind =>
    obtain ⟨f, -, h'⟩ := bind_eq_ok_iff.1 h'
    cases f <;> cases h'
    · exact .refl b
    · exact { ClassBody.Grows.refl b with methods := List.prefix_append _ _ }

/-- What an item that is no member leaves of the tokens behind its first one. -/
inductive ItemLeaves (endLine : Nat) (t : Token) (rest : List Token) : List Token → Prop
  | semicolon (ends : t.isMark ";") : ItemLeaves endLine t rest rest
  | group {g : Group} (opens : t.isMark "\x7b" || t.isMark "[") (found : group t rest = .ok g) :
      ItemLeaves endLine t rest g.after
  | label {after : List Token} (word : t.kind = .identifier) (read : expectMark endLine ":" rest = .ok after) :
      ItemLeaves endLine t rest after
  | slotsLabel {after : List Token} (word : t.kind = .identifier) (slots : rest.head?.any isSlotsWord)
      (read : expectMark endLine ":" (rest.drop 1) = .ok after) : ItemLeaves endLine t rest after
  | object (word : t.kind = .identifier) :
      ItemLeaves endLine t rest (if rest.head?.any (·.isMark ";") then rest.drop 1 else rest)
  | arguments {g : Group} (word : t.kind = .identifier) (found : markerArguments t rest = .ok g) :
      ItemLeaves endLine t rest g.after
  | marker (word : t.kind = .identifier) : ItemLeaves endLine t rest rest
  | enumeration {line : Nat} {earlier : List EnumDeclaration} {e : Option EnumDeclaration} {after : List Token}
      (word : t.isWord "enum") (read : enumeration? line earlier rest = .ok (e, after)) :
      ItemLeaves endLine t rest after
  | statement {after : List Token} (word : t.kind = .identifier) (skipped : skipStatement rest = .ok after) :
      ItemLeaves endLine t rest after

theorem ItemLeaves.suffix (h : ItemLeaves endLine t rest after) : after <:+ rest := by
  cases h with
  | semicolon | marker => exact List.suffix_refl _
  | object =>
    split
    · exact List.drop_suffix _ _
    · exact List.suffix_refl _
  | label _ read => exact suffix_of_expectMark read
  | slotsLabel _ _ read => exact (suffix_of_expectMark read).trans (List.drop_suffix _ _)
  | group _ found => exact suffix_of_group found
  | arguments _ found => exact suffix_of_markerArguments found
  | enumeration _ read => exact suffix_of_enumeration? read
  | statement _ skipped => exact suffix_of_skipStatement skipped

/-- An item is a member, or it leaves the functions and the nested classes that have been read. It leaves
the notes too unless it is one. -/
theorem bodyItem_cases {b b' : ClassBody} (h : bodyItem endLine b t rest = .ok (b', after)) :
    (∃ kind, bodyMember { b with marker := none } kind (t :: rest) = .ok (b', after)) ∨
      (b.Grows b' ∧ ItemLeaves endLine t rest after ∧
        b'.declaration.methods = b.declaration.methods ∧ b'.nested = b.nested ∧
        (t.text ≠ "H_CLASSINFO" → b'.declaration.classInfo = b.declaration.classInfo)) := by
  -- The kinds of items in the order in which the reader tries them.
  have refl := ClassBody.Grows.refl b
  unfold bodyItem at h
  extract_lets d at h
  by_cases semicolon : t.isMark ";"
  · rw [if_pos semicolon] at h
    cases h
    exact .inr ⟨refl, .semicolon semicolon, rfl, rfl, fun _ => rfl⟩
  rw [if_neg semicolon] at h
  by_cases grouped : t.isMark "\x7b" || t.isMark "["
  · rw [if_pos grouped] at h
    obtain ⟨g, found, h'⟩ := bind_eq_ok_iff.1 h
    cases h'
    exact .inr ⟨refl, .group grouped found, rfl, rfl, fun _ => rfl⟩
  rw [if_neg grouped] at h
  by_cases word : t.kind ≠ .identifier
  · rw [if_pos word] at h
    exact .inl ⟨_, h⟩
  rw [if_neg word] at h
  rw [not_not] at word
  cases label : accessOf? t.text with
  | some access =>
    rw [label] at h
    obtain ⟨left, found, h'⟩ := bind_eq_ok_iff.1 h
    cases h'
    refine .inr ⟨{ refl with }, ?_, rfl, rfl, fun _ => rfl⟩
    by_cases slots : rest.head?.any isSlotsWord
    · rw [if_pos slots] at found
      exact .slotsLabel word slots found
    · rw [if_neg slots] at found
      exact .label word found
  | none =>
  rw [label] at h
  dsimp only at h
  by_cases signals : isSignalsWord t
  · rw [if_pos signals] at h
    obtain ⟨left, found, h'⟩ := bind_eq_ok_iff.1 h
    cases h'
    exact .inr ⟨{ refl with }, .label word found, rfl, rfl, fun _ => rfl⟩
  rw [if_neg signals] at h
  by_cases slots : isSlotsWord t
  · rw [if_pos slots] at h
    obtain ⟨left, found, h'⟩ := bind_eq_ok_iff.1 h
    cases h'
    exact .inr ⟨{ refl with }, .label word found, rfl, rfl, fun _ => rfl⟩
  rw [if_neg slots] at h
  by_cases object : t.text = "H_OBJECT"
  · rw [if_pos object] at h
    cases h
    exact .inr ⟨{ refl with annotated := fun _ => rfl }, .object word, rfl, rfl, fun _ => rfl⟩
  rw [if_neg object] at h
  by_cases property_ : t.text = "H_PROPERTY"
  · rw [if_pos property_] at h
    obtain ⟨g, found, h'⟩ := bind_eq_ok_iff.1 h
    obtain ⟨p, -, h'⟩ := bind_eq_ok_iff.1 h'
    cases h'
    exact .inr ⟨{ refl with properties := List.prefix_append _ _ }, .arguments word found, rfl, rfl, fun _ => rfl⟩
  rw [if_neg property_] at h
  by_cases registration : t.text = "H_ENUM" || t.text = "H_FLAG"
  · rw [if_pos registration] at h
    obtain ⟨g, found, h'⟩ := bind_eq_ok_iff.1 h
    split at h'
    · split at h'
      · cases h'
      · cases h'
        exact .inr ⟨{ refl with enumRegistrations := List.prefix_append _ _ }, .arguments word found, rfl, rfl,
          fun _ => rfl⟩
    · cases h'
  rw [if_neg registration] at h
  by_cases info : t.text = "H_CLASSINFO"
  · rw [if_pos info] at h
    obtain ⟨g, found, h'⟩ := bind_eq_ok_iff.1 h
    split at h'
    · split at h'
      · cases h'
      · cases h'
        exact .inr ⟨{ refl with classInfo := List.prefix_append _ _ }, .arguments word found, rfl, rfl, absurd info⟩
    · cases h'
  rw [if_neg info] at h
  cases marker : markedKind? t.text with
  | some kind =>
    rw [marker] at h
    cases h
    exact .inr ⟨{ refl with }, .marker word, rfl, rfl, fun _ => rfl⟩
  | none =>
  rw [marker] at h
  dsimp only at h
  by_cases enumeration : t.text = "enum"
  · rw [if_pos enumeration] at h
    obtain ⟨⟨e, left⟩, found, h'⟩ := bind_eq_ok_iff.1 h
    cases h'
    have isEnum : t.isWord "enum" := by simp [Token.isWord, word, enumeration]
    exact .inr ⟨{ refl with enums := List.prefix_append _ _ }, .enumeration isEnum found, rfl, rfl, fun _ => rfl⟩
  rw [if_neg enumeration] at h
  by_cases skipped : skippedWords.contains t.text
  · rw [if_pos skipped] at h
    obtain ⟨left, found, h'⟩ := bind_eq_ok_iff.1 h
    cases h'
    rw [skipStatement_of_word (by simp [word])] at found
    exact .inr ⟨{ refl with }, .statement word found, rfl, rfl, fun _ => rfl⟩
  · rw [if_neg skipped] at h
    exact .inl ⟨_, h⟩

/-- An item takes a token at least, and what has been read stays. -/
theorem bodyItem_eq_ok {b b' : ClassBody} (goesOn : t.isMark "\x7d" = false)
    (h : bodyItem endLine b t rest = .ok (b', after)) : b.Grows b' ∧ after <:+ rest := by
  rcases bodyItem_cases h with ⟨kind, member⟩ | ⟨grows, leaves, -⟩
  · exact ⟨{ grows_of_bodyMember member with }, (suffix_of_bodyMember member).2 (by simpa using goesOn)⟩
  · exact ⟨grows, leaves.suffix⟩

end Reflection.Declaration
