import Reflection.Proofs.Declaration.Members
/-!
# Templates of classes

A class template cannot be annotated: where the reader comes to one and finds the marker in its body, it
refuses the file (`annotated_templates_are_refused`). What is written of it may be any parameters with
matching angle brackets, any attributes and names and any bases; but a name with template arguments of its
own ends the head for the reader, and what follows is not seen as a template any more
(`specializations_are_lost`).
-/

namespace Reflection.Declaration

open Reflection.Source

/-! ## What is written -/

/-- Tokens in round, square or curly brackets. -/
structure WrittenGroup (shapes : List (String × String)) where
  left : String
  right : String
  shape : (left, right) ∈ shapes
  opening : Mark left
  inside : List Token
  balanced : Balanced inside
  closing : Mark right

def WrittenGroup.tokens {shapes : List (String × String)} (g : WrittenGroup shapes) : List Token :=
  g.opening.token :: (g.inside ++ [g.closing.token])

/-- The brackets that are matched by their shape. -/
def bracketShapes : List (String × String) :=
  [("(", ")"), ("[", "]"), ("\x7b", "\x7d")]

/-- Template parameters: tokens, groups in brackets, and lists in angle brackets of their own. -/
inductive Angled : List Token → Prop
  | nil : Angled []
  | token {t : Token} {ts : List Token} (plain : ∀ mark ∈ ["(", "[", "\x7b", "<", ">"], t.isMark mark = false)
      (others : Angled ts) : Angled (t :: ts)
  | group {ts : List Token} (g : WrittenGroup bracketShapes) (others : Angled ts) : Angled (g.tokens ++ ts)
  | angles {ts us : List Token} (opening : Mark "<") (inner : Angled ts) (closing : Mark ">")
      (others : Angled us) : Angled (opening.token :: (ts ++ closing.token :: us))

/-- Bases: outside angle brackets they go on up to a curly bracket or a semicolon. Round groups and angle
brackets match. -/
inductive BaseList : Bool → List Token → Prop
  | nil {within : Bool} : BaseList within []
  | token {within : Bool} {t : Token} {ts : List Token} (plain : ∀ mark ∈ ["(", "<", ">"], t.isMark mark = false)
      (goesOn : within = false → t.isMark "\x7b" = false ∧ t.isMark ";" = false) (others : BaseList within ts) :
      BaseList within (t :: ts)
  | group {within : Bool} {ts : List Token} (g : WrittenGroup [("(", ")")]) (others : BaseList within ts) :
      BaseList within (g.tokens ++ ts)
  | angles {within : Bool} {ts us : List Token} (opening : Mark "<") (inner : BaseList true ts)
      (closing : Mark ">") (others : BaseList within us) :
      BaseList within (opening.token :: (ts ++ closing.token :: us))

/-- A part of a class head in front of its bases. -/
inductive HeadPart where
  | word (name : Name [])
  | colons (mark : Mark "::")
  | group (g : WrittenGroup [("(", ")"), ("[", "]")])

def HeadPart.tokens : HeadPart → List Token
  | .word name => [name.token]
  | .colons mark => [mark.token]
  | .group g => g.tokens

/-- The template of a class up to the bracket that opens the body of the class. -/
structure WrittenTemplate where
  template : Word ["template"]
  opening : Mark "<"
  parameters : List Token
  angled : Angled parameters
  closing : Mark ">"
  keyword : Word ["class", "struct"]
  parts : List HeadPart
  named : ∃ name, .word name ∈ parts ∧ name.text ≠ "final"
  colon : Option (Mark ":")
  bases : List Token
  listed : BaseList false bases
  unbased : colon = none → bases = []
  body : Mark "\x7b"

/-- The tokens of the class after its keyword. -/
def WrittenTemplate.head (w : WrittenTemplate) : List Token :=
  w.parts.flatMap (·.tokens) ++ (Mark.tokens? w.colon ++ w.bases)

def WrittenTemplate.tokens (w : WrittenTemplate) : List Token :=
  w.template.token :: w.opening.token :: (w.parameters ++ w.closing.token :: w.keyword.token ::
    (w.head ++ [w.body.token]))

/-! ## Reading heads -/

variable {endLine : Nat} {rest : List Token}

theorem WrittenGroup.group {shapes : List (String × String)} (g : WrittenGroup shapes)
    (known : shapes ⊆ bracketShapes) (rest : List Token) :
    Declaration.group g.opening.token (g.inside ++ g.closing.token :: rest) =
      .ok ⟨g.inside, g.closing.token, rest⟩ :=
  group_of_balanced g.balanced (known g.shape) g.opening.isMark g.closing.isMark rest

theorem WrittenGroup.tokens_append {shapes : List (String × String)} (g : WrittenGroup shapes) (ts : List Token) :
    g.tokens ++ ts = g.opening.token :: (g.inside ++ g.closing.token :: ts) := by
  simp [tokens]

theorem WrittenGroup.left_cases (g : WrittenGroup bracketShapes) :
    g.left = "(" ∨ g.left = "[" ∨ g.left = "\x7b" := by
  have shape := g.shape
  simp only [bracketShapes, List.mem_cons, List.not_mem_nil, or_false, Prod.mk.injEq] at shape
  exact shape.imp And.left (Or.imp And.left And.left)

theorem skipAngles_angled {ts : List Token} (h : Angled ts) {depth : Nat} (within : 0 < depth) :
    skipAngles endLine depth (ts ++ rest) = skipAngles endLine depth rest := by
  induction h generalizing depth rest with
  | nil => rfl
  | @token t ts plain _ ih =>
    simp only [List.mem_cons, List.not_mem_nil, or_false, forall_eq_or_imp, forall_eq] at plain
    obtain ⟨round, square, curly, opens, closes⟩ := plain
    rw [List.cons_append, skipAngles]
    simp [opensGroup, round, square, curly, opens, closes, ih within]
  | @group ts g _ ih =>
    have grouped := g.group (List.Subset.refl _) (ts ++ rest)
    have marks : g.opening.token.isMark "<" = false ∧ g.opening.token.isMark ">" = false ∧
        opensGroup g.opening.token := by
      rcases g.left_cases with left | left | left <;> simp [opensGroup, left]
    rw [List.append_assoc, g.tokens_append, skipAngles, if_neg (by simp only [marks.1]; decide),
      if_neg (by simp only [marks.2.1]; decide), if_pos marks.2.2]
    split
    · rename_i g' found
      cases grouped.symm.trans found
      exact ih within
    · rename_i failed
      cases grouped.symm.trans failed
  | @angles ts us opening _ closing _ ihInner ih =>
    rw [List.cons_append, List.append_assoc, List.cons_append, skipAngles, if_pos opening.isMark,
      ihInner (Nat.succ_pos _), skipAngles, if_neg (by simp), if_pos closing.isMark, if_neg (by omega)]
    exact ih within

/-- What follows a list of bases does not depend on the bases. -/
theorem baseParts_listed {within : Bool} {ts : List Token} (h : BaseList within ts) {e : LocatedFault}
    {angles : Int} (deep : if within then 0 < angles else angles = 0) :
    (baseParts e angles (ts ++ rest)).map (·.2.2) = (baseParts e angles rest).map (·.2.2) := by
  have forget {x : Except LocatedFault (List Token × List (List Token) × List Token)}
      {f : List Token × List (List Token) × List Token → List Token × List (List Token) × List Token}
      (keeps : ∀ p, (f p).2.2 = p.2.2) : (x.map f).map (·.2.2) = x.map (·.2.2) := by
    cases x with
    | error => rfl
    | ok p => exact congrArg Except.ok (keeps p)
  induction h generalizing angles rest with
  | nil => rfl
  | @token within t ts plain goesOn _ ih =>
    simp only [List.mem_cons, List.not_mem_nil, or_false, forall_eq_or_imp, forall_eq] at plain
    obtain ⟨round, opens, closes⟩ := plain
    have goesOn : (angles = 0 && (t.isMark "\x7b" || t.isMark ";")) = false := by
      cases within with
      | false => simp [goesOn rfl]
      | true =>
        have : angles ≠ 0 := by
          have : 0 < angles := deep
          omega
        simp [this]
    rw [List.cons_append, baseParts, if_neg (by simp [goesOn])]
    split
    · exact (forget (by exact fun _ => rfl)).trans (ih deep)
    · rw [if_neg (by simp [round])]
      simp only [opens, closes, Bool.false_eq_true, if_false]
      exact (forget (by exact fun _ => rfl)).trans (ih deep)
  | @group within ts g _ ih =>
    have round : g.left = "(" := by
      have shape := g.shape
      simp only [List.mem_singleton, Prod.mk.injEq] at shape
      exact shape.1
    have grouped := g.group (by decide) (ts ++ rest)
    rw [List.append_assoc, g.tokens_append, baseParts, if_neg (by simp [round]), if_neg (by simp [round]),
      if_pos (by simp [round])]
    split
    · rename_i g' found
      cases grouped.symm.trans found
      exact ih deep
    · rename_i failed
      cases grouped.symm.trans failed
  | @angles within ts us opening _ closing _ ihInner ih =>
    have inner : 0 < angles + 1 := by
      cases within with
      | false =>
        have : angles = 0 := deep
        omega
      | true =>
        have : 0 < angles := deep
        omega
    rw [List.cons_append, List.append_assoc, List.cons_append, baseParts, if_neg (by simp), if_neg (by simp),
      if_neg (by simp), if_pos opening.isMark]
    refine ((forget (by exact fun _ => rfl)).trans (ihInner inner)).trans ?_
    rw [baseParts, if_neg (by simp), if_neg (by simp), if_neg (by simp), if_neg (by simp), if_pos closing.isMark,
      Int.add_sub_cancel]
    exact (forget (by exact fun _ => rfl)).trans (ih deep)

/-- A head is read up to its bases or its body, and has a name if a word in it is one. -/
theorem headName_parts (parts : List HeadPart) (n : HeadName) {stop : Token}
    (stops : stop.isMark ":" ∨ stop.isMark "\x7b") (rest : List Token) :
    ∃ n', headName n (parts.flatMap (·.tokens) ++ stop :: rest) = .ok (some n', stop :: rest) ∧
      (n.name ≠ "" ∨ (∃ name, .word name ∈ parts ∧ name.text ≠ "final") → n'.name ≠ "") := by
  induction parts generalizing n with
  | nil =>
    have kind : stop.kind = .punctuation := stops.elim (fun h => (isMark_iff.1 h).1) fun h => (isMark_iff.1 h).1
    have text : stop.text = ":" ∨ stop.text = "\x7b" :=
      stops.imp (fun h => (isMark_iff.1 h).2) fun h => (isMark_iff.1 h).2
    refine ⟨n, ?_, by simp⟩
    rw [List.flatMap_nil, List.nil_append, headName]
    rcases text with text | text <;> simp [kind, text, Token.isMark]
  | cons part parts ih =>
    rw [List.flatMap_cons, List.append_assoc]
    -- A part that leaves a name leaves one for the rest, whatever stands there.
    have goOn (n₁ : HeadName) (same : headName n (part.tokens ++ (parts.flatMap (·.tokens) ++ stop :: rest)) =
          headName n₁ (parts.flatMap (·.tokens) ++ stop :: rest))
        (keeps : n.name ≠ "" ∨ (∃ name, .word name = part ∧ name.text ≠ "final") → n₁.name ≠ "") :
        ∃ n', headName n (part.tokens ++ (parts.flatMap (·.tokens) ++ stop :: rest)) =
            .ok (some n', stop :: rest) ∧
          (n.name ≠ "" ∨ (∃ name, .word name ∈ part :: parts ∧ name.text ≠ "final") → n'.name ≠ "") := by
      obtain ⟨n', read, named⟩ := ih n₁
      refine ⟨n', same.trans read, fun h => named ?_⟩
      rcases h with h | ⟨name, member, word⟩
      · exact .inl (keeps (.inl h))
      · rcases List.mem_cons.1 member with here | later
        · exact .inl (keeps (.inr ⟨name, here, word⟩))
        · exact .inr ⟨name, later, word⟩
    cases part with
    | word name =>
      by_cases final : name.token.text = "final"
      · refine goOn n ?_ ?_
        · rw [HeadPart.tokens, List.singleton_append, headName, if_pos (by simp), if_pos final]
        · rintro (named | ⟨other, same, word⟩)
          · exact named
          · cases same
            exact absurd final word
      · refine goOn ⟨if n.qualified then n.name ++ name.token.text else name.token.text,
          name.token.line, false⟩ ?_ fun _ => ?_
        · rw [HeadPart.tokens, List.singleton_append, headName, if_pos (by simp), if_neg final]
        · have named : name.token.text ≠ "" := name.text_ne_empty
          dsimp only
          split
          · simp [named]
          · exact named
    | colons mark =>
      refine goOn { n with name := n.name ++ "::", qualified := true } ?_ fun _ => by simp
      rw [HeadPart.tokens, List.singleton_append, headName, if_neg (by simp), if_pos mark.isMark]
    | group g =>
      have shape : g.left = "(" ∨ g.left = "[" := by
        have shape := g.shape
        simp only [List.mem_cons, List.not_mem_nil, or_false, Prod.mk.injEq] at shape
        exact shape.imp And.left And.left
      have grouped := g.group (by decide) (parts.flatMap (·.tokens) ++ stop :: rest)
      refine goOn n ?_ ?_
      · rw [HeadPart.tokens, g.tokens_append, headName, if_neg (by simp),
          if_neg (by rcases shape with left | left <;> simp [left]), if_pos (by rcases shape with left | left <;> simp [left])]
        split
        · rename_i g' found
          cases grouped.symm.trans found
          rfl
        · rename_i failed
          cases grouped.symm.trans failed
      · rintro (named | ⟨_, same, -⟩)
        · exact named
        · cases same

theorem baseParts_before_body {ts : List Token} (h : BaseList false ts) (e : LocatedFault) (body : Mark "\x7b")
    (rest : List Token) :
    ∃ first later, baseParts e 0 (ts ++ body.token :: rest) = .ok (first, later, body.token :: rest) := by
  have behind : (baseParts e 0 (ts ++ body.token :: rest)).map (·.2.2) = _ := baseParts_listed h rfl
  rw [baseParts, if_pos (by simp)] at behind
  obtain ⟨⟨first, later, after⟩, read, same⟩ := map_eq_ok_iff.1 behind
  obtain rfl : after = body.token :: rest := same
  exact ⟨first, later, read⟩

theorem classHead_template (w : WrittenTemplate) (rest : List Token) :
    ∃ head, classHead w.keyword.token (w.head ++ w.body.token :: rest) = .ok (some head, rest) := by
  rw [WrittenTemplate.head, List.append_assoc]
  unfold classHead
  cases based : w.colon with
  | none =>
    obtain ⟨n, read, named⟩ :=
      headName_parts w.parts ⟨"", w.keyword.token.line, false⟩ (.inr w.body.isMark) rest
    have named : n.name ≠ "" := named (.inr w.named)
    refine ⟨⟨n.name, n.line, [], w.keyword.token.text = "struct"⟩, ?_⟩
    rw [w.unbased based]
    refine bind_eq_ok_iff.2 ⟨_, read, ?_⟩
    simp [named]
    rfl
  | some colon =>
    obtain ⟨n, read, named⟩ := headName_parts w.parts ⟨"", w.keyword.token.line, false⟩ (.inl colon.isMark)
      (w.bases ++ w.body.token :: rest)
    have named : n.name ≠ "" := named (.inr w.named)
    obtain ⟨first, later, listed⟩ :=
      baseParts_before_body w.listed ⟨n.line, .unterminatedBases n.name⟩ w.body rest
    refine ⟨⟨n.name, n.line, ((first :: later).map baseText).filter (· ≠ ""),
      w.keyword.token.text = "struct"⟩, ?_⟩
    refine bind_eq_ok_iff.2 ⟨_, read, ?_⟩
    dsimp only
    rw [if_pos colon.isMark]
    refine bind_eq_ok_iff.2 ⟨_, listed, bind_eq_ok_iff.2 ⟨_, rfl, ?_⟩⟩
    simp [named]
    rfl

/-! ## Entering templates -/

theorem itemStart_of_template (w : WrittenTemplate) (rest : List Token) :
    itemStart endLine w.template.token (w.opening.token :: (w.parameters ++ w.closing.token ::
      w.keyword.token :: rest)) = .ok (.ofClass ⟨true, w.keyword.token, rest⟩) := by
  have noClass : isClassWord w.template.token = false := by simp [isClassWord]
  have template : w.template.token.isWord "template" := by simp [Token.isWord]
  have behind : skipAngles endLine 1 (w.parameters ++ w.closing.token :: w.keyword.token :: rest) =
      .ok (w.keyword.token :: rest) := by
    rw [skipAngles_angled w.angled Nat.one_pos, skipAngles, if_neg (by simp), if_pos w.closing.isMark,
      if_pos (le_refl _)]
  rw [itemStart, if_neg (by simp [noClass]), if_pos template, afterTemplate, if_pos w.opening.isMark, behind]
  simp [isClassWord_of_keyword]

/-- Where the reader comes to a template of a class, it goes on inside the class. -/
theorem reaches_body_of_template {file : List Token} {stage : Stage} (here : Reaches endLine file stage)
    (w : WrittenTemplate) (starts : stage.ahead = w.tokens ++ rest) :
    ∃ b, Reaches endLine file (.body true b rest) := by
  obtain ⟨head, read⟩ := classHead_template w rest
  have tokens : w.tokens ++ rest = w.template.token :: (w.opening.token :: (w.parameters ++ w.closing.token ::
      w.keyword.token :: (w.head ++ w.body.token :: rest))) := by
    simp [WrittenTemplate.tokens]
  rw [tokens] at starts
  cases stage with
  | file scopes ts =>
    obtain rfl : ts = _ := starts
    have step : fileStep endLine scopes w.template.token (w.opening.token :: (w.parameters ++ w.closing.token ::
        w.keyword.token :: (w.head ++ w.body.token :: rest))) = .ok (.enter true head rest) := by
      rw [fileStep, if_neg (by simp), itemStart_of_template]
      exact bind_eq_ok_iff.2 ⟨_, rfl, bind_eq_ok_iff.2 ⟨_, read, rfl⟩⟩
    exact ⟨_, .enter here step⟩
  | body outer b ts =>
    obtain rfl : ts = _ := starts
    have step : bodyStep endLine b w.template.token (w.opening.token :: (w.parameters ++ w.closing.token ::
        w.keyword.token :: (w.head ++ w.body.token :: rest))) = .ok (.enter true head rest) := by
      rw [bodyStep, itemStart_of_template]
      exact bind_eq_ok_iff.2 ⟨_, rfl, bind_eq_ok_iff.2 ⟨_, read, rfl⟩⟩
    exact ⟨_, .enterInside here (by simp) step⟩

/-! ## Coming to the marker -/

/-- A token that may stand in a statement: no bracket, no semicolon, and no word that starts a class, a
template or an enumeration. -/
def IsStatementToken (t : Token) : Prop :=
  (∀ mark ∈ ["(", ")", "[", "]", "\x7b", "\x7d", ";"], t.isMark mark = false) ∧
    ∀ word ∈ ["class", "struct", "template", "enum"], t.isWord word = false

/-- Statements of a class body and access labels between them. The truth value tells whether a statement has
been begun, so that a semicolon has to follow. -/
inductive Statements : Bool → List Token → Prop
  | done : Statements false []
  | label {ts : List Token} (word : Word ["public", "protected", "private"]) (colon : Mark ":")
      (others : Statements false ts) : Statements false (word.token :: colon.token :: ts)
  | semicolon {begun : Bool} {ts : List Token} (mark : Mark ";") (others : Statements false ts) :
      Statements begun (mark.token :: ts)
  | token {begun : Bool} {t : Token} {ts : List Token} (plain : IsStatementToken t)
      (others : Statements true ts) : Statements begun (t :: ts)
  | group {begun : Bool} {ts : List Token} (g : WrittenGroup bracketShapes) (others : Statements true ts) :
      Statements begun (g.tokens ++ ts)

/-- A reader leaves statements of those in front of it, and what stands behind these. -/
def LeavesStatements (back after : List Token) : Prop :=
  ∃ ts, after = ts ++ back ∧ Statements false ts

variable {ts back after : List Token} {begun : Bool} {b : ClassBody}

theorem Statements.ofBegun (h : Statements true ts) : Statements false ts := by
  cases h with
  | semicolon mark others => exact .semicolon mark others
  | token plain others => exact .token plain others
  | group g others => exact .group g others

theorem Statements.leaves (h : Statements true ts) : LeavesStatements back (ts ++ back) :=
  ⟨ts, rfl, h.ofBegun⟩

/-- A semicolon in front of begun statements ends one of them. -/
theorem Statements.leaves_behind_semicolon (h : Statements true ts) :
    LeavesStatements back (if (ts ++ back).head?.any (·.isMark ";") then (ts ++ back).drop 1 else ts ++ back) := by
  split
  · rename_i ends
    cases h with
    | semicolon mark others => exact ⟨_, rfl, others⟩
    | token plain => simp [plain.1 ";" (by simp)] at ends
    | group g others => rcases g.left_cases with left | left | left <;> simp [g.tokens_append, left] at ends
  · exact h.leaves

theorem leaves_of_memberTokens (h : Statements true ts) {previous : Option Token} {inits : Bool}
    {taken : List Token} (read : memberTokens previous inits (ts ++ back) = .ok (taken, after)) :
    LeavesStatements back after := by
  generalize started : true = begun at h
  induction h generalizing previous inits taken with
  | done | label => cases started
  | semicolon mark others =>
    rw [List.cons_append, memberTokens, if_pos mark.isMark] at read
    cases read
    exact ⟨_, rfl, others⟩
  | @token begun t ts plain _ ih =>
    have plain := plain.1
    simp only [List.mem_cons, List.not_mem_nil, or_false, forall_eq_or_imp, forall_eq] at plain
    obtain ⟨round, -, square, -, curly, closes, ends⟩ := plain
    rw [List.cons_append, memberTokens, if_neg (by simp [ends]), if_neg (by simp [closes]),
      if_neg (by simp [curly]), if_neg (by simp [round, square])] at read
    obtain ⟨⟨taken, left⟩, others, same⟩ := map_eq_ok_iff.1 read
    cases same
    exact ih others rfl
  | @group begun ts g others ih =>
    have grouped := g.group (List.Subset.refl _) (ts ++ back)
    rw [List.append_assoc, g.tokens_append, memberTokens] at read
    by_cases curly : g.left = "\x7b"
    · rw [if_neg (by simp [curly]), if_neg (by simp [curly]), if_pos (by simp [curly])] at read
      split at read
      · cases read
      · rename_i g' found
        cases grouped.symm.trans found
        split at read
        · exact ih read rfl
        · have left : after =
              if (ts ++ back).head?.any (·.isMark ";") then (ts ++ back).drop 1 else ts ++ back := by
            dsimp only at read
            cases behind : ts ++ back with
            | nil =>
              rw [behind] at read
              cases read
              rfl
            | cons next us =>
              rw [behind] at read
              cases read
              rfl
          exact left ▸ others.leaves_behind_semicolon
    · have bracket : g.left = "(" ∨ g.left = "[" := by
        rcases g.left_cases with left | left | left
        · exact .inl left
        · exact .inr left
        · exact absurd left curly
      have marks : g.opening.token.isMark ";" = false ∧ g.opening.token.isMark "\x7d" = false ∧
          (g.opening.token.isMark "(" || g.opening.token.isMark "[") := by
        rcases bracket with left | left <;> simp [left]
      rw [if_neg (by simp [marks.1]), if_neg (by simp [marks.2.1]), if_neg (by simp [curly]),
        if_pos marks.2.2] at read
      split at read
      · cases read
      · rename_i g' found
        cases grouped.symm.trans found
        obtain ⟨⟨taken, left⟩, inner, same⟩ := map_eq_ok_iff.1 read
        cases same
        exact ih inner rfl

theorem leaves_of_skipStatement (h : Statements true ts) (read : skipStatement (ts ++ back) = .ok after) :
    LeavesStatements back after := by
  generalize started : true = begun at h
  induction h with
  | done | label => cases started
  | semicolon mark others =>
    rw [List.cons_append, skipStatement, if_pos mark.isMark] at read
    cases read
    exact ⟨_, rfl, others⟩
  | @token begun t ts plain _ ih =>
    have plain := plain.1
    simp only [List.mem_cons, List.not_mem_nil, or_false, forall_eq_or_imp, forall_eq] at plain
    obtain ⟨round, -, square, -, curly, closes, ends⟩ := plain
    rw [List.cons_append, skipStatement, if_neg (by simp [ends]), if_neg (by simp [closes]),
      if_neg (by simp [opensGroup, round, square, curly])] at read
    exact ih read rfl
  | @group begun ts g others ih =>
    have grouped := g.group (List.Subset.refl _) (ts ++ back)
    have marks : g.opening.token.isMark ";" = false ∧ g.opening.token.isMark "\x7d" = false ∧
        opensGroup g.opening.token := by
      rcases g.left_cases with left | left | left <;> simp [opensGroup, left]
    rw [List.append_assoc, g.tokens_append, skipStatement, if_neg (by simp only [marks.1]; decide),
      if_neg (by simp only [marks.2.1]; decide), if_pos marks.2.2] at read
    split at read
    · rename_i g' found
      cases grouped.symm.trans found
      exact ih read rfl
    · cases read

theorem leaves_of_expectMark (h : Statements true ts) (read : expectMark endLine ":" (ts ++ back) = .ok after) :
    LeavesStatements back after := by
  cases h with
  | semicolon mark => simp [expectMark] at read
  | token plain others =>
    rw [List.cons_append, expectMark] at read
    split at read
    · cases read
      exact others.leaves
    · cases read
  | group g =>
    have noColon : g.opening.token.isMark ":" = false := by
      rcases g.left_cases with left | left | left <;> simp [left]
    simp [List.append_assoc, g.tokens_append, expectMark, noColon] at read

theorem leaves_of_markerArguments (h : Statements true ts) {marker : Token} {g : Group}
    (read : markerArguments marker (ts ++ back) = .ok g) : LeavesStatements back g.after := by
  cases h with
  | semicolon mark => simp [markerArguments] at read
  | token plain => simp [markerArguments, plain.1 "(" (by simp)] at read
  | group group others =>
    rw [List.append_assoc, group.tokens_append, markerArguments] at read
    split at read
    · cases (group.group (List.Subset.refl _) _).symm.trans read
      exact others.leaves
    · cases read

/-- What an item leaves that starts in statements. -/
theorem ItemLeaves.statements {t : Token} (word : t.kind = .identifier) (plain : t.isWord "enum" = false)
    (h : Statements true ts) (leaves : ItemLeaves endLine t (ts ++ back) after) : LeavesStatements back after := by
  have noMark (mark : String) : t.isMark mark = false := isMark_of_word (by simp [word])
  cases leaves with
  | semicolon ends => simp [noMark] at ends
  | group opens => simp [noMark] at opens
  | label _ read => exact leaves_of_expectMark h read
  | slotsLabel _ slots read =>
    cases h with
    | semicolon mark => simp [isSlotsWord] at slots
    | token plain others => exact leaves_of_expectMark others read
    | group g => simp [g.tokens_append, isSlotsWord] at slots
  | object => exact h.leaves_behind_semicolon
  | arguments _ found => exact leaves_of_markerArguments h found
  | marker => exact h.leaves
  | enumeration word => simp [plain] at word
  | statement _ skipped => exact leaves_of_skipStatement h skipped

/-- An item that is no class ends in the statements in which it starts. -/
theorem leaves_of_bodyItem {t : Token} {b' : ClassBody} (h : Statements true (t :: ts))
    (read : bodyItem endLine b t (ts ++ back) = .ok (b', after)) : LeavesStatements back after := by
  rcases bodyItem_cases read with ⟨kind, member⟩ | ⟨-, leaves, -⟩
  · obtain ⟨taken, read⟩ := memberTokens_of_bodyMember member
    rw [← List.cons_append] at read
    exact leaves_of_memberTokens h read
  generalize whole : t :: ts = all at h
  have noEnum {m : Token} (mark : m.kind = .punctuation) : m.isWord "enum" = false := by
    simp [Token.isWord, mark]
  cases h with
  | semicolon mark others =>
    cases whole
    cases leaves with
    | semicolon => exact ⟨_, rfl, others⟩
    | group opens => simp at opens
    | enumeration word => simp at word
    | label word | slotsLabel word | object word | arguments word | marker word | statement word =>
      simp at word
  | token plain others =>
    cases whole
    by_cases word : t.kind = .identifier
    · exact leaves.statements word (plain.2 "enum" (by simp)) others
    · cases leaves with
      | semicolon ends => simp [plain.1 ";" (by simp)] at ends
      | group opens => simp [plain.1 "\x7b" (by simp), plain.1 "[" (by simp)] at opens
      | enumeration isEnum => simp [plain.2 "enum" (by simp)] at isEnum
      | label h | slotsLabel h | object h | arguments h | marker h | statement h => exact absurd h word
  | group g others =>
    rw [g.tokens_append] at whole
    cases whole
    have noSemicolon : g.opening.token.isMark ";" = false := by
      rcases g.left_cases with left | left | left <;> simp [left]
    cases leaves with
    | semicolon ends => simp [noSemicolon] at ends
    | group opens found =>
      rw [List.append_assoc, List.cons_append] at found
      cases (g.group (List.Subset.refl _) _).symm.trans found
      exact others.leaves
    | enumeration word => simp at word
    | label word | slotsLabel word | object word | arguments word | marker word | statement word =>
      simp at word

/-- The reader of a body stays at statements. -/
theorem bodyStep_statements {t : Token} (h : Statements false (t :: ts)) {step : BodyStep}
    (read : bodyStep endLine b t (ts ++ back) = .ok step) :
    ∃ b' after, step = .goOn b' after ∧ LeavesStatements back after := by
  have goesOn (begun : Statements true (t :: ts))
      (other : ∀ word ∈ ["class", "struct", "template"], t.isWord word = false) :
      ∃ b' after, step = .goOn b' after ∧ LeavesStatements back after := by
    rw [bodyStep_of_other other] at read
    obtain ⟨⟨b', after⟩, item, rfl⟩ := map_eq_ok_iff.1 read
    exact ⟨b', after, rfl, leaves_of_bodyItem begun item⟩
  generalize whole : t :: ts = all at h
  cases h with
  | done => cases whole
  | @label us word colon others =>
    cases whole
    cases (bodyStep_of_access word none colon (us ++ back)).symm.trans read
    exact ⟨_, _, rfl, _, rfl, others⟩
  | semicolon mark others =>
    cases whole
    exact goesOn (.semicolon mark others) (by simp)
  | token plain others =>
    cases whole
    refine goesOn (.token plain others) fun word h => plain.2 word ?_
    simp only [List.mem_cons, List.not_mem_nil, or_false] at h ⊢
    grind
  | group g others =>
    rw [g.tokens_append] at whole
    cases whole
    exact goesOn (g.tokens_append _ ▸ .group g others) (by simp)

/-- Statements do not start with the bracket that closes what they stand in. -/
theorem Statements.not_closing {t : Token} (h : Statements false (t :: ts)) : t.isMark "\x7d" = false := by
  generalize whole : t :: ts = all at h
  cases h with
  | done => cases whole
  | label word | semicolon mark =>
    cases whole
    simp
  | token plain =>
    cases whole
    exact plain.1 _ (by simp)
  | group g =>
    rw [g.tokens_append] at whole
    cases whole
    rcases g.left_cases with left | left | left <;> simp [left]

/-- A body that can be read and has the marker behind statements is annotated. -/
theorem annotated_behind_statements {before : List Token} (h : Statements false before)
    (marker : Word ["H_OBJECT"]) (rest : List Token) {b' : ClassBody}
    (read : ReadsBody endLine b (before ++ marker.token :: rest) b' after) : b'.annotated = true := by
  generalize whole : before ++ marker.token :: rest = ts at read
  induction read generalizing before with
  | closed closes =>
    cases before with
    | nil =>
      cases whole
      simp at closes
    | cons t before =>
      cases whole
      simp [h.not_closing] at closes
  | goOn goesOn step others ih =>
    cases before with
    | nil =>
      cases whole
      cases (bodyStep_of_marker_object marker rest).symm.trans step
      exact others.grows.annotated rfl
    | cons t before =>
      cases whole
      obtain ⟨b₁, after, same, left, rfl, statements⟩ := bodyStep_statements h step
      cases same
      exact ih statements rfl
  | enter goesOn step =>
    cases before with
    | nil =>
      cases whole
      cases (bodyStep_of_marker_object marker rest).symm.trans step
    | cons t before =>
      cases whole
      obtain ⟨_, _, same, -⟩ := bodyStep_statements h step
      cases same

/-! ## Refusing files -/

/-- Nothing is read of a file in which the reader comes to the marker in the body of a template. -/
theorem refused_of_reaches (file : String) {source : String} (tokens : significantTokens source = .ok ts)
    {before : List Token} (h : Statements false before) {marker : Word ["H_OBJECT"]}
    (here : Reaches (lastLine ts) ts (.body true b (before ++ marker.token :: rest))) :
    ∃ e, parse file source = .error e := by
  cases parsed : parse file source with
  | error e => exact ⟨e, rfl⟩
  | ok classes =>
    rw [parse, tokens] at parsed
    have whole := classesOfTokens_eq_ok_iff.1 (mapError_eq_ok_iff.1 parsed)
    obtain ⟨b', after, own, read, found, -⟩ := finds_of_reaches whole here
    rw [ClassBody.classes, annotated_behind_statements h marker rest read] at found
    cases found

/-- A template of a class cannot be annotated. Wherever the reader of a body comes to the marker, and the
class is a template, the file is refused. The reader comes there from a template at any place that it comes
to, whatever the parameters, if no angle bracket stands in front of the bases: what stands in the body
before the marker may be any statements in which no class, template or enumeration is declared. -/
theorem annotated_templates_are_refused (file : String) {source : String} {ts : List Token}
    (tokens : significantTokens source = .ok ts) :
    (∀ (b : ClassBody) (marker : Word ["H_OBJECT"]) (rest : List Token),
      Reaches (lastLine ts) ts (.body true b (marker.token :: rest)) → ∃ e, parse file source = .error e) ∧
    ∀ (stage : Stage) (w : WrittenTemplate) (before : List Token) (marker : Word ["H_OBJECT"])
      (rest : List Token), Reaches (lastLine ts) ts stage → Statements false before →
      stage.ahead = w.tokens ++ (before ++ marker.token :: rest) → ∃ e, parse file source = .error e := by
  refine ⟨fun b marker rest here => refused_of_reaches file tokens .done here,
    fun stage w before marker rest here statements starts => ?_⟩
  obtain ⟨b, inside⟩ := reaches_body_of_template here w starts
  exact refused_of_reaches file tokens statements inside

/-- A template in a namespace, with a template among its parameters and one as its base. -/
def carillon : String :=
  "namespace a \x7b template <class T, class U = Pair<T>> class Bell : public Ring<T> " ++
    "\x7b public: int mass; H_OBJECT \x7d; \x7d"

theorem bell_isIdentifier : TypeText.isIdentifier "Bell".toList := by decide

def carillonTemplate : WrittenTemplate where
  template := .placed "template" 14 (by decide)
  opening := .placed "<" 23
  parameters := [wordAt "class" 24, wordAt "T" 30, markAt "," 31, wordAt "class" 33, wordAt "U" 39,
    markAt "=" 41, wordAt "Pair" 43] ++ (markAt "<" 47 :: ([wordAt "T" 48] ++ markAt ">" 49 :: []))
  angled := by
    repeat refine .token (by decide) ?_
    exact .angles (.placed "<" 47) (.token (by decide) .nil) (.placed ">" 49) .nil
  closing := .placed ">" 50
  keyword := .classAt 52
  parts := [.word (.placed "Bell" 58 bell_isIdentifier (by decide))]
  named := ⟨_, List.mem_singleton.2 rfl, by decide⟩
  colon := some (.placed ":" 63)
  bases := [wordAt "public" 65, wordAt "Ring" 72] ++ (markAt "<" 76 :: ([wordAt "T" 77] ++ markAt ">" 78 :: []))
  listed := by
    repeat refine .token (by decide) (by decide) ?_
    exact .angles (.placed "<" 76) (.token (by decide) (by decide) .nil) (.placed ">" 78) .nil
  unbased := fun none => nomatch none
  body := .placed "\x7b" 80

/-- What stands in the body before the marker. -/
def carillonFront : List Token :=
  [wordAt "public" 82, markAt ":" 88, wordAt "int" 90, wordAt "mass" 94, markAt ";" 98]

def carillonTokens : List Token :=
  wordAt "namespace" 0 :: wordAt "a" 10 :: markAt "\x7b" 12 :: (carillonTemplate.tokens ++ (carillonFront ++
    wordAt "H_OBJECT" 100 :: [markAt "\x7d" 109, markAt ";" 110, markAt "\x7d" 112]))

theorem carillon_is_refused : ∃ e, parse "bell.h" carillon = .error e := by
  have chars : carillon.toList = _ := toList_append_of String.toList_ofList String.toList_ofList
  have tokens : significantTokens carillon = .ok carillonTokens :=
    (significantTokens_of_toList chars).trans (by decide +kernel)
  have here : Reaches 1 carillonTokens (.file ["a"] (carillonTokens.drop 3)) :=
    .goOn (t := wordAt "namespace" 0) .start (by decide +kernel)
  have mass : Statements true [wordAt "mass" 94, markAt ";" 98] :=
    .token ⟨by decide, by decide⟩ (.semicolon (.placed ";" 98) .done)
  have before : Statements false carillonFront :=
    .label (.placed "public" 82 (by decide)) (.placed ":" 88) (.token ⟨by decide, by decide⟩ mass)
  exact (annotated_templates_are_refused "bell.h" tokens).2 _ carillonTemplate carillonFront (.objectAt 100) _ here
    before rfl

/-- Angle brackets behind the name of a class end its head for the reader, at the level of a file and inside
a class, and the class is passed over with its marker. With a constraint between the parameters and the
class, the class is recorded as if it were no template. A comparison in the parameters and a member that is
initialized with curly brackets hide the marker as well. -/
theorem specializations_are_lost :
    parse "bell.h" "template <> class Bell<int> \x7b H_OBJECT \x7d;" = .ok [] ∧
    parse "bell.h" "template <class T> class Bell<T*> \x7b H_OBJECT \x7d;" = .ok [] ∧
    parse "bell.h" "class Tower \x7b template <class T> class Bell<T*> \x7b H_OBJECT \x7d; \x7d;" = .ok [] ∧
    (parse "bell.h" "template <class T> requires Rings<T> class Bell \x7b H_OBJECT \x7d;").toOption.map
      (·.map (·.name)) = some ["Bell"] ∧
    parse "bell.h" "template <bool b = 1 < 2> class Bell \x7b H_OBJECT \x7d; bool c = b > 1;" = .ok [] ∧
    parse "bell.h" "template <class T> class Bell \x7b Bell() : n\x7b1\x7d \x7b\x7d H_OBJECT int n; \x7d;" =
      .ok [] := by
  refine ⟨?_, ?_, ?_, ?_, ?_, ?_⟩
  all_goals
    rw [parse_of_toList String.toList_ofList]
    decide +kernel

end Reflection.Declaration
