import Reflection.Proofs.Declaration.Progress
/-!
# Reading bodies and files

The readers of class bodies and of files as relations, one rule for each thing that an item can ask for
(`BodyStep`, `FileStep`). They hold exactly where the readers succeed, since the bounds on the number of
items are never reached (`classBody_eq_ok_iff`, `classesOfTokens_eq_ok_iff`). `Reaches` says where a
reader comes by on its way through a file, and what is found in the bodies that it comes through is
found in the file (`finds_of_reaches`).
-/

namespace Reflection.Declaration

open Reflection.Source

variable {endLine n : Nat} {t : Token} {ts rest after : List Token} {b b' : ClassBody}

/-! ## Steps -/

/-- What an item of a body asks for. -/
inductive BodyStep where
  /-- Go on behind it. -/
  | goOn (b : ClassBody) (ts : List Token)
  /-- Read the body of a class first. -/
  | enter (isTemplate : Bool) (head : ClassHead) (inside : List Token)
deriving DecidableEq

/-- Looks at the item that starts with `t`. -/
def bodyStep (endLine : Nat) (b : ClassBody) (t : Token) (rest : List Token) :
    Except LocatedFault BodyStep := do
  match ← itemStart endLine t rest with
  | .other =>
    let (b, after) ← bodyItem endLine b t rest
    return .goOn b after
  | .ofTemplate ts =>
    let (b, after) ← bodyMember b none ts
    return .goOn { b with marker := none } after
  | .ofClass start =>
    let (head, inside) ← classHead start.keyword start.after
    match head with
    | none => return .goOn { b with marker := none } (← skipStatement inside)
    | some head => return .enter start.isTemplate head inside

/-- The body of a class after a nested one has been read. -/
def ClassBody.leave (b : ClassBody) (nested : List ClassDeclaration) : ClassBody :=
  { b with marker := none, nested := b.nested ++ nested }

/-- What an item of a file asks for. -/
inductive FileStep where
  | goOn (scopes : List String) (ts : List Token)
  | enter (isTemplate : Bool) (head : ClassHead) (inside : List Token)
deriving DecidableEq

/-- Looks at the item that starts with `t`. -/
def fileStep (endLine : Nat) (scopes : List String) (t : Token) (rest : List Token) :
    Except LocatedFault FileStep := do
  if t.isWord "namespace" then
    let (name, after) := namespaceName rest
    if after.head?.any (·.isMark "\x7b") then return .goOn (name :: scopes) (after.drop 1)
    else return .goOn scopes (← skipStatement after)
  else
    match ← itemStart endLine t rest with
    | .ofClass start =>
      let (head, inside) ← classHead start.keyword start.after
      match head with
      | none => return .goOn scopes inside
      | some head => return .enter start.isTemplate head inside
    | .ofTemplate ts => return .goOn scopes ts
    | .other =>
      if t.isWord "enum" then return .goOn scopes (← skipStatement rest)
      else if t.isMark "\x7b" then return .goOn ("" :: scopes) rest
      else if t.isMark "\x7d" then return .goOn (scopes.drop 1) rest
      else return .goOn scopes rest

theorem classBody_cons (n : Nat) (goesOn : t.isMark "\x7d" = false) :
    classBody endLine (n + 1) b (t :: rest) = (do
      match ← bodyStep endLine b t rest with
      | .goOn b after => classBody endLine n b after
      | .enter isTemplate head inside =>
        let (inner, left) ← classBody endLine n (.start b.declaration.name head) inside
        let nested ← inner.classes isTemplate
        let after ← skipStatement left
        classBody endLine n (b.leave nested) after) := by
  rw [classBody, if_neg (by simp [goesOn]), bodyStep, bind_assoc]
  refine bind_congr fun start => ?_
  cases start with
  | other | ofTemplate ts => simp only [bind_assoc, pure_bind]
  | ofClass start =>
    dsimp only
    rw [bind_assoc]
    refine bind_congr fun ⟨head, inside⟩ => ?_
    cases head with
    | none => simp only [bind_assoc, pure_bind]
    | some head => rfl

theorem fileItems_cons (n : Nat) (scopes : List String) :
    fileItems endLine (n + 1) scopes (t :: rest) = (do
      match ← fileStep endLine scopes t rest with
      | .goOn scopes after => fileItems endLine n scopes after
      | .enter isTemplate head inside =>
        let (body, after) ← classBody endLine n (.start (scopeName scopes) head) inside
        let classes ← body.classes isTemplate
        return classes ++ (← fileItems endLine n scopes after)) := by
  rw [fileItems, fileStep]
  by_cases space : t.isWord "namespace"
  · rw [if_pos space, if_pos space]
    dsimp only
    split
    · rfl
    · simp only [bind_assoc, pure_bind]
  · rw [if_neg space, if_neg space, bind_assoc]
    refine bind_congr fun start => ?_
    cases start with
    | other =>
      dsimp only
      split
      · simp only [bind_assoc, pure_bind]
      · split
        · rfl
        · split <;> rfl
    | ofTemplate ts => rfl
    | ofClass start =>
      dsimp only
      rw [bind_assoc]
      refine bind_congr fun ⟨head, inside⟩ => ?_
      cases head <;> rfl

/-! ## What a step takes -/

/-- A step takes a token at least, and what has been read stays. -/
theorem bodyStep_eq_ok {step : BodyStep} (goesOn : t.isMark "\x7d" = false)
    (h : bodyStep endLine b t rest = .ok step) :
    match step with
    | .goOn b' after => b.Grows b' ∧ after <:+ rest
    | .enter _ _ inside => inside <:+ rest := by
  unfold bodyStep at h
  obtain ⟨start, found, h⟩ := bind_eq_ok_iff.1 h
  have starts := suffix_of_itemStart found
  cases start with
  | other =>
    obtain ⟨⟨b', after⟩, read, h⟩ := bind_eq_ok_iff.1 h
    cases h
    exact bodyItem_eq_ok goesOn read
  | ofTemplate ts =>
    obtain ⟨⟨b', after⟩, read, h⟩ := bind_eq_ok_iff.1 h
    cases h
    exact ⟨{ grows_of_bodyMember read with }, (suffix_of_bodyMember read).1.trans starts⟩
  | ofClass start =>
    obtain ⟨⟨head, inside⟩, read, h⟩ := bind_eq_ok_iff.1 h
    have within := (suffix_of_classHead read).trans starts
    cases head with
    | none =>
      obtain ⟨after, skipped, h⟩ := bind_eq_ok_iff.1 h
      cases h
      exact ⟨{ ClassBody.Grows.refl b with }, (suffix_of_skipStatement skipped).trans within⟩
    | some head =>
      cases h
      exact within

theorem fileStep_eq_ok {scopes : List String} {step : FileStep}
    (h : fileStep endLine scopes t rest = .ok step) :
    match step with
    | .goOn _ after => after <:+ rest
    | .enter _ _ inside => inside <:+ rest := by
  unfold fileStep at h
  by_cases space : t.isWord "namespace"
  · rw [if_pos space] at h
    have named : (namespaceName rest).2 <:+ rest := List.dropWhile_suffix _
    dsimp only at h
    split at h
    · cases h
      exact (List.drop_suffix _ _).trans named
    · obtain ⟨after, skipped, h⟩ := bind_eq_ok_iff.1 h
      cases h
      exact (suffix_of_skipStatement skipped).trans named
  · rw [if_neg space] at h
    obtain ⟨start, found, h⟩ := bind_eq_ok_iff.1 h
    have starts := suffix_of_itemStart found
    cases start with
    | other =>
      dsimp only at h
      split at h
      · obtain ⟨after, skipped, h⟩ := bind_eq_ok_iff.1 h
        cases h
        exact suffix_of_skipStatement skipped
      · split at h
        · cases h
          exact List.suffix_refl _
        · split at h <;> cases h <;> exact List.suffix_refl _
    | ofTemplate ts =>
      cases h
      exact starts
    | ofClass start =>
      obtain ⟨⟨head, inside⟩, read, h⟩ := bind_eq_ok_iff.1 h
      have within := (suffix_of_classHead read).trans starts
      cases head <;> cases h <;> exact within

/-! ## Bodies -/

/-- A class body is read from its tokens, and some are left. -/
inductive ReadsBody (endLine : Nat) : ClassBody → List Token → ClassBody → List Token → Prop
  | closed {b : ClassBody} {t : Token} {rest : List Token} (closes : t.isMark "\x7d") :
      ReadsBody endLine b (t :: rest) b rest
  | goOn {b b₁ b' : ClassBody} {t : Token} {rest ts after : List Token} (goesOn : t.isMark "\x7d" = false)
      (step : bodyStep endLine b t rest = .ok (.goOn b₁ ts)) (others : ReadsBody endLine b₁ ts b' after) :
      ReadsBody endLine b (t :: rest) b' after
  | enter {b inner b' : ClassBody} {t : Token} {rest inside left ts after : List Token} {isTemplate : Bool}
      {head : ClassHead} {nested : List ClassDeclaration} (goesOn : t.isMark "\x7d" = false)
      (step : bodyStep endLine b t rest = .ok (.enter isTemplate head inside))
      (body : ReadsBody endLine (.start b.declaration.name head) inside inner left)
      (found : inner.classes isTemplate = .ok nested) (ends : skipStatement left = .ok ts)
      (others : ReadsBody endLine (b.leave nested) ts b' after) : ReadsBody endLine b (t :: rest) b' after

theorem ClassBody.grows_leave (b : ClassBody) (nested : List ClassDeclaration) : b.Grows (b.leave nested) :=
  { ClassBody.Grows.refl b with nested := List.prefix_append _ _ }

theorem ReadsBody.grows (h : ReadsBody endLine b ts b' after) : b.Grows b' := by
  induction h with
  | closed => exact .refl _
  | goOn goesOn step _ ih => exact (bodyStep_eq_ok goesOn step).1.trans ih
  | enter _ _ _ _ _ _ _ ih => exact (ClassBody.grows_leave _ _).trans ih

theorem ReadsBody.suffix (h : ReadsBody endLine b ts b' after) : after <:+ ts := by
  induction h with
  | closed => exact List.suffix_cons _ _
  | goOn goesOn step _ ih => exact (ih.trans (bodyStep_eq_ok goesOn step).2).trans (List.suffix_cons _ _)
  | enter goesOn step _ _ ends _ inner ih =>
    have within : _ <:+ _ := bodyStep_eq_ok goesOn step
    exact (((ih.trans (suffix_of_skipStatement ends)).trans inner).trans within).trans (List.suffix_cons _ _)

theorem classBody_of_reads (h : ReadsBody endLine b ts b' after) (fuel : ts.length < n) :
    classBody endLine n b ts = .ok (b', after) := by
  induction h generalizing n with
  | closed closes =>
    obtain ⟨n, rfl⟩ : ∃ k, n = k + 1 := ⟨n - 1, by omega⟩
    rw [classBody, if_pos closes]
  | @goOn b b₁ b' t rest ts after goesOn step _ ih =>
    obtain ⟨n, rfl⟩ : ∃ k, n = k + 1 := ⟨n - 1, by omega⟩
    have shorter := (bodyStep_eq_ok goesOn step).2.length_le
    simp only [List.length_cons] at fuel
    rw [classBody_cons n goesOn]
    exact bind_eq_ok_iff.2 ⟨_, step, ih (by omega)⟩
  | @enter b inner b' t rest inside left ts after isTemplate head nested goesOn step body found ends _
      ihBody ih =>
    obtain ⟨n, rfl⟩ : ∃ k, n = k + 1 := ⟨n - 1, by omega⟩
    -- Both bodies are read from what stands behind `t`, so what is left of the bound suffices for each.
    have within : inside <:+ rest := bodyStep_eq_ok goesOn step
    have shorter := within.length_le
    have behind := body.suffix.length_le
    have next := (suffix_of_skipStatement ends).length_le
    simp only [List.length_cons] at fuel
    rw [classBody_cons n goesOn]
    refine bind_eq_ok_iff.2 ⟨_, step, bind_eq_ok_iff.2 ⟨_, ihBody (by omega), ?_⟩⟩
    exact bind_eq_ok_iff.2 ⟨_, found, bind_eq_ok_iff.2 ⟨_, ends, ih (by omega)⟩⟩

theorem reads_of_classBody (h : classBody endLine n b ts = .ok (b', after)) :
    ReadsBody endLine b ts b' after := by
  induction n generalizing b ts b' after with
  | zero => cases h
  | succ n ih =>
    cases ts with
    | nil => cases h
    | cons t rest =>
      by_cases closes : t.isMark "\x7d"
      · rw [classBody, if_pos closes] at h
        cases h
        exact .closed closes
      · rw [Bool.not_eq_true] at closes
        rw [classBody_cons n closes] at h
        obtain ⟨step, found, h⟩ := bind_eq_ok_iff.1 h
        cases step with
        | goOn b₁ ts => exact .goOn closes found (ih h)
        | enter isTemplate head inside =>
          obtain ⟨⟨inner, left⟩, body, h⟩ := bind_eq_ok_iff.1 h
          obtain ⟨nested, classes, h⟩ := bind_eq_ok_iff.1 h
          obtain ⟨ts, ends, h⟩ := bind_eq_ok_iff.1 h
          exact .enter closes found (ih body) classes ends (ih h)

/-- The bound on the number of items is never reached if it is as large as the number of tokens. -/
theorem classBody_eq_ok_iff (fuel : ts.length < n) :
    classBody endLine n b ts = .ok (b', after) ↔ ReadsBody endLine b ts b' after :=
  ⟨reads_of_classBody, fun h => classBody_of_reads h fuel⟩

/-- There is one way to read a body. -/
theorem ReadsBody.unique {b₁ b₂ : ClassBody} {after₁ after₂ : List Token}
    (h₁ : ReadsBody endLine b ts b₁ after₁) (h₂ : ReadsBody endLine b ts b₂ after₂) :
    b₁ = b₂ ∧ after₁ = after₂ := by
  have first := classBody_of_reads h₁ (Nat.lt_succ_self _)
  have second := classBody_of_reads h₂ (Nat.lt_succ_self _)
  cases first.symm.trans second
  exact ⟨rfl, rfl⟩

/-! ## Files -/

/-- The annotated classes of a file are read from its tokens. -/
inductive ReadsFile (endLine : Nat) : List String → List Token → List ClassDeclaration → Prop
  | done {scopes : List String} : ReadsFile endLine scopes [] []
  | goOn {scopes scopes' : List String} {t : Token} {rest ts : List Token} {classes : List ClassDeclaration}
      (step : fileStep endLine scopes t rest = .ok (.goOn scopes' ts))
      (others : ReadsFile endLine scopes' ts classes) : ReadsFile endLine scopes (t :: rest) classes
  | enter {scopes : List String} {t : Token} {rest inside ts : List Token} {isTemplate : Bool}
      {head : ClassHead} {b : ClassBody} {own classes : List ClassDeclaration}
      (step : fileStep endLine scopes t rest = .ok (.enter isTemplate head inside))
      (body : ReadsBody endLine (.start (scopeName scopes) head) inside b ts)
      (found : b.classes isTemplate = .ok own) (others : ReadsFile endLine scopes ts classes) :
      ReadsFile endLine scopes (t :: rest) (own ++ classes)

theorem fileItems_eq_ok_iff {scopes : List String} {classes : List ClassDeclaration} (fuel : ts.length < n) :
    fileItems endLine n scopes ts = .ok classes ↔ ReadsFile endLine scopes ts classes := by
  induction n generalizing scopes ts classes with
  | zero => omega
  | succ n ih =>
    cases ts with
    | nil =>
      refine ⟨fun h => ?_, fun h => ?_⟩ <;> cases h
      · exact .done
      · rfl
    | cons t rest =>
      simp only [List.length_cons] at fuel
      rw [fileItems_cons]
      refine ⟨fun h => ?_, fun h => ?_⟩
      · obtain ⟨step, found, h⟩ := bind_eq_ok_iff.1 h
        cases step with
        | goOn scopes' ts =>
          have shorter : ts <:+ rest := fileStep_eq_ok found
          exact .goOn found ((ih (by have := shorter.length_le; omega)).1 h)
        | enter isTemplate head inside =>
          have within : inside <:+ rest := fileStep_eq_ok found
          obtain ⟨⟨b, ts⟩, body, h⟩ := bind_eq_ok_iff.1 h
          obtain ⟨own, classes, h⟩ := bind_eq_ok_iff.1 h
          obtain ⟨others, read, h⟩ := bind_eq_ok_iff.1 h
          cases h
          have body := reads_of_classBody body
          have shorter := (body.suffix.trans within).length_le
          exact .enter found body classes ((ih (by omega)).1 read)
      · cases h with
        | goOn step others =>
          have shorter : _ <:+ rest := fileStep_eq_ok step
          exact bind_eq_ok_iff.2 ⟨_, step, (ih (by have := shorter.length_le; omega)).2 others⟩
        | enter step body found others =>
          have within : _ <:+ rest := fileStep_eq_ok step
          have shorter := (body.suffix.trans within).length_le
          have inner := classBody_of_reads body (n := n) (by have := within.length_le; omega)
          refine bind_eq_ok_iff.2 ⟨_, step, bind_eq_ok_iff.2 ⟨_, inner, bind_eq_ok_iff.2 ⟨_, found, ?_⟩⟩⟩
          exact bind_eq_ok_iff.2 ⟨_, (ih (by omega)).2 others, rfl⟩

/-- The line of the last token. -/
def lastLine (ts : List Token) : Nat :=
  (ts.getLast?.map (·.line)).getD 1

theorem classesOfTokens_eq_ok_iff {classes : List ClassDeclaration} :
    classesOfTokens ts = .ok classes ↔ ReadsFile (lastLine ts) [] ts classes :=
  fileItems_eq_ok_iff (Nat.lt_succ_self _)

/-! ## On the way through a file -/

/-- A place where something is read. -/
inductive Stage where
  | file (scopes : List String) (ts : List Token)
  | body (isTemplate : Bool) (b : ClassBody) (ts : List Token)

/-- The tokens that a stage has in front of it. -/
def Stage.ahead : Stage → List Token
  | .file _ ts => ts
  | .body _ _ ts => ts

/-- The reader of a file comes to a place. -/
inductive Reaches (endLine : Nat) (file : List Token) : Stage → Prop
  | start : Reaches endLine file (.file [] file)
  | goOn {scopes scopes' : List String} {t : Token} {rest ts : List Token}
      (here : Reaches endLine file (.file scopes (t :: rest)))
      (step : fileStep endLine scopes t rest = .ok (.goOn scopes' ts)) :
      Reaches endLine file (.file scopes' ts)
  | enter {scopes : List String} {t : Token} {rest inside : List Token} {isTemplate : Bool} {head : ClassHead}
      (here : Reaches endLine file (.file scopes (t :: rest)))
      (step : fileStep endLine scopes t rest = .ok (.enter isTemplate head inside)) :
      Reaches endLine file (.body isTemplate (.start (scopeName scopes) head) inside)
  | leave {scopes : List String} {t : Token} {rest inside ts : List Token} {isTemplate : Bool}
      {head : ClassHead} {b : ClassBody} {own : List ClassDeclaration}
      (here : Reaches endLine file (.file scopes (t :: rest)))
      (step : fileStep endLine scopes t rest = .ok (.enter isTemplate head inside))
      (body : ReadsBody endLine (.start (scopeName scopes) head) inside b ts)
      (found : b.classes isTemplate = .ok own) : Reaches endLine file (.file scopes ts)
  | goOnInside {outer : Bool} {b b' : ClassBody} {t : Token} {rest ts : List Token}
      (here : Reaches endLine file (.body outer b (t :: rest))) (goesOn : t.isMark "\x7d" = false)
      (step : bodyStep endLine b t rest = .ok (.goOn b' ts)) : Reaches endLine file (.body outer b' ts)
  | enterInside {outer isTemplate : Bool} {b : ClassBody} {t : Token} {rest inside : List Token}
      {head : ClassHead} (here : Reaches endLine file (.body outer b (t :: rest)))
      (goesOn : t.isMark "\x7d" = false)
      (step : bodyStep endLine b t rest = .ok (.enter isTemplate head inside)) :
      Reaches endLine file (.body isTemplate (.start b.declaration.name head) inside)
  | leaveInside {outer isTemplate : Bool} {b inner : ClassBody} {t : Token} {rest inside left ts : List Token}
      {head : ClassHead} {nested : List ClassDeclaration}
      (here : Reaches endLine file (.body outer b (t :: rest))) (goesOn : t.isMark "\x7d" = false)
      (step : bodyStep endLine b t rest = .ok (.enter isTemplate head inside))
      (body : ReadsBody endLine (.start b.declaration.name head) inside inner left)
      (found : inner.classes isTemplate = .ok nested) (ends : skipStatement left = .ok ts) :
      Reaches endLine file (.body outer (b.leave nested) ts)

/-- What is read from a place on is among the classes. -/
def Stage.Finds (endLine : Nat) (classes : List ClassDeclaration) : Stage → Prop
  | .file scopes ts => ∃ own, ReadsFile endLine scopes ts own ∧ own ⊆ classes
  | .body isTemplate b ts =>
    ∃ b' after own, ReadsBody endLine b ts b' after ∧ b'.classes isTemplate = .ok own ∧ own ⊆ classes

theorem nested_subset_classes {isTemplate : Bool} {own : List ClassDeclaration}
    (h : b.classes isTemplate = .ok own) : b.nested ⊆ own := by
  unfold ClassBody.classes at h
  split at h
  · cases h
    exact List.Subset.refl _
  · split at h <;> cases h
    exact List.subset_cons_self _ _

/-- If a file can be read, all that the reader comes by can, and its classes are those of the file. -/
theorem finds_of_reaches {file : List Token} {classes : List ClassDeclaration} {stage : Stage}
    (read : ReadsFile endLine [] file classes) (h : Reaches endLine file stage) :
    stage.Finds endLine classes := by
  -- The readers have one way to go on from each place, so the one that was read is the one on the way.
  induction h with
  | start => exact ⟨classes, read, List.Subset.refl _⟩
  | goOn _ step ih =>
    obtain ⟨own, read, within⟩ := ih
    cases read with
    | goOn step' others =>
      cases step.symm.trans step'
      exact ⟨own, others, within⟩
    | enter step' => cases step.symm.trans step'
  | enter _ step ih =>
    obtain ⟨own, read, within⟩ := ih
    cases read with
    | goOn step' => cases step.symm.trans step'
    | enter step' body found others =>
      cases step.symm.trans step'
      exact ⟨_, _, _, body, found, List.Subset.trans (List.subset_append_left _ _) within⟩
  | leave _ step body _ ih =>
    obtain ⟨own, read, within⟩ := ih
    cases read with
    | goOn step' => cases step.symm.trans step'
    | enter step' body' found others =>
      cases step.symm.trans step'
      obtain ⟨rfl, rfl⟩ := body.unique body'
      exact ⟨_, others, List.Subset.trans (List.subset_append_right _ _) within⟩
  | goOnInside _ goesOn step ih =>
    obtain ⟨b', after, own, read, found, within⟩ := ih
    cases read with
    | closed closes => simp [goesOn] at closes
    | goOn _ step' others =>
      cases step.symm.trans step'
      exact ⟨b', after, own, others, found, within⟩
    | enter _ step' => cases step.symm.trans step'
  | enterInside _ goesOn step ih =>
    obtain ⟨b', after, own, read, found, within⟩ := ih
    cases read with
    | closed closes => simp [goesOn] at closes
    | goOn _ step' => cases step.symm.trans step'
    | enter _ step' body foundInside _ others =>
      cases step.symm.trans step'
      have kept := List.Subset.trans (List.subset_append_right _ _) others.grows.nested.subset
      have recorded := List.Subset.trans (List.Subset.trans kept (nested_subset_classes found)) within
      exact ⟨_, _, _, body, foundInside, recorded⟩
  | leaveInside _ goesOn step body foundInside ends ih =>
    obtain ⟨b', after, own, read, found, within⟩ := ih
    cases read with
    | closed closes => simp [goesOn] at closes
    | goOn _ step' => cases step.symm.trans step'
    | enter _ step' body' foundInside' ends' others =>
      cases step.symm.trans step'
      obtain ⟨rfl, rfl⟩ := body.unique body'
      cases foundInside.symm.trans foundInside'
      cases ends.symm.trans ends'
      exact ⟨b', after, own, others, found, within⟩

end Reflection.Declaration
