import Reflection.Proofs.Declaration.Reading
/-!
# Where functions are declared

Each function of a class is read from one member of a body that the reader comes to (`Records`), and its
parameters from what stands between two brackets of the source text (`exists_declares`).
-/

namespace Reflection.Declaration

open Reflection.Source

variable {endLine : Nat} {file ts rest after : List Token} {t : Token} {b b' : ClassBody}
  {f : FunctionDeclaration}

/-! ## Members -/

/-- The tokens of a member around the brackets of a parameter list. -/
structure FunctionParts where
  before : List Token
  name : Token
  opening : Token
  list : Group

/-- All tokens of the member. -/
def FunctionParts.tokens (p : FunctionParts) : List Token :=
  p.before ++ p.name :: p.opening :: (p.list.inside ++ p.list.close :: p.list.after)

/-- The member is read as a function, with its parameters from these brackets. -/
structure FunctionParts.Reads (p : FunctionParts) (f : FunctionDeclaration) : Prop where
  read : function? f.kind f.access p.tokens = .ok (some f)
  cut : cutAtParameters 0 p.tokens =
    some (p.before ++ [p.name], p.list.inside ++ p.list.close :: p.list.after)
  bracket : p.opening.isMark "("
  closed : closeGroup? "(" ")" 0 (p.list.inside ++ p.list.close :: p.list.after) = some p.list

theorem exists_of_cutAtParameters {angles : Int} {before : List Token}
    (h : cutAtParameters angles ts = some (before, after)) :
    ∃ opening, opening.isMark "(" ∧ ts = before ++ opening :: after := by
  fun_induction cutAtParameters angles ts generalizing before with
  | case1 => cases h
  | case2 _ t rest here =>
    cases h
    rw [Bool.and_eq_true] at here
    exact ⟨t, here.2, rfl⟩
  | case3 => cases h
  | case4 =>
    rename_i ih
    obtain ⟨⟨before, after⟩, found, e⟩ := Option.map_eq_some_iff.1 h
    cases e
    obtain ⟨opening, bracket, rfl⟩ := ih found
    exact ⟨opening, bracket, rfl⟩

/-- What the reader of functions finds in a member that is one. -/
theorem function?_eq_some {kind : MethodKind} {access : Access} (h : function? kind access ts = .ok (some f)) :
    ∃ (before : List Token) (name : Token) (after : List Token) (list : Group),
      cutAtParameters 0 ts = some (before ++ [name], after) ∧ name.kind = .identifier ∧
      closeGroup? "(" ")" 0 after = some list ∧ parameters name.line list.inside = .ok f.parameters ∧
      f.name = name.text ∧ f.kind = kind ∧ f.access = access := by
  unfold function? at h
  split at h
  · cases h
  · split at h
    · cases h
    · rename_i before after cut
      split at h
      · cases h
      · rename_i name last
        dsimp only at h
        split at h
        · cases h
        · rename_i named
          split at h
          · cases h
          · rename_i list closed
            split at h
            · cases h
            · obtain ⟨params, read, h⟩ := bind_eq_ok_iff.1 h
              obtain ⟨-, h⟩ := refuse_bind_eq_ok_iff.1 h
              cases h
              obtain ⟨front, rfl⟩ := List.getLast?_eq_some_iff.1 last
              have identifier : name.kind = .identifier := by simp_all
              exact ⟨front, name, after, list, cut, identifier, closed, read, rfl, rfl, rfl⟩

theorem exists_reads {kind : MethodKind} {access : Access} (h : function? kind access ts = .ok (some f)) :
    ∃ p : FunctionParts, p.tokens = ts ∧ p.Reads f := by
  obtain ⟨before, name, after, list, cut, -, closed, -, -, rfl, rfl⟩ := function?_eq_some h
  obtain ⟨opening, bracket, whole⟩ := exists_of_cutAtParameters cut
  have behind := eq_of_closeGroup? closed
  have whole : FunctionParts.tokens ⟨before, name, opening, list⟩ = ts := by
    rw [whole, behind, List.append_assoc]
    rfl
  refine ⟨⟨before, name, opening, list⟩, whole, ?_, ?_, bracket, ?_⟩
  · rwa [whole]
  · rwa [whole, ← behind]
  · rwa [← behind]

/-- The function has the name in front of the brackets, and its parameters are those between them. -/
theorem FunctionParts.Reads.parameters {p : FunctionParts} (h : p.Reads f) :
    p.name.kind = .identifier ∧ f.name = p.name.text ∧
      Declaration.parameters p.name.line p.list.inside = .ok f.parameters := by
  obtain ⟨before, name, after, list, cut, kind, closed, read, named, -, -⟩ := function?_eq_some h.read
  rw [h.cut] at cut
  obtain ⟨front, rfl⟩ := Prod.mk.inj (Option.some.inj cut)
  rw [h.closed] at closed
  cases closed
  obtain ⟨-, e⟩ := List.append_inj' front rfl
  cases e
  exact ⟨kind, named, read⟩

/-- A member has the tokens that are read for it, in their order. -/
theorem sublist_of_memberTokens {previous : Option Token} {inits : Bool} {taken : List Token}
    (h : memberTokens previous inits ts = .ok (taken, after)) : taken.Sublist ts := by
  fun_induction memberTokens previous inits ts generalizing taken with
  | case1 => cases h; exact .slnil
  | case2 | case3 | case6 | case7 => cases h; exact List.nil_sublist _
  | case4 | case8 => cases h
  | case5 =>
    rename_i g found _ ih
    exact (ih h).trans ((suffix_of_group found).sublist.trans (List.sublist_cons_self _ _))
  | case9 =>
    rename_i g found ih
    obtain ⟨⟨taken, _⟩, read, e⟩ := map_eq_ok_iff.1 h
    cases e
    rw [eq_of_group found, List.cons_append]
    exact ((List.Sublist.refl _).append ((ih read).cons_cons _)).cons_cons _
  | case10 =>
    rename_i ih
    obtain ⟨⟨_, _⟩, read, e⟩ := map_eq_ok_iff.1 h
    cases e
    exact (ih read).cons_cons _

/-- No bracket is opened and no colon stands in front of the name. -/
def FunctionParts.IsFlat (p : FunctionParts) : Prop :=
  ∀ t ∈ p.before, t.isMark ":" = false ∧ opensGroup t = false

/-- A group does not depend on what follows it. -/
theorem closeGroup?_of_closed {opening closing : String} {depth : Nat} {g : Group}
    (h : closeGroup? opening closing depth ts = some g) (more : List Token) :
    closeGroup? opening closing depth (g.inside ++ g.close :: more) = some { g with after := more } := by
  induction ts generalizing depth g with
  | nil => cases h
  | cons t rest ih =>
    rw [closeGroup?] at h
    split at h
    · rename_i opens
      obtain ⟨g, found, rfl⟩ := Option.map_eq_some_iff.1 h
      rw [Group.push, List.cons_append, closeGroup?, if_pos opens, ih found]
      rfl
    · rename_i opens
      split at h
      · rename_i closes
        split at h
        · rename_i none
          cases h
          rw [List.nil_append, closeGroup?, if_neg opens, if_pos closes, if_pos none]
        · rename_i inside
          obtain ⟨g, found, rfl⟩ := Option.map_eq_some_iff.1 h
          rw [Group.push, List.cons_append, closeGroup?, if_neg opens, if_pos closes, if_neg inside, ih found]
          rfl
      · rename_i closes
        obtain ⟨g, found, rfl⟩ := Option.map_eq_some_iff.1 h
        rw [Group.push, List.cons_append, closeGroup?, if_neg opens, if_neg closes, ih found]
        rfl

/-- A member is taken in one piece up to the end of its first group, if no colon comes before that. -/
theorem group_of_memberTokens {previous : Option Token} {inits : Bool} {taken before behind : List Token}
    {opening : Token} (h : memberTokens previous inits ts = .ok (taken, after)) (noInits : inits = false)
    (split : taken = before ++ opening :: behind) (bracket : opening.isMark "(")
    (flat : ∀ t ∈ before, t.isMark ":" = false ∧ opensGroup t = false) :
    ∃ g more, group opening (g.inside ++ g.close :: g.after) = .ok g ∧
      ts = before ++ opening :: (g.inside ++ g.close :: g.after) ∧ behind = g.inside ++ g.close :: more := by
  fun_induction memberTokens previous inits ts generalizing taken before with
  | case1 | case2 | case3 | case6 | case7 =>
    cases h
    simp at split
  | case4 | case8 => cases h
  | case5 => simp_all
  | case9 previous inits t rest _ _ _ opens g found ih =>
    obtain ⟨⟨later, _⟩, read, e⟩ := map_eq_ok_iff.1 h
    cases e
    cases before with
    | nil =>
      obtain ⟨rfl, rfl⟩ := List.cons.inj split
      have whole := eq_of_group found
      exact ⟨g, later, by rwa [← whole], by rw [← whole]; rfl, rfl⟩
    | cons x before =>
      obtain ⟨rfl, -⟩ := List.cons.inj split
      have closed := (flat t List.mem_cons_self).2
      simp [opensGroup] at closed
      simp [closed] at opens
  | case10 =>
    rename_i t rest _ _ _ opens inits' ih
    obtain ⟨⟨later, _⟩, read, e⟩ := map_eq_ok_iff.1 h
    cases e
    cases before with
    | nil =>
      obtain ⟨rfl, -⟩ := List.cons.inj split
      simp [bracket] at opens
    | cons x before =>
      obtain ⟨rfl, rfl⟩ := List.cons.inj split
      have noLabel := (flat t List.mem_cons_self).1
      obtain ⟨g, more, found, rfl, rest⟩ := ih read (by simp [inits', noInits, noLabel]) rfl
        fun t' ht => flat t' (List.mem_cons_of_mem _ ht)
      exact ⟨g, more, found, rfl, rest⟩

/-! ## Bodies -/

theorem methods_of_bodyMember {kind : Option MethodKind} (h : bodyMember b kind ts = .ok (b', after)) :
    b'.nested = b.nested ∧ (b'.declaration.methods = b.declaration.methods ∨
      ∃ (f : FunctionDeclaration) (p : FunctionParts), memberTokens none false ts = .ok (p.tokens, after) ∧
        p.Reads f ∧ b'.declaration.methods = b.declaration.methods ++ [f]) := by
  unfold bodyMember at h
  obtain ⟨⟨taken, left⟩, member, h⟩ := bind_eq_ok_iff.1 h
  cases kind with
  | none =>
    cases h
    exact ⟨rfl, .inl rfl⟩
  | some kind =>
    obtain ⟨found, read, h⟩ := bind_eq_ok_iff.1 h
    cases found with
    | none =>
      cases h
      exact ⟨rfl, .inl rfl⟩
    | some f =>
      cases h
      obtain ⟨p, rfl, reads⟩ := exists_reads read
      exact ⟨rfl, .inr ⟨f, p, member, reads, rfl⟩⟩

/-- An item of a body leaves its functions, or it is a member that is read as one more. -/
theorem methods_of_bodyStep (h : bodyStep endLine b t rest = .ok (.goOn b' after)) :
    b'.nested = b.nested ∧ (b'.declaration.methods = b.declaration.methods ∨
      ∃ (f : FunctionDeclaration) (p : FunctionParts),
        memberTokens none false (t :: rest) = .ok (p.tokens, after) ∧ p.Reads f ∧
        b'.declaration.methods = b.declaration.methods ++ [f]) := by
  unfold bodyStep at h
  obtain ⟨start, -, h⟩ := bind_eq_ok_iff.1 h
  cases start with
  | other =>
    obtain ⟨⟨b₁, left⟩, read, h⟩ := bind_eq_ok_iff.1 h
    cases h
    rcases bodyItem_cases read with ⟨kind, member⟩ | ⟨-, -, methods, nested, -⟩
    · exact methods_of_bodyMember (b := { b with marker := none }) member
    · exact ⟨nested, .inl methods⟩
  | ofTemplate ts =>
    obtain ⟨⟨b₁, left⟩, read, h⟩ := bind_eq_ok_iff.1 h
    cases h
    -- A member without a kind is not recorded.
    unfold bodyMember at read
    obtain ⟨⟨taken, left⟩, -, read⟩ := bind_eq_ok_iff.1 read
    cases read
    exact ⟨rfl, .inl rfl⟩
  | ofClass start =>
    obtain ⟨⟨head, inside⟩, -, h⟩ := bind_eq_ok_iff.1 h
    cases head with
    | none =>
      obtain ⟨left, -, h⟩ := bind_eq_ok_iff.1 h
      cases h
      exact ⟨rfl, .inl rfl⟩
    | some head => cases h

/-! ## Files -/

/-- The reader comes to a member in the body of a class and records a function that it reads from it. -/
inductive Records (endLine : Nat) (file : List Token) (f : FunctionDeclaration) (p : FunctionParts) : Prop
  | mk {isTemplate : Bool} {b b' : ClassBody} {t : Token} {rest after : List Token}
      (here : Reaches endLine file (.body isTemplate b (t :: rest))) (goesOn : t.isMark "\x7d" = false)
      (step : bodyStep endLine b t rest = .ok (.goOn b' after))
      (recorded : b'.declaration.methods = b.declaration.methods ++ [f])
      (member : memberTokens none false (t :: rest) = .ok (p.tokens, after)) (reads : p.Reads f)

/-- The functions of a class come from members that the reader comes to. -/
def FromMembers (endLine : Nat) (file : List Token) (d : ClassDeclaration) : Prop :=
  ∀ f ∈ d.methods, ∃ p, Records endLine file f p

theorem fromMembers_of_classes {isTemplate : Bool} {own : List ClassDeclaration}
    (h : b.classes isTemplate = .ok own) (self : FromMembers endLine file b.declaration)
    (nested : ∀ d ∈ b.nested, FromMembers endLine file d) : ∀ d ∈ own, FromMembers endLine file d := by
  unfold ClassBody.classes at h
  split at h
  · cases h
    exact nested
  · split at h
    · cases h
    · cases h
      exact List.forall_mem_cons.2 ⟨self, nested⟩

theorem fromMembers_of_readsBody {isTemplate : Bool}
    (here : Reaches endLine file (.body isTemplate b ts)) (read : ReadsBody endLine b ts b' after)
    (own : FromMembers endLine file b.declaration) (nested : ∀ d ∈ b.nested, FromMembers endLine file d) :
    FromMembers endLine file b'.declaration ∧ ∀ d ∈ b'.nested, FromMembers endLine file d := by
  induction read generalizing isTemplate with
  | closed => exact ⟨own, nested⟩
  | goOn goesOn step _ ih =>
    obtain ⟨kept, methods⟩ := methods_of_bodyStep step
    refine ih (here.goOnInside goesOn step) ?_ (by rwa [kept])
    rcases methods with same | ⟨f, p, member, reads, more⟩
    · rwa [FromMembers, same]
    · intro g hg
      rw [more] at hg
      rcases List.mem_append.1 hg with hg | hg
      · exact own g hg
      · rw [List.mem_singleton.1 hg]
        exact ⟨p, .mk here goesOn step more member reads⟩
  | enter goesOn step body found ends _ ihBody ih =>
    have inner := ihBody (here.enterInside goesOn step) (List.forall_mem_nil _) (List.forall_mem_nil _)
    refine ih (here.leaveInside goesOn step body found ends) own fun d hd => ?_
    rcases List.mem_append.1 hd with hd | hd
    · exact nested d hd
    · exact fromMembers_of_classes found inner.1 inner.2 d hd

theorem fromMembers_of_readsFile {scopes : List String} {classes : List ClassDeclaration}
    (here : Reaches endLine file (.file scopes ts)) (read : ReadsFile endLine scopes ts classes) :
    ∀ d ∈ classes, FromMembers endLine file d := by
  induction read with
  | done => exact List.forall_mem_nil _
  | goOn step _ ih => exact ih (here.goOn step)
  | enter step body found _ ih =>
    have inside := fromMembers_of_readsBody (here.enter step) body (List.forall_mem_nil _) (List.forall_mem_nil _)
    intro d hd
    rcases List.mem_append.1 hd with hd | hd
    · exact fromMembers_of_classes found inside.1 inside.2 d hd
    · exact ih (here.leave step body found) d hd

/-! ## Places in the source text -/

theorem suffix_of_reaches {stage : Stage} (h : Reaches endLine file stage) : stage.ahead <:+ file := by
  induction h with
  | start => exact List.suffix_refl _
  | goOn _ step ih | enter _ step ih =>
    have within : _ <:+ _ := fileStep_eq_ok step
    exact (within.trans (List.suffix_cons _ _)).trans ih
  | leave _ step body _ ih =>
    have within : _ <:+ _ := fileStep_eq_ok step
    exact ((body.suffix.trans within).trans (List.suffix_cons _ _)).trans ih
  | goOnInside _ goesOn step ih => exact ((bodyStep_eq_ok goesOn step).2.trans (List.suffix_cons _ _)).trans ih
  | enterInside _ goesOn step ih =>
    have within : _ <:+ _ := bodyStep_eq_ok goesOn step
    exact (within.trans (List.suffix_cons _ _)).trans ih
  | leaveInside _ goesOn step body _ ends ih =>
    have within : _ <:+ _ := bodyStep_eq_ok goesOn step
    have left := (suffix_of_skipStatement ends).trans body.suffix
    exact ((left.trans within).trans (List.suffix_cons _ _)).trans ih

theorem Records.reads {p : FunctionParts} (h : Records endLine file f p) : p.Reads f := by
  obtain ⟨-, -, -, -, -, reads⟩ := h
  exact reads

/-- The tokens of the member are tokens of the file. -/
theorem Records.sublist {p : FunctionParts} (h : Records endLine file f p) : p.tokens.Sublist file := by
  obtain ⟨here, -, -, -, member, -⟩ := h
  exact (sublist_of_memberTokens member).trans (suffix_of_reaches here).sublist

/-- A function is recorded from a member of the source text, and `list` are all tokens between the
brackets of its parameter list, blank ones included. Tokens have their places, so there is no other
list between these brackets. -/
structure Declares (source : String) (f : FunctionDeclaration) (p : FunctionParts) (list : List Token) :
    Prop where
  recorded : ∃ ts, significantTokens source = .ok ts ∧ Records (lastLine ts) ts f p
  between : ∃ front back, tokens source = .ok (front ++ p.opening :: (list ++ p.list.close :: back))

theorem Declares.reads {source : String} {p : FunctionParts} {list : List Token}
    (h : Declares source f p list) : p.Reads f := by
  obtain ⟨ts, -, records⟩ := h.recorded
  exact records.reads

theorem exists_between {all : List Token} {p : FunctionParts}
    (h : p.tokens.Sublist (all.filter Token.isSignificant)) :
    ∃ front list back, all = front ++ p.opening :: (list ++ p.list.close :: back) ∧
      p.list.inside.Sublist (list.filter Token.isSignificant) := by
  have significant : ∀ t ∈ p.list.inside, t.isSignificant := by
    intro t ht
    exact (List.mem_filter.1 (h.subset (by simp [FunctionParts.tokens, ht]))).2
  -- The two brackets are found in the list one after the other.
  have h := h.trans List.filter_sublist
  obtain ⟨r₁, r₂, rfl, -, h⟩ := List.append_sublist_iff.1 h
  obtain ⟨r₃, r₄, rfl, -, h⟩ := List.cons_sublist_iff.1 h
  obtain ⟨r₅, r₆, rfl, opening, h⟩ := List.cons_sublist_iff.1 h
  obtain ⟨r₇, r₈, rfl, inside, h⟩ := List.append_sublist_iff.1 h
  obtain ⟨r₉, r₁₀, rfl, close, -⟩ := List.cons_sublist_iff.1 h
  obtain ⟨front, first, rfl⟩ := List.append_of_mem opening
  obtain ⟨last, back, rfl⟩ := List.append_of_mem close
  refine ⟨r₁ ++ (r₃ ++ front), first ++ (r₇ ++ last), back ++ r₁₀, by simp, ?_⟩
  rw [← List.filter_eq_self.2 significant]
  exact (inside.trans ((List.sublist_append_left _ _).trans (List.sublist_append_right _ _))).filter _

/-- In a flat member the parameter list is followed without a gap. -/
theorem Records.suffix_of_isFlat {p : FunctionParts} (h : Records endLine file f p) (flat : p.IsFlat) :
    ∃ rest, p.before ++ p.name :: p.opening :: (p.list.inside ++ p.list.close :: rest) <:+ file := by
  obtain ⟨here, -, -, -, member, reads⟩ := h
  have named : ∀ t ∈ p.before ++ [p.name], t.isMark ":" = false ∧ opensGroup t = false := by
    intro t ht
    rcases List.mem_append.1 ht with ht | ht
    · exact flat t ht
    · rw [List.mem_singleton.1 ht]
      have noMark : ∀ mark, p.name.isMark mark = false := fun mark => by
        simp [Token.isMark, reads.parameters.1]
      simp [opensGroup, noMark]
  have parts : p.tokens = (p.before ++ [p.name]) ++ p.opening :: (p.list.inside ++ p.list.close :: p.list.after) := by
    simp [FunctionParts.tokens]
  obtain ⟨g, more, found, whole, behind⟩ := group_of_memberTokens member rfl parts reads.bracket named
  have text : p.opening.text = "(" := by
    have bracket := reads.bracket
    simp only [Token.isMark, Bool.and_eq_true, decide_eq_true_eq] at bracket
    exact bracket.2
  have same : p.list = { g with after := more } := by
    have closed := reads.closed
    rw [group, text] at found
    split at found
    · rename_i closed'
      cases found
      rw [behind] at closed
      exact (Option.some.inj ((closeGroup?_of_closed closed' more).symm.trans closed)).symm
    · cases found
  refine ⟨g.after, ?_⟩
  have ahead := suffix_of_reaches here
  rw [Stage.ahead, whole] at ahead
  rw [same]
  simpa using ahead

theorem exists_between_of_isFlat {all rest : List Token} {p : FunctionParts}
    (h : p.before ++ p.name :: p.opening :: (p.list.inside ++ p.list.close :: rest) <:+
      all.filter Token.isSignificant) :
    ∃ front list back, all = front ++ p.opening :: (list ++ p.list.close :: back) ∧
      p.list.inside = list.filter Token.isSignificant := by
  obtain ⟨start, whole⟩ := h
  -- The tokens that are left out by the filter stand between the ones that are not.
  obtain ⟨r₁, r₂, rfl, -, h⟩ := List.filter_eq_append_iff.1 whole.symm
  obtain ⟨r₃, r₄, rfl, -, h⟩ := List.filter_eq_append_iff.1 h
  obtain ⟨r₅, r₆, rfl, -, -, h⟩ := List.filter_eq_cons_iff.1 h
  obtain ⟨r₇, r₈, rfl, -, -, h⟩ := List.filter_eq_cons_iff.1 h
  obtain ⟨r₉, r₁₀, rfl, inside, h⟩ := List.filter_eq_append_iff.1 h
  obtain ⟨r₁₁, r₁₂, rfl, blank, -, -⟩ := List.filter_eq_cons_iff.1 h
  refine ⟨r₁ ++ (r₃ ++ (r₅ ++ p.name :: r₇)), r₉ ++ r₁₁, r₁₂, by simp, ?_⟩
  rw [List.filter_append, inside, List.filter_eq_nil_iff.2 blank, List.append_nil]

/-- Each function of a class is declared in the source text with a parameter list, and the list is read
in one piece if the member is flat. -/
theorem exists_declares {file source : String} {classes : List ClassDeclaration}
    (parsed : parse file source = .ok classes) {d : ClassDeclaration} (hd : d ∈ classes)
    (hf : f ∈ d.methods) :
    ∃ p list, Declares source f p list ∧ p.list.inside.Sublist (list.filter Token.isSignificant) ∧
      (p.IsFlat → p.list.inside = list.filter Token.isSignificant) := by
  unfold parse at parsed
  split at parsed
  · cases parsed
  · rename_i ts lexed
    have read := classesOfTokens_eq_ok_iff.1 (mapError_eq_ok_iff.1 parsed)
    obtain ⟨p, records⟩ := fromMembers_of_readsFile .start read d hd f hf
    obtain ⟨all, tokens, rfl⟩ := map_eq_ok_iff.1 lexed
    by_cases flat : p.IsFlat
    · obtain ⟨rest, behind⟩ := records.suffix_of_isFlat flat
      obtain ⟨front, list, back, whole, same⟩ := exists_between_of_isFlat behind
      exact ⟨p, list, ⟨⟨_, lexed, records⟩, front, back, by rw [tokens, whole]⟩, same ▸ .refl _, fun _ => same⟩
    · obtain ⟨front, list, back, whole, within⟩ := exists_between records.sublist
      exact ⟨p, list, ⟨⟨_, lexed, records⟩, front, back, by rw [tokens, whole]⟩, within, (absurd · flat)⟩

/-- The name of a function is a token of the source text. -/
theorem Declares.name_mem {source : String} {p : FunctionParts} {list all : List Token}
    (h : Declares source f p list) (lexed : tokens source = .ok all) : p.name ∈ all := by
  obtain ⟨ts, significant, records⟩ := h.recorded
  obtain ⟨all', lexed', rfl⟩ := map_eq_ok_iff.1 significant
  cases lexed.symm.trans lexed'
  have mem : p.name ∈ p.tokens := by simp [FunctionParts.tokens]
  exact (List.mem_filter.1 (records.sublist.subset mem)).1

end Reflection.Declaration
