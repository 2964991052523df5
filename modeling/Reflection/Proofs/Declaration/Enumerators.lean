import Mathlib.Algebra.Order.Group.Int
import Mathlib.Algebra.BigOperators.Group.List.Basic
import Reflection.Declaration.Enumeration
import Reflection.Proofs.Checks
import Reflection.Proofs.Declaration.Meaning
import Reflection.Proofs.Declaration.Precedence
/-!
# How enumerations are written and what they hold

`NamedEnum.Spells` says which token lists write a named enumeration, and `Valued` what its enumerators
are worth: the value of the initializer, or one more than the one before. The reader takes an
enumeration from its tokens with just these values (`enumeration?_of_spells`). Each of the two angle
brackets of a right shift is taken for a closing one when the enumerators are cut apart, so no comma may
come after it.
-/

namespace Reflection.Declaration

open Reflection.Source

/-! ## Written enumerations -/

/-- An enumerator with its initializer. -/
structure Enumerator where
  key : String
  initializer : Option Expression

/-- Does the expression shift to the right anywhere? -/
def Expression.shiftsRight : Expression → Bool
  | .integer _ | .character _ | .name _ => false
  | .unary _ x => x.shiftsRight
  | .binary op x y => op = .shiftRight || x.shiftsRight || y.shiftsRight

/-- The tokens write the enumerator. -/
inductive Enumerator.Spells : Enumerator → List Token → Prop
  | plain {t : Token} (word : t.kind = .identifier) : Spells ⟨t.text, none⟩ [t]
  | initialized {t sign : Token} {x : Expression} {ts : List Token} (word : t.kind = .identifier)
      (equals : sign.isMark "=") (value : Declaration.Spells 0 x ts) :
      Spells ⟨t.text, some x⟩ (t :: sign :: ts)

/-- The tokens write the enumerators with commas between them, and maybe one more at the end. No comma
comes after a right shift. -/
inductive SpellEnumerators : List Enumerator → List Token → Prop
  | none : SpellEnumerators [] []
  | last {e : Enumerator} {ts : List Token} (first : e.Spells ts) : SpellEnumerators [e] ts
  | more {e : Enumerator} {es : List Enumerator} {ts rest : List Token} {comma : Token}
      (first : e.Spells ts) (unshifted : e.initializer.any (·.shiftsRight) = false)
      (separated : comma.isMark ",") (others : SpellEnumerators es rest) :
      SpellEnumerators (e :: es) (ts ++ comma :: rest)

/-- An enumeration that has a name. -/
structure NamedEnum where
  isScoped : Bool
  name : String
  enumerators : List Enumerator

/-- The word that makes an enumeration a scoped one. -/
inductive SpellScope : Bool → List Token → Prop
  | none : SpellScope false []
  | word {t : Token} (word : isClassWord t) : SpellScope true [t]

/-- A type that an enumeration is based on, if it names one. -/
inductive SpellBase : List Token → Prop
  | none : SpellBase []
  | given {colon : Token} {type : List Token} (starts : colon.isMark ":")
      (plain : ∀ t ∈ type, t.isMark "\x7b" = false ∧ t.isMark ";" = false ∧ t.isMark "\x7d" = false) :
      SpellBase (colon :: type)

/-- The tokens write the enumeration, from what follows its keyword to the bracket that closes it. -/
inductive NamedEnum.Spells : NamedEnum → List Token → Prop
  | mk {isScoped : Bool} {enumerators : List Enumerator} {scope base body : List Token}
      {name opening closing : Token} (scopes : SpellScope isScoped scope) (word : name.kind = .identifier)
      (named : name.text ≠ "") (noKeyword : isClassWord name = false) (based : SpellBase base)
      (opens : opening.isMark "\x7b") (entries : SpellEnumerators enumerators body)
      (closes : closing.isMark "\x7d") :
      Spells ⟨isScoped, name.text, enumerators⟩ (scope ++ name :: (base ++ opening :: (body ++ [closing])))

/-- What enumerators are worth. The first two lists are the names known from earlier enumerations and
from this one, and the number is the value of an enumerator without an initializer. -/
inductive Valued (earlier : List (String × Int64)) :
    List (String × Int64) → Int64 → List Enumerator → List (String × Int64) → Prop
  | none {before : List (String × Int64)} {next : Int64} : Valued earlier before next [] []
  | counted {before values : List (String × Int64)} {next : Int64} {key : String} {es : List Enumerator}
      (others : Valued earlier (before ++ [(key, next)]) (next + 1) es values) :
      Valued earlier before next (⟨key, Option.none⟩ :: es) ((key, next) :: values)
  | initialized {before values : List (String × Int64)} {next v : Int64} {key : String} {x : Expression}
      {es : List Enumerator} (value : Denotes (earlier ++ before) x v.toInt)
      (others : Valued earlier (before ++ [(key, v)]) (v + 1) es values) :
      Valued earlier before next (⟨key, some x⟩ :: es) ((key, v) :: values)

/-! ## Tokens of an expression -/

theorem isMark_of_word {t : Token} {mark : String} (h : t.kind ≠ .punctuation) : t.isMark mark = false := by
  simp [Token.isMark, h]

theorem isMark_of_other {t : Token} {mark mark' : String} (h : t.isMark mark) (ne : mark ≠ mark') :
    t.isMark mark' = false := by
  obtain ⟨-, text⟩ := isMark_iff.1 h
  simp [Token.isMark, text, ne]

/-- The token is no bracket of a body and no comma. -/
def IsInner (t : Token) : Prop :=
  t.isMark "," = false ∧ t.isMark "\x7b" = false ∧ t.isMark "\x7d" = false

/-- How many brackets more are open after a token. -/
def turn (t : Token) : Int :=
  if opensGroup t || t.isMark "<" then 1
  else if t.isMark ")" || t.isMark "]" || t.isMark "\x7d" || t.isMark ">" then -1
  else 0

/-- How many brackets more are open after a token list. -/
def turns (ts : List Token) : Int :=
  (ts.map turn).sum

/-- A mark that is no bracket and no comma. -/
theorem inner_of_mark {t : Token} {mark : String} (h : t.isMark mark)
    (other : mark ∉ ["(", ")", "[", "]", "\x7b", "\x7d", "<", ">", ",", "::"] ∨ mark = "::") :
    IsInner t ∧ turn t = 0 := by
  have ne : ∀ mark' ∈ ["(", ")", "[", "]", "\x7b", "\x7d", "<", ">", ","], t.isMark mark' = false := by
    intro mark' member
    refine isMark_of_other h fun e => ?_
    subst e
    rcases other with other | rfl
    · exact other (by simp only [List.mem_cons] at member ⊢; grind)
    · revert member
      decide
  simp only [List.forall_mem_cons] at ne
  obtain ⟨a, b, c, d, e, f, g, i, j, -⟩ := ne
  exact ⟨⟨j, e, f⟩, by simp [turn, opensGroup, a, b, c, d, e, f, g, i]⟩

@[simp] theorem turns_nil : turns [] = 0 := rfl

@[simp] theorem turns_cons (t : Token) (ts : List Token) : turns (t :: ts) = turn t + turns ts := by
  simp [turns]

@[simp] theorem turns_append (xs ys : List Token) : turns (xs ++ ys) = turns xs + turns ys := by
  simp [turns]

theorem inner_of_word {t : Token} (h : t.kind ≠ .punctuation) : IsInner t ∧ turn t = 0 :=
  ⟨⟨isMark_of_word h, isMark_of_word h, isMark_of_word h⟩, by simp [turn, opensGroup, isMark_of_word h]⟩

theorem inner_of_names {key : String} {ts : List Token} (h : Names key ts) :
    (∀ t ∈ ts, IsInner t) ∧ turns ts = 0 := by
  induction h with
  | @plain t word =>
    have inner := inner_of_word (t := t) (by simp [word])
    exact ⟨List.forall_mem_singleton.2 inner.1, by simp [inner.2]⟩
  | @qualified t colons key ts word between _ ih =>
    have inner := inner_of_word (t := t) (by simp [word])
    have colons := inner_of_mark between (.inr rfl)
    exact ⟨List.forall_mem_cons.2 ⟨inner.1, List.forall_mem_cons.2 ⟨colons.1, ih.1⟩⟩,
      by simp [inner.2, colons.2, ih.2]⟩

theorem inner_of_marks {op : BinaryOperator} {marks : List Token} (h : op.Marks marks) :
    (∀ t ∈ marks, IsInner t) ∧ (op ≠ .shiftRight → turns marks = 0) := by
  cases h with
  | single own written =>
    have inner := inner_of_mark written (.inl (ofMark?_of_mark? own).2)
    exact ⟨List.forall_mem_singleton.2 inner.1, fun _ => by simp [inner.2]⟩
  | shiftRight opens closes _ =>
    have inner {t : Token} (h : t.isMark ">") : IsInner t :=
      ⟨isMark_of_other h (by decide), isMark_of_other h (by decide), isMark_of_other h (by decide)⟩
    exact ⟨List.forall_mem_cons.2 ⟨inner opens, List.forall_mem_singleton.2 (inner closes)⟩,
      fun other => absurd rfl other⟩

/-- An expression has no bracket of a body and no comma, and but for right shifts its brackets match. -/
theorem inner_of_spells {level : Nat} {x : Expression} {ts : List Token} (h : Spells level x ts) :
    (∀ t ∈ ts, IsInner t) ∧ (x.shiftsRight = false → turns ts = 0) := by
  induction h with
  | @integer level t literal =>
    have inner := inner_of_word (t := t) (by simp [literal])
    exact ⟨List.forall_mem_singleton.2 inner.1, fun _ => by simp [inner.2]⟩
  | name names => exact ⟨(inner_of_names names).1, fun _ => (inner_of_names names).2⟩
  | @unary level op x t ts written _ ih =>
    have inner := inner_of_mark written (.inl (by cases op <;> decide))
    refine ⟨List.forall_mem_cons.2 ⟨inner.1, ih.1⟩, fun unshifted => ?_⟩
    simp [inner.2, ih.2 unshifted]
  | binary binds _ written _ left right =>
    have inner := inner_of_marks written
    refine ⟨List.forall_mem_append.2 ⟨left.1, List.forall_mem_append.2 ⟨inner.1, right.1⟩⟩,
      fun unshifted => ?_⟩
    simp only [Expression.shiftsRight, Bool.or_eq_false_iff, decide_eq_false_iff_not] at unshifted
    obtain ⟨⟨other, unshiftedLeft⟩, unshiftedRight⟩ := unshifted
    simp [left.2 unshiftedLeft, inner.2 other, right.2 unshiftedRight]
  | @brackets level x opening closing ts opens _ closes ih =>
    have inner {t : Token} {mark : String} (h : t.isMark mark) (round : mark = "(" ∨ mark = ")") :
        IsInner t := by
      rcases round with rfl | rfl <;>
        exact ⟨isMark_of_other h (by decide), isMark_of_other h (by decide), isMark_of_other h (by decide)⟩
    have opened : turn opening = 1 := by simp [turn, opensGroup, opens]
    have closed : turn closing = -1 := by
      have ne : ∀ mark, ")" ≠ mark → closing.isMark mark = false := fun _ => isMark_of_other closes
      simp [turn, opensGroup, closes, ne]
    have within := List.forall_mem_append.2 ⟨ih.1, List.forall_mem_singleton.2 (inner closes (.inr rfl))⟩
    refine ⟨List.forall_mem_cons.2 ⟨inner opens (.inl rfl), within⟩, fun unshifted => ?_⟩
    simp [opened, closed, ih.2 unshifted]

theorem Enumerator.Spells.inner {e : Enumerator} {ts : List Token} (h : e.Spells ts) :
    (∀ t ∈ ts, IsInner t) ∧ (e.initializer.any (·.shiftsRight) = false → turns ts = 0) := by
  cases h with
  | @plain t word =>
    have inner := inner_of_word (t := t) (by simp [word])
    exact ⟨List.forall_mem_singleton.2 inner.1, fun _ => by simp [inner.2]⟩
  | @initialized t sign x ts word equals value =>
    have inner := inner_of_word (t := t) (by simp [word])
    have sign := inner_of_mark equals (.inl (by decide))
    obtain ⟨tokens, matched⟩ := inner_of_spells value
    exact ⟨List.forall_mem_cons.2 ⟨inner.1, List.forall_mem_cons.2 ⟨sign.1, tokens⟩⟩,
      fun unshifted => by simp [inner.2, sign.2, matched unshifted]⟩

/-! ## Cutting enumerators apart -/

theorem cutCommas_append {xs : List Token} (h : ∀ t ∈ xs, t.isMark "," = false) (depth : Int)
    (rest : List Token) :
    cutCommas depth (xs ++ rest) =
      (xs ++ (cutCommas (depth + turns xs) rest).1, (cutCommas (depth + turns xs) rest).2) := by
  induction xs generalizing depth with
  | nil => simp
  | cons t xs ih =>
    obtain ⟨comma, others⟩ := List.forall_mem_cons.1 h
    have step : (if opensGroup t || t.isMark "<" then depth + 1
        else if t.isMark ")" || t.isMark "]" || t.isMark "\x7d" || t.isMark ">" then depth - 1
        else depth) = depth + turn t := by
      unfold turn
      split
      · rfl
      · split <;> omega
    rw [List.cons_append, cutCommas]
    simp only [comma, Bool.false_and, Bool.false_eq_true, if_false, step]
    rw [ih others, turns_cons, add_assoc]
    rfl

/-- One part is what stands before the first comma outside brackets. -/
theorem commaParts_cons {ts rest : List Token} {comma : Token} (h : ∀ t ∈ ts, t.isMark "," = false)
    (matched : turns ts = 0) (separated : comma.isMark ",") :
    commaParts (ts ++ comma :: rest) = ts :: commaParts rest := by
  rw [commaParts, cutCommas_append h, matched, cutCommas]
  simp [separated, commaParts]

theorem commaParts_of_no_comma {ts : List Token} (h : ∀ t ∈ ts, t.isMark "," = false) :
    commaParts ts = [ts] := by
  have cut := cutCommas_append h 0 []
  rw [List.append_nil] at cut
  rw [commaParts, cut]
  simp [cutCommas]

/-! ## Reading enumerators -/

/-- One enumerator is read, and the others after it with its value known. -/
theorem enumerators_cons (name : String) {earlier before values : List (String × Int64)} {next : Int64}
    {e : Enumerator} {es : List Enumerator} {ts : List Token} (spelled : e.Spells ts)
    (valued : Valued earlier before next (e :: es) values) :
    ∃ v others, values = (e.key, v) :: others ∧ Valued earlier (before ++ [(e.key, v)]) (v + 1) es others ∧
      ∀ parts, enumerators name earlier before next (ts :: parts) =
        enumerators name earlier (before ++ [(e.key, v)]) (v + 1) parts := by
  cases spelled with
  | plain word =>
    cases valued with | counted others =>
    refine ⟨next, _, rfl, others, fun parts => ?_⟩
    rw [enumerators, if_neg (by simp [word])]
    rfl
  | @initialized t sign x ts word equals value =>
    cases valued with | @initialized _ others _ v _ _ _ denotes othersValued =>
    obtain ⟨w, found, same⟩ := value?_of_denotes denotes
    obtain rfl : w = v := Int64.toInt_inj.1 same
    have evaluated : evaluate? (earlier ++ before) ts = some w := by
      rw [evaluate?, parse?_of_spells value]
      exact found
    refine ⟨w, others, rfl, othersValued, fun parts => ?_⟩
    rw [enumerators, if_neg (by simp [word])]
    simp only [equals, if_true, evaluated]
    rfl

theorem enumerators_of_spells (name : String) {earlier before values : List (String × Int64)} {next : Int64}
    {es : List Enumerator} {ts : List Token} (spelled : SpellEnumerators es ts)
    (valued : Valued earlier before next es values) :
    enumerators name earlier before next (commaParts ts) = .ok (before ++ values) := by
  induction spelled generalizing before next values with
  | none =>
    cases valued
    simp [commaParts, cutCommas, enumerators]
  | last first =>
    obtain ⟨v, others, rfl, done, read⟩ := enumerators_cons name first valued
    cases done
    rw [commaParts_of_no_comma fun t ht => (first.inner.1 t ht).1, read, enumerators]
  | more first unshifted separated _ ih =>
    -- Without a right shift all brackets before the comma match, so it is taken for one between parts.
    obtain ⟨v, others, rfl, othersValued, read⟩ := enumerators_cons name first valued
    rw [commaParts_cons (fun t ht => (first.inner.1 t ht).1) (first.inner.2 unshifted) separated, read,
      ih othersValued, List.append_assoc]
    rfl

/-! ## Reading an enumeration -/

theorem SpellEnumerators.inner {es : List Enumerator} {ts : List Token} (h : SpellEnumerators es ts) :
    ∀ t ∈ ts, t.isMark "\x7b" = false ∧ t.isMark "\x7d" = false := by
  induction h with
  | none => exact List.forall_mem_nil _
  | last first => exact fun t ht => (first.inner.1 t ht).2
  | more first _ separated _ ih =>
    refine List.forall_mem_append.2 ⟨fun t ht => (first.inner.1 t ht).2, List.forall_mem_cons.2 ⟨?_, ih⟩⟩
    exact ⟨isMark_of_other separated (by decide), isMark_of_other separated (by decide)⟩

/-- A group ends at the first bracket that closes it if there is none of its brackets before. -/
theorem closeGroup?_append {opening closing : String} {inside rest : List Token} {close : Token}
    (h : ∀ t ∈ inside, t.isMark opening = false ∧ t.isMark closing = false)
    (other : close.isMark opening = false) (closes : close.isMark closing) :
    closeGroup? opening closing 0 (inside ++ close :: rest) = some ⟨inside, close, rest⟩ := by
  induction inside with
  | nil => simp [closeGroup?, other, closes]
  | cons t inside ih =>
    obtain ⟨⟨notOpening, notClosing⟩, others⟩ := List.forall_mem_cons.1 h
    simp [closeGroup?, notOpening, notClosing, ih others, Group.push]

/-- The head of an enumeration is read up to the bracket that opens its body. -/
theorem enumHead_of_spells {isScoped : Bool} {scope base rest : List Token} {name opening : Token}
    (scopes : SpellScope isScoped scope) (word : name.kind = .identifier)
    (noKeyword : isClassWord name = false) (based : SpellBase base) (opens : opening.isMark "\x7b") :
    enumHead (scope ++ name :: (base ++ opening :: rest)) = ⟨isScoped, name.text, opening :: rest⟩ := by
  have after : (if (base ++ opening :: rest).head?.any (·.isMark ":") then
      ((base ++ opening :: rest).drop 1).dropWhile fun t =>
        !(t.isMark "\x7b" || t.isMark ";" || t.isMark "\x7d")
      else base ++ opening :: rest) = opening :: rest := by
    cases based with
    | none =>
      have other : opening.isMark ":" = false := isMark_of_other opens (by decide)
      simp [other]
    | @given colon type starts plain =>
      have skipped : ∀ t ∈ type, (!(t.isMark "\x7b" || t.isMark ";" || t.isMark "\x7d")) = true := by
        intro t ht
        obtain ⟨a, b, c⟩ := plain t ht
        simp [a, b, c]
      have stops : (!(opening.isMark "\x7b" || opening.isMark ";" || opening.isMark "\x7d")) = false := by
        simp [opens]
      rw [List.cons_append, List.head?_cons, Option.any_some, if_pos starts, List.drop_one, List.tail_cons,
        List.dropWhile_append_of_pos skipped, List.dropWhile_cons_of_neg (by simp [stops])]
  cases scopes with
  | none => simpa [enumHead, noKeyword, word] using after
  | word isWord => simpa [enumHead, isWord, word] using after

/-- A written enumeration is read with what its enumerators are worth. -/
theorem enumeration?_of_spells {e : NamedEnum} {ts rest after : List Token} {line : Nat}
    {earlier : List EnumDeclaration} {values : List (String × Int64)} (spelled : e.Spells ts)
    (valued : Valued (earlier.flatMap (·.keys)) [] 0 e.enumerators values)
    (ends : skipStatement rest = .ok after) :
    enumeration? line earlier (ts ++ rest) = .ok (some ⟨e.name, e.isScoped, values, line⟩, after) := by
  cases spelled with
  | @mk isScoped enumerators scope base body name opening closing scopes word named noKeyword based opens
    entries closes =>
    obtain ⟨-, openText⟩ := isMark_iff.1 opens
    have taken : group opening (body ++ closing :: rest) = .ok ⟨body, closing, rest⟩ := by
      have closer : closerOf opening.text = "\x7d" := by rw [openText]; rfl
      rw [group, closer, openText,
        closeGroup?_append entries.inner (isMark_of_other closes (by decide)) closes]
    have shape : scope ++ name :: (base ++ opening :: (body ++ [closing])) ++ rest =
        scope ++ name :: (base ++ opening :: (body ++ closing :: rest)) := by simp
    have read := enumerators_of_spells name.text entries valued
    rw [enumeration?, shape, enumHead_of_spells scopes word noKeyword based opens]
    simp only [opens, Bool.not_true, Bool.false_eq_true, if_false, taken]
    refine bind_eq_ok_iff.2 ⟨_, rfl, bind_eq_ok_iff.2 ⟨after, ends, bind_eq_ok_iff.2 ⟨values, read, ?_⟩⟩⟩
    exact if_neg named

end Reflection.Declaration
