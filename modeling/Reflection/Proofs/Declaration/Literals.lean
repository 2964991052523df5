import Reflection.Declaration.StringLiteral
import Reflection.Proofs.Source.Characters
/-!
# Texts as literals

A text without line feeds can be written as a string literal: with a backslash before each of its
backslashes and quotes, and with quotes around it (`literal`). The lexer takes the whole literal for one
token, since the character behind a backslash never ends it (`classify_literal`), and taking the backslashes
off again, first before the quotes and then one of each two, gives the text back (`unquote_literal`).
-/

namespace Reflection.Declaration

open Reflection.Source

/-- The characters with a backslash before each backslash and each quote. -/
def backslashed (cs : List Char) : List Char :=
  cs.flatMap fun c => if c = '\\' ∨ c = '"' then ['\\', c] else [c]

/-- The literal of a text. -/
def literal (text : String) : String :=
  String.ofList ('"' :: (backslashed text.toList ++ ['"']))

/-- The characters with each backslash twice, as they are when the quotes stand alone again. -/
def doubled (cs : List Char) : List Char :=
  cs.flatMap fun c => if c = '\\' then ['\\', '\\'] else [c]

variable {cs : List Char} {c : Char}

theorem backslashed_cons_of_special (special : c = '\\' ∨ c = '"') (cs : List Char) :
    backslashed (c :: cs) = '\\' :: c :: backslashed cs := by
  rw [backslashed, List.flatMap_cons, if_pos special]
  rfl

theorem backslashed_cons_of_plain (plain : ¬ (c = '\\' ∨ c = '"')) (cs : List Char) :
    backslashed (c :: cs) = c :: backslashed cs := by
  rw [backslashed, List.flatMap_cons, if_neg plain]
  rfl

/-! ## Literals are tokens -/

theorem quotedLength?_backslashed (oneLine : '\n' ∉ cs) (rest : List Char) :
    quotedLength? '"' (backslashed cs ++ '"' :: rest) = some ((backslashed cs).length + 1) := by
  induction cs with
  | nil => rfl
  | cons c cs ih =>
    obtain ⟨notFeed, others⟩ := not_or.1 (mt List.mem_cons.2 oneLine)
    by_cases special : c = '\\' ∨ c = '"'
    · rw [backslashed_cons_of_special special]
      show (quotedLength? '"' (backslashed cs ++ '"' :: rest)).map (· + 2) = _
      rw [ih others]
      rfl
    · have notBackslash : ¬ c = '\\' := fun e => special (.inl e)
      rw [backslashed_cons_of_plain special, List.cons_append, quotedLength?, if_neg (Ne.symm notFeed),
        if_neg fun e => special (.inr e), ih others]
      · rfl
      · exact notBackslash

theorem classify_quote {atLineStart : Bool} (rest : List Char) :
    classify atLineStart ('"' :: rest) = quoted 0 '"' ('"' :: rest) := rfl

/-- Wherever it stands and whatever follows it, a literal is one token. -/
theorem classify_literal {text : String} (oneLine : '\n' ∉ text.toList) (atLineStart : Bool) (rest : List Char) :
    classify atLineStart ((literal text).toList ++ rest) = .ok (.string, (literal text).toList.length) := by
  have length := quotedLength?_backslashed oneLine rest
  have spelled : (literal text).toList = '"' :: (backslashed text.toList ++ ['"']) := String.toList_ofList
  rw [spelled, List.cons_append, List.append_assoc, List.singleton_append, classify_quote, quoted,
    List.drop_succ_cons, List.drop_zero, length]
  simp [Nat.add_comm]

/-! ## Literals say their texts -/

theorem betweenQuotes_quoted (inner : List Char) : betweenQuotes ('"' :: (inner ++ ['"'])) = inner := by
  simp [betweenQuotes]

/-- A text with these backslashes does not start with a quote, so a backslash before it stays. -/
theorem unescapeQuotes_backslash (cs : List Char) :
    unescapeQuotes ('\\' :: backslashed cs) = '\\' :: unescapeQuotes (backslashed cs) := by
  cases cs with
  | nil => rfl
  | cons c cs =>
    by_cases special : c = '\\' ∨ c = '"'
    · rw [backslashed_cons_of_special special]
      rfl
    · rw [backslashed_cons_of_plain special, unescapeQuotes]
      rintro rest - e
      exact special (.inr (List.cons.inj e).1)

theorem unescapeQuotes_backslashed (cs : List Char) : unescapeQuotes (backslashed cs) = doubled cs := by
  induction cs with
  | nil => rfl
  | cons c cs ih =>
    rw [doubled, List.flatMap_cons]
    by_cases backslash : c = '\\'
    · subst backslash
      rw [backslashed_cons_of_special (.inl rfl), unescapeQuotes, unescapeQuotes_backslash, ih]
      · rfl
      · rintro rest - ⟨⟩
    · by_cases quote : c = '"'
      · subst quote
        rw [backslashed_cons_of_special (.inr rfl), unescapeQuotes, ih]
        rfl
      · rw [backslashed_cons_of_plain (by simp [backslash, quote]), unescapeQuotes, ih, if_neg backslash]
        · rfl
        · exact fun rest e => absurd e backslash

theorem unescapeBackslashes_doubled (cs : List Char) : unescapeBackslashes (doubled cs) = cs := by
  induction cs with
  | nil => rfl
  | cons c cs ih =>
    rw [doubled, List.flatMap_cons]
    by_cases backslash : c = '\\'
    · subst backslash
      exact congrArg _ ih
    · rw [if_neg backslash, List.singleton_append, unescapeBackslashes]
      · exact congrArg _ ih
      · exact fun rest e => absurd e backslash

/-- The literal of a text says this text. -/
theorem unquote_literal (text : String) : unquote (literal text) = text := by
  have spelled : (literal text).toList = '"' :: (backslashed text.toList ++ ['"']) := String.toList_ofList
  rw [unquote, spelled, betweenQuotes_quoted, unescapeQuotes_backslashed, unescapeBackslashes_doubled,
    String.ofList_toList]

end Reflection.Declaration
