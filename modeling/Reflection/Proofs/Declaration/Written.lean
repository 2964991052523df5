import Reflection.Proofs.Declaration.Enumerators
import Reflection.Proofs.Declaration.Reading
/-!
# Written words

The tokens that written declarations are made of: marks, words with a meaning of their own (`Word`) and
names, which are identifiers without one (`Name`). A written declaration is a tree with such tokens at
its leaves, so that what is written is known to be well formed, and its tokens are read off it.
-/

namespace Reflection.Declaration

open Reflection.Source

/-! ## Tokens by what they mean -/

/-- A token that is the punctuation `mark`. -/
structure Mark (mark : String) where
  token : Token
  isMark : token.isMark mark

/-- A token that is one of certain words. -/
structure Word (among : List String) where
  token : Token
  kind : token.kind = .identifier
  text_mem : token.text ∈ among

/-- An identifier that is none of the reserved words. -/
structure Name (reserved : List String) where
  token : Token
  kind : token.kind = .identifier
  identifier : TypeText.isIdentifier token.text.toList
  free : token.text ∉ reserved

variable {mark : String} {among reserved : List String}

/-- The name itself. -/
def Name.text (n : Name reserved) : String :=
  n.token.text

attribute [simp] Word.kind Name.kind

@[simp]
theorem Mark.isMark_eq (m : Mark mark) (other : String) : m.token.isMark other = decide (mark = other) := by
  obtain ⟨kind, text⟩ := isMark_iff.1 m.isMark
  simp [Token.isMark, kind, text]

@[simp]
theorem Mark.isWord (m : Mark mark) (word : String) : m.token.isWord word = false := by
  simp [Token.isWord, (isMark_iff.1 m.isMark).1]

@[simp]
theorem Mark.kind (m : Mark mark) : m.token.kind = .punctuation :=
  (isMark_iff.1 m.isMark).1

@[simp]
theorem Mark.text (m : Mark mark) : m.token.text = mark :=
  (isMark_iff.1 m.isMark).2

@[simp]
theorem Word.isMark (w : Word among) (mark : String) : w.token.isMark mark = false :=
  isMark_of_word (by simp)

@[simp]
theorem Word.text_eq {word : String} (w : Word [word]) : w.token.text = word :=
  List.mem_singleton.1 w.text_mem

theorem Word.text_not_mem (w : Word among) {others : List String} (apart : ∀ word ∈ among, word ∉ others) :
    w.token.text ∉ others :=
  apart _ w.text_mem

theorem Word.isWord_eq (w : Word among) (word : String) : w.token.isWord word = decide (w.token.text = word) := by
  simp [Token.isWord]

@[simp]
theorem Word.isWord_eq_false (w : Word among) {word : String} (h : word ∉ among) :
    w.token.isWord word = false := by
  have : w.token.text ≠ word := fun e => h (e ▸ w.text_mem)
  simp [Token.isWord, this]

@[simp]
theorem Name.isMark (n : Name reserved) (mark : String) : n.token.isMark mark = false :=
  isMark_of_word (by simp)

theorem Name.text_ne (n : Name reserved) {word : String} (h : word ∈ reserved) : n.token.text ≠ word :=
  fun e => n.free (e ▸ h)

theorem Name.isWord_eq_false (n : Name reserved) {word : String} (h : word ∈ reserved) :
    n.token.isWord word = false := by
  simp [Token.isWord, n.text_ne h]

theorem Name.text_ne_empty (n : Name reserved) : n.text ≠ "" := fun e => by
  have := n.identifier
  rw [show n.token.text = "" from e] at this
  cases this

/-! ## Optional tokens -/

/-- The token of a mark that may be left out. -/
def Mark.tokens? (m : Option (Mark mark)) : List Token :=
  m.toList.map (·.token)

/-- The token of a word that may be left out. -/
def Word.tokens? (w : Option (Word among)) : List Token :=
  w.toList.map (·.token)

/-! ## Tokens at a place on the first line -/

def Mark.placed (mark : String) (offset : Nat) : Mark mark :=
  ⟨⟨.punctuation, mark, offset, 1⟩, by simp [Token.isMark]⟩

def Word.placed (text : String) (offset : Nat) (h : text ∈ among) : Word among :=
  ⟨⟨.identifier, text, offset, 1⟩, rfl, h⟩

def Name.placed (text : String) (offset : Nat) (identifier : TypeText.isIdentifier text.toList)
    (free : text ∉ reserved) : Name reserved :=
  ⟨⟨.identifier, text, offset, 1⟩, rfl, identifier, free⟩

/-- The keyword of a class. -/
def Word.classAt (offset : Nat) : Word ["class", "struct"] :=
  .placed "class" offset (by decide)

/-- The marker of a class. -/
def Word.objectAt (offset : Nat) : Word ["H_OBJECT"] :=
  .placed "H_OBJECT" offset (by decide)

/-! ## What the reader of a body does with them -/

variable {endLine : Nat} {b : ClassBody} {rest : List Token}

theorem isClassWord_of_keyword (keyword : Word ["class", "struct"]) : isClassWord keyword.token := by
  have := keyword.text_mem
  simpa [isClassWord, Token.isWord] using this

theorem itemStart_of_keyword (keyword : Word ["class", "struct"]) (rest : List Token) :
    itemStart endLine keyword.token rest = .ok (.ofClass ⟨false, keyword.token, rest⟩) := by
  rw [itemStart, if_pos (isClassWord_of_keyword keyword)]

theorem itemStart_of_other {t : Token} (h : ∀ word ∈ ["class", "struct", "template"], t.isWord word = false)
    (rest : List Token) : itemStart endLine t rest = .ok .other := by
  simp only [List.mem_cons, List.not_mem_nil, or_false, forall_eq_or_imp, forall_eq] at h
  obtain ⟨noClass, noStruct, noTemplate⟩ := h
  simp [itemStart, isClassWord, noClass, noStruct, noTemplate]

/-- The marker of a class takes a semicolon behind it along. -/
theorem bodyStep_of_marker_object (word : Word ["H_OBJECT"]) (rest : List Token) :
    bodyStep endLine b word.token rest = .ok (.goOn { b with annotated := true }
      (if rest.head?.any (·.isMark ";") then rest.drop 1 else rest)) := by
  have read : bodyItem endLine b word.token rest = .ok ({ b with annotated := true },
      if rest.head?.any (·.isMark ";") then rest.drop 1 else rest) := by
    simp [bodyItem, accessOf?, isSignalsWord, isSlotsWord]
    rfl
  rw [bodyStep, itemStart_of_other (by simp)]
  exact bind_eq_ok_iff.2 ⟨_, rfl, bind_eq_ok_iff.2 ⟨_, read, rfl⟩⟩

/-- The marker of a class, with a semicolon of its own or without. -/
theorem bodyStep_of_object (word : Word ["H_OBJECT"]) (semicolon : Option (Mark ";"))
    (behind : rest.head?.any (·.isMark ";") = false) :
    bodyStep endLine b word.token (Mark.tokens? semicolon ++ rest) =
      .ok (.goOn { b with annotated := true } rest) := by
  have dropped : (if (Mark.tokens? semicolon ++ rest).head?.any (·.isMark ";") then
      (Mark.tokens? semicolon ++ rest).drop 1 else Mark.tokens? semicolon ++ rest) = rest := by
    cases semicolon with
    | none => exact if_neg (by simp [Mark.tokens?, behind])
    | some semicolon => simp [Mark.tokens?]
  rw [bodyStep_of_marker_object, dropped]

end Reflection.Declaration
