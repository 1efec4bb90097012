import Mathlib.Tactic.SplitIfs
import RobotBlocks.Text.Basic

/-!
# Reading string literals

`readLiteral` reads a literal at the front of a text and gives its content and what follows it. It knows
nothing of how literals are written: behind a backslash stand a backslash, one of three letters or the
mark, and every other character stands for itself.

Every text is read back from its literal, whatever follows the literal (`literal_is_read_back`). So a
literal ends where it was meant to end: different texts have different literals, none of which is the
beginning of another, and what follows a literal is never taken for a part of it.
-/

set_option autoImplicit false

namespace RobotBlocks.Text

open List

/-- The character that stands behind a backslash for another one in a literal with a mark. -/
def escapedChar? (mark c : Char) : Option Char :=
  if c = '\\' then some '\\'
  else if c = 'n' then some '\n'
  else if c = 'r' then some '\r'
  else if c = 't' then some '\t'
  else if c = mark then some mark
  else none

/-- What stands before the mark that ends a literal, and what follows that mark. -/
def readContent (mark : Char) : List Char → Option (List Char × List Char)
  | [] => none
  | '\\' :: [] => none
  | '\\' :: c :: rest =>
    (escapedChar? mark c).bind fun c =>
      (readContent mark rest).map fun read => (c :: read.1, read.2)
  | c :: rest =>
    if c = mark then some ([], rest)
    else (readContent mark rest).map fun read => (c :: read.1, read.2)

/-- The content of the literal at the front of a text, and what follows the literal. -/
def readLiteral (mark : Char) : List Char → Option (List Char × List Char)
  | [] => none
  | c :: rest => if c = mark then readContent mark rest else none

/-- The number of backslashes at the end of a text. -/
def trailingBackslashes (cs : List Char) : Nat := (cs.reverse.takeWhile (· = '\\')).length

/-- What follows a text is escaped: the backslashes at its end do not pair off. -/
def Escapes (cs : List Char) : Prop := trailingBackslashes cs % 2 = 1

instance (cs : List Char) : Decidable (Escapes cs) :=
  inferInstanceAs (Decidable (trailingBackslashes cs % 2 = 1))

/-! ## Backslashes at the end of a text -/

@[simp] theorem trailingBackslashes_append_backslash (cs : List Char) :
    trailingBackslashes (cs ++ ['\\']) = trailingBackslashes cs + 1 := by
  simp [trailingBackslashes]

variable {c : Char}

theorem trailingBackslashes_append_of_ne (h : c ≠ '\\') (cs : List Char) :
    trailingBackslashes (cs ++ [c]) = 0 := by
  simp [trailingBackslashes, h]

/-- A backslash escapes what follows it exactly if it is not escaped itself. -/
theorem escapes_append_backslash {cs : List Char} : Escapes (cs ++ ['\\']) ↔ ¬ Escapes cs := by
  unfold Escapes
  rw [trailingBackslashes_append_backslash]
  omega

theorem not_escapes_append_of_ne (h : c ≠ '\\') (cs : List Char) : ¬ Escapes (cs ++ [c]) := by
  unfold Escapes
  rw [trailingBackslashes_append_of_ne h]
  omega

/-- An escaped character escapes nothing, be it a backslash or not. -/
theorem not_escapes_append_pair {cs : List Char} (h : ¬ Escapes cs) (c : Char) :
    ¬ Escapes (cs ++ ['\\', c]) := by
  have hescapes : Escapes (cs ++ ['\\']) := escapes_append_backslash.2 h
  rw [show cs ++ ['\\', c] = (cs ++ ['\\']) ++ [c] by simp]
  by_cases hc : c = '\\'
  · rw [hc, escapes_append_backslash]
    exact not_not_intro hescapes
  · exact not_escapes_append_of_ne hc _

/-! ## Characters of a literal -/

section

variable {mark : Char} (hmark : mark = '\'' ∨ mark = '"')

include hmark

/-- A character is written as it is or as a backslash and a character that stands for it. -/
theorem escapeChar_cases (c : Char) :
    (escapeChar mark c = [c] ∧ c ≠ '\\' ∧ c ≠ mark ∧ c ≠ '\n' ∧ c ≠ '\r') ∨
      ∃ d, escapeChar mark c = ['\\', d] ∧ escapedChar? mark d = some c ∧ d ≠ '\n' ∧ d ≠ '\r' := by
  unfold escapeChar
  split_ifs with hbackslash hline hreturn htab hquote
  · exact .inr ⟨'\\', rfl, by rw [hbackslash]; rfl, by decide, by decide⟩
  · exact .inr ⟨'n', rfl, by rw [hline]; rfl, by decide, by decide⟩
  · exact .inr ⟨'r', rfl, by rw [hreturn]; rfl, by decide, by decide⟩
  · exact .inr ⟨'t', rfl, by rw [htab]; rfl, by decide, by decide⟩
  · subst hquote
    refine .inr ⟨c, rfl, ?_, hline, hreturn⟩
    rcases hmark with rfl | rfl <;> rfl
  · exact .inl ⟨rfl, hbackslash, hquote, hline, hreturn⟩

theorem readContent_escapeChar (c : Char) (rest : List Char) :
    readContent mark (escapeChar mark c ++ rest) =
      (readContent mark rest).map fun read => (c :: read.1, read.2) := by
  rcases escapeChar_cases hmark c with ⟨hwritten, hbackslash, hquote, -, -⟩ |
    ⟨d, hwritten, hstands, -, -⟩
  · rw [hwritten, singleton_append,
      readContent.eq_4 _ _ _ (by simp [hbackslash]) (by simp [hbackslash]), if_neg hquote]
  · rw [hwritten, cons_append, singleton_append, readContent.eq_3, hstands, Option.bind_some]

theorem readContent_flatMap_escapeChar (content rest : List Char) :
    readContent mark (content.flatMap (escapeChar mark) ++ mark :: rest) =
      some (content, rest) := by
  induction content with
  | nil => rcases hmark with rfl | rfl <;> simp [readContent]
  | cons c content ih =>
    rw [flatMap_cons, append_assoc, readContent_escapeChar hmark, ih, Option.map_some]

/-- Neither a line feed nor a carriage return is written as it is. -/
theorem not_mem_flatMap_escapeChar {lineEnd : Char} (hend : lineEnd = '\n' ∨ lineEnd = '\r')
    (content : List Char) : lineEnd ∉ content.flatMap (escapeChar mark) := by
  rw [mem_flatMap]
  rintro ⟨c, -, hmem⟩
  rcases escapeChar_cases hmark c with ⟨hwritten, -, -, hline, hreturn⟩ |
    ⟨d, hwritten, -, hline, hreturn⟩
  · rw [hwritten, mem_singleton] at hmem
    rcases hend with rfl | rfl
    · exact hline hmem.symm
    · exact hreturn hmem.symm
  · rw [hwritten] at hmem
    rcases hend with rfl | rfl
    · simp [Ne.symm hline] at hmem
    · simp [Ne.symm hreturn] at hmem

/-- Behind a text that escapes nothing, a written character escapes nothing either. -/
theorem not_escapes_append_escapeChar {front : List Char} (h : ¬ Escapes front) (c : Char) :
    ¬ Escapes (front ++ escapeChar mark c) := by
  rcases escapeChar_cases hmark c with ⟨hwritten, hbackslash, -⟩ | ⟨d, hwritten, -⟩
  · rw [hwritten]
    exact not_escapes_append_of_ne hbackslash front
  · rw [hwritten]
    exact not_escapes_append_pair h d

theorem not_escapes_append_flatMap (front : List Char) (h : ¬ Escapes front) (content : List Char) :
    ¬ Escapes (front ++ content.flatMap (escapeChar mark)) := by
  induction content generalizing front with
  | nil => simpa using h
  | cons c content ih =>
    rw [flatMap_cons, ← append_assoc]
    exact ih _ (not_escapes_append_escapeChar hmark h c)

/-- Only a backslash stands before a mark in the way a single character is written. -/
theorem eq_backslash_of_escapeChar_eq {before after : List Char}
    (h : escapeChar mark c = before ++ mark :: after) : before = ['\\'] := by
  have hne : '\\' ≠ mark := by rcases hmark with rfl | rfl <;> decide
  rcases escapeChar_cases hmark c with ⟨hwritten, -, hquote, -⟩ | ⟨d, hwritten, -⟩
  · rw [hwritten] at h
    rcases singleton_eq_append_iff.1 h with ⟨-, heq⟩ | ⟨-, heq⟩
    · exact absurd (List.cons.inj heq).1.symm hquote
    · cases heq
  · rw [hwritten] at h
    cases before with
    | nil => exact absurd (List.cons.inj h).1 hne
    | cons b before =>
      obtain ⟨rfl, hrest⟩ := List.cons.inj h
      rcases singleton_eq_append_iff.1 hrest with ⟨rfl, -⟩ | ⟨-, heq⟩
      · rfl
      · cases heq

/-- Every mark among the characters of a literal is escaped. -/
theorem escapes_of_flatMap_eq (front : List Char) (hfront : ¬ Escapes front)
    {content before after : List Char}
    (h : content.flatMap (escapeChar mark) = before ++ mark :: after) :
    Escapes (front ++ before) := by
  induction content generalizing front before with
  | nil => simp at h
  | cons c content ih =>
    have hnext := not_escapes_append_escapeChar hmark hfront c
    -- The mark stands in what is written for the first character or behind that.
    rcases append_eq_append_iff.1 (flatMap_cons ▸ h) with ⟨more, rfl, hmore⟩ | ⟨more, hfirst, hmore⟩
    · rw [← append_assoc]
      exact ih _ hnext hmore
    · cases more with
      | nil =>
        rw [append_nil] at hfirst
        rw [← hfirst, ← append_nil (front ++ escapeChar mark c)]
        exact ih _ hnext hmore.symm
      | cons d more =>
        obtain ⟨rfl, -⟩ := List.cons.inj hmore
        rw [eq_backslash_of_escapeChar_eq hmark hfirst, escapes_append_backslash]
        exact hfront

end

/-- A literal stands between two marks. Between them there is no line end, and every mark is escaped;
the last one is not. With anything behind it, the literal is read to its end and no further, and gives
the text back. Therefore literals of different texts are different, and a text that begins with two
literals begins with one and the same. -/
theorem literal_is_read_back {mark : Char} (hmark : mark = '\'' ∨ mark = '"') (text : String) :
    (∃ body, (quote mark text).toList = mark :: (body ++ [mark]) ∧ '\n' ∉ body ∧ '\r' ∉ body ∧
      (∀ before after, body = before ++ mark :: after → Escapes before) ∧ ¬ Escapes body) ∧
    (∀ rest, readLiteral mark ((quote mark text).toList ++ rest) = some (text.toList, rest)) ∧
    (∀ other, quote mark text = quote mark other → text = other) ∧
    ∀ other rest rest', (quote mark text).toList ++ rest = (quote mark other).toList ++ rest' →
      text = other ∧ rest = rest' := by
  have hchars : ∀ content, (quote mark content).toList =
      mark :: (content.toList.flatMap (escapeChar mark) ++ [mark]) := by
    intro content
    simp [quote, quoteChars]
  have hread : ∀ content rest,
      readLiteral mark ((quote mark content).toList ++ rest) = some (content.toList, rest) := by
    intro content rest
    rw [hchars, cons_append, readLiteral, if_pos rfl, append_assoc,
      singleton_append, readContent_flatMap_escapeChar hmark]
  have hfree : ∀ other rest rest',
      (quote mark text).toList ++ rest = (quote mark other).toList ++ rest' →
        text = other ∧ rest = rest' := by
    intro other rest rest' heq
    have hsame := hread text rest
    rw [heq, hread] at hsame
    obtain ⟨htext, hrest⟩ := Prod.mk.inj (Option.some.inj hsame)
    exact ⟨(String.toList_inj.1 htext).symm, hrest.symm⟩
  refine ⟨⟨_, hchars text, ?_, ?_, ?_, ?_⟩, hread text, ?_, hfree⟩
  · exact not_mem_flatMap_escapeChar hmark (.inl rfl) _
  · exact not_mem_flatMap_escapeChar hmark (.inr rfl) _
  · intro before after heq
    exact escapes_of_flatMap_eq hmark [] (by decide) heq
  · exact not_escapes_append_flatMap hmark [] (by decide) _
  · intro other heq
    exact (hfree other [] [] (by rw [heq])).1

/-- A text with a mark, with a backslash before a letter and with one at its end. -/
theorem trailing_backslash_is_read_back :
    ('"' = '\'' ∨ '"' = '"') ∧
      (quote '"' "a\"\\n\\").toList = ['"', 'a', '\\', '"', '\\', '\\', 'n', '\\', '\\', '"'] ∧
      readLiteral '"' ((quote '"' "a\"\\n\\").toList ++ ['"', ';']) =
        some ("a\"\\n\\".toList, ['"', ';']) :=
  ⟨.inr rfl, by decide, (literal_is_read_back (.inr rfl) "a\"\\n\\").2.1 ['"', ';']⟩

end RobotBlocks.Text
