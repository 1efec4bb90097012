import Mathlib.Data.List.Forall2
import Mathlib.Data.List.Infix
import RobotBlocks.Proofs.Text.Lines

/-!
# Documentation comments

A documentation comment ends at the first star with a slash behind it. `docComment` breaks such pairs up
inside each line, puts a frame around the lines, and takes a blank away behind a star at the end of a
line. None of this makes a new pair: the slash of every pair is gone before the frame comes, no line
begins with a slash, and behind a star that loses its blank comes a line feed.

So a documentation comment is closed at its very end and nowhere before, and it has one line for each
line of the text (`doc_comment_closes_once`).
-/

set_option autoImplicit false

namespace RobotBlocks.Text

open List

variable {cs : List Char}

/-- Somewhere in a text, a slash stands behind a star. -/
def Closes (cs : List Char) : Prop := ['*', '/'] <:+: cs

/-- One line of a documentation comment shows a line of a text. The line is there as it is unless it
closes a comment, but a blank at its end may be missing. -/
structure DocLineOf (line doc : List Char) : Prop where
  starts : [' ', '*'] <+: doc
  single : '\n' ∉ doc
  shows : ¬ Closes line → doc = ' ' :: '*' :: ' ' :: line ∨ doc ++ [' '] = ' ' :: '*' :: ' ' :: line

/-! ## Texts that close nothing -/

theorem not_closes_nil : ¬ Closes [] := by
  simp [Closes]

theorem closes_cons_iff {c : Char} :
    Closes (c :: cs) ↔ (c = '*' ∧ cs.head? = some '/') ∨ Closes cs := by
  unfold Closes
  rw [infix_cons_iff]
  cases cs with
  | nil => simp [cons_prefix_cons]
  | cons d cs =>
    simp only [cons_prefix_cons, nil_prefix, and_true, head?_cons, Option.some.injEq]
    rw [eq_comm (a := c), eq_comm (a := d)]

/-- Of two texts that close nothing, the first may end in a star or the second begin with a slash, but
not both. -/
theorem not_closes_append {front back : List Char} (hfront : ¬ Closes front) (hback : ¬ Closes back)
    (h : front.getLast? ≠ some '*' ∨ back.head? ≠ some '/') : ¬ Closes (front ++ back) := by
  induction front with
  | nil => exact hback
  | cons c front ih =>
    rw [closes_cons_iff, not_or] at hfront
    rw [cons_append, closes_cons_iff, not_or]
    cases front with
    | nil =>
      refine ⟨?_, hback⟩
      rintro ⟨rfl, hslash⟩
      exact h.elim (fun hstar => hstar rfl) fun hnone => hnone hslash
    | cons d front =>
      rw [getLast?_cons_cons] at h
      exact ⟨hfront.1, ih hfront.2 h⟩

theorem Closes.mono {cs more : List Char} (h : Closes cs) (hstarts : cs <+: more) : Closes more :=
  List.IsInfix.trans h hstarts.isInfix

/-- A pair between two texts that close nothing is the only one. -/
theorem eq_of_append_pair_eq {front back before after : List Char} (hfront : ¬ Closes front)
    (hback : ¬ Closes ('/' :: back))
    (h : front ++ '*' :: '/' :: back = before ++ '*' :: '/' :: after) : after = back := by
  rcases append_eq_append_iff.1 h with ⟨more, rfl, hmore⟩ | ⟨more, rfl, hmore⟩
  · cases more with
    | nil => exact (List.cons.inj (List.cons.inj hmore).2).2.symm
    | cons c more =>
      -- the other pair would begin behind the star
      refine absurd ?_ hback
      rw [(List.cons.inj hmore).2]
      exact ⟨more, after, by simp⟩
  · cases more with
    | nil => exact (List.cons.inj (List.cons.inj hmore).2).2
    | cons c more =>
      obtain ⟨rfl, hrest⟩ := List.cons.inj hmore
      cases more with
      | nil => simp at hrest
      | cons d more =>
        obtain ⟨rfl, -⟩ := List.cons.inj hrest
        exact absurd ⟨before, more, by simp⟩ hfront

/-! ## Lines of a documentation comment -/

theorem head?_breakTerminators (cs : List Char) : (breakTerminators cs).head? = cs.head? := by
  fun_cases breakTerminators cs <;> rfl

/-- No pair is left, and none is made by what a slash is written as. -/
theorem not_closes_breakTerminators (cs : List Char) : ¬ Closes (breakTerminators cs) := by
  fun_induction breakTerminators cs with
  | case1 => exact not_closes_nil
  | case2 rest ih => simpa [closes_cons_iff] using ih
  | case3 c rest hpair ih =>
    rw [closes_cons_iff, not_or, head?_breakTerminators]
    refine ⟨?_, ih⟩
    rintro ⟨hstar, hslash⟩
    obtain ⟨tail, rfl⟩ := head?_eq_some_iff.1 hslash
    exact hpair tail hstar rfl

theorem breakTerminators_eq_self (h : ¬ Closes cs) : breakTerminators cs = cs := by
  fun_induction breakTerminators cs with
  | case1 => rfl
  | case2 rest ih => simp [closes_cons_iff] at h
  | case3 c rest hpair ih =>
    rw [closes_cons_iff, not_or] at h
    rw [ih h.2]

theorem newline_not_mem_breakTerminators (h : '\n' ∉ cs) : '\n' ∉ breakTerminators cs := by
  fun_induction breakTerminators cs with
  | case1 => exact h
  | case2 rest ih =>
    simp only [mem_cons, not_or] at h
    simpa using ih h.2.2
  | case3 c rest hpair ih =>
    rw [mem_cons, not_or] at h ⊢
    exact ⟨h.1, ih h.2⟩

/-- A line stays as it is or loses a blank at its end. -/
theorem dropBlankAfterStar_cases (line : List Char) :
    dropBlankAfterStar line = line ∨ dropBlankAfterStar line ++ [' '] = line := by
  unfold dropBlankAfterStar
  split
  · rename_i rest heq
    right
    have hline : line = (rest.reverse ++ [' ', '*']) ++ [' '] := by
      rw [← reverse_reverse line, heq]
      simp
    rw [hline, dropLast_concat]
  · exact .inl rfl

theorem dropBlankAfterStar_isPrefix (line : List Char) : dropBlankAfterStar line <+: line := by
  rcases dropBlankAfterStar_cases line with h | h
  · rw [h]
  · exact ⟨[' '], h⟩

/-- The frame of a line and what it shows close nothing. -/
theorem not_closes_framed (line : List Char) : ¬ Closes (' ' :: '*' :: ' ' :: breakTerminators line) := by
  simpa [closes_cons_iff] using not_closes_breakTerminators line

theorem docLineOf_dropBlankAfterStar {line : List Char} (h : '\n' ∉ line) :
    DocLineOf line (dropBlankAfterStar (' ' :: '*' :: ' ' :: breakTerminators line)) where
  starts := by
    refine prefix_of_prefix_length_le ⟨' ' :: breakTerminators line, rfl⟩
      (dropBlankAfterStar_isPrefix _) ?_
    rcases dropBlankAfterStar_cases (' ' :: '*' :: ' ' :: breakTerminators line) with hsame | hless
    · rw [hsame]
      simp
    · have hlength := congrArg List.length hless
      simp only [length_append, length_cons, length_nil] at hlength ⊢
      omega
  single := by
    intro hmem
    have hframed := (dropBlankAfterStar_isPrefix _).subset hmem
    simp only [mem_cons, newline_not_mem_breakTerminators h, or_false] at hframed
    revert hframed
    decide
  shows hcloses := by
    rw [breakTerminators_eq_self hcloses]
    exact dropBlankAfterStar_cases _

/-- The lines of a documentation comment and the blank behind them close nothing. -/
theorem not_closes_docLines (lines : List (List Char)) : ¬ Closes (lines.flatMap docLine ++ [' ']) := by
  induction lines with
  | nil => simp [closes_cons_iff, not_closes_nil]
  | cons line lines ih =>
    have hline : ¬ Closes (docLine line) := by
      refine not_closes_append (fun hcloses => ?_) ?_ (.inr (by decide))
      · exact not_closes_framed line (hcloses.mono (dropBlankAfterStar_isPrefix _))
      · simp [closes_cons_iff, not_closes_nil]
    rw [flatMap_cons, append_assoc]
    refine not_closes_append hline ih (.inl ?_)
    rw [docLine, getLast?_concat]
    decide

/-- A documentation comment opens with its first line and closes with its last. Between them it has one
line for each line of the text, and a star with a slash behind it stands in it at the end only. -/
theorem doc_comment_closes_once (text : String) :
    (∃ lines : List (List Char),
      (docComment text).toList =
        "/**\n".toList ++ lines.flatMap (fun line => line ++ ['\n']) ++ " */\n".toList ∧
      lines.length = lineCount text.toList ∧
      List.Forall₂ DocLineOf (lineChars text.toList) lines) ∧
    ∀ before after, (docComment text).toList = before ++ '*' :: '/' :: after → after = ['\n'] := by
  have hchars : (docComment text).toList =
      "/**\n".toList ++ (lineChars text.toList).flatMap docLine ++ " */\n".toList :=
    String.toList_ofList
  constructor
  · refine ⟨(lineChars text.toList).map fun line =>
      dropBlankAfterStar (' ' :: '*' :: ' ' :: breakTerminators line), ?_, ?_, ?_⟩
    · rw [hchars, flatMap_map]
      rfl
    · rw [length_map, length_lineChars]
    · rw [forall₂_map_right_iff, forall₂_same]
      intro line hline
      exact docLineOf_dropBlankAfterStar (newline_not_mem_of_mem_lineChars hline)
  · intro before after heq
    have hopening : ¬ Closes ['/', '*', '*', '\n'] := by simp [closes_cons_iff, not_closes_nil]
    have hfront : ¬ Closes (['/', '*', '*', '\n'] ++
        ((lineChars text.toList).flatMap docLine ++ [' '])) :=
      not_closes_append hopening (not_closes_docLines _) (.inl (by decide))
    refine @eq_of_append_pair_eq _ _ before after hfront ?_ ?_
    · simp [closes_cons_iff, not_closes_nil]
    · rw [← heq, hchars, append_assoc, append_assoc, append_assoc]
      rfl

/-- A pair between another star and another slash leaves no pair behind when it is broken up. -/
example : docCommentChars ['*', '*', '/', '/', '\n', '/'] =
    "/**\n * **&#47;/\n * /\n */\n".toList := by
  decide

end RobotBlocks.Text
