import RobotBlocks.Text.Lines

/-!
# Lines of generated code

Both targets end a line at a line feed, at a carriage return, and at a carriage return together with the
line feed behind it (`sourceLines`). Layout ends lines at line feeds only (`lineChars`): a carriage
return that stands alone stays inside its line there, and breaks it in two for the targets.

The number of lines between line feeds is that of the line feeds, and one more if something stands
behind the last of them (`length_lineChars`). A text that ends in a line feed has, for the targets, the
lines that it has by itself, whatever follows it (`sourceLines_append`), so that the lines of a text are
found piece by piece.
-/

set_option autoImplicit false

namespace RobotBlocks.Text

open List

variable {lines : List (List Char)}

/-- The lines of a text as both targets tell them apart, without their line ends. Nothing follows the
last line end. -/
def sourceLines : List Char → List (List Char)
  | [] => []
  | '\n' :: rest => [] :: sourceLines rest
  | '\r' :: '\n' :: rest => [] :: sourceLines rest
  | '\r' :: rest => [] :: sourceLines rest
  | c :: rest =>
    match sourceLines rest with
    | [] => [[c]]
    | line :: lines => (c :: line) :: lines

/-- The number of lines of a text that is split at line feeds: a line feed ends a line, and what stands
behind the last one is a line if it is not empty. -/
def lineCount (cs : List Char) : Nat :=
  cs.count '\n' + if cs.getLast?.all (· = '\n') then 0 else 1

/-! ## Lines between line feeds -/

variable {cs : List Char}

theorem lineChars_eq_nil_iff : lineChars cs = [] ↔ cs = [] := by
  fun_cases lineChars cs <;> simp

variable {line : List Char}

/-- The characters of a line are those of the text, without its line feeds. -/
theorem mem_of_mem_lineChars {c : Char} (h : line ∈ lineChars cs) (hc : c ∈ line) :
    c ∈ cs ∧ c ≠ '\n' := by
  fun_induction lineChars cs generalizing line with
  | case1 => simp at h
  | case2 rest ih | case3 rest ih =>
    rcases mem_cons.1 h with rfl | h
    · simp at hc
    · simp [ih h hc]
  | case4 d rest hfeed hpair hrest ih =>
    obtain rfl := mem_singleton.1 h
    obtain rfl := mem_singleton.1 hc
    exact ⟨mem_cons_self, hfeed⟩
  | case5 d rest hfeed hpair first lines hrest ih =>
    rw [hrest] at ih
    rcases mem_cons.1 h with rfl | h
    · rcases mem_cons.1 hc with rfl | hc
      · exact ⟨mem_cons_self, hfeed⟩
      · exact (ih mem_cons_self hc).imp_left (mem_cons_of_mem _)
    · exact (ih (mem_cons_of_mem _ h) hc).imp_left (mem_cons_of_mem _)

theorem newline_not_mem_of_mem_lineChars (h : line ∈ lineChars cs) : '\n' ∉ line :=
  fun hc => (mem_of_mem_lineChars h hc).2 rfl

/-- There are as many lines as line feeds end, and the one behind the last line feed. -/
theorem length_lineChars (cs : List Char) : (lineChars cs).length = lineCount cs := by
  fun_induction lineChars cs with
  | case1 => rfl
  | case2 rest ih | case3 rest ih =>
    rw [length_cons, ih]
    cases rest <;> simp [lineCount, Nat.add_right_comm]
  | case4 c rest hfeed hpair hrest ih =>
    obtain rfl := lineChars_eq_nil_iff.1 hrest
    have hc : c ≠ '\n' := hfeed
    simp [lineCount, count_cons_of_ne hc, hc]
  | case5 c rest hfeed hpair first lines hrest ih =>
    have hne : rest ≠ [] := by
      rintro rfl
      cases hrest
    rw [length_cons, ← length_cons (a := first), ← hrest, ih, lineCount, lineCount,
      count_cons_of_ne hfeed]
    obtain ⟨d, others, rfl⟩ := exists_cons_of_ne_nil hne
    rw [getLast?_cons_cons]

/-- The first line goes to the first line end, or to the end of the text. -/
theorem exists_tail_of_lineChars {first : List Char} (h : lineChars cs = first :: lines) :
    ∃ tail, cs = first ++ tail ∧ (tail = [] ∨ ['\n'] <+: tail ∨ ['\r', '\n'] <+: tail) := by
  fun_induction lineChars cs generalizing first lines with
  | case1 => cases h
  | case2 rest ih =>
    obtain ⟨rfl, -⟩ := List.cons.inj h
    exact ⟨'\n' :: rest, rfl, .inr (.inl ⟨rest, rfl⟩)⟩
  | case3 rest ih =>
    obtain ⟨rfl, -⟩ := List.cons.inj h
    exact ⟨'\r' :: '\n' :: rest, rfl, .inr (.inr ⟨rest, rfl⟩)⟩
  | case4 c rest hfeed hpair hrest ih =>
    obtain ⟨rfl, -⟩ := List.cons.inj h
    obtain rfl := lineChars_eq_nil_iff.1 hrest
    exact ⟨[], rfl, .inl rfl⟩
  | case5 c rest hfeed hpair start more hrest ih =>
    obtain ⟨rfl, -⟩ := List.cons.inj h
    obtain ⟨tail, rfl, htail⟩ := ih hrest
    exact ⟨tail, rfl, htail⟩

/-! ## Lines of the targets -/

theorem sourceLines_feed (rest : List Char) : sourceLines ('\n' :: rest) = [] :: sourceLines rest := by
  rw [sourceLines]

theorem sourceLines_return_feed (rest : List Char) :
    sourceLines ('\r' :: '\n' :: rest) = [] :: sourceLines rest := by
  rw [sourceLines]

variable {rest : List Char}

theorem sourceLines_return (h : rest.head? ≠ some '\n') :
    sourceLines ('\r' :: rest) = [] :: sourceLines rest := by
  rw [sourceLines]
  rintro tail rfl
  exact h rfl

theorem sourceLines_eq_nil_iff : sourceLines cs = [] ↔ cs = [] := by
  fun_cases sourceLines cs <;> simp

/-- A character that ends no line belongs to the first line of what follows it. -/
theorem sourceLines_cons {c : Char} (hfeed : c ≠ '\n') (hreturn : c ≠ '\r')
    (h : sourceLines rest = line :: lines) : sourceLines (c :: rest) = (c :: line) :: lines := by
  rw [sourceLines.eq_5 _ _ hfeed (fun _ hc => absurd hc hreturn) hreturn, h]

theorem sourceLines_append_plain (front : List Char) (hfeed : '\n' ∉ front)
    (hreturn : '\r' ∉ front) (h : sourceLines rest = line :: lines) :
    sourceLines (front ++ rest) = (front ++ line) :: lines := by
  induction front with
  | nil => exact h
  | cons c front ih =>
    rw [mem_cons, not_or] at hfeed hreturn
    exact sourceLines_cons (Ne.symm hfeed.1) (Ne.symm hreturn.1) (ih hfeed.2 hreturn.2)

/-- What stands behind a line feed has lines of its own. -/
theorem sourceLines_append (front rest : List Char) :
    sourceLines (front ++ '\n' :: rest) = sourceLines (front ++ ['\n']) ++ sourceLines rest := by
  fun_induction sourceLines front with
  | case1 => simp [sourceLines]
  | case2 front ih => simp only [cons_append, sourceLines_feed, ih]
  | case3 front ih => simp only [cons_append, sourceLines_return_feed, ih]
  | case4 front hpair ih =>
    cases front with
    | nil => simp only [cons_append, nil_append, sourceLines]
    | cons d front =>
      have hd : ∀ tail : List Char, ((d :: front) ++ tail).head? ≠ some '\n' := by
        intro tail heq
        exact hpair front (congrArg (· :: front) (Option.some.inj heq))
      simp only [cons_append] at hd ih ⊢
      rw [sourceLines_return (hd _), sourceLines_return (hd _), ih, cons_append]
  | case5 c front hfeed hpair hreturn hrest ih =>
    obtain rfl := sourceLines_eq_nil_iff.1 hrest
    have hone : ∀ tail, sourceLines (c :: '\n' :: tail) = [c] :: sourceLines tail := fun tail =>
      sourceLines_cons hfeed hreturn (sourceLines_feed tail)
    simp only [cons_append, nil_append, hone, sourceLines]
  | case6 c front hfeed hpair hreturn line lines hrest ih =>
    -- the character joins the first line on both sides, which is the same line
    obtain ⟨first, others, hfirst⟩ := exists_cons_of_ne_nil
      (mt sourceLines_eq_nil_iff.1 (append_ne_nil_of_right_ne_nil front (cons_ne_nil '\n' [])))
    rw [hfirst, cons_append] at ih
    rw [cons_append, cons_append, sourceLines_cons hfeed hreturn ih,
      sourceLines_cons hfeed hreturn hfirst, cons_append]

end RobotBlocks.Text
