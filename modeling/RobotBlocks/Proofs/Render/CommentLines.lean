import RobotBlocks.Proofs.Text.Lines
import RobotBlocks.Proofs.Yields
import RobotBlocks.Render.Generate

/-!
# Lines of comments

A comment that runs to the end of its line has to be written anew for each line. The text of a comment
is split at line feeds for that, while the targets end a line at a carriage return, too. Behind a
carriage return that stands alone the rest of the comment is therefore code, unless it happens to
begin like a comment itself (`Text.StrayReturn`).

The text of a statement has the lines of its comment and then those that the block is rendered as. The
former are comments exactly if the comment has no stray return
(`statement_comments_are_comments_iff`); with one, a part of the comment is code
(`NoteSample.return_makes_comment_code`).
-/

set_option autoImplicit false

namespace RobotBlocks

open List

namespace Text

/-- How a comment that runs to the end of its line begins. -/
def commentStart : List Char := ['/', '/', ' ']

/-- All lines of a text are comments for the targets. -/
def AllComments (cs : List Char) : Prop := ∀ line ∈ sourceLines cs, commentStart <+: line

instance (cs : List Char) : Decidable (AllComments cs) :=
  inferInstanceAs (Decidable (∀ line ∈ sourceLines cs, commentStart <+: line))

/-- A text has a carriage return, and what stands behind it is of some kind. -/
def HasReturn (P : List Char → Prop) (cs : List Char) : Prop :=
  ∃ before after, cs = before ++ '\r' :: after ∧ P after

/-- A line has a carriage return inside, and no comment begins behind it. -/
def BrokenLine (line : List Char) : Prop :=
  HasReturn (fun after => after ≠ [] ∧ ¬ commentStart <+: after) line

/-- A text has a carriage return that neither belongs to a line end nor stands last in its line, and no
comment begins behind it. -/
def StrayReturn (cs : List Char) : Prop :=
  HasReturn (fun after => after ≠ [] ∧ ¬ ['\n'] <+: after ∧ ¬ ['\r', '\n'] <+: after ∧
    ¬ commentStart <+: after) cs

/-! ## Lines that are broken -/

variable {P : List Char → Prop}

theorem not_hasReturn_nil : ¬ HasReturn P [] := by
  simp [HasReturn]

variable {cs : List Char}

theorem hasReturn_cons_iff {c : Char} :
    HasReturn P (c :: cs) ↔ (c = '\r' ∧ P cs) ∨ HasReturn P cs := by
  constructor
  · rintro ⟨before, after, heq, hafter⟩
    cases before with
    | nil =>
      cases heq
      exact .inl ⟨rfl, hafter⟩
    | cons d before =>
      cases heq
      exact .inr ⟨before, after, rfl, hafter⟩
  · rintro (⟨rfl, hafter⟩ | ⟨before, after, rfl, hafter⟩)
    · exact ⟨[], cs, rfl, hafter⟩
    · exact ⟨c :: before, after, rfl, hafter⟩

variable {lines : List (List Char)}

/-- A comment begins in front of a text exactly if it begins in front of its first line. -/
theorem commentStart_prefix_iff {first : List Char} (h : lineChars cs = first :: lines) :
    commentStart <+: cs ↔ commentStart <+: first := by
  obtain ⟨tail, rfl, htail⟩ := exists_tail_of_lineChars h
  refine ⟨fun hstart => ?_, fun hstart => hstart.trans (prefix_append first tail)⟩
  rcases prefix_or_prefix_of_prefix hstart (prefix_append first tail) with hfirst | ⟨more, hmore⟩
  · exact hfirst
  · rw [← hmore, prefix_append_right_inj] at hstart
    cases more with
    | nil => exact ⟨[], by rw [← hmore]; simp⟩
    | cons d more =>
      -- the comment would go on behind the line, where a line end stands
      have hd : d ∈ commentStart := hmore ▸ mem_append_right _ mem_cons_self
      have hend : d = '\n' ∨ d = '\r' := by
        obtain ⟨others, rfl⟩ := hstart
        have hfront : d = '\n' ∨ d = '\r' ∧ ['\n'] <+: more ++ others := by
          simpa [cons_prefix_cons, eq_comm] using htail
        exact hfront.imp_right And.left
      rcases hend with rfl | rfl <;> exact absurd hd (by decide)

/-- The first line is empty exactly if a line end stands in front. -/
theorem first_eq_nil_iff {first : List Char} (h : lineChars cs = first :: lines) :
    first = [] ↔ ['\n'] <+: cs ∨ ['\r', '\n'] <+: cs := by
  constructor
  · rintro rfl
    obtain ⟨tail, rfl, htail⟩ := exists_tail_of_lineChars h
    refine htail.resolve_left ?_
    rintro rfl
    cases h
  · rintro (⟨rest, rfl⟩ | ⟨rest, rfl⟩) <;> exact (List.cons.inj h).1.symm

/-- A text has a stray return exactly if one of its lines is broken. -/
theorem strayReturn_iff (cs : List Char) : StrayReturn cs ↔ ∃ line ∈ lineChars cs, BrokenLine line := by
  unfold StrayReturn BrokenLine
  fun_induction lineChars cs with
  | case1 => simp [not_hasReturn_nil]
  | case2 rest ih | case3 rest ih => simp [hasReturn_cons_iff, not_hasReturn_nil, ih]
  | case4 c rest hfeed hpair hrest ih =>
    obtain rfl := lineChars_eq_nil_iff.1 hrest
    simp [hasReturn_cons_iff, not_hasReturn_nil]
  | case5 c rest hfeed hpair first lines hrest ih =>
    have hne : rest ≠ [] := by
      rintro rfl
      cases hrest
    rw [hrest] at ih
    have hempty := first_eq_nil_iff hrest
    rw [hasReturn_cons_iff, ih, commentStart_prefix_iff hrest]
    simp only [mem_cons, exists_eq_or_imp, hasReturn_cons_iff, Ne, hne, hempty, not_or,
      not_false_eq_true, true_and, and_assoc, or_assoc]

/-! ## Comments line by line -/

/-- A comment begins in front of a line exactly if it begins before the first carriage return. -/
theorem commentStart_prefix_takeWhile_iff (line : List Char) :
    commentStart <+: line.takeWhile (· ≠ '\r') ↔ commentStart <+: line := by
  have hbefore : ∀ start : List Char, '\r' ∉ start →
      (start <+: line.takeWhile (· ≠ '\r') ↔ start <+: line) := by
    induction line with
    | nil => simp
    | cons c line ih =>
      intro start hstart
      cases start with
      | nil => simp
      | cons d start =>
        rw [mem_cons, not_or] at hstart
        by_cases hc : c = '\r'
        · simp [hc, cons_prefix_cons, Ne.symm hstart.1]
        · rw [takeWhile_cons_of_pos (by simpa using hc), cons_prefix_cons,
            cons_prefix_cons, ih start hstart.2]
  exact hbefore commentStart (by decide)

/-- A line with a line feed behind it is, for the targets, what stands before its first carriage
return and some further lines. These are comments exactly if the line is not broken. -/
theorem exists_sourceLines {line : List Char} (h : '\n' ∉ line) :
    ∃ others, sourceLines (line ++ ['\n']) = line.takeWhile (· ≠ '\r') :: others ∧
      ((∀ other ∈ others, commentStart <+: other) ↔ ¬ BrokenLine line) := by
  induction line with
  | nil => exact ⟨[], rfl, by simp [BrokenLine, not_hasReturn_nil]⟩
  | cons c line ih =>
    rw [mem_cons, not_or] at h
    obtain ⟨others, hlines, hothers⟩ := ih h.2
    unfold BrokenLine at hothers ⊢
    rw [hasReturn_cons_iff, not_or, ← hothers]
    by_cases hc : c = '\r'
    · subst hc
      cases line with
      | nil =>
        obtain ⟨-, rfl⟩ := List.cons.inj hlines
        exact ⟨[], rfl, by simp [sourceLines]⟩
      | cons d line =>
        have hd : ((d :: line) ++ ['\n']).head? ≠ some '\n' := by
          intro heq
          exact h.2 (Option.some.inj heq ▸ mem_cons_self)
        refine ⟨(d :: line).takeWhile (· ≠ '\r') :: others, ?_, ?_⟩
        · rw [cons_append, sourceLines_return hd, hlines]
          rfl
        · rw [forall_mem_cons, commentStart_prefix_takeWhile_iff]
          simp
    · refine ⟨others, ?_, by simp [hc]⟩
      rw [cons_append, sourceLines_cons (Ne.symm h.1) hc hlines]
      simp [hc]

theorem allComments_append_iff {front back : List Char}
    (h : sourceLines (front ++ back) = sourceLines front ++ sourceLines back) :
    AllComments (front ++ back) ↔ AllComments front ∧ AllComments back := by
  unfold AllComments
  rw [h, forall_mem_append]

theorem allComments_line_iff {line : List Char} (h : '\n' ∉ line) :
    AllComments (commentStart ++ (line ++ ['\n'])) ↔ ¬ BrokenLine line := by
  obtain ⟨others, hlines, hothers⟩ := exists_sourceLines h
  have hstart := sourceLines_append_plain commentStart (by decide) (by decide) hlines
  unfold AllComments
  rw [hstart, forall_mem_cons, hothers]
  exact and_iff_right (prefix_append _ _)

/-- The lines of a comment are its own, whatever follows it. -/
theorem sourceLines_commentLines_append (lines : List (List Char)) (rest : List Char) :
    sourceLines (lines.flatMap (fun line => commentStart ++ (line ++ ['\n'])) ++ rest) =
      sourceLines (lines.flatMap fun line => commentStart ++ (line ++ ['\n'])) ++
        sourceLines rest := by
  induction lines with
  | nil => rfl
  | cons line lines ih =>
    have hsplit : ∀ tail, sourceLines (commentStart ++ (line ++ ['\n']) ++ tail) =
        sourceLines (commentStart ++ (line ++ ['\n'])) ++ sourceLines tail := by
      intro tail
      simpa using sourceLines_append (commentStart ++ line) tail
    rw [flatMap_cons, append_assoc, hsplit, hsplit, ih, append_assoc]

theorem sourceLines_lineComment_append (text rest : String) :
    sourceLines (lineComment text ++ rest).toList =
      sourceLines (lineComment text).toList ++ sourceLines rest.toList := by
  rw [String.toList_append, lineComment, String.toList_ofList]
  exact sourceLines_commentLines_append (lineChars text.toList) rest.toList

/-- All lines of a comment are comments for the targets exactly if its text has no stray return. -/
theorem allComments_lineComment_iff (text : String) :
    AllComments (lineComment text).toList ↔ ¬ StrayReturn text.toList := by
  have hlines : ∀ lines : List (List Char), (∀ line ∈ lines, '\n' ∉ line) →
      (AllComments (lines.flatMap fun line => commentStart ++ (line ++ ['\n'])) ↔
        ∀ line ∈ lines, ¬ BrokenLine line) := by
    intro lines hfeed
    induction lines with
    | nil => simp [AllComments, sourceLines]
    | cons line lines ih =>
      rw [forall_mem_cons] at hfeed ⊢
      have hsplit := sourceLines_commentLines_append [line]
        (lines.flatMap fun line => commentStart ++ (line ++ ['\n']))
      rw [flatMap_singleton] at hsplit
      rw [flatMap_cons, allComments_append_iff hsplit, allComments_line_iff hfeed.1, ih hfeed.2]
  rw [strayReturn_iff, lineComment, String.toList_ofList, not_exists]
  simp only [not_and]
  exact hlines _ fun line hline => newline_not_mem_of_mem_lineChars hline

end Text

/-! ## Comments of statements -/

/-- An enabled block in a chain is its comment and what it is rendered as. -/
theorem Renderer.exists_of_yields_link {r : Renderer} {block : Block} (h : block.disabled = false)
    {before after : Draft} {text : String} (hlink : Yields (r.link block) before text after) :
    ∃ rendering, Yields (r.statement block) before rendering after ∧
      text = ((commentOf block).map Text.lineComment).getD "" ++ rendering := by
  unfold link at hlink
  rw [if_neg (by simp [h])] at hlink
  obtain ⟨rendering, hyields, rfl⟩ := yields_bind_pure.1 hlink
  exact ⟨rendering, hyields, rfl⟩

/-- A comment block is rendered as nothing in a script and as its field in a class. -/
theorem Setting.commentBlock_eq {setting : Setting} {depth : Nat} {block : Block}
    (hkind : block.kind = .comment) {before after : Draft} {rendering : String}
    (h : Yields ((setting.rendererWithin depth).statement block) before rendering after) :
    rendering = match setting.target with
      | .javaScript => ""
      | .java => Text.lineComment ((block.field? "COMMENT").getD "") := by
  cases depth with
  | zero => exact absurd h yields_throw
  | succ depth =>
    change Yields ((setting.rendererWithin depth).renderStatement block) before rendering after at h
    unfold Renderer.renderStatement at h
    split at h
    · rw [setting_rendererWithin] at h
      cases htarget : setting.target with
      | javaScript =>
        rw [htarget] at h
        unfold Script.statement at h
        rw [hkind] at h
        exact (yields_pure.1 h).1.symm
      | java =>
        rw [htarget] at h
        unfold Compiled.statement at h
        rw [hkind] at h
        exact (yields_pure.1 h).1.symm
    · exact absurd h yields_throw

/-- All lines of a comment are comments exactly if its text has no stray return. The text of an enabled
statement with that comment, be it one of the block or of the method that it calls, has the lines of the
comment and then those of what the block itself is rendered as; a statement without a comment has the
latter only. A comment block is left out of a script, and a class has nothing but the comment for it. -/
theorem statement_comments_are_comments_iff (content : String) :
    (Text.AllComments (Text.lineComment content).toList ↔ ¬ Text.StrayReturn content.toList) ∧
    ∀ (setting : Setting) (depth : Nat) (block : Block), block.disabled = false →
      ∀ (before after : Draft) (text : String),
        Yields ((setting.rendererWithin depth).link block) before text after →
        ∃ rendering, Yields ((setting.rendererWithin depth).statement block) before rendering after ∧
          (Renderer.commentOf block = none → text = rendering) ∧
          (Renderer.commentOf block = some content →
            text = Text.lineComment content ++ rendering ∧
            Text.sourceLines text.toList =
              Text.sourceLines (Text.lineComment content).toList ++
                Text.sourceLines rendering.toList) ∧
          (block.kind = .comment → setting.target = .javaScript → text = "") ∧
          (block.kind = .comment → setting.target = .java → block.field? "COMMENT" = some content →
            text = Text.lineComment content) := by
  refine ⟨Text.allComments_lineComment_iff content, ?_⟩
  intro setting depth block henabled before after text h
  obtain ⟨rendering, hyields, rfl⟩ := Renderer.exists_of_yields_link henabled h
  have hown : block.kind = .comment → Renderer.commentOf block = none := by
    intro hkind
    rw [Renderer.commentOf, hkind]
  refine ⟨rendering, hyields, ?_, ?_, ?_, ?_⟩
  · intro hnone
    rw [hnone, Option.map_none, Option.getD_none, String.empty_append]
  · intro hcomment
    rw [hcomment, Option.map_some, Option.getD_some]
    exact ⟨rfl, Text.sourceLines_lineComment_append content rendering⟩
  · intro hkind htarget
    rw [hown hkind, Setting.commentBlock_eq hkind hyields, htarget]
    rfl
  · intro hkind htarget hfield
    rw [hown hkind, Setting.commentBlock_eq hkind hyields, htarget, hfield, Option.map_none,
      Option.getD_none, String.empty_append, Option.getD_some]

/-! ## A statement with a comment of two lines -/

namespace NoteSample

def update (comment : String) : Block :=
  { id := "a", typeName := "telemetry_update", kind := .telemetry .update, comment := some comment }

def program (comment : String) : Program where
  workspace :=
    { blocks := [update comment]
      distinct := show ["a"].Nodup by decide }

theorem roots_program (comment : String) : (program comment).workspace.roots = [update comment] := by
  unfold Workspace.roots
  exact mergeSort_singleton (update comment)

def setting (comment : String) : Setting :=
  { workspace := (program comment).workspace, target := .javaScript }

/-- A carriage return with its line feed makes two comments. -/
theorem line_end_makes_two_comments :
    (update "note\r\nstop();").disabled = false ∧
      ¬ Text.StrayReturn "note\r\nstop();".toList ∧
      ∃ rendering, Yields ((setting "note\r\nstop();").renderer.statement (update "note\r\nstop();")) {}
          rendering {} ∧
        Text.sourceLines "// note\n// stop();\ntelemetry.update();\n".toList =
          ["// note".toList, "// stop();".toList] ++ Text.sourceLines rendering.toList := by
  obtain ⟨hcomments, hlinks⟩ := statement_comments_are_comments_iff "note\r\nstop();"
  obtain ⟨rendering, hyields, -, htext, -⟩ :=
    hlinks (setting "note\r\nstop();") 1 (update "note\r\nstop();") rfl {} {}
      "// note\n// stop();\ntelemetry.update();\n" (by rfl)
  exact ⟨rfl, hcomments.1 (by decide), rendering, hyields, (htext rfl).2⟩

/-- A carriage return alone makes code of the rest of the comment: the script has a line with it between
the comment and the statement. -/
theorem return_makes_comment_code :
    ((program "note\rstop();").render .javaScript {} {}).1 =
        .ok "// note\rstop();\ntelemetry.update();\n" ∧
      Text.sourceLines "// note\rstop();\ntelemetry.update();\n".toList =
        ["// note".toList, "stop();".toList, "telemetry.update();".toList] ∧
      ¬ Text.AllComments (Text.lineComment "note\rstop();").toList := by
  refine ⟨?_, by decide, by decide⟩
  unfold Program.render Setting.program Script.program
  simp only [Setting.setting_renderer, roots_program]
  rfl

end NoteSample

end RobotBlocks
