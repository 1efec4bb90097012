import Mathlib.Logic.Function.Iterate
import RobotBlocks.Proofs.Render.CommentLines

/-!
# Layout of statements

For both targets, the text of a statement is empty or ends with a line feed (`ends_renderStatement`).
Such texts have their own lines when they stand one behind the other (`lineChars_append`). So a slot
is indented statement by statement, however deep it stands, and without carriage returns each line can
be moved back (`statement_layout_composes`).
-/

set_option autoImplicit false

namespace RobotBlocks

open List

variable {texts : List String} {text : String}

namespace Text

variable {cs front back : List Char}

/-- A text is empty or ends with a line feed. -/
def Ended (cs : List Char) : Prop := cs = [] ∨ cs.getLast? = some '\n'

/-- A line that is moved to the right; an empty line stays empty. -/
def shiftLine (line : List Char) : List Char := if line.isEmpty then [] else ' ' :: ' ' :: line

/-- A line without the two blanks that it may begin with. -/
def outdentLine : List Char → List Char
  | ' ' :: ' ' :: line => line
  | line => line

/-- Some lines, each closed by a line feed. -/
def closeLines (lines : List (List Char)) : List Char := lines.flatMap (fun line => line ++ ['\n'])

/-- Every line of a text moved back to the left. -/
def outdent (text : String) : String :=
  String.ofList (closeLines ((lineChars text.toList).map outdentLine))

/-! ## Texts that end with a line feed -/

theorem ended_append_of_getLast? (front : List Char) (h : back.getLast? = some '\n') :
    Ended (front ++ back) := by
  right
  rw [getLast?_append, h]
  rfl

theorem Ended.append (hfront : Ended front) (hback : Ended back) : Ended (front ++ back) := by
  rcases hback with rfl | hback
  · rwa [append_nil]
  · exact ended_append_of_getLast? front hback

theorem ended_flatMap {α : Type} {f : α → List Char} {items : List α}
    (h : ∀ item ∈ items, Ended (f item)) : Ended (items.flatMap f) := by
  induction items with
  | nil => exact .inl rfl
  | cons item items ih =>
    rw [forall_mem_cons] at h
    exact h.1.append (ih h.2)

variable {c : Char}

theorem Ended.tail (h : Ended (c :: cs)) : Ended cs := by
  cases cs with
  | nil => exact .inl rfl
  | cons d cs => exact .inr (h.resolve_left (cons_ne_nil _ _))

theorem Ended.ne_nil_of_cons (hc : c ≠ '\n') (h : Ended (c :: cs)) : cs ≠ [] := by
  rintro rfl
  exact hc (Option.some.inj (h.resolve_left (cons_ne_nil _ _)))

theorem indentLine_eq (line : List Char) : indentLine line = shiftLine line ++ ['\n'] := by
  cases line <;> rfl

theorem indentChars_eq (cs : List Char) :
    indentChars cs = closeLines ((lineChars cs).map shiftLine) := by
  rw [indentChars, closeLines, flatMap_map, funext indentLine_eq]

theorem ended_closeLines (lines : List (List Char)) : Ended (closeLines lines) :=
  ended_flatMap fun _ _ => .inr getLast?_concat

theorem ended_lineComment (content : String) : Ended (lineComment content).toList := by
  rw [lineComment, String.toList_ofList]
  exact ended_flatMap fun line _ => .inr (getLast?_concat (l := '/' :: '/' :: ' ' :: line))

theorem ended_indent (text : String) : Ended (indent text).toList := by
  rw [indent, String.toList_ofList, indentChars_eq]
  exact ended_closeLines _

/-! ## Lines of texts that stand one behind the other -/

variable {lines : List (List Char)}

/-- A character that ends no line belongs to the first line of what follows it. -/
theorem lineChars_cons {rest line : List Char} (hfeed : c ≠ '\n')
    (hpair : c = '\r' → rest.head? ≠ some '\n') (h : lineChars rest = line :: lines) :
    lineChars (c :: rest) = (c :: line) :: lines := by
  rw [lineChars.eq_4 _ _ hfeed (fun tail hc hrest => hpair hc (by rw [hrest]; rfl)), h]

theorem lineChars_append (h : Ended front) (rest : List Char) :
    lineChars (front ++ rest) = lineChars front ++ lineChars rest := by
  fun_induction lineChars front with
  | case1 => rfl
  | case2 front ih =>
    rw [cons_append, lineChars, ih h.tail]
    rfl
  | case3 front ih =>
    rw [cons_append, cons_append, lineChars, ih h.tail.tail]
    rfl
  | case4 c front hfeed hpair hrest ih =>
    exact absurd (lineChars_eq_nil_iff.1 hrest) (h.ne_nil_of_cons hfeed)
  | case5 c front hfeed hpair line lines hrest ih =>
    -- what is behind the character is not empty, so that its first line is the same in both texts
    obtain ⟨d, others, rfl⟩ := exists_cons_of_ne_nil (h.ne_nil_of_cons hfeed)
    have hlines : lineChars ((d :: others) ++ rest) = line :: (lines ++ lineChars rest) := by
      rw [ih h.tail, hrest, cons_append]
    refine lineChars_cons hfeed (fun hc hd => ?_) hlines
    exact hpair others hc (by rw [Option.some.inj hd])

theorem indent_append {front : String} (h : Ended front.toList) (back : String) :
    indent (front ++ back) = indent front ++ indent back := by
  simp only [indent, indentChars, String.toList_append, lineChars_append h, flatMap_append,
    String.ofList_append]

theorem indent_join (h : ∀ text ∈ texts, Ended text.toList) :
    indent (String.join texts) = String.join (texts.map indent) := by
  induction texts with
  | nil => rfl
  | cons text rest ih =>
    rw [String.join_cons, indent_append (h text mem_cons_self),
      ih (forall_mem_cons.1 h).2, map_cons, String.join_cons]

/-- Texts that end with a line feed can be indented one by one, as often as one likes. -/
theorem iterate_indent_join (h : ∀ text ∈ texts, Ended text.toList) (depth : ℕ) :
    indent^[depth] (String.join texts) = String.join (texts.map indent^[depth]) := by
  induction depth generalizing texts with
  | zero => simp
  | succ depth ih =>
    have hindented : ∀ text ∈ texts.map indent, Ended text.toList := by
      intro text htext
      obtain ⟨other, -, rfl⟩ := mem_map.1 htext
      exact ended_indent other
    rw [Function.iterate_succ_apply, indent_join h, ih hindented, map_map]
    rfl

/-! ## Lines that are closed -/

theorem closeLines_lineChars (hreturn : '\r' ∉ cs) (h : Ended cs) : closeLines (lineChars cs) = cs := by
  fun_induction lineChars cs with
  | case1 => rfl
  | case2 rest ih =>
    rw [closeLines, flatMap_cons, ← closeLines, ih (not_mem_of_not_mem_cons hreturn) h.tail]
    rfl
  | case3 rest ih => simp at hreturn
  | case4 c rest hfeed hpair hrest ih =>
    exact absurd (lineChars_eq_nil_iff.1 hrest) (h.ne_nil_of_cons hfeed)
  | case5 c rest hfeed hpair line lines hrest ih =>
    rw [hrest] at ih
    have hlines := ih (not_mem_of_not_mem_cons hreturn) h.tail
    exact congrArg (c :: ·) hlines

theorem lineChars_closeLines (hfeed : ∀ line ∈ lines, '\n' ∉ line)
    (hreturn : ∀ line ∈ lines, '\r' ∉ line) : lineChars (closeLines lines) = lines := by
  have hline : ∀ line : List Char, '\n' ∉ line → '\r' ∉ line → ∀ rest,
      lineChars (line ++ '\n' :: rest) = line :: lineChars rest := by
    intro line hfeed hreturn rest
    induction line with
    | nil => rw [nil_append, lineChars]
    | cons c line ih =>
      rw [mem_cons, not_or] at hfeed hreturn
      exact lineChars_cons (Ne.symm hfeed.1) (fun hc => absurd hc.symm hreturn.1)
        (ih hfeed.2 hreturn.2)
  induction lines with
  | nil => rfl
  | cons line lines ih =>
    rw [forall_mem_cons] at hfeed hreturn
    rw [closeLines, flatMap_cons, ← closeLines, append_assoc, singleton_append,
      hline line hfeed.1 hreturn.1, ih hfeed.2 hreturn.2]

theorem lineChars_indent (h : '\r' ∉ text.toList) :
    lineChars (indent text).toList = (lineChars text.toList).map shiftLine := by
  have hshift : ∀ c : Char, c ≠ ' ' → ∀ line ∈ lineChars text.toList, c ∉ line → c ∉ shiftLine line := by
    intro c hc line _ hline
    cases line with
    | nil => exact hline
    | cons d line => simpa [shiftLine, hc] using hline
  rw [indent, String.toList_ofList, indentChars_eq]
  refine lineChars_closeLines ?_ ?_
  · intro shifted hshifted
    obtain ⟨line, hline, rfl⟩ := mem_map.1 hshifted
    exact hshift '\n' (by decide) line hline (newline_not_mem_of_mem_lineChars hline)
  · intro shifted hshifted
    obtain ⟨line, hline, rfl⟩ := mem_map.1 hshifted
    exact hshift '\r' (by decide) line hline fun hc => h (mem_of_mem_lineChars hline hc).1

theorem outdent_indent (hreturn : '\r' ∉ text.toList) (h : Ended text.toList) :
    outdent (indent text) = text := by
  have hline : outdentLine ∘ shiftLine = id := by
    funext line
    cases line <;> rfl
  rw [outdent, lineChars_indent hreturn, map_map, hline, map_id,
    closeLines_lineChars hreturn h, String.ofList_toList]

end Text

open Text (Ended)

/-! ## Statements -/

/-- A step gives only texts that are empty or end with a line feed. -/
def Render.Ends (action : Render String) : Prop :=
  ∀ before text after, Yields action before text after → Ended text.toList

namespace Render.Ends

theorem pure (h : Ended text.toList) : Ends (pure text) := by
  intro before _ after hyields
  obtain ⟨rfl, -⟩ := yields_pure.1 hyields
  exact h

/-- A step that gives a text with a line feed behind it. -/
theorem line (front : String) {back : String} (h : back.toList.getLast? = some '\n') :
    Ends (Pure.pure (front ++ back)) := by
  refine pure ?_
  rw [String.toList_append]
  exact Text.ended_append_of_getLast? _ h

theorem bind {α : Type} {x : Render α} {f : α → Render String} (h : ∀ a, Ends (f a)) :
    Ends (x >>= f) := by
  intro before text after hyields
  obtain ⟨a, middle, -, hyields⟩ := yields_bind.1 hyields
  exact h a middle text after hyields

theorem throw (fault : Fault) : Ends (throw fault) :=
  fun _ _ _ hyields => absurd hyields yields_throw

end Render.Ends

open Render (Ends)

namespace Renderer

variable (r : Renderer) (block : Block)

theorem ends_jump : Ends (liftM (jump block)) := by
  intro before text after h
  obtain ⟨h, -⟩ := yields_liftM.1 h
  obtain ⟨flow, -, h⟩ := Known.bind_eq_ok_iff.1 h
  split at h
  · cases h
    exact .inr rfl
  · cases h
    exact .inr rfl
  · cases h

/-- What statements of both targets are rendered to ends with its line. -/
theorem ends_sharedStatement : Ends (r.sharedStatement block) := by
  unfold sharedStatement
  split
  · exact .bind fun _ => .bind fun _ => .bind fun _ => .line _ rfl
  · exact .bind fun _ => .bind fun _ => .line _ rfl
  · exact .bind fun _ => .bind fun _ => .line _ rfl
  · exact .bind fun _ => .bind fun _ => .bind fun _ => .line _ rfl
  · exact ends_jump block
  · exact .bind fun _ => .line _ rfl
  · exact .throw _

theorem ends_telemetry (kind : TelemetryBlock) :
    Ends (Script.telemetry r block kind) ∧ Ends (Compiled.telemetry r block kind) := by
  cases kind with
  | typedEnumDisplayFormat => exact ⟨r.ends_sharedStatement block, r.ends_sharedStatement block⟩
  | _ => exact ⟨.bind fun _ => .line _ rfl, .bind fun _ => .line _ rfl⟩

theorem ends_script_statement : Ends (Script.statement r block) := by
  unfold Script.statement
  split
  · exact .pure (.inl rfl)
  · exact .bind fun _ => .bind fun _ => .line _ rfl
  · exact .bind fun _ => .line _ rfl
  · exact .bind fun _ => .line _ rfl
  · exact (r.ends_telemetry block _).1
  · exact .bind fun _ => .line _ rfl
  · exact .bind fun _ => .line _ rfl
  · exact .bind fun _ => .bind fun _ => .bind fun _ => .line _ rfl
  · exact r.ends_sharedStatement block

theorem ends_compiled_statement : Ends (Compiled.statement r block) := by
  unfold Compiled.statement
  split
  · exact .pure (Text.ended_lineComment _)
  · exact .bind fun _ => .bind fun _ => .line _ rfl
  · exact .bind fun _ => .line _ rfl
  · exact .bind fun _ => .line _ rfl
  · exact (r.ends_telemetry block _).2
  · exact .bind fun _ => .line _ rfl
  · exact .bind fun _ => .line _ rfl
  · exact .bind fun _ => .bind fun _ => .bind fun _ => .line _ rfl
  · exact r.ends_sharedStatement block

theorem ends_renderStatement : Ends (r.renderStatement block) := by
  unfold renderStatement
  split
  · split
    · exact r.ends_script_statement block
    · exact r.ends_compiled_statement block
  · exact .throw _

/-! ## Chains and slots -/

variable {r block} (hstatement : ∀ block, Ends (r.statement block))

include hstatement

theorem ends_link : Ends (r.link block) := by
  cases hdisabled : block.disabled with
  | true =>
    unfold link
    rw [if_pos hdisabled]
    exact .bind fun _ => .pure (.inl rfl)
  | false =>
    intro before text after h
    obtain ⟨rendering, hrendering, rfl⟩ := exists_of_yields_link hdisabled h
    rw [String.toList_append]
    refine Ended.append ?_ (hstatement block before rendering after hrendering)
    cases commentOf block with
    | none => exact .inl rfl
    | some comment => exact Text.ended_lineComment comment

variable {before after : Draft}

theorem ended_of_yields_links {blocks : List Block}
    (h : Yields (blocks.mapM r.link) before texts after) : ∀ text ∈ texts, Ended text.toList := by
  induction blocks generalizing before texts with
  | nil =>
    obtain ⟨rfl, -⟩ := yields_pure.1 h
    simp
  | cons block rest ih =>
    obtain ⟨text, middle, others, htext, hothers, rfl⟩ := yields_mapM_cons.1 h
    rw [forall_mem_cons]
    exact ⟨ends_link hstatement before text middle htext, ih hothers⟩

omit hstatement in
theorem yields_chain {start : String} :
    Yields (r.chain start) before text after ↔ (r.setting.workspace.chain start).2 = none ∧
      ∃ texts, Yields ((r.setting.workspace.chain start).1.mapM r.link) before texts after ∧
        String.join texts = text := by
  unfold chain
  rcases r.setting.workspace.chain start with ⟨blocks, _ | fault⟩ <;> simp

theorem ends_chain (start : String) : Ends (r.chain start) := by
  intro before text after h
  obtain ⟨-, texts, htexts, rfl⟩ := yields_chain.1 h
  rw [String.toList_join]
  exact Text.ended_flatMap (ended_of_yields_links hstatement htexts)

/-- A slot has the texts of its statements one behind the other, each of them indented, and so it is
at every depth. -/
theorem yields_slot {name start : String} (hslot : block.statements.get? name = some start) :
    Yields (r.slot block name) before text after ↔ (r.setting.workspace.chain start).2 = none ∧
      ∃ texts, Yields ((r.setting.workspace.chain start).1.mapM r.link) before texts after ∧
        ∀ depth, Text.indent^[depth] text = String.join (texts.map Text.indent^[depth + 1]) := by
  simp only [slot, hslot, yields_bind_pure, yields_chain]
  constructor
  · rintro ⟨_, ⟨hends, texts, htexts, rfl⟩, rfl⟩
    refine ⟨hends, texts, htexts, fun depth => ?_⟩
    rw [← Function.iterate_succ_apply]
    exact Text.iterate_indent_join (ended_of_yields_links hstatement htexts) _
  · rintro ⟨hends, texts, htexts, hdepth⟩
    refine ⟨_, ⟨hends, texts, htexts, rfl⟩, ?_⟩
    rw [Text.indent_join (ended_of_yields_links hstatement htexts)]
    exact (hdepth 0).symm

end Renderer

theorem Setting.ends_statement (setting : Setting) (depth : ℕ) (block : Block) :
    Ends ((setting.rendererWithin depth).statement block) := by
  cases depth with
  | zero => exact .throw _
  | succ depth => exact (setting.rendererWithin depth).ends_renderStatement block

/-- For both targets, what a statement or a chain is rendered as is empty or ends with a line feed.
Behind such a text another one is indented by itself, so that a slot has the texts of its statements,
each of them indented, however often all of it is indented again. Without carriage returns, indenting
such a text moves its lines and does nothing else to them, and it can be taken back. -/
theorem statement_layout_composes :
    (∀ (r : Renderer) block, Ends (r.renderStatement block)) ∧
      (∀ (setting : Setting) start, Ends (setting.renderer.chain start)) ∧
      (∀ front back, Ended front.toList →
        Text.indent (front ++ back) = Text.indent front ++ Text.indent back) ∧
      (∀ (setting : Setting) (block : Block) name start,
        block.statements.get? name = some start → ∀ before text after,
        (Yields (setting.renderer.slot block name) before text after ↔
          (setting.workspace.chain start).2 = none ∧ ∃ texts,
            Yields ((setting.workspace.chain start).1.mapM setting.renderer.link) before texts
              after ∧
            ∀ depth, Text.indent^[depth] text =
              String.join (texts.map Text.indent^[depth + 1]))) ∧
      ∀ text, '\r' ∉ text.toList →
        Text.lineChars (Text.indent text).toList = (Text.lineChars text.toList).map Text.shiftLine ∧
        (Ended text.toList → Text.outdent (Text.indent text) = text) := by
  refine ⟨Renderer.ends_renderStatement, fun setting start => ?_, fun front back h => ?_,
    fun setting block name start hslot before text after => ?_, fun text hreturn => ?_⟩
  · exact Renderer.ends_chain (setting.ends_statement _) start
  · exact Text.indent_append h back
  · have hworkspace : setting.renderer.setting.workspace = setting.workspace := by simp
    rw [← hworkspace]
    exact Renderer.yields_slot (setting.ends_statement _) hslot
  · exact ⟨Text.lineChars_indent hreturn, Text.outdent_indent hreturn⟩

namespace NoteSample

def loop : Block :=
  { id := "p", typeName := "controls_whileUntil", kind := .controlsWhileUntil
    statements := Dict.ofList [("DO", "a")] }

/-- A statement with a comment in the slot of a loop, and texts with an empty line and blanks. -/
theorem loop_around_note_is_laid_out :
    (loop.statements.get? "DO" = some "a" ∧
        Yields ((setting "note").renderer.slot loop "DO") {} "  // note\n  telemetry.update();\n" {} ∧
        ∃ texts, Yields (((setting "note").workspace.chain "a").1.mapM (setting "note").renderer.link)
            {} texts {} ∧
          Text.indent "  // note\n  telemetry.update();\n" =
            String.join (texts.map Text.indent^[2])) ∧
      Text.indent ("a\n" ++ "\n  b") = Text.indent "a\n" ++ Text.indent "\n  b" ∧
      Text.outdent (Text.indent "a\n\n  b\n") = "a\n\n  b\n" := by
  obtain ⟨-, -, happend, hslot, hlines⟩ := statement_layout_composes
  have hyields : Yields ((setting "note").renderer.slot loop "DO") {}
      "  // note\n  telemetry.update();\n" {} := by rfl
  obtain ⟨-, texts, htexts, hdepth⟩ := (hslot _ loop "DO" "a" (by decide) _ _ _).1 hyields
  refine ⟨⟨by decide, hyields, texts, htexts, hdepth 1⟩, happend _ _ (.inr rfl), ?_⟩
  exact (hlines _ (by decide)).2 (.inr rfl)

end NoteSample

end RobotBlocks
