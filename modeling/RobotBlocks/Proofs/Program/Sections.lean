import RobotBlocks.Proofs.Program.Pruning
import RobotBlocks.Proofs.Render.SharedParts

/-!
# Sections of scripts

A script has a section for each enabled root. The section of a root that is a statement joins the texts
of the enabled blocks of its chain, in the order in which they follow one another
(`section_joins_enabled_statements`): to switch off blocks of the chain drops just these, and the
others are rendered from the same draft on as if those had never been there.

This holds for all blocks of a chain but the first. A disabled root has no section, so that the enabled
blocks after it are left out, too (`HeadlessSample.disabled_head_drops_its_chain`).
-/

set_option autoImplicit false

namespace RobotBlocks

open List Workspace Setting

/-- The text of a statement, behind its comment if it has one. -/
def Renderer.statementText (r : Renderer) (block : Block) : Render String := do
  return ((commentOf block).map Text.lineComment).getD "" ++ (← r.statement block)

def Program.script (program : Program) (hardware : Hardware) (options : ClassOptions) : Setting :=
  program.settingFor .javaScript hardware options

namespace Script

/-- The script that declares variables and then has some sections. -/
def layout (identifiers sections : List String) : String :=
  String.join (identifiers.map fun identifier => "var " ++ identifier ++ ";\n") ++
    (if identifiers.isEmpty || sections.isEmpty then "" else "\n") ++ "\n".intercalate sections

/-- The number of sections of some roots. -/
def sectionCount (roots : List Block) : Nat := roots.countP (fun root => !root.disabled)

/-- Between some sections and those of the roots after it, a script has one that joins the texts of
statements, which are rendered one after the other from a draft on. -/
def HasSection (r : Renderer) (front : List String) (first : Draft) (statements later : List Block)
    (text : String) : Prop :=
  ∃ identifiers texts last back,
    text = layout identifiers (front ++ String.join texts :: back) ∧
    identifiers.length = r.setting.workspace.variableNames.length ∧
    Yields (statements.mapM r.statementText) first texts last ∧ back.length = sectionCount later

end Script

/-! ## Steps from drafts that differ in events -/

variable {before : Draft}

theorem SameAnswer.exists_yields {α : Type} {x y : Render α} (h : SameAnswer x y)
    {before' after' : Draft} {a : α} (hbefore : before.SameWork before')
    (hy : Yields y before' a after') :
    ∃ after, Yields x before a after ∧ after.SameWork after' := by
  rcases h before before' hbefore with ⟨found, found', after, last, hx, hlast, hsame, hfound⟩ |
    ⟨fault, after, last, -, hfails, -⟩
  · obtain rfl := hlast.result_eq hy
    obtain rfl := hlast.state_eq hy
    obtain rfl := hfound trivial
    exact ⟨after, hx, hsame⟩
  · exact absurd hfails hy.not_fails

variable {off : String → Bool}

namespace Renderer

variable {r r' : Renderer}

/-- The links of a chain with some blocks switched off are the texts of the blocks that are left. -/
theorem exists_of_yields_links {blocks : List Block}
    (hsame : ∀ block ∈ blocks, SameAnswer (r.statement block) (r'.statement block))
    {before' after' : Draft} {texts' : List String} (hbefore : before.SameWork before')
    (h : Yields ((blocks.map (Block.pruned off)).mapM r'.link) before' texts' after') :
    ∃ texts after,
      Yields ((blocks.filter fun block => !(block.pruned off).disabled).mapM r.statementText) before
        texts after ∧
      String.join texts' = String.join texts := by
  induction blocks generalizing before before' texts' with
  | nil =>
    obtain ⟨rfl, rfl⟩ := yields_pure.1 h
    exact ⟨[], before, yields_pure.2 ⟨rfl, rfl⟩, rfl⟩
  | cons block rest ih =>
    have hrest := (forall_mem_cons.1 hsame).2
    rw [map_cons] at h
    obtain ⟨text, middle', others, htext, hothers, rfl⟩ := yields_mapM_cons.1 h
    unfold link at htext
    cases hdisabled : (block.pruned off).disabled with
    | true =>
      rw [if_pos hdisabled] at htext
      obtain ⟨_, hrecorded, rfl⟩ := yields_bind_pure.1 htext
      have hskipped : before.SameWork middle' := by
        obtain rfl := yields_modify.1 hrecorded
        exact ⟨hbefore.context_eq, hbefore.types_eq⟩
      obtain ⟨texts, after, hyields, hjoin⟩ := ih hrest hskipped hothers
      refine ⟨texts, after, ?_, ?_⟩
      · rw [filter_cons, hdisabled]
        exact hyields
      · rw [String.join_cons, hjoin, String.empty_append]
    | false =>
      have hkept := Block.pruned_eq_of_enabled hdisabled
      rw [hkept] at htext hdisabled
      rw [if_neg (by simp [hdisabled])] at htext
      have hown : SameAnswer (r.statementText block) (r'.statementText block) :=
        (hsame block mem_cons_self).bind_pure _
      obtain ⟨middle, hyields, hmiddle⟩ := hown.exists_yields hbefore htext
      obtain ⟨texts, after, hothers, hjoin⟩ := ih hrest hmiddle hothers
      refine ⟨text :: texts, after, ?_, ?_⟩
      · rw [filter_cons, hkept, hdisabled, if_pos (by rfl)]
        exact yields_mapM_cons.2 ⟨text, middle, texts, hyields, hothers, rfl⟩
      · rw [String.join_cons, String.join_cons, hjoin]

end Renderer

/-! ## Sections -/

variable {root : Block}

namespace Script

variable {r : Renderer} {before after : Draft}
variable {found : Option String}

theorem isSome_section? (h : Yields (section? r root) before found after) :
    found.isSome = !root.disabled := by
  unfold section? at h
  split at h
  · rename_i hdisabled
    obtain ⟨_, -, rfl⟩ := yields_bind_pure.1 h
    rw [hdisabled]
    rfl
  · rename_i henabled
    rw [Bool.eq_false_iff.2 henabled]
    split at h
    · obtain ⟨_, -, rfl⟩ := yields_bind_pure.1 h
      rfl
    · split at h
      all_goals
        obtain ⟨_, -, rfl⟩ := yields_bind_pure.1 h
        rfl

theorem length_sections {roots : List Block} {sections : List (Option String)}
    (h : Yields (roots.mapM (section? r)) before sections after) :
    (sections.filterMap id).length = sectionCount roots := by
  induction roots generalizing before sections with
  | nil =>
    obtain ⟨rfl, -⟩ := yields_pure.1 h
    rfl
  | cons root rest ih =>
    obtain ⟨found, middle, others, hfound, hothers, rfl⟩ := yields_mapM_cons.1 h
    have hsome := isSome_section? hfound
    have hcount := ih hothers
    unfold sectionCount at hcount ⊢
    rw [countP_cons, ← hsome]
    cases found with
    | none =>
      rw [filterMap_cons_none rfl, hcount]
      rfl
    | some text =>
      show (others.filterMap id).length + 1 = _
      rw [hcount]
      rfl

theorem exists_identifiers {names lines : List String}
    (h : Yields (names.mapM variableLine) before lines after) :
    ∃ identifiers : List String, identifiers.length = names.length ∧
      lines = identifiers.map fun identifier => "var " ++ identifier ++ ";\n" := by
  induction names generalizing before lines with
  | nil =>
    obtain ⟨rfl, -⟩ := yields_pure.1 h
    exact ⟨[], rfl, rfl⟩
  | cons name rest ih =>
    obtain ⟨line, middle, others, hline, hothers, rfl⟩ := yields_mapM_cons.1 h
    obtain ⟨identifier, -, rfl⟩ := yields_bind_pure.1 hline
    obtain ⟨identifiers, hlength, rfl⟩ := ih hothers
    exact ⟨identifier :: identifiers, congrArg (· + 1) hlength, rfl⟩

/-- The section of an enabled root that is a statement is the text of its chain. -/
theorem exists_of_yields_chainSection (henabled : root.disabled = false)
    (hdefinition : root.kind.isDefinition = false) (hstatement : root.shape.isStatement = true)
    (h : Yields (section? r root) before found after) :
    ∃ text, found = some text ∧ Yields (r.chain root.id) before text after := by
  unfold section? at h
  rw [if_neg (by simp [henabled]), if_neg (by simp [hdefinition]), if_pos hstatement] at h
  obtain ⟨text, htext, rfl⟩ := yields_bind_pure.1 h
  exact ⟨text, rfl, htext⟩

end Script

variable {registration : Registration} {earlier : List Block}

namespace Setting

/-- A draft with the event that starts a run. -/
def begun (setting : Setting) (draft : Draft) : Draft :=
  { draft with events := .generating setting.target setting.workspace.size :: draft.events }

/-- A script around the section of a root. -/
theorem exists_sections (setting : Setting) (hscript : setting.target = .javaScript)
    {later : List Block} (hroots : setting.workspace.roots = earlier ++ root :: later)
    {after : Draft} {text : String} (h : Yields (setting.program registration) before text after) :
    ∃ identifiers front first found middle back,
      Yields (earlier.mapM (Script.section? setting.renderer)) (setting.begun before) front first ∧
      Yields (Script.section? setting.renderer root) first found middle ∧
      identifiers.length = setting.workspace.variableNames.length ∧
      back.length = Script.sectionCount later ∧
      text = Script.layout identifiers (front.filterMap id ++ found.toList ++ back) := by
  unfold program at h
  rw [hscript] at h
  obtain ⟨_, started, hstarted, h⟩ := yields_bind.1 h
  obtain rfl := yields_modify.1 hstarted
  unfold Script.program at h
  obtain ⟨sections, sectioned, hsections, h⟩ := yields_bind.1 h
  obtain ⟨lines, hlines, rfl⟩ := yields_bind_pure.1 h
  obtain ⟨identifiers, hlength, rfl⟩ := Script.exists_identifiers hlines
  rw [setting_renderer, hroots, mapM_append] at hsections
  obtain ⟨front, first, hfront, hsections⟩ := yields_bind.1 hsections
  obtain ⟨rest, hrest, rfl⟩ := yields_bind_pure.1 hsections
  obtain ⟨found, middle, back, hfound, hback, rfl⟩ := yields_mapM_cons.1 hrest
  refine ⟨identifiers, front, first, found, middle, back.filterMap id, ?_, hfound,
    by simpa using hlength, Script.length_sections hback, ?_⟩
  · unfold begun
    rw [hscript]
    exact hfront
  · cases found <;> simp [Script.layout]

end Setting

/-! ## Chains with blocks switched off -/

section

variable {setting : Setting} (hvalid : setting.workspace.validate = .ok ()) {root : Block}
variable (hroot : root ∈ setting.workspace.roots) {chain : List Block}
variable (hchain : setting.workspace.NextChain (some root.id) chain) {off : String → Bool}

include hvalid

section

include hroot hchain

/-- With blocks switched off, the chain of a root comes to its end and has the same blocks. -/
theorem Setting.chain_prune (off : String → Bool) :
    ((setting.prune off).renderer.setting.workspace.chain root.id).2 = none ∧
      ((setting.prune off).renderer.setting.workspace.chain root.id).1 =
        chain.map (Block.pruned off) := by
  have hmem := (mem_roots_iff.1 hroot).1
  obtain ⟨level, hlevel⟩ := exists_leveled_of_validate hvalid
  rw [setting_renderer, show (setting.prune off).workspace = setting.workspace.prune off from rfl,
    Workspace.chain_prune, hchain.unique (Workspace.nextChain_chain hvalid hmem)]
  exact ⟨(hlevel.chain_spec hmem).1, rfl⟩

end

variable (hscript : setting.target = .javaScript)
variable (hoff : ∀ id, off id = true → id ∈ chain.map Block.id)

include hscript hoff

theorem Setting.sharePart_prune :
    setting.SharePart (setting.prune off) (setting.workspace.Apart chain) where
  blocks := Workspace.sharePart_prune hvalid hoff
  size_eq := size_prune.symm
  hardware_eq := rfl
  script := hscript
  script' := hscript

include hroot hchain

theorem Setting.alike_statement {member : Block} (hmember : member ∈ chain) :
    SameAnswer (setting.renderer.statement member)
      ((setting.prune off).renderer.statement member) := by
  have hinside := sharesInside_prune hvalid hoff hroot hchain hmember
  have hsize : (setting.prune off).renderer =
      (setting.prune off).rendererWithin setting.workspace.size := by
    rw [Setting.renderer]
    exact congrArg _ size_prune
  rw [hsize]
  exact ((sharePart_prune hvalid hscript hoff).alike setting.workspace.size hinside).2

theorem Setting.alike_sections {roots : List Block} (hroots : roots ⊆ setting.workspace.roots)
    (hother : root ∉ roots) :
    SameAnswer (roots.mapM (Script.section? setting.renderer))
      (roots.mapM (Script.section? (setting.prune off).renderer)) := by
  refine .mapM_forall₂ (forall₂_same.2 fun other hmem => ?_)
  have hne : other ≠ root := fun hsame => hother (hsame ▸ hmem)
  have hapart : setting.workspace.Apart chain other :=
    apart_of_mem_roots hvalid hroot hchain (hroots hmem) hne
  exact (sharePart_prune hvalid hscript hoff).alike_section? hapart (hapart.shares hoff)

end

/-- With blocks of the chain of a root switched off, a script has the sections of the roots before it
as they were, and then a section that joins the texts of the blocks that are left. -/
theorem Setting.exists_hasSection_prune {setting : Setting}
    (hscript : setting.target = .javaScript) (hvalid : setting.workspace.validate = .ok ())
    {later : List Block} (hroots : setting.workspace.roots = earlier ++ root :: later)
    {chain : List Block} (hchain : setting.workspace.NextChain (some root.id) chain)
    (hoff : ∀ id, off id = true → id ∈ chain.map Block.id) (henabled : root.disabled = false)
    (hdefinition : root.kind.isDefinition = false) (hstatement : root.shape.isStatement = true)
    (hable : Able (setting.program registration)) {first : Draft} {front : List (Option String)}
    (hfirst : Yields (earlier.mapM (Script.section? setting.renderer)) (setting.begun before) front
      first) :
    ∃ text after, Yields ((setting.prune off).program registration) before text after ∧
      Script.HasSection setting.renderer (front.filterMap id) first
        (chain.filter fun block => !(block.pruned off).disabled) later text := by
  have hroot : root ∈ setting.workspace.roots := by simp [hroots]
  have hnodup : (earlier ++ root :: later).Nodup := hroots ▸ setting.workspace.nodup_ids_roots.of_map
  have hearlier := alike_sections hvalid hroot hchain hscript hoff
    (hroots ▸ subset_append_left earlier _)
    (fun hmem => (nodup_append.1 hnodup).2.2 root hmem root mem_cons_self rfl)
  obtain ⟨text, after, htext⟩ := sure_program_prune hable off before
  refine ⟨text, after, htext, ?_⟩
  obtain ⟨identifiers, front', first', found, middle, back, hfront, hfound, hlength, hback, rfl⟩ :=
    (setting.prune off).exists_sections hscript (roots_prune.trans hroots) htext
  have hbegun : (setting.prune off).begun before = setting.begun before := by
    unfold Setting.begun
    rw [show (setting.prune off).workspace.size = setting.workspace.size from size_prune]
    rfl
  rw [hbegun] at hfront
  -- The two runs are at the root in drafts that differ in events at most.
  obtain ⟨last, hlast, hsame⟩ := hearlier.exists_yields (.refl _) hfront
  obtain rfl := hfirst.result_eq hlast
  obtain rfl := hfirst.state_eq hlast
  obtain ⟨joined, rfl, hjoined⟩ :=
    Script.exists_of_yields_chainSection henabled hdefinition hstatement hfound
  obtain ⟨hends, hlisted⟩ := chain_prune hvalid hroot hchain off
  rw [Renderer.chain_eq_of_ends hends, hlisted] at hjoined
  obtain ⟨links, hlinks, rfl⟩ := yields_bind_pure.1 hjoined
  obtain ⟨texts, after', hyields, hjoin⟩ := Renderer.exists_of_yields_links
    (fun member => alike_statement hvalid hroot hchain hscript hoff) hsame hlinks
  refine ⟨identifiers, texts, after', back, ?_, ?_, hyields, hback⟩
  · rw [← hjoin, append_assoc]
    rfl
  · rw [setting.setting_renderer]
    exact hlength

/-- In a script, a root that is a statement and no procedure has a section exactly if it is enabled.
The section joins the texts of the enabled blocks of its chain, in the order of the links to the next
ones. If blocks after the first one are switched off, these are left out: the sections before are the
same, and the other blocks are rendered from the same draft on. -/
theorem section_joins_enabled_statements {program : Program}
    (hvalid : program.workspace.validate = .ok ()) {hardware : Hardware} {options : ClassOptions}
    {text : String} (htext : (program.render .javaScript hardware options).1 = .ok text)
    {earlier later : List Block} {root : Block}
    (hroots : program.workspace.roots = earlier ++ root :: later)
    (hdefinition : root.kind.isDefinition = false) (hstatement : root.shape.isStatement = true) :
    ∃ chain front first, program.workspace.NextChain (some root.id) chain ∧
      Yields (earlier.mapM (Script.section? (program.script hardware options).renderer))
        ((program.script hardware options).begun (program.script hardware options).firstDraft) front
        first ∧
      (root.disabled = true → ∃ identifiers back,
        text = Script.layout identifiers (front.filterMap id ++ back) ∧
        identifiers.length = program.workspace.variableNames.length ∧
        back.length = Script.sectionCount later) ∧
      (root.disabled = false →
        Script.HasSection (program.script hardware options).renderer (front.filterMap id) first
          (chain.filter fun block => !block.disabled) later text ∧
        ∀ off, (∀ id, off id = true → id ∈ chain.tail.map Block.id) → ∃ pruned,
          ((program.prune off).render .javaScript hardware options).1 = .ok pruned ∧
          Script.HasSection (program.script hardware options).renderer (front.filterMap id) first
            (chain.filter fun block => !block.disabled && !off block.id) later pruned) := by
  have hroot : root ∈ program.workspace.roots := by simp [hroots]
  have hchain := nextChain_chain hvalid (mem_roots_iff.1 hroot).1
  have hyields : Yields ((program.script hardware options).program program.registration)
      (program.script hardware options).firstDraft text _ := yields_of_fst_run_eq htext
  obtain ⟨identifiers, front, first, found, middle, back, hfront, hfound, hlength, hback, hlayout⟩ :=
    (program.script hardware options).exists_sections rfl hroots hyields
  refine ⟨_, front, first, hchain, hfront, fun hdisabled => ?_, fun henabled => ?_⟩
  · have hnone : found = none := by simpa [hdisabled] using Script.isSome_section? hfound
    refine ⟨identifiers, back, ?_, hlength, hback⟩
    rw [hlayout, hnone, Option.toList_none, append_nil]
  · have hpruned : ∀ off, (∀ id, off id = true →
        id ∈ (program.workspace.chain root.id).1.tail.map Block.id) → ∃ pruned,
          ((program.prune off).render .javaScript hardware options).1 = .ok pruned ∧
          Script.HasSection (program.script hardware options).renderer (front.filterMap id) first
            ((program.workspace.chain root.id).1.filter
              fun block => !block.disabled && !off block.id) later pruned := by
      intro off hoff
      have hmembers : ∀ id, off id = true →
          id ∈ (program.workspace.chain root.id).1.map Block.id :=
        fun id hid => map_subset _ (tail_subset _) (hoff id hid)
      obtain ⟨pruned, after, hprogram, hsection⟩ := exists_hasSection_prune rfl hvalid hroots
        hchain hmembers henabled hdefinition hstatement ⟨_, _, _, hyields⟩ hfront
      refine ⟨pruned, congrArg Prod.fst hprogram, ?_⟩
      rw [filter_congr fun block hblock => ?_]
      · exact hsection
      · rw [hchain.disabled_pruned hvalid hoff hblock, Bool.not_or]
    refine ⟨?_, hpruned⟩
    obtain ⟨same, hsame, hsection⟩ := hpruned (fun _ => false) (by simp)
    rw [Program.prune, prune_none, htext] at hsame
    cases hsame
    simpa using hsection

/-! ## Three statements, and two behind a disabled one -/

namespace HeadlessSample

/-- The first statement, which may be disabled. -/
def head (disabled : Bool) : Block :=
  { id := "a", typeName := "telemetry_update", kind := .telemetry .update
    next := some "b", disabled }

def second : Block :=
  { id := "b", typeName := "linearOpMode_idle", kind := .opMode .idle
    next := some "c", parent := some (.next "a") }

def third : Block :=
  { id := "c", typeName := "telemetry_update", kind := .telemetry .update
    parent := some (.next "b") }

def program (disabled : Bool) : Program where
  workspace :=
    { blocks := [head disabled, second, third]
      distinct := show ["a", "b", "c"].Nodup by decide }

theorem roots_program (disabled : Bool) : (program disabled).workspace.roots = [head disabled] := by
  unfold Workspace.roots
  exact mergeSort_singleton (head disabled)

theorem validate_program (disabled : Bool) : (program disabled).workspace.validate = .ok () := by
  cases disabled
  all_goals
    rw [validate_of_sorted (by decide) (by decide)]
    decide

theorem nextChain_program (disabled : Bool) :
    (program disabled).workspace.NextChain (some "a") [head disabled, second, third] :=
  .link rfl (.link rfl (.link rfl .done))

theorem render_enabled : ((program false).render .javaScript {} {}).1 =
    .ok "telemetry.update();\nlinearOpMode.idle();\ntelemetry.update();\n" := by
  unfold Program.render Setting.program Script.program
  simp only [setting_renderer, roots_program]
  decide

theorem render_disabled : ((program true).render .javaScript {} {}).1 = .ok "" := by
  unfold Program.render Setting.program Script.program
  simp only [setting_renderer, roots_program]
  decide

/-- The statement in the middle is switched off, and the other two are left. -/
theorem switched_off_statement_is_left_out :
    (program false).workspace.validate = .ok () ∧ ∃ front first pruned,
      (((program false).prune fun id => id = "b").render .javaScript {} {}).1 = .ok pruned ∧
      Script.HasSection ((program false).script {} {}).renderer front first
        [head false, third] [] pruned := by
  have hroots : (program false).workspace.roots = [] ++ head false :: [] := roots_program false
  obtain ⟨chain, front, first, hchain, -, -, henabled⟩ :=
    section_joins_enabled_statements (validate_program false) render_enabled hroots rfl rfl
  obtain rfl := hchain.unique (nextChain_program false)
  obtain ⟨pruned, hrender, hsection⟩ := (henabled rfl).2 (fun id => id = "b") (by simp [second])
  exact ⟨validate_program false, front.filterMap id, first, pruned, hrender, hsection⟩

/-- The first statement is disabled, and the script is empty: the enabled ones after it are left out,
though they have texts of their own. -/
theorem disabled_head_drops_its_chain :
    (program true).workspace.validate = .ok () ∧
      (program true).workspace.NextChain (some "a") [head true, second, third] ∧
      second.disabled = false ∧ third.disabled = false ∧
      ((program true).render .javaScript {} {}).1 = .ok "" ∧
      ∀ draft, Yields
        ([second, third].mapM ((program true).script {} {}).renderer.statementText)
        draft ["linearOpMode.idle();\n", "telemetry.update();\n"] draft :=
  ⟨validate_program true, nextChain_program true, rfl, rfl, render_disabled, fun _ => rfl⟩

end HeadlessSample

end RobotBlocks
