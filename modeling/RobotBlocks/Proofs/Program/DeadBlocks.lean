import RobotBlocks.Proofs.Render.Live

/-!
# Dead blocks in whole programs

A script does not depend on dead blocks (`scripts_ignore_dead_blocks`). A class depends on them by its
types only: inference and the look-up of parameters go through all blocks, so a dead assignment, call
or definition can still give a variable its type. Other dead blocks do not count
(`classes_see_dead_blocks_by_types_only`).
-/

set_option autoImplicit false

namespace RobotBlocks

open Workspace List
open Render (record inferTypes)
open Program (render)

/-- How inference ends and what it finds. -/
def Workspace.inferred (w : Workspace) : Except Fault Unit × TypeTable :=
  (Inference.inferAll w).run.run {}

variable {w : Workspace}

theorem Render.alikeFrom_inferTypes {w' : Workspace} (htypes : w.inferred = w'.inferred)
    {draft draft' : Draft} (hdraft : draft.SameWork draft') (hnothing : draft.types = {}) :
    AlikeFrom Draft.SameWork (Agree True) (inferTypes w) (inferTypes w') draft draft' := by
  unfold inferTypes
  refine Alike.bindFrom (Alike.get draft draft' hdraft) fun found found' middle middle' hget hget'
    hmiddle hfound => ?_
  obtain ⟨rfl, -⟩ := yields_get.1 hget
  unfold Workspace.inferred at htypes
  rw [← hfound.types_eq, hnothing, htypes]
  generalize (Inference.inferAll w').run.run {} = outcome
  have hrest : SameAnswer
      (do modify (fun draft => { draft with types := outcome.2 }); liftM outcome.1
          record (.typesInferred outcome.2.variableTypes.size))
      (do modify (fun draft => { draft with types := outcome.2 }); liftM outcome.1
          record (.typesInferred outcome.2.variableTypes.size)) := by
    refine (Alike.modify fun _ _ hsame => ⟨hsame.context_eq, rfl⟩).andThen ?_
    exact Alike.liftM_bind rfl fun _ => Draft.indistinct_sameWork.alike_record _
  exact hrest middle middle' hmiddle

namespace Setting

variable {pastRoots : Bool} {setting setting' : Setting}

theorem firstDraft_eq_of_sameLive (hrun : setting.SameLive pastRoots setting') :
    setting.firstDraft = setting'.firstDraft := by
  unfold firstDraft firstContext ownPackage
  rw [hrun.target_eq, hrun.hardware_eq, hrun.options_eq, hrun.variableNames_eq]

/-- From the first draft on, programs with the same live blocks end alike. -/
theorem alikeFrom_program (hrun : setting.SameLive pastRoots setting')
    (htypes : setting.target = .java → setting.workspace.inferred = setting'.workspace.inferred)
    (registration : Registration) :
    AlikeFrom Draft.SameWork (Agree True) (setting.program registration)
      (setting'.program registration) setting.firstDraft setting'.firstDraft := by
  have hroots := parallelRoots_of_sameLive hrun
  have hfirst : setting.firstDraft.SameWork setting'.firstDraft := by
    rw [firstDraft_eq_of_sameLive hrun]
    exact .refl _
  -- the first event tells the number of blocks, so the drafts go apart at once
  have hbegin : SameAnswer (record (.generating setting.target setting.workspace.size))
      (record (.generating setting'.target setting'.workspace.size)) :=
    .modify fun _ _ hsame => ⟨hsame.context_eq, hsame.types_eq⟩
  unfold program
  refine Alike.bindFrom (hbegin _ _ hfirst) fun _ _ begun begun' hyields _ hbegun _ => ?_
  have hnothing : begun.types = {} := by
    obtain rfl := yields_modify.1 hyields
    rfl
  rw [← hrun.target_eq]
  cases htarget : setting.target with
  | javaScript =>
    exact (Script.parallel_program hroots).alike Draft.indistinct_sameWork begun begun' hbegun
  | java =>
    refine Alike.bindFrom (Render.alikeFrom_inferTypes (htypes htarget) hbegun hnothing)
      fun _ _ typed typed' _ _ htyped _ => ?_
    have hclass := Compiled.parallel_program hroots registration (fun _ => .throw _)
      (Draft.indistinct_sameWork.alike_withContext _)
    exact hclass.alike Draft.indistinct_sameWork typed typed' htyped

end Setting

/-- Programs with the same live blocks are rendered to the same text or end with the same fault. -/
theorem Program.fst_render_eq {pastRoots : Bool} {w' : Workspace} {target : Target}
    {hardware : Hardware} {options : ClassOptions}
    (hrun : Setting.SameLive pastRoots { workspace := w, hardware, target, options }
      { workspace := w', hardware, target, options })
    (htypes : target = .java → w.inferred = w'.inferred) (registration : Registration) :
    (render { workspace := w, registration } target hardware options).1 =
      (render { workspace := w', registration } target hardware options).1 := by
  unfold render Setting.step
  dsimp only
  rcases Setting.alikeFrom_program hrun htypes registration with
    ⟨a, b, after, after', hx, hy, -, hab⟩ | ⟨fault, after, after', hx, hy, -⟩
  · rw [show _ = _ from hx, show _ = _ from hy, hab trivial]
  · rw [show _ = _ from hx, show _ = _ from hy]

/-- Two programs that differ in dead blocks only are rendered to the same script or end with the same
fault. What comes after a disabled root is dead, too. -/
theorem scripts_ignore_dead_blocks {w w' : Workspace} (hlive : w.SameLive false w')
    (hvalid : w.validate = .ok ()) (hvalid' : w'.validate = .ok ())
    (hnames : w.variableNames = w'.variableNames) (hardware : Hardware) (options : ClassOptions)
    (registration registration' : Registration) :
    (render { workspace := w, registration } .javaScript hardware options).1 =
      (render { workspace := w', registration := registration' } .javaScript hardware
        options).1 := by
  have hrun : Setting.SameLive false { workspace := w, hardware, target := .javaScript, options }
      { workspace := w', hardware, target := .javaScript, options } :=
    ⟨hlive, hvalid, hvalid', hnames, rfl, rfl, rfl, fun h => by cases h⟩
  exact Program.fst_render_eq hrun (fun h => by cases h) registration

/-- Two programs that differ in dead blocks only are rendered to the same class or end with the same
fault, if the same parameters and types are found in both. That is so if no dead block is a definition,
an enabled assignment or an enabled call. -/
theorem classes_see_dead_blocks_by_types_only {w w' : Workspace} (hlive : w.SameLive true w')
    (hvalid : w.validate = .ok ()) (hvalid' : w'.validate = .ok ())
    (hnames : w.variableNames = w'.variableNames) (hardware : Hardware) (options : ClassOptions)
    (registration : Registration) :
    ((∀ procedure, w.parameters? procedure = w'.parameters? procedure) → w.inferred = w'.inferred →
      (render { workspace := w, registration } .java hardware options).1 =
        (render { workspace := w', registration } .java hardware options).1) ∧
    (w.Silent true → w'.Silent true →
      (render { workspace := w, registration } .java hardware options).1 =
        (render { workspace := w', registration } .java hardware options).1) := by
  have hsame : (∀ procedure, w.parameters? procedure = w'.parameters? procedure) →
      w.inferred = w'.inferred →
      (render { workspace := w, registration } .java hardware options).1 =
        (render { workspace := w', registration } .java hardware options).1 := by
    intro hparameters htypes
    have hrun : Setting.SameLive true { workspace := w, hardware, target := .java, options }
        { workspace := w', hardware, target := .java, options } :=
      ⟨hlive, hvalid, hvalid', hnames, rfl, rfl, rfl, fun _ => hparameters⟩
    exact Program.fst_render_eq hrun (fun _ => htypes) registration
  refine ⟨hsame, fun hsilent hsilent' => ?_⟩
  refine hsame (parameters?_eq_of_silent hlive hsilent hsilent') ?_
  unfold Workspace.inferred
  rw [Inference.inferAll_eq_of_silent hlive hvalid hvalid' hnames hsilent hsilent']

/-! ## A disabled loop -/

namespace SleepingLoop

def main : Block :=
  { id := "m", typeName := "procedures_defnoreturn", kind := .procedureDef false
    fields := Dict.ofList [("NAME", "runOpMode")], statements := Dict.ofList [("STACK", "l")] }

/-- The only statement of the main procedure is disabled. -/
def loop (body : Dict String) : Block :=
  { id := "l", typeName := "controls_repeat_ext", kind := .controlsRepeat, statements := body
    parent := some (.statement "m" "STACK"), disabled := true }

def assignment : Block :=
  { id := "n", typeName := "variables_set", kind := .variablesSet
    fields := Dict.ofList [("VAR", "x")], values := Dict.ofList [("VALUE", "o")]
    parent := some (.statement "l" "DO") }

def number : Block :=
  { id := "o", typeName := "math_number", kind := .mathNumber
    fields := Dict.ofList [("NUM", "2.5")], parent := some (.value "n" "VALUE") }

def exit : Block :=
  { id := "n", typeName := "controls_flow_statements", kind := .controlsFlow
    fields := Dict.ofList [("FLOW", "BREAK")], parent := some (.statement "l" "DO") }

def bare : Workspace where
  blocks := [loop {}, main]
  variableNames := ["x"]
  distinct := by decide

/-- The loop with a way out of it inside. -/
def leaving : Workspace where
  blocks := [loop (Dict.ofList [("DO", "n")]), main, exit]
  variableNames := ["x"]
  distinct := by decide

/-- The loop with an assignment inside. -/
def assigning : Workspace where
  blocks := [loop (Dict.ofList [("DO", "n")]), main, assignment, number]
  variableNames := ["x"]
  distinct := by decide

variable {inside : List Block}

/-- Only the procedure and the loop are live. -/
theorem live_iff {body : Dict String} (hblocks : w.blocks = loop body :: main :: inside)
    (hinside : ∀ block ∈ inside, block.parent ≠ none) (pastRoots : Bool) (block : Block) :
    w.Live pastRoots block ↔ block ∈ [loop body, main] := by
  have hmain : w.Live pastRoots main := .root (by simp [hblocks]) rfl
  have hget : w.get? "l" = some (loop body) := by
    unfold Workspace.get?
    rw [hblocks]
    rfl
  have hloop : w.Live pastRoots (loop body) := .link hmain (mem_singleton.2 rfl) hget
  refine live_iff_mem ?_ ?_ ?_
  · simpa using ⟨hloop, hmain⟩
  · intro block hblock hparent
    rw [hblocks] at hblock
    rcases mem_cons.1 hblock with rfl | hblock
    · cases hparent
    · rcases mem_cons.1 hblock with rfl | hblock
      · simp
      · exact absurd hparent (hinside block hblock)
  · intro block hblock id hid child hchild
    rcases mem_cons.1 hblock with rfl | hblock
    · cases pastRoots <;> cases hid
    · obtain rfl := mem_singleton.1 hblock
      obtain rfl : id = "l" := mem_singleton.1 hid
      obtain rfl : loop body = child := by simpa [hget] using hchild
      exact mem_cons_self

theorem sameLive {body : Dict String} (hblocks : w.blocks = loop body :: main :: inside)
    (hinside : ∀ block ∈ inside, block.parent ≠ none) (pastRoots : Bool) :
    w.SameLive pastRoots bare := by
  refine sameLive_of_live_iff_mem (live_iff hblocks hinside pastRoots)
    (live_iff (show bare.blocks = loop {} :: main :: [] from rfl) (by simp) pastRoots) ?_
  cases pastRoots <;> rfl

theorem validate_bare : bare.validate = .ok () := by
  rw [validate_of_sorted (by decide) (by decide)]
  decide

theorem validate_leaving : leaving.validate = .ok () := by
  rw [validate_of_sorted (by decide) (by decide)]
  decide

theorem validate_assigning : assigning.validate = .ok () := by
  rw [validate_of_sorted (by decide) (by decide)]
  decide

/-- Nobody can tell from the script that the loop is not empty. -/
theorem sleeping_assignment_is_ignored :
    assigning.SameLive false bare ∧ ∀ hardware options registration registration',
      (render { workspace := assigning, registration } .javaScript hardware options).1 =
        (render { workspace := bare, registration := registration' } .javaScript hardware
          options).1 :=
  ⟨sameLive rfl (by simp [assignment, number]) false,
    scripts_ignore_dead_blocks (sameLive rfl (by simp [assignment, number]) false)
      validate_assigning validate_bare rfl⟩

theorem silent_bare : bare.Silent true := by
  intro block hblock _
  exact (live_iff (show bare.blocks = loop {} :: main :: [] from rfl) (by simp) true block).2 hblock

theorem silent_leaving : leaving.Silent true := by
  intro block hblock hspeaks
  refine (live_iff (show leaving.blocks = _ :: main :: [exit] from rfl) (by simp [exit]) true block).2 ?_
  rcases mem_cons.1 hblock with rfl | hblock
  · cases hspeaks
  · rcases mem_cons.1 hblock with rfl | hblock
    · simp
    · obtain rfl := mem_singleton.1 hblock
      cases hspeaks

/-- A way out of the loop has no type, so the class is the same as without it. -/
theorem sleeping_exit_is_ignored :
    leaving.SameLive true bare ∧ ∀ hardware options registration,
      (render { workspace := leaving, registration } .java hardware options).1 =
        (render { workspace := bare, registration } .java hardware options).1 :=
  ⟨sameLive rfl (by simp [exit]) true, fun hardware options registration =>
    (classes_see_dead_blocks_by_types_only (sameLive rfl (by simp [exit]) true) validate_leaving
      validate_bare rfl hardware options registration).2 silent_leaving silent_bare⟩

/-- The class, by the type of its only field. -/
def classText (type : String) : String :=
  "package org.firstinspires.ftc.teamcode;\n\n" ++
  "import com.qualcomm.robotcore.eventloop.opmode.LinearOpMode;\n" ++
  "import com.qualcomm.robotcore.eventloop.opmode.TeleOp;\n\n" ++
  "@TeleOp(name = \"BlocksOpMode\")\n" ++
  "public class BlocksOpMode extends LinearOpMode \x7b\n\n" ++
  "  private " ++ type ++ " x;\n\n" ++
  "  /**\n   * This function is executed when this OpMode is selected from the Driver Station.\n   */\n" ++
  "  @Override\n  public void runOpMode() \x7b\n  \x7d\n\x7d\n"

theorem roots_bare : bare.roots = [main] := mergeSort_singleton main

theorem roots_assigning : assigning.roots = [main] := mergeSort_singleton main

theorem byId_bare : bare.byId = bare.blocks := byId_eq_blocks (by decide)

theorem byId_assigning : assigning.byId = assigning.blocks := byId_eq_blocks (by decide)

/-- The assignment in the disabled loop gives the field its type. -/
theorem sleeping_assignment_types_field :
    assigning.SameLive true bare ∧ assigning.validate = .ok () ∧ bare.validate = .ok () ∧
      assigning.variableNames = bare.variableNames ∧
      (render { workspace := assigning } .java {} {}).1 = .ok (classText "double") ∧
      (render { workspace := bare } .java {} {}).1 = .ok (classText "Object") := by
  refine ⟨sameLive rfl (by simp [assignment, number]) true, validate_assigning, validate_bare, rfl, ?_, ?_⟩
  · unfold render Setting.program inferTypes Inference.inferAll Compiled.program
      Compiled.collect Compiled.renderParts
    simp only [Setting.setting_renderer, roots_assigning, byId_assigning]
    decide +kernel
  · unfold render Setting.program inferTypes Inference.inferAll Compiled.program
      Compiled.collect Compiled.renderParts
    simp only [Setting.setting_renderer, roots_bare, byId_bare]
    decide +kernel

end SleepingLoop

end RobotBlocks
