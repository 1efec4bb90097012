import RobotBlocks.Proofs.Render.Closed
import RobotBlocks.Proofs.Render.Targets

/-!
# What rendering may do to a draft

Rendering changes a draft by two kinds of steps: it records an event, or it does an operation on the
context. A relation between drafts that holds across each of them, and that goes from steps to runs,
therefore holds between the draft before and the draft after the rendering of any block, whether that
ends well or not (`Draft.Steady.moves_rendererWithin`). If it also does not look at the static types
it holds across every program that is completed (`Draft.Steady.of_completes`) or that fails
(`Draft.Steady.of_fails_program`).
-/

set_option autoImplicit false

namespace RobotBlocks

/-- A relation between drafts that single steps keep to. -/
structure Draft.Steady (M : Draft → Draft → Prop) : Prop where
  refl (draft : Draft) : M draft draft
  trans {first second third : Draft} : M first second → M second third → M first third
  record (draft : Draft) (events : List Event) : M draft { draft with events }
  operate (draft : Draft) (operation : Context.Operation) :
    M draft { draft with context := (operation.apply draft.context).2 }

/-- A step of a run keeps to a relation, also when it fails. -/
def Moves {α : Type} (M : Draft → Draft → Prop) (action : Render α) : Prop :=
  ∀ draft, M draft (Setting.step action draft).2

variable {M : Draft → Draft → Prop}

theorem moves_iff {α : Type} {action : Render α} :
    Moves M action ↔ (∀ before a after, Yields action before a after → M before after) ∧
      ∀ before fault after, Fails action before fault after → M before after := by
  constructor
  · intro h
    constructor
    · intro before a after hyields
      have hmoved := h before
      rwa [show Setting.step action before = _ from hyields] at hmoved
    · intro before fault after hfails
      have hmoved := h before
      rwa [show Setting.step action before = _ from hfails] at hmoved
  · rintro ⟨hyields, hfails⟩ before
    rcases yields_or_fails action before with ⟨a, after, h⟩ | ⟨fault, after, h⟩
    · rw [show Setting.step action before = _ from h]
      exact hyields before a after h
    · rw [show Setting.step action before = _ from h]
      exact hfails before fault after h

variable {before : Draft}

theorem Moves.of_yields {α : Type} {action : Render α} (h : Moves M action) {after : Draft}
    {a : α} (hyields : Yields action before a after) : M before after :=
  (moves_iff.1 h).1 before a after hyields

/-- The types are put back at the draft that they were taken from. -/
theorem Render.step_inferTypes (w : Workspace) (draft : Draft) :
    (Setting.step (inferTypes w) draft).2 =
      (Setting.step (do
        liftM ((Inference.inferAll w).run.run draft.types).1
        record (.typesInferred
          ((Inference.inferAll w).run.run draft.types).2.variableTypes.size) : Render Unit)
        { draft with types := ((Inference.inferAll w).run.run draft.types).2 }).2 :=
  rfl

/-- The draft after what was collected has been handed over. -/
def Draft.flushed (draft : Draft) : Draft := { draft with context := {} }

/-- A class is rendered from a draft on: these are its parts, and this is the draft from which what was
collected is handed over. -/
def Setting.Completes (setting : Setting) (registration : Registration) (before : Draft)
    (parts : Compiled.Parts) (full : Draft) : Prop :=
  ∃ typed, Yields (do
      Render.record (.generating setting.target setting.workspace.size)
      Render.inferTypes setting.workspace) before () typed ∧
    Yields (Compiled.renderParts setting.renderer registration) typed parts full

variable {setting : Setting} {registration : Registration}

/-- A class is put together from its parts and from what was collected on the way. -/
theorem Setting.exists_completes {last : Draft} {text : String} (hjava : setting.target = .java)
    (h : Yields (setting.program registration) before text last) :
    ∃ parts full, setting.Completes registration before parts full ∧
      text = Compiled.assemble setting.options (parts.withCollected full.context.collected) ∧
      last = full.flushed := by
  obtain ⟨_, begun, hbegun, h⟩ := yields_bind.1 h
  rw [hjava] at h
  obtain ⟨_, typed, htyped, h⟩ := yields_bind.1 h
  unfold Compiled.program at h
  rw [setting.setting_renderer] at h
  dsimp only at h
  split at h
  · exact absurd h (by simp)
  · obtain ⟨parts, hparts, rfl⟩ := yields_bind_pure.1 h
    obtain ⟨rendered, full, hrendered, hparts⟩ := yields_bind.1 hparts
    obtain ⟨collected, hflush, rfl⟩ := yields_bind_pure.1 hparts
    obtain ⟨rfl, rfl⟩ := Prod.mk.inj (yields_modifyGet.1 hflush)
    exact ⟨rendered, full, ⟨typed, yields_bind.2 ⟨_, begun, hbegun, htyped⟩, hrendered⟩, rfl, rfl⟩

namespace Draft.Steady

variable {M : Draft → Draft → Prop} {α : Type}

variable (hM : Steady M)

include hM

/-- What is steady holds of steps and goes from steps to runs. -/
theorem closed : Render.Closed (Moves M) where
  pure _ := hM.refl
  bind := by
    intro α β x f hx hf
    rw [moves_iff]
    constructor
    · intro before b after h
      obtain ⟨a, middle, hfirst, hsecond⟩ := yields_bind.1 h
      exact hM.trans (hx.of_yields hfirst) ((hf before a middle hfirst).of_yields hsecond)
    · intro before fault after h
      rcases fails_bind.1 h with hfirst | ⟨a, middle, hfirst, hsecond⟩
      · exact (moves_iff.1 hx).2 before fault after hfirst
      · refine hM.trans (hx.of_yields hfirst) ?_
        exact (moves_iff.1 (hf before a middle hfirst)).2 middle fault after hsecond
  throw _ := hM.refl
  get := hM.refl
  record _ draft := hM.record draft _
  withContext := by
    intro α operation request _ heq draft
    have hmoved := hM.operate draft request
    rw [← heq] at hmoved
    exact hmoved
  declare key text draft := hM.operate draft (.registerDeclaration key text)

theorem lift (answer : Except Fault α) : Moves M (liftM answer : Render α) := hM.refl

/-- A run in parallel to some run keeps to the relation if what it asks for does. -/
theorem moves {R : α → α → Prop} {x y : Render α}
    (h : Parallel True (fun _ R x _ => Render.Within (Moves M) R x) R x y) : Moves M x :=
  (hM.closed.of_parallel h).1

/-! ## Sockets and slots -/

variable {r : Renderer}

theorem plugged (hvalue : ∀ child, Moves M (r.value child)) (block : Block) (socket : String)
    (child : Block) : Moves M (r.plugged block socket child) :=
  hM.closed.plugged (fun _ => hM.refl) (hvalue child) block socket

theorem operandOr (hvalue : ∀ child, Moves M (r.value child)) (block : Block)
    (socket : String) (fallback : Expr) : Moves M (r.operandOr block socket fallback) :=
  hM.closed.operandOr (fun _ _ _ => hM.refl)
    (fun _ child _ _ => hM.plugged hvalue block socket child) fallback

theorem chain (hstatement : ∀ child, Moves M (r.statement child)) (start : String) :
    Moves M (r.chain start) :=
  hM.closed.chain (fun _ _ => hM.refl) fun child _ => hstatement child

theorem parallelAt (hvalue : ∀ child, Moves M (r.value child))
    (hstatement : ∀ child, Moves M (r.statement child)) (block : Block) :
    r.ParallelAt True (fun _ R x _ => Render.Within (Moves M) R x) r block :=
  hM.closed.parallelAt
    { dangling := fun _ _ _ _ => hM.refl
      plugged := fun socket _ child _ _ => hM.plugged hvalue block socket child
      chain := fun _ start _ => hM.chain hstatement start
      type := fun _ _ => hM.refl }

/-- A steady relation holds across the rendering of every block. -/
theorem moves_rendererWithin (setting : Setting) (depth : Nat) :
    (∀ block, Moves M ((setting.rendererWithin depth).value block)) ∧
      ∀ block, Moves M ((setting.rendererWithin depth).statement block) := by
  induction depth with
  | zero => exact ⟨fun _ => hM.refl, fun _ => hM.refl⟩
  | succ depth ih =>
    have hat := hM.parallelAt ih.1 ih.2
    exact ⟨fun block => hM.moves (hat block).renderValue,
      fun block => hM.moves (hat block).renderStatement⟩

theorem parallelAt_renderer (setting : Setting) (block : Block) :
    setting.renderer.ParallelAt True (fun _ R x _ => Render.Within (Moves M) R x) setting.renderer
      block :=
  have hmoves := hM.moves_rendererWithin setting setting.workspace.size
  hM.parallelAt hmoves.1 hmoves.2 block

/-! ## Programs -/

theorem inferTypes (htypes : ∀ draft types, M draft { draft with types })
    (w : Workspace) : Moves M (Render.inferTypes w) := by
  intro draft
  rw [Render.step_inferTypes]
  exact hM.trans (htypes draft _) (hM.closed.andThen (hM.lift _) (fun _ => hM.closed.record _) _)

theorem parallelRoots (setting : Setting) :
    setting.renderer.ParallelRoots True (fun _ R x _ => Render.Within (Moves M) R x)
      setting.renderer := by
  obtain ⟨hvalue, hstatement⟩ := hM.moves_rendererWithin setting setting.workspace.size
  exact ⟨Block.sameRoots_of_eq rfl, rfl, rfl, fun root _ _ => hM.parallelAt_renderer setting root,
    fun root _ _ => .inner (.of (hM.chain hstatement root.id)),
    fun root _ _ => .inner (.of (hvalue root))⟩

theorem moves_script (htarget : setting.target = .javaScript) (registration : Registration) :
    Moves M (setting.program registration) := by
  refine hM.closed.andThen (hM.closed.record _) fun _ => ?_
  rw [htarget]
  exact hM.moves (Script.parallel_program (hM.parallelRoots setting))

theorem moves_renderParts (setting : Setting) (registration : Registration) :
    Moves M (Compiled.renderParts setting.renderer registration) :=
  hM.moves (Compiled.parallel_renderParts (hM.parallelRoots setting) registration)

/-- And across that of a class that is completed. -/
theorem of_completes (htypes : ∀ draft types, M draft { draft with types }) {full : Draft}
    {parts : Compiled.Parts} (h : setting.Completes registration before parts full) :
    M before full := by
  obtain ⟨typed, htyped, hparts⟩ := h
  have hstart := (hM.closed.andThen (hM.closed.record _) fun _ =>
    hM.inferTypes htypes setting.workspace).of_yields htyped
  exact hM.trans hstart ((hM.moves_renderParts setting registration).of_yields hparts)

/-- A class keeps to the relation until it hands over what it has collected. That is the last thing it
does, so a class that fails does not come to it. -/
theorem of_fails_program (htypes : ∀ draft types, M draft { draft with types })
    (htarget : setting.target = .java) {after : Draft} {fault : Fault}
    (h : Fails (setting.program registration) before fault after) : M before after := by
  obtain h | ⟨_, begun, hbegun, h⟩ := fails_bind.1 h
  · exact absurd h fails_modify
  refine hM.trans ((hM.closed.record _).of_yields hbegun) ?_
  rw [htarget] at h
  have htyped := hM.inferTypes htypes setting.workspace
  obtain h | ⟨_, typed, hyields, h⟩ := fails_bind.1 h
  · exact (moves_iff.1 htyped).2 _ _ _ h
  refine hM.trans (htyped.of_yields hyields) ?_
  unfold Compiled.program at h
  dsimp only at h
  split at h
  · obtain h | ⟨_, _, h, -⟩ := fails_bind.1 h
    · obtain ⟨-, rfl⟩ := fails_throw.1 h
      exact hM.refl _
    · exact absurd h yields_throw
  · obtain h | ⟨_, _, -, h⟩ := fails_bind.1 h
    · obtain h | ⟨_, _, -, h⟩ := fails_bind.1 h
      · exact (moves_iff.1 (hM.moves_renderParts setting registration)).2 _ _ _ h
      · obtain h | ⟨_, _, -, h⟩ := fails_bind.1 h
        · exact absurd h fails_modifyGet
        · exact absurd h fails_pure
    · exact absurd h fails_pure

end Draft.Steady

/-- The static types are found before anything is rendered; rendering leaves them as they are. -/
theorem Draft.steady_types : Draft.Steady fun before after => after.types = before.types where
  refl _ := rfl
  trans hfirst hsecond := hsecond.trans hfirst
  record _ _ := rfl
  operate _ _ := rfl

end RobotBlocks
