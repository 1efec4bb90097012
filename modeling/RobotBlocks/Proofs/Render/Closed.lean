import RobotBlocks.Proofs.Context.Collector
import RobotBlocks.Proofs.StaticType.Depth

/-!
# What holds of every run

A property of runs that single steps have, and that goes from steps to longer runs, is closed
(`Render.Closed`), or quiet if declarations do not have it (`Render.Quiet`). If closed, it holds of
every run in parallel to some run if it holds of what that asks for (`Render.Closed.of_parallel`), so
all that remains of a block is what stands in its sockets and slots (`Renderer.Inside`).
-/

set_option autoImplicit false

namespace RobotBlocks

open List

/-- A property of runs that single steps have which declare nothing, and that goes from steps to longer
runs. -/
structure Render.Quiet (P : {α : Type} → Render α → Prop) : Prop where
  pure {α : Type} (a : α) : P (pure a : Render α)
  /-- The second step is looked at only for what the first one can give. -/
  bind {α β : Type} {x : Render α} {f : α → Render β} : P x →
    (∀ before a after, Yields x before a after → P (f a)) → P (x >>= f)
  throw {α : Type} {fault : Fault} : fault.isOwn = true → P (throw fault : Render α)
  get : P (get : Render Draft)
  record (event : Event) : P (Render.record event)
  withContext {α : Type} {operation : Context → α × Context} (request : Context.Operation) :
    request.declaration? = none → (∀ context, (operation context).2 = (request.apply context).2) →
    P (Render.withContext operation)

/-- A property of runs that all single steps have and that goes from steps to longer runs. -/
structure Render.Closed (P : {α : Type} → Render α → Prop) : Prop extends Quiet P where
  declare (key : DeclarationKey) (text : String) : P (Render.declare key text)

/-- A run has a property, and what it gives is one side of a relation. -/
def Render.Within (P : {α : Type} → Render α → Prop) {α : Type} (R : α → α → Prop) (x : Render α) :
    Prop :=
  P x ∧ ∀ before a after, Yields x before a after → ∃ b, R a b

theorem Render.Within.of {P : {α : Type} → Render α → Prop} {exact : Prop} {α : Type} {x : Render α}
    (h : P x) : Within P (Agree exact) x :=
  ⟨h, fun _ a _ _ => ⟨a, .refl a⟩⟩

/-- What stands in the sockets and slots of a block has a property. -/
structure Renderer.Inside (P : {α : Type} → Render α → Prop) (r : Renderer) (block : Block) :
    Prop where
  dangling (socket id : String) : block.values.get? socket = some id →
    r.setting.workspace.get? id = none → P (throw (.unknownBlock id) : Render Expr)
  plugged (socket id : String) (child : Block) : block.values.get? socket = some id →
    r.setting.workspace.get? id = some child → P (r.plugged block socket child)
  chain (name start : String) : block.statements.get? name = some start → P (r.chain start)
  type (socket : String) (types : TypeTable) :
    P (liftM (StaticType.ofChild r.setting.workspace types block socket) : Render (Option String))

namespace Render.Quiet

variable {P : {α : Type} → Render α → Prop} (h : Quiet P) {α β : Type}

include h

variable {f : α → Render β}

theorem andThen {x : Render α} (hx : P x) (hf : ∀ a, P (f a)) : P (x >>= f) :=
  h.bind hx fun _ a _ _ => hf a

theorem lift {answer : Except Fault α} (hown : Own answer) : P (liftM answer : Render α) := by
  cases answer with
  | error fault => exact h.throw (hown fault rfl)
  | ok a => exact h.pure a

theorem mapM (items : List α) (hf : ∀ item ∈ items, P (f item)) : P (items.mapM f) := by
  induction items with
  | nil => exact h.pure _
  | cons item rest ih =>
    rw [mapM_cons]
    refine h.andThen (hf item mem_cons_self) fun _ => ?_
    refine h.andThen (ih fun other hother => ?_) fun _ => h.pure _
    exact hf other (mem_cons_of_mem _ hother)

theorem forM {f : α → Render PUnit} (items : List α) (hf : ∀ item ∈ items, P (f item)) :
    P (items.forM f) := by
  induction items with
  | nil => exact h.pure _
  | cons item rest ih =>
    rw [forM_eq_forM, forM_cons]
    refine h.andThen (hf item mem_cons_self) fun _ => ?_
    exact ih (forall_mem_cons.1 hf).2

/-! ## Steps of a run -/

theorem recordImport (added : Option String) : P (Render.recordImport added) := by
  cases added with
  | none => exact h.pure _
  | some className => exact h.record _

theorem identifierFor (space : Namespace) (name : String) : P (Render.identifierFor space name) :=
  h.withContext (.identifierFor space name) rfl fun _ => rfl

theorem distinctName (base : String) : P (Render.distinctName base) :=
  h.withContext (.distinctName base) rfl fun _ => rfl

theorem importClassType (classType : String) : P (Render.importClassType classType) :=
  h.andThen (h.withContext (.importClassType classType) rfl fun _ => rfl) h.recordImport

theorem importKnown (simple : String) : P (Render.importKnown simple) := by
  rw [Render.importKnown_eq]
  cases knownClass? (Context.outerName simple) with
  | none => exact h.throw rfl
  | some className =>
    exact h.andThen (h.withContext (.registerImport className) rfl fun _ => rfl) h.recordImport

theorem importIfKnown (type : String) : P (Render.importIfKnown type) := by
  unfold Render.importIfKnown
  dsimp only
  split
  · exact h.importKnown _
  · exact h.pure _

/-! ## Sockets and slots -/

variable {r : Renderer} {block child : Block}

theorem checkSocket (block : Block) (socket : String) (found : Check) :
    P (Renderer.checkSocket block socket found) := by
  unfold Renderer.checkSocket
  split
  · split
    · exact h.pure _
    · exact h.record _
  · exact h.pure _

theorem coerce (htype : ∀ types, P (liftM (StaticType.ofBlock r.setting.workspace types child) :
      Render (Option String))) (block : Block) (socket : String) (expr : Expr) :
    P (r.coerce block socket child expr) := by
  refine h.andThen h.get fun draft => ?_
  refine h.andThen (h.lift (StaticType.own_ofSocket _ _ _ _)) fun type => ?_
  split
  · exact h.pure _
  · split
    · exact h.andThen (h.lift child.own_literal) fun _ => h.pure _
    · refine h.andThen (htype draft.types) fun found => ?_
      split <;> exact h.pure _

theorem plugged (htype : ∀ types, P (liftM (StaticType.ofBlock r.setting.workspace types child) :
      Render (Option String))) (hvalue : P (r.value child)) (block : Block) (socket : String) :
    P (r.plugged block socket child) := by
  unfold Renderer.plugged
  split
  · exact h.throw rfl
  · refine h.andThen (h.checkSocket _ _ _) fun _ => h.andThen hvalue fun expr => ?_
    split
    · exact h.coerce htype block socket expr
    · exact h.pure _

theorem chain {start : String} (hend : ∀ fault, (r.setting.workspace.chain start).2 = some fault →
      P (MonadExcept.throw fault : Render String))
    (hstatement : ∀ child ∈ (r.setting.workspace.chain start).1, P (r.statement child)) :
    P (r.chain start) := by
  have hlink : ∀ child, P (r.statement child) → P (r.link child) := by
    intro child hchild
    unfold Renderer.link
    split
    · exact h.andThen (h.record _) fun _ => h.pure _
    · exact h.andThen hchild fun _ => h.pure _
  unfold Renderer.chain
  dsimp only
  refine h.andThen (h.mapM _ fun child hchild => hlink child (hstatement child hchild)) fun _ => ?_
  split
  · rename_i fault hfault
    exact hend fault hfault
  · exact h.pure _

theorem operandOr {socket : String}
    (hdangling : ∀ id, block.values.get? socket = some id → r.setting.workspace.get? id = none →
      P (MonadExcept.throw (.unknownBlock id) : Render Expr))
    (hplugged : ∀ id child, block.values.get? socket = some id →
      r.setting.workspace.get? id = some child → P (r.plugged block socket child))
    (fallback : Expr) : P (r.operandOr block socket fallback) :=
  Renderer.operandOr_cases (P := fun x _ => P x) rfl (fun _ => h.pure _) hdangling
    fun id child hsocket hchild _ => hplugged id child hsocket hchild

theorem dropsFraction (htype : ∀ socket types, P (liftM (StaticType.ofChild r.setting.workspace types
      block socket) : Render (Option String))) : P (r.dropsFraction block) := by
  have hintegral : ∀ socket, P (r.isIntegral block socket) := fun socket =>
    h.andThen h.get fun _ => h.andThen (htype socket _) fun _ => h.pure _
  unfold Renderer.dropsFraction
  split
  · exact h.pure _
  · refine h.andThen (hintegral "A") fun integral => ?_
    split
    · exact hintegral "B"
    · exact h.pure _

end Render.Quiet

namespace Render.Closed

variable {P : {α : Type} → Render α → Prop} (h : Closed P) {α : Type}

include h

/-- A run in parallel to some run has a property if what it asks for does. -/
theorem of_parallel {exact : Prop} {R : α → α → Prop} {x y : Render α}
    (hrun : Parallel exact (fun _ R x _ => Within P R x) R x y) : Within P R x := by
  induction hrun with
  | inner hx => exact hx
  | pure hab =>
    refine ⟨h.pure _, fun before a after hyields => ?_⟩
    obtain ⟨rfl, -⟩ := yields_pure.1 hyields
    exact ⟨_, hab⟩
  | bind _ _ hx hnext =>
    constructor
    · refine h.bind hx.1 fun before a after hyields => ?_
      obtain ⟨b, hab⟩ := hx.2 before a after hyields
      exact (hnext a b hab).1
    · intro before c after hyields
      obtain ⟨a, middle, hfirst, hsecond⟩ := yields_bind.1 hyields
      obtain ⟨b, hab⟩ := hx.2 before a middle hfirst
      exact (hnext a b hab).2 middle c after hsecond
  | weaken _ himp hx =>
    refine ⟨hx.1, fun before a after hyields => ?_⟩
    obtain ⟨b, hab⟩ := hx.2 before a after hyields
    exact ⟨b, himp a b hab⟩
  | throw fault hfault =>
    refine ⟨h.throw hfault, fun before a after hyields => ?_⟩
    exact absurd hyields yields_throw
  | get => exact ⟨h.get, fun _ draft _ _ => ⟨draft, fun _ => .refl draft⟩⟩
  | record => exact .of (h.record _)
  | identifierFor => exact .of (h.identifierFor _ _)
  | distinctName base => exact .of (h.distinctName base)
  | importClassType => exact .of (h.importClassType _)
  | importKnown => exact .of (h.importKnown _)
  | importIfKnown => exact .of (h.importIfKnown _)
  | declare => exact .of (h.declare _ _)

theorem parallelAt {r : Renderer} {block : Block} (hinside : r.Inside P block) :
    r.ParallelAt True (fun _ R x _ => Within P R x) r block := by
  have hoperand : ∀ socket fallback, P (r.operandOr block socket fallback) := fun socket fallback =>
    h.operandOr (hinside.dangling socket) (hinside.plugged socket) fallback
  refine ⟨rfl, rfl, fun socket fallback => .inner (.of (hoperand socket fallback)),
    fun name => .inner (.of ?_), .inner (.of (h.andThen (h.dropsFraction hinside.type) fun drops => ?_)),
    .refl _⟩
  · unfold Renderer.slot
    split
    · exact h.andThen (hinside.chain name _ ‹_›) fun _ => h.pure _
    · exact h.pure _
  · unfold Renderer.binary
    split <;> exact h.andThen (hoperand "A" _) fun _ => h.andThen (hoperand "B" _) fun _ => h.pure _

end Render.Closed

end RobotBlocks
