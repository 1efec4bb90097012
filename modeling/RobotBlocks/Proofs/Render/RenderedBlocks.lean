import RobotBlocks.Proofs.Render.UndeclaredLinks

/-!
# The blocks that are rendered

`Workspace.renderedWithin` lists a block and the enabled blocks inside it in the order in which
rendering comes to them, and `Workspace.classBlocks` does so for a whole class: the procedures among
the roots, then the main procedure with its statements. The lists are functions of the workspace alone.

What can be said of a block once it is said of the inputs of the block holds of whole classes
(`Compiled.Stages.follow`). In particular, a run that ends well has used the devices of these blocks,
in this order (`Compiled.Stages.uses`).
-/

set_option autoImplicit false

namespace RobotBlocks

open List Renderer Option

/-- The identifier of a variable by a table of names. -/
def NameTable.variable (table : NameTable) (name : String) : String :=
  (table.assigned? .variableNames name).getD ""

/-! ## The order of rendering -/

namespace Workspace

/-- The enabled blocks in an input: the one in a socket, or those of the chain in a slot. -/
def enabledIn (w : Workspace) (block : Block) : Input → List Block
  | .socket name => ((block.values.get? name).bind w.get?).toList.filter (fun child => !child.disabled)
  | .slot name =>
    (((block.statements.get? name).map fun start => (w.chain start).1).getD []).filter
      (fun child => !child.disabled)

/-- A block and the enabled blocks inside it, at most `depth` deep. -/
def renderedWithin (w : Workspace) : (depth : Nat) → Block → List Block
  | 0, _ => []
  | depth + 1, block =>
    block :: block.inputs.flatMap fun input =>
      (w.enabledIn block input).flatMap (w.renderedWithin depth)

end Workspace

/-- The root defines the main procedure. -/
def Block.isMain (root : Block) : Bool :=
  !root.disabled && root.kind.isDefinition && root.procedureName.toOption = some Render.mainName

/-- The root defines another procedure. -/
def Block.isMethod (root : Block) : Bool :=
  !root.disabled && root.kind.isDefinition && root.procedureName.toOption ≠ some Render.mainName

/-- The blocks that a class is rendered from. Of the main procedure only the statements are. -/
def Workspace.classBlocks (w : Workspace) : List Block :=
  (w.roots.filter Block.isMethod).flatMap (w.renderedWithin (w.size + 1)) ++
    (w.roots.find? Block.isMain).toList.flatMap fun main =>
      main :: (w.enabledIn main (.slot "STACK")).flatMap (w.renderedWithin w.size)

/-- The devices that blocks are about, in the order of the blocks. -/
def Hardware.usesOf (hardware : Hardware) (blocks : List Block) : List DeviceUse :=
  blocks.filterMap (Block.device? hardware)

namespace Hardware

variable (hardware : Hardware)

theorem usesOf_append (front back : List Block) :
    hardware.usesOf (front ++ back) = hardware.usesOf front ++ hardware.usesOf back :=
  filterMap_append

theorem usesOf_flatMap {α : Type} (items : List α) (blocksOf : α → List Block) :
    hardware.usesOf (items.flatMap blocksOf) =
      items.flatMap fun item => hardware.usesOf (blocksOf item) :=
  filterMap_flatMap

theorem usesOf_cons (block : Block) (rest : List Block) :
    hardware.usesOf (block :: rest) = (block.device? hardware).toList ++ hardware.usesOf rest := by
  unfold usesOf
  cases hdevice : block.device? hardware with
  | none => exact filterMap_cons_none hdevice
  | some use => exact filterMap_cons_some hdevice

end Hardware

/-! ## Runs and the blocks that they come to -/

/-- A step that uses nothing, then the rest. -/
theorem Render.Using.quiet_bind {α β : Type} {uses : List DeviceUse} {x : Render α}
    {f : α → Render β} (hx : Using [] x) (hf : ∀ a, Using uses (f a)) : Using uses (x >>= f) :=
  hx.bind hf

namespace Trail

open Render (Passing Using)

variable {α β : Type} {T : List Block → Draft → Draft → Prop} {blocks : List Block}
variable {x : Render α} {f : α → Render β}

variable (hT : Trail T)

include hT

theorem quiet_bind (hx : Using [] x) (hf : ∀ a, Passing T blocks (f a)) :
    Passing T blocks (x >>= f) :=
  hT.bind (hT.of_using hx) hf

theorem bind_pure (hx : Passing T blocks x) (f : α → β) :
    Passing T blocks (x >>= fun a => pure (f a)) := by
  rw [← append_nil blocks]
  exact hT.bind hx fun a => hT.of_using (.pure (f a))

theorem mapM {items : List α} (blocksOf : α → List Block)
    (h : ∀ item ∈ items, Passing T (blocksOf item) (f item)) :
    Passing T (items.flatMap blocksOf) (items.mapM f) := by
  induction items with
  | nil => exact hT.of_using (.pure [])
  | cons item rest ih =>
    rw [mapM_cons, flatMap_cons]
    refine hT.bind (h item mem_cons_self) fun first => hT.bind_pure ?_ _
    exact ih (forall_mem_cons.1 h).2

variable {r : Renderer} {block : Block} {blocksIn : Block → List Block}

theorem operandOr (h : ∀ child ∈ r.setting.workspace.blocks, child.shape.isStatement = false →
      Passing T (blocksIn child) (r.value child)) (name : String) (fallback : Expr) :
    Passing T ((r.setting.workspace.enabledIn block (.socket name)).flatMap blocksIn)
      (r.operandOr block name fallback) := by
  dsimp only [Workspace.enabledIn]
  cases hsocket : block.values.get? name with
  | none =>
    rw [operandOr_of_get?_eq_none hsocket]
    exact hT.of_using (.pure _)
  | some id =>
    rw [bind_some]
    cases hget : r.setting.workspace.get? id with
    | none =>
      rw [operandOr_of_dangling hsocket hget]
      exact .throw _ _
    | some child =>
      rw [operandOr_of_get?_eq_some hsocket hget]
      cases hdisabled : child.disabled with
      | true =>
        simp only [toList_some, hdisabled, Bool.not_true, Bool.false_eq_true,
          not_false_eq_true, filter_cons_of_neg, filter_nil, flatMap_nil, if_true]
        exact hT.of_using (.pure _)
      | false =>
        simp only [toList_some, hdisabled, Bool.not_false, filter_cons_of_pos, filter_nil,
          flatMap_cons, flatMap_nil, append_nil, Bool.false_eq_true, if_false]
        unfold Renderer.plugged
        cases hoffers : child.shape.outputCheck? with
        | none => exact .throw _ _
        | some found =>
          have hvalue := Shape.isStatement_eq_false_of_outputCheck? hoffers
          have hchild : child ∈ r.setting.workspace.blocks := mem_of_find?_eq_some hget
          refine hT.quiet_bind (Using.quiet.checkSocket _ _ _) fun _ => ?_
          rw [← append_nil (blocksIn child)]
          refine hT.bind (h child hchild hvalue) fun expr => hT.of_using ?_
          cases r.setting.target with
          | javaScript => exact .pure _
          | java => exact Using.quiet.coerce (fun _ => .liftM _) block name expr

theorem link {child : Block} (h : Passing T (blocksIn child) (r.statement child)) :
    Passing T (if child.disabled then [] else blocksIn child) (r.link child) := by
  unfold Renderer.link
  split
  · exact hT.of_using (.quiet_bind (.record _) fun _ => .pure _)
  · exact hT.bind_pure h _

theorem chain
    (h : ∀ child ∈ r.setting.workspace.blocks, Passing T (blocksIn child) (r.statement child))
    (start : String) :
    Passing T (((r.setting.workspace.chain start).1.filter (fun child => !child.disabled)).flatMap
      blocksIn) (r.chain start) := by
  have hlinks : Passing T
      ((r.setting.workspace.chain start).1.flatMap fun child =>
        if child.disabled then [] else blocksIn child)
      ((r.setting.workspace.chain start).1.mapM r.link) :=
    hT.mapM _ fun child hchild => hT.link (h child (Workspace.mem_of_mem_chainFrom hchild))
  have henabled : ∀ blocks : List Block, (blocks.flatMap fun child =>
      if child.disabled then [] else blocksIn child) =
        (blocks.filter (fun child => !child.disabled)).flatMap blocksIn := by
    intro blocks
    induction blocks with
    | nil => rfl
    | cons child rest ih =>
      rw [flatMap_cons, ih]
      cases hdisabled : child.disabled <;> simp [hdisabled]
  rw [henabled] at hlinks
  unfold Renderer.chain
  rw [← append_nil (List.flatMap _ _)]
  refine hT.bind hlinks fun texts => ?_
  split
  · exact .throw _ _
  · exact hT.of_using (.pure _)

theorem slot
    (h : ∀ child ∈ r.setting.workspace.blocks, Passing T (blocksIn child) (r.statement child))
    (name : String) :
    Passing T ((r.setting.workspace.enabledIn block (.slot name)).flatMap blocksIn)
      (r.slot block name) := by
  dsimp only [Workspace.enabledIn]
  cases hslot : block.statements.get? name with
  | none =>
    rw [slot_of_get?_eq_none hslot]
    exact hT.of_using (.pure _)
  | some start =>
    rw [slot_of_get?_eq_some hslot]
    exact hT.bind_pure (hT.chain h start) _

end Trail

/-! ## Roots -/

variable {root : Block}

/-- A root adds its procedure; or nothing is rendered, and it is remembered as the main one if it is
the first that can be. -/
theorem Compiled.addRoot_cases {r : Renderer} {procedures result : Procedures}
    {before after : Draft} (h : Yields (addRoot r procedures root) before result after) :
    (root.isMethod = true ∧ root.kind.isDefinition = true ∧ root.isMain = false ∧
      ∃ text, Yields (method r root) before text after ∧
        result = { procedures with methods := procedures.methods ++ [text] }) ∨
    (root.isMethod = false ∧ result.methods = procedures.methods ∧
      result.main = procedures.main.or ([root].find? Block.isMain) ∧
      after.context = before.context ∧ after.types = before.types) := by
  -- Everything but a method leaves at most an event.
  have hrecorded : ∀ {event : Event} {u : Unit} {recorded : Draft},
      Yields (Render.record event) before u recorded →
      recorded.context = before.context ∧ recorded.types = before.types := by
    intro event u recorded hrecord
    rw [← yields_modify.1 hrecord]
    exact ⟨rfl, rfl⟩
  unfold addRoot at h
  cases hdisabled : root.disabled with
  | true =>
    rw [if_pos hdisabled] at h
    obtain ⟨_, hrecord, rfl⟩ := yields_bind_pure.1 h
    exact .inr ⟨by simp [Block.isMethod, hdisabled], rfl, by simp [Block.isMain, hdisabled],
      hrecorded hrecord⟩
  | false =>
    rw [if_neg (by simp [hdisabled])] at h
    cases hdefinition : root.kind.isDefinition with
    | false =>
      rw [if_neg (by simp [hdefinition])] at h
      obtain ⟨_, hrecord, rfl⟩ := yields_bind_pure.1 h
      exact .inr ⟨by simp [Block.isMethod, hdefinition], rfl, by simp [Block.isMain, hdefinition],
        hrecorded hrecord⟩
    | true =>
      rw [if_pos hdefinition] at h
      obtain ⟨name, middle, hname, h⟩ := yields_bind.1 h
      obtain ⟨hanswer, rfl⟩ := yields_liftM.1 hname
      have hfound : root.procedureName.toOption = some name := by
        rw [hanswer]
        rfl
      by_cases hother : name ≠ Render.mainName
      · rw [if_pos hother] at h
        obtain ⟨text, hmethod, rfl⟩ := yields_bind_pure.1 h
        exact .inl ⟨by simp [Block.isMethod, hdisabled, hdefinition, hfound, hother], rfl,
          by simp [Block.isMain, hfound, hother], text, hmethod, rfl⟩
      · rw [if_neg hother] at h
        rw [not_not] at hother
        have hmethod : root.isMethod = false := by simp [Block.isMethod, hfound, hother]
        cases hmain : procedures.main with
        | some main =>
          rw [if_pos (by simp [hmain])] at h
          obtain ⟨_, hrecord, rfl⟩ := yields_bind_pure.1 h
          exact .inr ⟨hmethod, rfl, by simp [hmain], hrecorded hrecord⟩
        | none =>
          rw [if_neg (by simp [hmain])] at h
          obtain ⟨rfl, rfl⟩ := yields_pure.1 h
          exact .inr ⟨hmethod, rfl,
            by simp [Block.isMain, hdisabled, hdefinition, hfound, hother], rfl, rfl⟩

/-! ## Whole renderers -/

namespace Setting

open Render (Passing Using)

variable {setting : Setting} {T : List Block → Draft → Draft → Prop}

/-- A trail that can be followed through the blocks of a class. What is to be shown of a block is said
with the runs of its inputs at hand, and procedures are rendered in a way of their own. -/
structure Follows (setting : Setting) (T : List Block → Draft → Draft → Prop) : Prop extends
    Trail T where
  definition {block : Block} {before after : Draft} : block.kind.isDefinition = true →
    Draft.Uses [] before after → T [block] before after
  course {depth : Nat} {block : Block} {blocksIn : Block → List Block} {α : Type} {x : Render α} :
    Course (setting.rendererWithin depth) (setting.rendererWithin depth) block block
      (block.stops setting.hardware) x x →
    (∀ before a after, Yields x before a after → block.kind.isDefinition = true ∨
      (setting.rendererWithin (depth + 1)).Renders block before after) →
    (∀ name fallback, Passing T ((setting.workspace.enabledIn block (.socket name)).flatMap blocksIn)
      ((setting.rendererWithin depth).operandOr block name fallback)) →
    (∀ name, Passing T ((setting.workspace.enabledIn block (.slot name)).flatMap blocksIn)
      ((setting.rendererWithin depth).slot block name)) →
    Passing T (block :: block.inputs.flatMap fun input =>
      (setting.workspace.enabledIn block input).flatMap blocksIn) x

namespace Follows

variable (hT : setting.Follows T) (hjava : setting.target = .java) (hshaped : setting.workspace.Shaped)

include hT hjava hshaped

/-- Rendering a block comes to the blocks inside it. -/
theorem rendererWithin (depth : Nat) (block : Block) (hblock : block ∈ setting.workspace.blocks) :
    (block.shape.isStatement = false →
      Passing T (setting.workspace.renderedWithin depth block)
        ((setting.rendererWithin depth).value block)) ∧
    Passing T (setting.workspace.renderedWithin depth block)
      ((setting.rendererWithin depth).statement block) := by
  induction depth generalizing block with
  | zero => exact ⟨fun _ => .throw _ _, .throw _ _⟩
  | succ depth ih =>
    have hsetting := setting.setting_rendererWithin depth
    have hbeside := @beside_of_setting_eq (setting.rendererWithin depth) _ rfl block
    have hstops : (setting.rendererWithin depth).setting.stops block =
        block.stops setting.hardware := by
      unfold stops
      rw [hsetting, hjava]
    have hsocket := @Trail.operandOr _ hT.toTrail (setting.rendererWithin depth) block _
      (fun child hchild hvalue => (ih child (by simpa using hchild)).1 hvalue)
    have hslot := @Trail.slot _ hT.toTrail (setting.rendererWithin depth) block _
      (fun child hchild => (ih child (by simpa using hchild)).2)
    rw [hsetting] at hsocket hslot
    refine ⟨fun hvalue => ?_, ?_⟩
    · have hcourse := hbeside.renderValue fun typed hkind => by
        rw [(hshaped block hblock).shape_eq (by rw [hkind]; rfl), hkind] at hvalue
        cases typed <;> cases hvalue
      rw [hstops] at hcourse
      exact hT.course hcourse (fun _ _ _ h => .inr (.inl ⟨_, h⟩)) hsocket hslot
    · have hcourse := hbeside.renderStatement
      rw [hstops] at hcourse
      exact hT.course hcourse (fun _ _ _ h => .inr (.inr ⟨_, h⟩)) hsocket hslot

theorem method (hroot : root.kind.isDefinition = true) :
    Passing T (setting.workspace.renderedWithin (setting.workspace.size + 1) root)
      (Compiled.method setting.renderer root) := by
  obtain ⟨returns, hkind⟩ := BlockKind.exists_procedureDef hroot
  have haligned : setting.renderer.Aligned True setting.renderer root
      ⟨root.values, root.statements, root.parent⟩ := ⟨rfl, rfl, fun _ _ _ => rfl⟩
  have hcourse := (Compiled.walk_method haligned hkind).course (beside_of_setting_eq rfl root)
  have hstops : root.stops setting.hardware = Stop.asks root.inputs := by
    unfold Block.stops Block.device?
    rw [hkind]
    rfl
  rw [← hstops] at hcourse
  have hinner := hT.rendererWithin hjava hshaped setting.workspace.size
  have hsocket := @Trail.operandOr _ hT.toTrail setting.renderer root _
    (fun child hchild hvalue => (hinner child (by simpa using hchild)).1 hvalue)
  have hslot := @Trail.slot _ hT.toTrail setting.renderer root _
    (fun child hchild => (hinner child (by simpa using hchild)).2)
  rw [setting.setting_renderer] at hsocket hslot
  exact hT.course hcourse (fun _ _ _ _ => .inl hroot) hsocket hslot

variable {procedures result : Compiled.Procedures} {before after : Draft}

theorem addRoot
    (h : Yields (Compiled.addRoot setting.renderer procedures root) before result after) :
    T ((([root].filter Block.isMethod)).flatMap
        (setting.workspace.renderedWithin (setting.workspace.size + 1))) before after ∧
      result.main = procedures.main.or ([root].find? Block.isMain) := by
  rcases Compiled.addRoot_cases h with
    ⟨hmethod, hdefinition, hmain, text, hyields, rfl⟩ | ⟨hmethod, -, hmain, hcontext, -⟩
  · have hpassed := hT.method hjava hshaped hdefinition _ _ _ hyields
    simpa [hmethod, hmain] using hpassed
  · have hquiet := hT.quiet (.of_context_eq hcontext)
    simpa [hmethod, hmain] using hquiet

theorem roots {roots : List Block}
    (h : Yields (roots.foldlM (Compiled.addRoot setting.renderer) procedures) before result after) :
    T ((roots.filter Block.isMethod).flatMap
        (setting.workspace.renderedWithin (setting.workspace.size + 1))) before after ∧
      result.main = procedures.main.or (roots.find? Block.isMain) := by
  induction roots generalizing procedures before with
  | nil =>
    obtain ⟨rfl, rfl⟩ := yields_pure.1 h
    exact ⟨hT.quiet (.of_context_eq rfl), by simp⟩
  | cons root rest ih =>
    rw [foldlM_cons] at h
    obtain ⟨first, middle, hfirst, hrest⟩ := yields_bind.1 h
    obtain ⟨hpassed, hmain⟩ := hT.addRoot hjava hshaped hfirst
    obtain ⟨hpassed', hmain'⟩ := ih hrest
    refine ⟨?_, ?_⟩
    · rw [← singleton_append, filter_append, flatMap_append]
      exact hT.trans hpassed hpassed'
    · rw [hmain', hmain, Option.or_assoc, ← find?_append, singleton_append]

/-- The main procedure comes to its statements. -/
theorem mainParts {main : Option Block} (hmain : ∀ block, main = some block → block.isMain = true) :
    Passing T (main.toList.flatMap fun main =>
        main :: (setting.workspace.enabledIn main (.slot "STACK")).flatMap
          (setting.workspace.renderedWithin setting.workspace.size))
      (Compiled.mainParts setting.renderer main) := by
  cases main with
  | none => exact hT.of_using (.quiet_bind (.record _) fun _ => .pure _)
  | some block =>
    have hdefinition : block.kind.isDefinition = true := by
      have hblock := hmain block rfl
      simp_all [Block.isMain]
    have hslot := @Trail.slot _ hT.toTrail setting.renderer block _ (fun child hchild =>
      (hT.rendererWithin hjava hshaped setting.workspace.size child (by simpa using hchild)).2) "STACK"
    rw [setting.setting_renderer] at hslot
    rw [toList_some, flatMap_singleton]
    refine hT.bind_pure (fun before text after h => ?_) _
    have hself : T [block] before before := hT.definition hdefinition (.of_context_eq rfl)
    exact hT.trans hself (hslot before text after h)

end Follows

/-- Rendering blocks uses the devices of these blocks, in their order. -/
theorem follows_uses (setting : Setting) :
    setting.Follows fun blocks => Draft.Uses (setting.hardware.usesOf blocks) where
  quiet h := h
  trans h h' := by
    rw [Hardware.usesOf_append]
    exact h.trans h'
  definition {block} {before} {after} hdefinition h := by
    have hdevice : block.device? setting.hardware = none := by
      unfold Block.device?
      cases hkind : block.kind <;> simp_all [BlockKind.isDefinition]
    rw [Hardware.usesOf_cons, hdevice]
    exact h
  course {depth} {block} {blocksIn} {α} {x} hcourse _ hsocket hslot := by
    let usesAt := Stop.elim (fun input =>
      setting.hardware.usesOf ((setting.workspace.enabledIn block input).flatMap blocksIn)) ([·])
    have huses := @Course.passing _ _ _ _ _ _ _ _ _ _ ⟨id, .trans⟩ hcourse usesAt hsocket hslot
      Render.using_declareDevice
    have hlist : (block.stops setting.hardware).flatMap usesAt =
        setting.hardware.usesOf (block :: block.inputs.flatMap fun input =>
          (setting.workspace.enabledIn block input).flatMap blocksIn) := by
      rw [Hardware.usesOf_cons, Hardware.usesOf_flatMap, Block.stops, flatMap_append, Stop.asks,
        flatMap_map, flatMap_map]
      congr 1
      exact flatMap_singleton' _
    rwa [hlist] at huses

end Setting

namespace Compiled

variable {setting : Setting} {before after : Draft}
variable {registration : Registration} {text : String}

/-! ## The stages of a class -/

theorem context_of_inferTypes {w : Workspace} {u : Unit}
    (h : Yields (Render.inferTypes w) before u after) : after.context = before.context := by
  replace h := yields_get_bind.1 h
  obtain ⟨_, typed, htyped, h⟩ := yields_bind.1 h
  obtain ⟨_, _, hanswer, h⟩ := yields_bind.1 h
  obtain ⟨-, rfl⟩ := yields_liftM.1 hanswer
  rw [← yields_modify.1 h, ← yields_modify.1 htyped]

/-- The parts of a class are rendered stage by stage. -/
structure Stages (setting : Setting) (registration : Registration) (before : Draft) (parts : Parts)
    (full : Draft) where
  typed : Draft
  procedures : Procedures
  rooted : Draft
  body : String × Option String
  bodied : Draft
  imported : Draft
  annotated : Draft
  context_typed : typed.context = before.context
  yields_roots : Yields (setting.workspace.roots.foldlM (addRoot setting.renderer) {}) typed procedures
    rooted
  yields_body : Yields (mainParts setting.renderer procedures.main) rooted body bodied
  yields_import : Yields (Render.importKnown "LinearOpMode") bodied () imported
  yields_annotations : Yields (annotations setting.options.className registration) imported
    parts.annotations annotated
  yields_variables : Yields (setting.workspace.variableNames.mapM variableField) annotated parts.fields
    full

theorem nonempty_stages {parts : Parts} {full : Draft}
    (h : setting.Completes registration before parts full) :
    Nonempty (Stages setting registration before parts full) := by
  obtain ⟨typed, htyped, hparts⟩ := h
  obtain ⟨_, started, hstarted, htyped⟩ := yields_bind.1 htyped
  have hcontext : typed.context = before.context := by
    rw [context_of_inferTypes htyped, ← yields_modify.1 hstarted]
  unfold renderParts at hparts
  rw [setting.setting_renderer] at hparts
  obtain ⟨procedures, rooted, hroots, hparts⟩ := yields_bind.1 hparts
  obtain ⟨body, bodied, hbody, hparts⟩ := yields_bind.1 hparts
  obtain ⟨_, imported, himport, hparts⟩ := yields_bind.1 hparts
  obtain ⟨annotations, annotated, hannotations, hparts⟩ := yields_bind.1 hparts
  obtain ⟨variableFields, hvariables, rfl⟩ := yields_bind_pure.1 hparts
  exact ⟨⟨typed, procedures, rooted, body, bodied, imported, annotated, hcontext, hroots, hbody, himport,
    hannotations, hvariables⟩⟩

theorem using_annotations (className : String) (registration : Registration) :
    Render.Using [] (annotations className registration) := by
  refine .quiet_bind (Render.Using.quiet.importKnown _) fun _ => ?_
  dsimp only
  split
  · exact .pure _
  · exact .quiet_bind (Render.Using.quiet.importKnown _) fun _ => .pure _

theorem using_variableField (name : String) : Render.Using [] (variableField name) := by
  refine .quiet_bind (Render.Using.quiet.identifierFor _ name) fun _ => ?_
  exact .quiet_bind .get fun _ => .quiet_bind (Render.Using.quiet.importIfKnown _) fun _ => .pure _

variable {parts : Parts} {full : Draft}

theorem Stages.uses_bodied (stages : Stages setting registration before parts full) :
    Draft.Uses [] stages.bodied full :=
  ((Render.Using.quiet.importKnown _ _ _ _ stages.yields_import).trans
    (using_annotations _ _ _ _ _ stages.yields_annotations)).trans
    (Render.Using.quiet.mapM _ (fun name _ => using_variableField name) _ _ _ stages.yields_variables)

/-- A class comes to its blocks, in their order. -/
theorem Stages.follow {T : List Block → Draft → Draft → Prop} (hT : setting.Follows T)
    (hjava : setting.target = .java) (hshaped : setting.workspace.Shaped)
    (stages : Stages setting registration before parts full) :
    T setting.workspace.classBlocks before full := by
  obtain ⟨hroots, hmain⟩ := hT.roots hjava hshaped stages.yields_roots
  have hmains : ∀ block, stages.procedures.main = some block → block.isMain = true := by
    intro block hblock
    rw [hmain, none_or] at hblock
    exact find?_some hblock
  have hbody := hT.mainParts hjava hshaped hmains _ _ _ stages.yields_body
  rw [hmain, none_or] at hbody
  have htyped := hT.quiet (.of_context_eq stages.context_typed)
  have hall := hT.trans htyped (hT.trans (hT.trans hroots hbody) (hT.quiet stages.uses_bodied))
  rwa [nil_append, append_nil] at hall

theorem Stages.uses (hjava : setting.target = .java) (hshaped : setting.workspace.Shaped)
    (stages : Stages setting registration before parts full) :
    Draft.Uses (setting.hardware.usesOf setting.workspace.classBlocks) before full :=
  stages.follow setting.follows_uses hjava hshaped

/-! ## The fields of variables -/

/-- The field of a variable by tables of types and of names. -/
def fieldOf (types : TypeTable) (table : NameTable) (name : String) : String :=
  "private " ++ types.variableType name ++ " " ++ table.variable name ++ ";"

theorem field_of_variableField {name field : String}
    (h : Yields (variableField name) before field after) :
    after.types = before.types ∧ ∃ identifier,
      after.context.names.assigned? .variableNames name = some identifier ∧
      field = "private " ++ before.types.variableType name ++ " " ++ identifier ++ ";" := by
  obtain ⟨identifier, named, hnamed, h⟩ := yields_bind.1 h
  replace h := yields_get_bind.1 h
  obtain ⟨_, himport, rfl⟩ := yields_bind_pure.1 h
  have htypes : named.types = before.types :=
    (Draft.steady_types.closed.identifierFor _ name).of_yields hnamed
  have hextends : after.context.names.Extends named.context.names :=
    (Render.Using.quiet.importIfKnown _ _ _ _ himport).continues.extends
  refine ⟨((Draft.steady_types.closed.importIfKnown _).of_yields himport).trans htypes, identifier,
    hextends _ _ _ (Render.context_of_identifierFor hnamed).2, ?_⟩
  rw [htypes]

/-- The fields of variables have the types and identifiers of the end of the run. -/
theorem variableFields_eq {names fields : List String}
    (h : Yields (names.mapM variableField) before fields after) :
    after.types = before.types ∧
      (∀ name ∈ names, after.context.names.assigned? .variableNames name =
        some (after.context.names.variable name)) ∧
      ∀ table : NameTable, table.Extends after.context.names →
        fields = names.map (fieldOf after.types table) := by
  induction names generalizing before fields with
  | nil =>
    obtain ⟨rfl, rfl⟩ := yields_pure.1 h
    exact ⟨rfl, by simp, fun _ _ => rfl⟩
  | cons name rest ih =>
    obtain ⟨field, first, more, hfirst, hrest, rfl⟩ := yields_mapM_cons.1 h
    have hextends : after.context.names.Extends first.context.names :=
      (Render.Using.quiet.mapM _ (fun name _ => using_variableField name) _ _ _ hrest).continues.extends
    obtain ⟨htypes, hassigned, hfields⟩ := ih hrest
    obtain ⟨htypes', identifier, hidentifier, hfield⟩ := field_of_variableField hfirst
    have hkept := hextends _ _ _ hidentifier
    refine ⟨htypes.trans htypes', ?_, fun table htable => ?_⟩
    · intro other hother
      rcases mem_cons.1 hother with rfl | hother
      · rw [NameTable.variable, hkept, getD_some]
      · exact hassigned other hother
    · rw [map_cons, ← hfields table htable, hfield, fieldOf, NameTable.variable,
        htable _ _ _ hkept, getD_some, htypes, htypes']

end Compiled

end RobotBlocks
