import RobotBlocks.Proofs.Render.Live
import RobotBlocks.Proofs.Render.Course

/-!
# Links that no shape declares

A block may be linked to others under names that its shape does not know. Such links make no
difference: two blocks that have the same head, and the same links in the inputs that their shape
declares, are rendered by the same steps (`Setting.inputs_eq_of_sameDeclared`), and so are the blocks
inside them.

What can be reached from the declared inputs is described by a predicate on identities, the part of
the workspaces that the rendering may look at. Both workspaces pass their check, so both renderers fulfil
their equations without a bound, and the induction is on the levels of one of them.

What rendering reads besides the blocks is the same in both settings: the target, the devices and, in
classes, the parameters of procedures, which are collected from all blocks before.
-/

set_option autoImplicit false

namespace RobotBlocks

/-- The block that is linked in an input. -/
def Block.linked? (block : Block) : Input → Option String
  | .socket name => block.values.get? name
  | .slot name => block.statements.get? name

/-- Two blocks are the same up to links that their shape does not declare. -/
def Block.SameDeclared (block block' : Block) : Prop :=
  ∃ links, block' = block.relinked links ∧
    ∀ input, block.shape.Takes input → block'.linked? input = block.linked? input

theorem Block.SameDeclared.refl (block : Block) : block.SameDeclared block :=
  ⟨⟨block.values, block.statements, block.parent⟩, rfl, fun _ _ => rfl⟩

/-- What stands in the declared inputs of a block belongs to a part of the workspace. -/
def Block.InputsIn (part : String → Prop) (block : Block) : Prop :=
  ∀ input id, block.shape.Takes input → block.linked? input = some id → part id

/-- Two workspaces have the same blocks in a part of them, up to links that shapes do not declare. The
part contains what its blocks are linked to in declared inputs, and what comes after them. -/
structure Workspace.SameDeclared (part : String → Prop) (w w' : Workspace) : Prop where
  blocks (id : String) : part id → ∃ block ∈ w.blocks, ∃ block' ∈ w'.blocks,
    block.id = id ∧ block.Decoded ∧ block.SameDeclared block'
  inputs (block : Block) : block ∈ w.blocks → part block.id → block.InputsIn part
  next (block : Block) : block ∈ w.blocks → part block.id → ∀ id, block.next = some id → part id

/-- Two settings have the same blocks in a part of their workspaces, and agree about all else that
rendering depends on. -/
structure Setting.SameDeclared (part : String → Prop) (setting setting' : Setting) : Prop where
  blocks : setting.workspace.SameDeclared part setting'.workspace
  valid : setting.workspace.validate = .ok ()
  valid' : setting'.workspace.validate = .ok ()
  hardware_eq : setting.hardware = setting'.hardware
  target_eq : setting.target = setting'.target
  parameters_eq : setting.target = .java →
    ∀ name, setting.workspace.parameters? name = setting'.workspace.parameters? name

/-- A block of the one workspace and the same block of the other. -/
structure Workspace.Counterparts (part : String → Prop) (w w' : Workspace) (block block' : Block) :
    Prop where
  part : part block.id
  mem : block ∈ w.blocks
  mem' : block' ∈ w'.blocks
  decoded : block.Decoded
  same : block.SameDeclared block'

namespace Workspace

variable {part : String → Prop} {w w' : Workspace} {block block' : Block}

theorem Counterparts.id_eq (h : Counterparts part w w' block block') : block'.id = block.id := by
  obtain ⟨links, rfl, -⟩ := h.same
  rfl

theorem Counterparts.shape_eq (h : Counterparts part w w' block block') :
    block'.shape = block.shape := by
  obtain ⟨links, rfl, -⟩ := h.same
  rfl

theorem SameDeclared.paired (h : SameDeclared part w w') {id : String} (hid : part id) :
    w.Paired w' (Counterparts part w w') id := by
  obtain ⟨block, hblock, block', hblock', rfl, hdecoded, hsame⟩ := h.blocks id hid
  have hpair : Counterparts part w w' block block' := ⟨hid, hblock, hblock', hdecoded, hsame⟩
  refine ⟨block, block', get?_of_mem hblock, ?_, hpair⟩
  rw [← hpair.id_eq]
  exact get?_of_mem hblock'

end Workspace

/-! ## What is below a bound -/

/-- What stands in the declared inputs of a block belongs to a part of a workspace, at levels below a
bound. -/
def Block.InputsBelow (part : String → Prop) (level : String → Nat) (bound : Nat) (block : Block) :
    Prop :=
  ∀ input id, block.shape.Takes input → block.linked? input = some id → part id ∧ level id < bound

variable {block : Block}

theorem Block.mem_below_of_linked {input : Input} {id : String}
    (h : block.linked? input = some id) : id ∈ block.below := by
  cases input with
  | socket name => exact mem_below_of_value h
  | slot name => exact mem_below_of_statement h

variable {part : String → Prop} {w w' : Workspace}
variable {level : String → Nat}

theorem Workspace.SameDeclared.inputsBelow (h : w.SameDeclared part w') (hlevel : w.Leveled level)
    (hblock : block ∈ w.blocks) (hpart : part block.id) :
    block.InputsBelow part level (level block.id) := by
  intro input id htakes hlinked
  obtain ⟨_, _, _, hlt⟩ := hlevel.below block hblock id (Block.mem_below_of_linked hlinked)
  exact ⟨h.inputs block hblock hpart input id htakes hlinked, hlt⟩

variable {bound : Nat} {block' : Block}

/-- What two blocks that are the same up to undeclared links have in an input. -/
theorem Workspace.SameDeclared.linked_cases {input : Input} (h : w.SameDeclared part w')
    (hblock : block.SameDeclared block') (hbelow : block.InputsBelow part level bound)
    (htakes : block.shape.Takes input) :
    (block.linked? input = none ∧ block'.linked? input = none) ∨
      ∃ child child', block.linked? input = some child.id ∧ block'.linked? input = some child.id ∧
        w.get? child.id = some child ∧ w'.get? child.id = some child' ∧
        Counterparts part w w' child child' ∧ level child.id < bound := by
  obtain ⟨links, rfl, hlinks⟩ := hblock
  have hlinked' := hlinks _ htakes
  cases hlinked : block.linked? input with
  | none => exact .inl ⟨rfl, hlinked'.trans hlinked⟩
  | some id =>
    obtain ⟨hpart, hlt⟩ := hbelow _ id htakes hlinked
    obtain ⟨child, child', hget, hget', hpair⟩ := h.paired hpart
    obtain rfl := id_of_get? hget
    exact .inr ⟨child, child', rfl, hlinked'.trans hlinked, hget, hget', hpair, hlt⟩

/-! ## Static types -/

variable {name : String}

namespace StaticType

open Workspace

theorem stated_relinked (block : Block) (links : Block.Links) :
    stated (block.relinked links) = stated block := rfl

variable {typeOf typeOf' : Block → Answer}

/-- The type of a block depends on the types in the sockets that it declares. -/
theorem step_relinked {table : TypeTable} {links : Block.Links}
    (h : ∀ name, .socket name ∈ block.inputs →
      inSocket w typeOf block name = inSocket w' typeOf' (block.relinked links) name) :
    step w table typeOf block = step w' table typeOf' (block.relinked links) := by
  have hfield : ∀ name, (block.relinked links).field? name = block.field? name := fun _ => rfl
  unfold Block.inputs at h
  unfold step numericInSocket
  rw [Block.literal_relinked, stated_relinked]
  cases hkind : block.kind with
  | mathArithmetic =>
    simp only [hkind, Input.sockets] at h
    simp only [hfield, h "A" (by simp), h "B" (by simp)]
  | mathSingle =>
    simp only [hkind, Input.sockets] at h
    simp only [hfield, h "NUM" (by simp)]
  | logicTernary =>
    simp only [hkind, Input.sockets] at h
    simp only [h "THEN" (by simp), h "ELSE" (by simp)]
  | procedureCall returns => cases returns <;> rfl
  | _ => rfl

section

variable {part : String → Prop} {w w' : Workspace} (hsame : w.SameDeclared part w')
variable {level level' : String → Nat}
variable {block block' : Block}

include hsame

theorem inSocket_eq_of_sameDeclared (hblock : block.SameDeclared block')
    (hbelow : block.InputsBelow part level bound)
    (h : ∀ child child', Counterparts part w w' child child' → level child.id < bound →
      typeOf child = typeOf' child') (htakes : block.shape.Takes (.socket name)) :
    inSocket w typeOf block name = inSocket w' typeOf' block' name := by
  rcases hsame.linked_cases hblock hbelow htakes with ⟨hsocket, hsocket'⟩ |
    ⟨child, child', hsocket, hsocket', hget, hget', hpair, hlt⟩
  · rw [inSocket_of_get?_eq_none hsocket, inSocket_of_get?_eq_none hsocket']
  · rw [inSocket_of_get?_eq_some hsocket hget, inSocket_of_get?_eq_some hsocket' hget',
      h child child' hpair hlt]
    obtain ⟨_, rfl, -⟩ := hpair.same
    rfl

theorem ofBlock_eq_of_counterparts (hlevel : w.Leveled level) (hlevel' : w'.Leveled level')
    (table : TypeTable) (hblock : Counterparts part w w' block block') :
    ofBlock w table block = ofBlock w' table block' := by
  induction hheight : level block.id using Nat.strongRecOn generalizing block block' with
  | ind height ih =>
    subst hheight
    have hsockets : ∀ name, .socket name ∈ block.inputs →
        inSocket w (ofBlock w table) block name = inSocket w' (ofBlock w' table) block' name := by
      intro name hname
      refine inSocket_eq_of_sameDeclared hsame hblock.same
        (hsame.inputsBelow hlevel hblock.mem hblock.part) (fun child child' hchild hlt => ?_)
        ((Block.mem_inputs_iff hblock.decoded _).1 hname)
      exact ih _ hlt hchild rfl
    rw [ofBlock_eq_step hlevel table hblock.mem, ofBlock_eq_step hlevel' table hblock.mem']
    obtain ⟨links, rfl, -⟩ := hblock.same
    exact step_relinked hsockets

end

end StaticType

/-! ## Chains -/

/-- A chain goes through the same blocks in both workspaces. -/
theorem Workspace.SameDeclared.chain (hsame : w.SameDeclared part w')
    (hvalid : w.validate = .ok ()) (hvalid' : w'.validate = .ok ())
    (hblock : Counterparts part w w' block block') :
    List.Forall₂ (Counterparts part w w') (w.chain block.id).1 (w'.chain block.id).1 := by
  have hchain' := hblock.id_eq ▸ nextChain_chain hvalid' hblock.mem'
  refine (nextChain_chain hvalid hblock.mem).forall₂ (fun a b hab => ⟨?_, fun id hid => ?_⟩) hchain' ?_
  · obtain ⟨links, rfl, -⟩ := hab.same
    rfl
  · exact hsame.paired (hsame.next a hab.mem hab.part id hid)
  · rintro id ⟨⟩
    exact hsame.paired hblock.part

/-! ## Rendering -/

namespace Renderer

open Workspace (Counterparts)

theorem slot_of_get?_eq_none {r : Renderer} (h : block.statements.get? name = none) :
    r.slot block name = pure "" := by
  unfold slot
  rw [h]

theorem slot_of_get?_eq_some {r : Renderer} {start : String}
    (h : block.statements.get? name = some start) :
    r.slot block name = r.chain start >>= fun text => pure (Text.indent text) := by
  unfold slot
  rw [h]

section

variable {part : String → Prop} {r r' : Renderer}
variable (hsame : r.setting.SameDeclared part r'.setting)
variable {level level' : String → Nat} (hlevel : r.setting.workspace.Leveled level)
variable (hlevel' : r'.setting.workspace.Leveled level')

include hsame hlevel hlevel'

theorem coerce_eq_of_counterparts (hjava : r.setting.target = .java) (links : Block.Links)
    (socket : String) {child child' : Block}
    (hchild : Counterparts part r.setting.workspace r'.setting.workspace child child')
    (expr : Expr) :
    r.coerce block socket child expr = r'.coerce (block.relinked links) socket child' expr := by
  have hexpects : ∀ types, StaticType.ofSocket r.setting.workspace types block socket =
      StaticType.ofSocket r'.setting.workspace types (block.relinked links) socket :=
    fun types => StaticType.ofSocket_congr (hsame.parameters_eq hjava) types block socket
  have htype := fun types =>
    StaticType.ofBlock_eq_of_counterparts hsame.blocks hlevel hlevel' types hchild
  obtain ⟨inner, rfl, -⟩ := hchild.same
  unfold coerce
  simp only [hexpects, htype, Block.literal_relinked]

variable {bound : Nat} {block block' : Block} (hblock : block.SameDeclared block')
variable (hbelow : block.InputsBelow part level bound)
variable {name : String}

include hblock hbelow

/-- Undeclared links do not change what a declared socket is rendered to. -/
theorem operandOr_eq_of_sameDeclared
    (h : ∀ child child', Counterparts part r.setting.workspace r'.setting.workspace child child' →
      child.shape.isStatement = false → level child.id < bound → r.value child = r'.value child')
    (htakes : block.shape.Takes (.socket name))
    (fallback : Expr) : r.operandOr block name fallback = r'.operandOr block' name fallback := by
  rcases hsame.blocks.linked_cases hblock hbelow htakes with ⟨hsocket, hsocket'⟩ |
    ⟨child, child', hsocket, hsocket', hget, hget', hpair, hlt⟩
  · rw [operandOr_of_get?_eq_none hsocket, operandOr_of_get?_eq_none hsocket']
  · obtain ⟨links, rfl, -⟩ := hblock
    rw [operandOr_of_get?_eq_some hsocket hget, operandOr_of_get?_eq_some hsocket' hget']
    have hplugged : r.plugged block name child = r'.plugged (block.relinked links) name child' := by
      unfold plugged
      rw [hpair.shape_eq, ← hsame.target_eq]
      cases hoffers : child.shape.outputCheck? with
      | none =>
        obtain ⟨inner, rfl, -⟩ := hpair.same
        rfl
      | some found =>
        have hvalue := Shape.isStatement_eq_false_of_outputCheck? hoffers
        rw [h child child' hpair hvalue hlt]
        cases htarget : r.setting.target with
        | javaScript => rfl
        | java =>
          simp only [coerce_eq_of_counterparts hsame hlevel hlevel' htarget links name hpair]
          rfl
    rw [hplugged]
    obtain ⟨inner, rfl, -⟩ := hpair.same
    rfl

theorem slot_eq_of_sameDeclared
    (h : ∀ child child', Counterparts part r.setting.workspace r'.setting.workspace child child' →
      level child.id < bound → r.statement child = r'.statement child')
    (htakes : block.shape.Takes (.slot name)) : r.slot block name = r'.slot block' name := by
  rcases hsame.blocks.linked_cases hblock hbelow htakes with ⟨hslot, hslot'⟩ |
    ⟨first, first', hslot, hslot', -, -, hpair, hlt⟩
  · rw [slot_of_get?_eq_none hslot, slot_of_get?_eq_none hslot']
  · obtain ⟨hends, hchain⟩ := hlevel.chain_spec hpair.mem
    obtain ⟨hends', -⟩ := hlevel'.chain_spec hpair.mem'
    rw [hpair.id_eq] at hends'
    have hmembers := (List.forall₂_and_left _ _).2
      ⟨hchain, hsame.blocks.chain hsame.valid hsame.valid' hpair⟩
    have hlinked : (r.setting.workspace.chain first.id).1.mapM r.link =
        (r'.setting.workspace.chain first.id).1.mapM r'.link := by
      refine mapM_eq_of_forall₂ (hmembers.imp fun child child' hmember => ?_)
      obtain ⟨⟨-, hle⟩, hchild⟩ := hmember
      unfold link
      rw [h child child' hchild (by omega)]
      obtain ⟨inner, rfl, -⟩ := hchild.same
      rfl
    rw [slot_of_get?_eq_some hslot, slot_of_get?_eq_some hslot', chain_eq_of_ends hends,
      chain_eq_of_ends hends', hlinked]

theorem isIntegral_eq_of_sameDeclared (htakes : block.shape.Takes (.socket name)) :
    r.isIntegral block name = r'.isIntegral block' name := by
  have htype : ∀ types, StaticType.ofChild r.setting.workspace types block name =
      StaticType.ofChild r'.setting.workspace types block' name :=
    fun types => StaticType.inSocket_eq_of_sameDeclared hsame.blocks hblock hbelow
      (fun child child' hchild _ =>
        StaticType.ofBlock_eq_of_counterparts hsame.blocks hlevel hlevel' types hchild) htakes
  unfold isIntegral
  simp only [htype]

omit hlevel hlevel' in
theorem firstIsText_eq_of_sameDeclared (htakes : block.shape.Takes (.socket "ADD0")) :
    r.firstIsText block = r'.firstIsText block' := by
  rcases hsame.blocks.linked_cases hblock hbelow htakes with ⟨hsocket, hsocket'⟩ |
    ⟨child, child', hsocket, hsocket', hget, hget', hpair, -⟩
  all_goals
    simp only [Block.linked?] at hsocket hsocket'
    unfold firstIsText
    rw [hsocket, hsocket']
  · rfl
  · rw [Option.bind_some, Option.bind_some, hget, hget']
    obtain ⟨inner, rfl, -⟩ := hpair.same
    rfl

/-- What two renderers have to know about two blocks that are the same up to undeclared links. -/
theorem beside_of_sameDeclared (hdecoded : block.Decoded) : r.Beside r' block block' := by
  have htakes : ∀ input, input ∈ block.inputs → block.shape.Takes input :=
    fun input => (Block.mem_inputs_iff hdecoded input).1
  refine ⟨hsame.target_eq, hsame.hardware_eq, ?_, fun hkind => ?_, fun hkind hcount => ?_⟩
  · obtain ⟨links, hhead, -⟩ := hblock
    exact ⟨links, hhead⟩
  · have hintegral : ∀ name ∈ ["A", "B"], r.isIntegral block name = r'.isIntegral block' name := by
      intro name hname
      refine isIntegral_eq_of_sameDeclared hsame hlevel hlevel' hblock hbelow (htakes _ ?_)
      unfold Block.inputs
      rw [hkind]
      exact List.mem_map_of_mem hname
    unfold dropsFraction
    rw [← hsame.target_eq, hintegral "A" (by simp), hintegral "B" (by simp)]
  · refine firstIsText_eq_of_sameDeclared hsame hblock hbelow (htakes _ ?_)
    unfold Block.inputs
    rw [hkind]
    exact List.mem_map.2 ⟨0, List.mem_range.2 (Nat.pos_of_ne_zero hcount), rfl⟩

end

end Renderer

/-- Two renderers get the same answers from the declared inputs of two blocks. -/
structure Renderer.SameInputs (r r' : Renderer) (block block' : Block) : Prop where
  beside : r.Beside r' block block'
  socket (name : String) : block.shape.Takes (.socket name) → ∀ fallback,
    r.operandOr block name fallback = r'.operandOr block' name fallback
  slot (name : String) : block.shape.Takes (.slot name) → r.slot block name = r'.slot block' name

/-! ## Whole renderers -/

/-- A course comes to the inputs of its block. -/
theorem Setting.ask_mem_stops_iff (setting : Setting) (block : Block) (input : Input) :
    .ask input ∈ setting.stops block ↔ input ∈ block.inputs := by
  unfold stops
  cases setting.target with
  | javaScript => simp [Stop.asks]
  | java => simp [Block.stops, Stop.asks]

/-- The only statement with an input that looks like a value stands as a statement. -/
theorem Block.Decoded.ne_sleep (h : block.Decoded) (hvalue : block.shape.isStatement = false)
    (typed : Bool) : block.kind ≠ .opMode (.sleep typed) := by
  intro hkind
  rw [h.shaped.shape_eq (by rw [hkind]; rfl), hkind] at hvalue
  cases typed <;> cases hvalue

namespace Setting

open Workspace (Counterparts exists_leveled_of_validate)

variable {part : String → Prop} {setting setting' : Setting}

section

variable (hsame : setting.SameDeclared part setting') {level level' : String → Nat}
variable (hlevel : setting.workspace.Leveled level) (hlevel' : setting'.workspace.Leveled level')
variable {block block' : Block}

include hsame hlevel hlevel'

/-- Two blocks get the same answers from their inputs if the same steps render what is below a
bound. -/
theorem inputs_eq_of_below (hdecoded : block.Decoded) (hblock : block.SameDeclared block')
    (hbelow : block.InputsBelow part level bound)
    (h : ∀ child child', Counterparts part setting.workspace setting'.workspace child child' →
      level child.id < bound →
      (child.shape.isStatement = false →
        setting.renderer.value child = setting'.renderer.value child') ∧
      setting.renderer.statement child = setting'.renderer.statement child') :
    setting.renderer.SameInputs setting'.renderer block block' := by
  have hrun : setting.renderer.setting.SameDeclared part setting'.renderer.setting := by
    simpa using hsame
  rw [← setting.setting_renderer] at hlevel
  rw [← setting'.setting_renderer] at hlevel'
  refine ⟨Renderer.beside_of_sameDeclared hrun hlevel hlevel' hblock hbelow hdecoded,
    fun name htakes fallback => ?_, fun name htakes => ?_⟩
  · refine Renderer.operandOr_eq_of_sameDeclared hrun hlevel hlevel' hblock hbelow
      (fun child child' hchild hvalue hlt => ?_) htakes fallback
    exact (h child child' (by simpa using hchild) hlt).1 hvalue
  · refine Renderer.slot_eq_of_sameDeclared hrun hlevel hlevel' hblock hbelow
      (fun child child' hchild hlt => ?_) htakes
    exact (h child child' (by simpa using hchild) hlt).2

/-- The same steps render a block in both settings. -/
theorem renderer_eq_of_counterparts
    (hblock : Counterparts part setting.workspace setting'.workspace block block') :
    (block.shape.isStatement = false →
      setting.renderer.value block = setting'.renderer.value block') ∧
    setting.renderer.statement block = setting'.renderer.statement block' := by
  induction hheight : level block.id using Nat.strongRecOn generalizing block block' with
  | ind height ih =>
    subst hheight
    obtain ⟨hbeside, hsocket, hslot⟩ := inputs_eq_of_below hsame hlevel hlevel' hblock.decoded
      hblock.same (hsame.blocks.inputsBelow hlevel hblock.mem hblock.part)
      fun child child' hchild hlt => ih _ hlt hchild rfl
    have htakes : ∀ input, .ask input ∈ setting.renderer.setting.stops block →
        block.shape.Takes input := by
      intro input hinput
      exact (Block.mem_inputs_iff hblock.decoded input).1 ((ask_mem_stops_iff _ block input).1 hinput)
    obtain ⟨hvalueEq, hstatementEq⟩ := renderer_eq hlevel hblock.mem
    obtain ⟨hvalueEq', hstatementEq'⟩ := renderer_eq hlevel' hblock.mem'
    rw [hvalueEq, hvalueEq', hstatementEq, hstatementEq']
    exact ⟨fun hvalue => (hbeside.renderValue (hblock.decoded.ne_sleep hvalue)).eq_of_asked
        (fun name hname => hsocket name (htakes _ hname)) (fun name hname => hslot name (htakes _ hname)),
      hbeside.renderStatement.eq_of_asked (fun name hname => hsocket name (htakes _ hname))
        (fun name hname => hslot name (htakes _ hname))⟩

end

/-- Two blocks that are the same up to undeclared links get the same answers from all their
inputs. -/
theorem inputs_eq_of_sameDeclared (hsame : setting.SameDeclared part setting')
    (hdecoded : block.Decoded) (hblock : block.SameDeclared block')
    (hinputs : block.InputsIn part) :
    setting.renderer.SameInputs setting'.renderer block block' := by
  obtain ⟨level, hlevel⟩ := exists_leveled_of_validate hsame.valid
  obtain ⟨level', hlevel'⟩ := exists_leveled_of_validate hsame.valid'
  have hbelow : block.InputsBelow part level setting.workspace.size := by
    intro input id htakes hlinked
    have hpart := hinputs input id htakes hlinked
    obtain ⟨child, hchild, _, _, rfl, _⟩ := hsame.blocks.blocks id hpart
    exact ⟨hpart, hlevel.lt_size child hchild⟩
  exact inputs_eq_of_below hsame hlevel hlevel' hdecoded hblock hbelow fun child child' hchild _ =>
    renderer_eq_of_counterparts hsame hlevel hlevel' hchild

end Setting

end RobotBlocks
