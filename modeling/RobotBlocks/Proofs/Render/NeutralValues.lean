import RobotBlocks.Proofs.Render.Congruence
import RobotBlocks.Proofs.Render.Requests
import RobotBlocks.Proofs.Render.RoundTrip

/-!
# Values that both targets render alike

The blocks of logic, the variables and most of arithmetic are neutral: nothing that depends on the
target goes into their expressions (`Block.isNeutral`). None of their sockets takes a special type,
so no operand is converted in a class, and their placeholders are the same. The only part of a draft
that matters for them is the table of identifiers, and on a robot without devices both targets start
with the same ones.

Two renderers, one for each target, that do alike for what stands in the sockets of a neutral block
do alike for the block (`Renderer.sameByName_renderValue`), and by induction on the depth they do
alike for every block with only neutral blocks in it (`Setting.sameByName_rendererWithin`). That
such a block is rendered at all if its fields are in order comes from the trees of values
(`exists_holds`).
-/

set_option autoImplicit false

namespace RobotBlocks

open List Block
open StaticType (ofSocket)

variable {block : Block}

open RobotBlocks.Xml (Element)

/-! ## Neutral blocks -/

/-- Both targets write a number alike: it is finite, and it has a fraction or is in the range of
`int`. -/
def Numeral.isNeutral (value : Binary64) : Bool :=
  value.isFinite && (!value.isWhole || value.absAtMost maxInt)

/-- What a block does with its operands does not depend on the target. A quotient and a decimal
logarithm do. -/
def Block.isNeutral (block : Block) : Bool :=
  match block.kind with
  | .variablesGet | .logicBoolean | .logicNull | .logicCompare | .logicOperation | .logicNegate
  | .logicTernary => true
  | .mathArithmetic => block.field? "OP" ≠ some "DIVIDE"
  | .mathSingle => block.field? "OP" ≠ some "LOG10"
  | .mathNumber => block.literal.toOption.all Numeral.isNeutral
  | _ => false

/-- The fields that say what a block does are there, with choices that exist. -/
def Block.isStated (block : Block) : Bool := (ValueHead.of? block).isSome

/-- A property of a block and of all blocks in its sockets, and in theirs. Disabled blocks do not
count, nor do blocks in sockets that the block does not have. -/
inductive Workspace.Throughout (w : Workspace) (p : Block → Bool) : Block → Prop
  | node {block : Block} : p block = true →
      (∀ socket ∈ block.shape.sockets, ∀ id child, block.values.get? socket.name = some id →
        w.get? id = some child → child.disabled = false → w.Throughout p child) →
      w.Throughout p block

/-- The same, looked up as deep as stated. -/
def Workspace.isThroughout (w : Workspace) (p : Block → Bool) : (depth : Nat) → Block → Bool
  | 0, _ => false
  | depth + 1, block =>
    p block && block.shape.sockets.all fun socket =>
      ((block.values.get? socket.name).bind w.get?).all fun child =>
        child.disabled || w.isThroughout p depth child

theorem Workspace.Throughout.of_isThroughout {w : Workspace} {p : Block → Bool} {depth : Nat}
    (h : w.isThroughout p depth block = true) : w.Throughout p block := by
  induction depth generalizing block with
  | zero => cases h
  | succ depth ih =>
    obtain ⟨hblock, hsockets⟩ := Bool.and_eq_true_iff.1 h
    refine .node hblock fun socket hsocket id child hid hchild henabled => ih ?_
    have hbelow := all_eq_true.1 hsockets socket hsocket
    simpa [hid, hchild, henabled] using hbelow

theorem Numeral.literal_eq_of_isNeutral {value : Binary64} (h : isNeutral value = true) :
    literal .javaScript value = literal .java value := by
  have hclass : classText value = scriptText value := by
    unfold classText fitsInt
    unfold isNeutral at h
    cases hwhole : value.isWhole
    · simp
    · rw [hwhole] at h
      simp [show value.absAtMost maxInt = true by simpa using (Bool.and_eq_true_iff.1 h).2]
  cases value with
  | nan | infinite negative => cases h
  | finite negative mantissa exponent => exact hclass.symm

namespace Block

variable {block : Block}

theorem takesMutation_of_isNeutral (h : block.isNeutral = true) :
    block.kind.takesMutation = false := by
  unfold isNeutral at h
  split at h <;> simp_all [BlockKind.takesMutation]

/-- The sockets of a neutral block take numbers, truth values or anything, and no special type. -/
theorem socket_of_isNeutral (h : block.isNeutral = true) {socket : Socket}
    (hsocket : socket ∈ (Shape.ofKind block.kind).sockets) :
    socket.declared = none ∧ socket.check ∈ [Check.number, Check.boolean, .any] := by
  have hall : (Shape.ofKind block.kind).sockets.all (fun socket =>
      socket.declared = none &&
        [Check.number, Check.boolean, .any].contains socket.check) := by
    unfold isNeutral at h
    split at h
    case h_11 => cases h
    all_goals
      rename_i hkind
      rw [hkind]
      decide
  simpa using all_eq_true.1 hall socket hsocket

end Block

/-! ## Identifiers -/

/-- Two drafts have the same identifiers. -/
def Draft.SameNames (draft draft' : Draft) : Prop := draft.context.names = draft'.context.names

/-- Two steps answer alike from drafts with the same identifiers. -/
abbrev SameByName {α : Type} (x y : Render α) : Prop := Alike Draft.SameNames (Agree True) x y

theorem Render.sameByName_record (event : Event) : SameByName (record event) (record event) :=
  .modify fun _ _ h => h

theorem Render.sameByName_variableIdentifier (name : String) :
    SameByName (variableIdentifier name) (variableIdentifier name) := by
  intro draft draft' h
  have hasked : ∀ draft : Draft, Yields (variableIdentifier name) draft
      (draft.context.names.identifierFor .variableNames name).1
      { draft with context := { draft.context with
          names := (draft.context.names.identifierFor .variableNames name).2 } } :=
    fun draft => yields_modifyGet.2 rfl
  refine .inl ⟨_, _, _, _, hasked draft, hasked draft', ?_, fun _ => ?_⟩
  · exact congrArg (fun names => (NameTable.identifierFor names .variableNames name).2) h
  · exact congrArg (fun names => (NameTable.identifierFor names .variableNames name).1) h

/-! ## One block -/

/-- A setting for scripts and one for classes, with the same blocks. -/
structure Setting.Twins (script compiled : Setting) : Prop where
  script_target : script.target = .javaScript
  compiled_target : compiled.target = .java
  workspace_eq : script.workspace = compiled.workspace

namespace Renderer

variable {script compiled : Renderer} {block : Block}
variable {name : String} {socket : Socket}

theorem placeholder_eq_of_check (r r' : Renderer)
    (hsocket : block.shape.socket? name = some socket)
    (hcheck : socket.check ∈ [Check.number, Check.boolean, .any]) :
    r.placeholder block name = r'.placeholder block name := by
  unfold placeholder
  rw [hsocket, Option.map_some]
  simp only [mem_cons, not_mem_nil, or_false] at hcheck
  rcases hcheck with heq | heq | heq <;> rw [heq] <;> rfl

/-- A value is not converted in a socket that takes no special type. -/
theorem coerce_eq_pure {child : Block} {expr : Expr}
    (h : ∀ types, ofSocket compiled.setting.workspace types block name = .ok none) :
    compiled.coerce block name child expr = pure expr := by
  funext draft
  unfold coerce
  simp only [h]
  rfl

theorem ofSocket_of_isNeutral (hneutral : block.isNeutral = true)
    (hshape : block.shape = Shape.ofKind block.kind)
    (hsocket : block.shape.socket? name = some socket) (w : Workspace) (types : TypeTable) :
    ofSocket w types block name = .ok none := by
  have hdeclared : socket.declared = none :=
    (socket_of_isNeutral hneutral (hshape ▸ mem_of_find?_eq_some hsocket)).1
  have hinput : ofSocket w types block name =
      .ok ((block.shape.socket? name).bind Socket.declared) := by
    unfold ofSocket Block.inputType
    unfold Block.isNeutral at hneutral
    split at hneutral
    case h_11 => cases hneutral
    all_goals
      rename_i hkind
      rw [hkind]
  rw [hinput, hsocket, Option.bind_some, hdeclared]

/-- What stands in a socket of a neutral block is rendered alike if its block is. -/
theorem sameByName_operand (htwins : script.setting.Twins compiled.setting)
    (hneutral : block.isNeutral = true) (hshape : block.shape = Shape.ofKind block.kind)
    (hsocket : block.shape.socket? name = some socket)
    (hvalue : ∀ id child, block.values.get? name = some id →
      script.setting.workspace.get? id = some child → child.disabled = false →
      SameByName (script.value child) (compiled.value child)) :
    SameByName (script.operand block name) (compiled.operand block name) := by
  have hcheck :=
    (socket_of_isNeutral hneutral (hshape ▸ mem_of_find?_eq_some hsocket)).2
  unfold operand
  rw [placeholder_eq_of_check script compiled hsocket hcheck]
  refine operandOr_cases (P := SameByName) htwins.workspace_eq.symm (fun _ => .pure (.refl _))
    (fun _ _ _ => .throw _) fun id child hid hchild henabled => ?_
  unfold plugged
  rw [htwins.script_target, htwins.compiled_target]
  cases child.shape.outputCheck? with
  | none => exact .throw _
  | some found =>
    refine (alike_checkSocket Render.sameByName_record block name found).andThen ?_
    refine (hvalue id child hid hchild henabled).bind fun expr expr' hexpr => ?_
    obtain rfl := hexpr trivial
    dsimp only
    rw [coerce_eq_pure (ofSocket_of_isNeutral hneutral hshape hsocket _)]
    exact .pure (.refl _)

section

variable (hoperand : ∀ name, ((Shape.ofKind block.kind).socket? name).isSome = true →
  SameByName (script.operand block name) (compiled.operand block name))

include hoperand

theorem sameByName_binary (operator : Operator)
    (hleft : ((Shape.ofKind block.kind).socket? "A").isSome = true)
    (hright : ((Shape.ofKind block.kind).socket? "B").isSome = true) :
    SameByName (script.binary block operator) (compiled.binary block operator) := by
  refine (hoperand "A" hleft).bind fun left left' heq => ?_
  refine (hoperand "B" hright).bind fun right right' heq' => ?_
  exact .pure fun _ => by rw [heq trivial, heq' trivial]

theorem sameByName_callWith (function : String) {names : List String}
    (hnames : ∀ name ∈ names, ((Shape.ofKind block.kind).socket? name).isSome = true) :
    SameByName (script.callWith block function names) (compiled.callWith block function names) := by
  have hmapM : SameByName (names.mapM (script.operand block))
      (names.mapM (compiled.operand block)) :=
    .mapM_forall₂ (forall₂_same.2 fun name hname => hoperand name (hnames name hname))
  exact hmapM.bind_pure _

theorem sameByName_arithmetic (hkind : block.kind = .mathArithmetic)
    (hdivide : block.field? "OP" ≠ some "DIVIDE") :
    SameByName (script.arithmetic block) (compiled.arithmetic block) := by
  have hbinary : ∀ operator,
      SameByName (script.binary block operator) (compiled.binary block operator) :=
    fun operator => sameByName_binary hoperand operator (by rw [hkind]; rfl) (by rw [hkind]; rfl)
  refine .liftM_bind_of_ok fun op hop => ?_
  split
  · exact hbinary _
  · exact hbinary _
  · exact hbinary _
  · exact absurd (field?_of_requiredField hop) hdivide
  · refine sameByName_callWith hoperand _ ?_
    rw [hkind]
    decide
  · exact .throw _

theorem sameByName_single (hkind : block.kind = .mathSingle)
    (hlogarithm : block.field? "OP" ≠ some "LOG10") :
    SameByName (script.single block) (compiled.single block) := by
  have hnumber : ((Shape.ofKind block.kind).socket? "NUM").isSome = true := by rw [hkind]; rfl
  have hcall : ∀ function, SameByName (script.callWith block function ["NUM"])
      (compiled.callWith block function ["NUM"]) :=
    fun function => sameByName_callWith hoperand function (by simpa using hnumber)
  refine .liftM_bind_of_ok fun op hop => ?_
  split
  · exact (hoperand "NUM" hnumber).bind_pure _
  · exact (hoperand "NUM" hnumber).bind_pure _
  · exact hcall _
  · exact hcall _
  · exact hcall _
  · exact absurd (field?_of_requiredField hop) hlogarithm
  · exact hcall _
  · exact .throw _

theorem sameByName_ternary (hkind : block.kind = .logicTernary) :
    SameByName (script.ternary block) (compiled.ternary block) := by
  refine (hoperand "IF" (by rw [hkind]; rfl)).bind fun test test' htest => ?_
  refine (hoperand "THEN" (by rw [hkind]; rfl)).bind fun yes yes' hyes => ?_
  refine (hoperand "ELSE" (by rw [hkind]; rfl)).bind fun no no' hno => ?_
  exact .pure fun _ => by rw [htest trivial, hyes trivial, hno trivial]

/-- A neutral block is rendered alike if what stands in its sockets is. -/
theorem sameByName_renderValue (htwins : script.setting.Twins compiled.setting)
    (hneutral : block.isNeutral = true) :
    SameByName (script.renderValue block) (compiled.renderValue block) := by
  unfold renderValue Script.value Compiled.value sharedValue
  rw [htwins.script_target, htwins.compiled_target]
  unfold Block.isNeutral at hneutral
  split at hneutral <;> rename_i hkind
  case h_11 => cases hneutral
  all_goals simp only [hkind]
  -- variables, the blocks of logic, arithmetic, numbers
  case h_1 =>
    refine .liftM_bind rfl fun name => ?_
    exact (Render.sameByName_variableIdentifier name).bind_pure _
  case h_2 => exact .liftM _
  case h_3 => exact .pure (.refl _)
  case h_4 | h_5 =>
    refine .liftM_bind rfl fun operator => ?_
    exact sameByName_binary hoperand operator (by rw [hkind]; rfl) (by rw [hkind]; rfl)
  case h_6 => exact (hoperand "BOOL" (by rw [hkind]; rfl)).bind_pure _
  case h_7 => exact sameByName_ternary hoperand hkind
  case h_8 => exact sameByName_arithmetic hoperand hkind (by simpa using hneutral)
  case h_9 => exact sameByName_single hoperand hkind (by simpa using hneutral)
  case h_10 =>
    refine .liftM_bind_of_ok fun value hvalue => .pure fun _ => ?_
    rw [hvalue] at hneutral
    rw [Numeral.literal_eq_of_isNeutral hneutral]

end

end Renderer

/-! ## The whole tree -/

variable {setting : Setting}

namespace Setting

/-- Two renderers of the same depth do alike for a block with only neutral blocks in it. -/
theorem sameByName_rendererWithin {script compiled : Setting} (htwins : script.Twins compiled)
    (hshaped : script.workspace.Shaped) (depth : Nat) : ∀ block ∈ script.workspace.blocks,
    script.workspace.Throughout Block.isNeutral block →
      SameByName ((script.rendererWithin depth).value block)
        ((compiled.rendererWithin depth).value block) := by
  induction depth with
  | zero => exact fun block _ _ => .throw _
  | succ depth ih =>
    rintro block hblock ⟨hneutral, hbelow⟩
    have htwins' : (script.rendererWithin depth).setting.Twins
        (compiled.rendererWithin depth).setting := by simpa using htwins
    have hshape : block.shape = Shape.ofKind block.kind :=
      (hshaped block hblock).shape_eq (takesMutation_of_isNeutral hneutral)
    refine Renderer.sameByName_renderValue (fun name hname => ?_) htwins' hneutral
    obtain ⟨socket, hsocket⟩ := Option.isSome_iff_exists.1 hname
    rw [← hshape] at hsocket
    obtain rfl : socket.name = name := by simpa using find?_some hsocket
    refine Renderer.sameByName_operand htwins' hneutral hshape hsocket
      fun id child hid hchild henabled => ?_
    rw [setting_rendererWithin] at hchild
    refine ih child (mem_of_find?_eq_some hchild) ?_
    exact hbelow socket (mem_of_find?_eq_some hsocket) id child hid hchild henabled

/-! ## The first identifiers -/

theorem context_serve_types (setting : Setting) (draft : Draft) :
    (setting.serve draft .types).context = draft.context := by
  unfold serve
  rw [Render.step_inferTypes]
  cases ((Inference.inferAll setting.workspace).run.run draft.types).1 <;> rfl

/-- To find the types asks for no identifier. -/
theorem context_draftAfter_types (setting : Setting) (inferences : Nat) :
    (setting.draftAfter (List.replicate inferences .types)).context = setting.firstContext := by
  have hserved : ∀ draft : Draft,
      ((List.replicate inferences .types).foldl setting.serve draft).context =
        draft.context := by
    induction inferences with
    | zero => exact fun _ => rfl
    | succ inferences ih =>
      intro draft
      rw [replicate_succ, foldl_cons, ih, context_serve_types]
  exact hserved setting.firstDraft

/-- On a robot without devices the first identifiers are those of the variables. -/
theorem names_firstContext (h : setting.hardware = {}) :
    setting.firstContext.names = setting.workspace.variableNames.foldl
      (fun table name => (table.identifierFor .variableNames name).2) {} := by
  have hnames : ∀ (names : List String) (context : Context),
      (names.foldl (fun context name => (context.identifierFor .variableNames name).2)
        context).names =
      names.foldl (fun table name => (table.identifierFor .variableNames name).2)
        context.names := by
    intro names
    induction names with
    | nil => exact fun _ => rfl
    | cons name rest ih => exact fun context => ih _
  unfold firstContext
  rw [h]
  cases setting.target <;> exact hnames _ _

end Setting

/-! ## Blocks that are rendered -/

/-- A slot of a block that matches a socket names one. -/
theorem Slot.Matches.exists_socket {slot : Slot} {shape : Shape}
    (h : slot.Matches (shape.socket? slot.name)) :
    ∃ socket ∈ shape.sockets, socket.name = slot.name := by
  cases hsocket : shape.socket? slot.name with
  | none =>
    rw [hsocket] at h
    cases h
  | some socket =>
    exact ⟨socket, mem_of_find?_eq_some hsocket, by simpa using find?_some hsocket⟩

/-- A block with only neutral blocks in it is the root of a tree if their fields are in order. -/
theorem exists_holds {w : Workspace} {level : String → Nat} (hshaped : w.Shaped)
    (hlevel : w.Leveled level) (hblock : block ∈ w.blocks)
    (hneutral : w.Throughout Block.isNeutral block) (hstated : w.Throughout Block.isStated block) :
    ∃ tree : ValueTree, tree.Holds w block := by
  induction hneutral with
  | @node block hneutral _ ih =>
    obtain ⟨hstated, hbelow⟩ := hstated
    obtain ⟨head, hhead⟩ := Option.isSome_iff_exists.1 hstated
    have hplain : block.IsPlain :=
      (hshaped block hblock).isPlain (takesMutation_of_isNeutral hneutral)
    have hkind := (ValueHead.kind_and_stated hhead).1
    obtain ⟨operands, hoperands⟩ : ∃ operands, List.Forall₂
        (fun operand slot => ValueTree.HoldsAt w operand block slot.name) operands
        (head.slots block.itemCount) := by
      refine exists_forall₂ fun slot hslot => ?_
      obtain ⟨socket, hsocket, hname⟩ := (matches_socket? hplain hkind hslot).exists_socket
      rw [← hname]
      cases hid : block.values.get? socket.name with
      | none => exact ⟨none, fun id h => by simp [hid] at h⟩
      | some id =>
        obtain ⟨child, hchild, hget, -⟩ :=
          hlevel.exists_child hblock (mem_below_of_value hid)
        cases hdisabled : child.disabled with
        | true =>
          refine ⟨none, fun other hother => ⟨child, ?_, hdisabled⟩⟩
          rw [hid, Option.some.injEq] at hother
          rwa [← hother]
        | false =>
          obtain ⟨tree, htree⟩ := ih socket hsocket id child hid hget hdisabled hchild
            (hbelow socket hsocket id child hid hget hdisabled)
          exact ⟨some tree, id, child, hid, hget, hdisabled, htree⟩
    exact ⟨.node head operands, ValueTree.holds_node.2 ⟨hplain, hhead, hoperands⟩⟩

/-- A block that is the root of a tree is rendered in a new run. -/
theorem ValueTree.Holds.exists_answer {tree : ValueTree}
    (hblock : block ∈ setting.workspace.blocks) (hholds : tree.Holds setting.workspace block) :
    ∃ expr, (Setting.step (setting.renderer.value block) setting.firstDraft).1 = .ok expr := by
  have hdraws := draws_rendererWithin setting setting.firstDraft.types tree setting.workspace.size
    (ValueTree.height_le_size hblock hholds) block (by simpa using hblock) (by simpa using hholds)
  obtain ⟨operations, hcontext, -⟩ := setting.exists_firstContext_eq
  obtain ⟨expr, after, hyields, -⟩ := hdraws.exists_yields hcontext
  exact ⟨expr, congrArg Prod.fst hyields⟩

namespace Setting

variable {block : Block}

/-- A new run of a setting for scripts and one of a setting for classes give the same answer. -/
theorem Twins.answer_eq {script compiled : Setting} (htwins : script.Twins compiled)
    (hscript : script.hardware = {}) (hcompiled : compiled.hardware = {})
    (hshaped : script.workspace.Shaped) (hblock : block ∈ script.workspace.blocks)
    (hneutral : script.workspace.Throughout Block.isNeutral block) (before before' : Nat) :
    (step (script.renderer.value block) (script.draftAfter (List.replicate before .types))).1 =
      (step (compiled.renderer.value block)
        (compiled.draftAfter (List.replicate before' .types))).1 := by
  have hnames : (script.draftAfter (List.replicate before .types)).SameNames
      (compiled.draftAfter (List.replicate before' .types)) := by
    unfold Draft.SameNames
    rw [context_draftAfter_types, context_draftAfter_types, names_firstContext hscript,
      names_firstContext hcompiled, htwins.workspace_eq]
  have halike :=
    sameByName_rendererWithin htwins hshaped script.workspace.size block hblock hneutral
  unfold renderer
  rw [← htwins.workspace_eq]
  exact (halike _ _ hnames).answer_eq

/-- New runs of settings with the same blocks give the same answer: two settings for one target are
compared with one for the other. -/
theorem answer_eq_of_same_blocks {setting' : Setting}
    (hworkspace : setting.workspace = setting'.workspace) (h : setting.hardware = {})
    (h' : setting'.hardware = {}) (hshaped : setting.workspace.Shaped)
    (hblock : block ∈ setting.workspace.blocks)
    (hneutral : setting.workspace.Throughout Block.isNeutral block) (before before' : Nat) :
    (step (setting.renderer.value block) (setting.draftAfter (List.replicate before .types))).1 =
      (step (setting'.renderer.value block)
        (setting'.draftAfter (List.replicate before' .types))).1 := by
  cases htarget : setting.target with
  | javaScript =>
    cases htarget' : setting'.target with
    | java =>
      exact Twins.answer_eq ⟨htarget, htarget', hworkspace⟩ h h' hshaped hblock hneutral _ _
    | javaScript =>
      let other : Setting := { setting with target := .java }
      have htwins : setting.Twins other := ⟨htarget, rfl, rfl⟩
      have htwins' : setting'.Twins other := ⟨htarget', rfl, hworkspace.symm⟩
      rw [htwins.answer_eq h h hshaped hblock hneutral before 0]
      rw [hworkspace] at hshaped hblock hneutral
      exact (htwins'.answer_eq h' h hshaped hblock hneutral before' 0).symm
  | java =>
    cases htarget' : setting'.target with
    | javaScript =>
      rw [hworkspace] at hshaped hblock hneutral
      exact (Twins.answer_eq ⟨htarget', htarget, hworkspace.symm⟩ h' h hshaped hblock hneutral
        _ _).symm
    | java =>
      let other : Setting := { setting with target := .javaScript }
      have htwins : other.Twins setting := ⟨rfl, htarget, rfl⟩
      have htwins' : other.Twins setting' := ⟨rfl, htarget', hworkspace⟩
      rw [← htwins.answer_eq h h hshaped hblock hneutral 0 before]
      exact htwins'.answer_eq h h' hshaped hblock hneutral 0 before'

end Setting

/-- In a program that was loaded, a block with only neutral blocks in it is rendered in one way,
whatever the target and the options are, on a robot without devices, and however often the types
were inferred before: as one expression, hence with one text and one level, or with one fault. It is
an expression if the fields of the blocks are in order. -/
theorem targets_agree_on_neutral_values {root : Element} {document : Option String}
    {program : Program} {loading : Loading}
    (hloaded : Yields (Program.ofRoot root document) {} program loading) {block : Block}
    (hblock : block ∈ program.workspace.blocks)
    (hneutral : program.workspace.Throughout Block.isNeutral block) :
    ∃ answer : Except Fault Expr,
      (∀ setting : Setting, setting.workspace = program.workspace → setting.hardware = {} →
        ∀ inferences, (Setting.step (setting.renderer.value block)
          (setting.draftAfter (List.replicate inferences .types))).1 = answer) ∧
      (program.workspace.Throughout Block.isStated block → ∃ expr, answer = .ok expr) := by
  obtain ⟨hshaped, hvalid⟩ := shaped_and_valid_of_loaded hloaded
  obtain ⟨level, hlevel⟩ := Workspace.exists_leveled_of_validate hvalid
  let first : Setting := { workspace := program.workspace, target := .javaScript }
  refine ⟨(Setting.step (first.renderer.value block) first.firstDraft).1, ?_, fun hstated => ?_⟩
  · intro setting hworkspace hhardware inferences
    rw [← hworkspace] at hshaped hblock hneutral
    exact Setting.answer_eq_of_same_blocks hworkspace hhardware rfl hshaped hblock hneutral
      inferences 0
  · obtain ⟨tree, htree⟩ := exists_holds hshaped hlevel hblock hneutral hstated
    exact ValueTree.Holds.exists_answer hblock htree

/-! ## A choice that depends on a variable -/

namespace NeutralSample

open Xml.Element in
/-- The choice has a comparison as its test, in one case the negative of a number that is switched
off, and nothing in the other. -/
def document : Element :=
  withAttributes "xml" []
    [blockOf "logic_ternary" "a"
      [valueOf "IF" (blockOf "logic_compare" "b"
        [fieldOf "OP" "LT", valueOf "A" (blockOf "variables_get" "c" [fieldOf "VAR" "n"]),
          valueOf "B" (blockOf "math_number" "d" [fieldOf "NUM" "-2.5"])]),
        valueOf "THEN" (blockOf "math_single" "e"
          [fieldOf "OP" "NEG", valueOf "NUM" (withAttributes "block"
            [("type", "math_number"), ("id", "f"), ("disabled", "true")] [fieldOf "NUM" "1"])])]]

/-- What loading the elements of the document leaves. -/
@[irreducible] def loaded : Loading := ((forM document.children Loader.loadElement).run.run {}).2

theorem loaded_spec :
    (∃ loading, Yields (Program.ofRoot document none) {} { workspace := loaded.workspace } loading) ∧
      (loaded.workspace.get? "a").any (fun block =>
        loaded.workspace.isThroughout Block.isNeutral 3 block &&
          loaded.workspace.isThroughout Block.isStated 3 block) := by
  have helements : Yields (forM document.children Loader.loadElement) {} () loaded := by
    unfold loaded
    exact yields_of_fst_run_eq (by decide +kernel)
  have hvalid : loaded.workspace.validate = .ok () := by
    rw [Workspace.validate_of_sorted (by decide +kernel) (by decide +kernel)]
    decide +kernel
  exact ⟨exists_yields_ofRoot rfl helements hvalid, by decide +kernel⟩

/-- Both targets render the choice alike, with the types inferred or not. -/
theorem targets_agree_on_choice :
    ∃ loading block expr,
      Yields (Program.ofRoot document none) {} { workspace := loaded.workspace } loading ∧
      loaded.workspace.get? "a" = some block ∧
      ∀ target inferences,
        (Setting.step ((Setting.renderer { workspace := loaded.workspace, target }).value block)
          (Setting.draftAfter { workspace := loaded.workspace, target }
            (List.replicate inferences .types))).1 = .ok expr := by
  obtain ⟨⟨loading, hloads⟩, hfound⟩ := loaded_spec
  obtain ⟨block, hblock, hboth⟩ := (Option.any_eq_true _ _).1 hfound
  obtain ⟨hneutral, hstated⟩ := Bool.and_eq_true_iff.1 hboth
  obtain ⟨answer, hanswer, hexpr⟩ := targets_agree_on_neutral_values hloads
    (mem_of_find?_eq_some hblock) (.of_isThroughout hneutral)
  obtain ⟨expr, rfl⟩ := hexpr (.of_isThroughout hstated)
  exact ⟨loading, block, expr, hloads, hblock, fun target inferences =>
    hanswer { workspace := loaded.workspace, target } rfl rfl inferences⟩

end NeutralSample

end RobotBlocks
