import RobotBlocks.Proofs.Block.Inputs
import RobotBlocks.Proofs.Render.Blocks

/-!
# The walk through a block

Rendering a block takes steps of its own and asks for what stands in its inputs. `Walk` follows two
renderers through two blocks with the same head at once: they take the same steps, and what they ask
for, and which devices they declare, is listed in the index. How blocks are rendered is looked at
here only; what else is known about the way is read off the walk (`Walk.parallel`, `Walk.course`).

There is one lemma for each of the functions that both targets share. A function that renders one
kind of block only has the inputs of that kind as its index.
-/

set_option autoImplicit false

namespace RobotBlocks

open List

open Input (sockets numbered)

/-- The use of a device: the simple name of the class of its field, and its name. -/
structure DeviceUse where
  className : String
  device : String
  deriving DecidableEq, Repr

/-- What the way through a rendering comes to. -/
inductive Stop where
  /-- What stands in an input. -/
  | ask (input : Input)
  /-- The declaration of a device. -/
  | declare (use : DeviceUse)
  deriving DecidableEq, Repr

/-- What there is at a stop, if it is known what there is at inputs and at declarations. -/
def Stop.elim {α : Type} (atInput : Input → α) (atDevice : DeviceUse → α) : Stop → α
  | ask input => atInput input
  | declare use => atDevice use

/-- The stops of a way that only asks. -/
def Stop.asks (inputs : List Input) : List Stop := inputs.map .ask

open Stop (asks)

/-- The links of a block to others. -/
structure Block.Links where
  values : Dict String
  statements : Dict String
  parent : Option Link

/-- The block with other links. -/
@[reducible] def Block.relinked (block : Block) (links : Block.Links) : Block :=
  { block with
    values := links.values
    statements := links.statements
    parent := links.parent }

theorem Block.literal_relinked (block : Block) (links : Block.Links) :
    (block.relinked links).literal = block.literal := by
  have hfield : (block.relinked links).requiredField "NUM" = block.requiredField "NUM" := rfl
  unfold literal
  rw [hfield]

/-- A single step that reads nothing of the block and declares nothing. -/
inductive Render.Step : {α : Type} → Render α → Prop
  | record (event : Event) : Step (record event)
  | identifierFor (space : Namespace) (name : String) : Step (identifierFor space name)
  | distinctName (base : String) : Step (distinctName base)
  | importClassType (classType : String) : Step (importClassType classType)
  | importKnown (simple : String) : Step (importKnown simple)

/-- Two renderings take the same way. A fault ends the way, whatever was still to come. -/
inductive Walk (exact : Prop) (r r' : Renderer) (block block' : Block) :
    List Stop → {α : Type} → Render α → Render α → Prop
  | pure {α : Type} {a b : α} :
      Agree exact a b → Walk exact r r' block block' [] (pure a) (pure b)
  | throw {α : Type} (stops : List Stop) (fault : Fault) : fault.isOwn = true →
      Walk exact r r' block block' stops (throw fault : Render α) (throw fault)
  | bind {α β : Type} {front back : List Stop} {x y : Render α} {f g : α → Render β} :
      Walk exact r r' block block' front x y →
      (∀ a b, Agree exact a b → Walk exact r r' block block' back (f a) (g b)) →
      Walk exact r r' block block' (front ++ back) (x >>= f) (y >>= g)
  | look {α : Type} {stops : List Stop} {f g : Draft → Render α} :
      (∀ draft draft', (exact → draft.SameWork draft') →
        Walk exact r r' block block' stops (f draft) (g draft')) →
      Walk exact r r' block block' stops (get >>= f) (get >>= g)
  | own {α : Type} {x : Render α} : Render.Step x → Walk exact r r' block block' [] x x
  | importIfKnown {type type' : String} : Agree exact type type' →
      Walk exact r r' block block' [] (Render.importIfKnown type) (Render.importIfKnown type')
  | device (use : DeviceUse) (className : String) :
      Walk exact r r' block block' [.declare use]
        (Render.declareDevice use.className className use.device)
        (Render.declareDevice use.className className use.device)
  | socket (name : String) (fallback : Expr) :
      Walk exact r r' block block' [.ask (.socket name)] (r.operandOr block name fallback)
        (r'.operandOr block' name fallback)
  | slot (name : String) :
      Walk exact r r' block block' [.ask (.slot name)] (r.slot block name) (r'.slot block' name)
  /-- Whether a quotient needs a cast depends on the types in the draft. -/
  | quotient : block.kind = .mathArithmetic →
      Walk exact r r' block block' (asks (sockets ["A", "B"])) (r.quotient block)
        (r'.quotient block')

variable {exact : Prop} {r r' : Renderer} {block block' : Block}

namespace Walk

variable {stops stops' : List Stop} {α β γ : Type} {x y : Render α} {u v : Render β}
variable {f g : α → Render β}

section

variable (h : Walk exact r r' block block' stops x y)

include h

theorem andThen (hrest : ∀ a b, Agree exact a b → Walk exact r r' block block' [] (f a) (g b)) :
    Walk exact r r' block block' stops (x >>= f) (y >>= g) := by
  rw [← append_nil stops]
  exact h.bind hrest

theorem close {f g : α → β} (hresult : ∀ a b, Agree exact a b → Agree exact (f a) (g b)) :
    Walk exact r r' block block' stops (x >>= fun a => Pure.pure (f a))
      (y >>= fun b => Pure.pure (g b)) :=
  h.andThen fun a b hab => pure (hresult a b hab)

theorem bind_pure (f : α → β) :
    Walk exact r r' block block' stops (x >>= fun a => Pure.pure (f a))
      (y >>= fun a => Pure.pure (f a)) :=
  h.close fun _ _ hab => hab.map f

end

/-- Two steps one after the other, and what their answers make together. -/
theorem pair (f : α → β → γ) (h : Walk exact r r' block block' stops x y)
    (h' : Walk exact r r' block block' stops' u v) :
    Walk exact r r' block block' (stops ++ stops') (do return f (← x) (← u))
      (do return f (← y) (← v)) :=
  h.bind fun a a' ha => h'.close fun b b' hb hexact => by rw [ha hexact, hb hexact]

theorem first (h : Walk exact r r' block block' [] x y)
    (hrest : ∀ a b, Agree exact a b → Walk exact r r' block block' stops (f a) (g b)) :
    Walk exact r r' block block' stops (x >>= f) (y >>= g) :=
  h.bind hrest

/-- What a block says about itself is the same for both; if it is a fault, that is the end. -/
theorem answer_bind {answer : Except Fault α} (hown : Own answer)
    (h : ∀ a, answer = .ok a → Walk exact r r' block block' stops (f a) (g a)) :
    Walk exact r r' block block' stops (MonadLiftT.monadLift answer >>= f)
      (MonadLiftT.monadLift answer >>= g) := by
  cases answer with
  | error fault => exact throw stops fault (hown fault rfl)
  | ok a => exact h a rfl

theorem answer {answer : Except Fault α} (hown : Own answer) :
    Walk exact r r' block block' [] (liftM answer : Render α) (liftM answer) := by
  cases answer with
  | error fault => exact throw [] fault (hown fault rfl)
  | ok a => exact pure (.refl a)

theorem mapM (items : List α) (stopsOf : α → List Stop)
    (h : ∀ item ∈ items, Walk exact r r' block block' (stopsOf item) (f item) (g item)) :
    Walk exact r r' block block' (items.flatMap stopsOf) (items.mapM f) (items.mapM g) := by
  induction items with
  | nil => exact pure (.refl [])
  | cons item rest ih =>
    rw [mapM_cons, mapM_cons, flatMap_cons]
    refine (h item mem_cons_self).bind fun first first' hfirst => ?_
    refine (ih (forall_mem_cons.1 h).2).close ?_
    exact fun others others' hothers hexact => by rw [hfirst hexact, hothers hexact]

theorem mapM_asks {items : List α} (inputsOf : α → List Input)
    (h : ∀ item ∈ items, Walk exact r r' block block' (asks (inputsOf item)) (f item) (g item)) :
    Walk exact r r' block block' (asks (items.flatMap inputsOf)) (items.mapM f)
      (items.mapM g) := by
  have hwalk := mapM items (fun item => asks (inputsOf item)) h
  have hstops : items.flatMap (fun item => asks (inputsOf item)) = asks (items.flatMap inputsOf) :=
    map_flatMap.symm
  rwa [hstops] at hwalk

theorem mapM_own (items : List α) (h : ∀ item, Walk exact r r' block block' [] (f item) (g item)) :
    Walk exact r r' block block' [] (items.mapM f) (items.mapM g) := by
  have hwalk := mapM items (fun _ => []) fun item _ => h item
  rwa [flatMap_eq_nil_iff.2 fun _ _ => rfl] at hwalk

theorem forM {f g : α → Render PUnit} (items : List α)
    (h : ∀ item, Walk exact r r' block block' [] (f item) (g item)) :
    Walk exact r r' block block' [] (items.forM f) (items.forM g) := by
  induction items with
  | nil => exact pure (.refl _)
  | cons item rest ih =>
    rw [forM_eq_forM, forM_cons, forM_cons]
    exact (h item).first fun _ _ _ => ih

theorem variableIdentifier (name : String) :
    Walk exact r r' block block' [] (Render.variableIdentifier name)
      (Render.variableIdentifier name) :=
  own (.identifierFor _ name)

theorem procedureIdentifier (name : String) :
    Walk exact r r' block block' [] (Render.procedureIdentifier name)
      (Render.procedureIdentifier name) := by
  unfold Render.procedureIdentifier
  split
  · exact pure (.refl _)
  · exact own (.identifierFor _ name)

end Walk

/-- Two renderers are about to render two blocks with the same head. What they know about the kinds of
inner blocks is the same as far as it matters. -/
structure Renderer.Aligned (exact : Prop) (r r' : Renderer) (block : Block) (links : Block.Links) :
    Prop where
  target_eq : r.setting.target = r'.setting.target
  hardware_eq : r.setting.hardware = r'.setting.hardware
  firstIsText : block.kind = .textJoin → block.itemCount ≠ 0 →
    Agree exact (r.firstIsText block) (r'.firstIsText (block.relinked links))

namespace Renderer.Aligned

variable {links : Block.Links} (h : r.Aligned exact r' block links)

/-- What two aligned renderers do takes the same way. -/
abbrev Walks (_ : r.Aligned exact r' block links) (stops : List Stop) {α : Type}
    (action : Renderer → Block → Render α) : Prop :=
  Walk exact r r' block (block.relinked links) stops (action r block)
    (action r' (block.relinked links))

/-- A way that only asks for some inputs. -/
abbrev Takes (h : r.Aligned exact r' block links) (inputs : List Input) {α : Type}
    (action : Renderer → Block → Render α) : Prop :=
  h.Walks (asks inputs) action

theorem operandOr (socket : String) (fallback : Expr) :
    h.Takes [.socket socket] (·.operandOr · socket fallback) :=
  .socket socket fallback

theorem slot (name : String) : h.Takes [.slot name] (·.slot · name) :=
  .slot name

include h in
theorem placeholder_eq (socket : String) :
    r.placeholder block socket = r'.placeholder (block.relinked links) socket := by
  unfold placeholder textLiteral
  rw [h.target_eq]

theorem operand (socket : String) : h.Takes [.socket socket] (·.operand · socket) := by
  simp only [Takes, Walks, Renderer.operand, h.placeholder_eq]
  exact .socket socket _

theorem operandText (socket : String) (place : Precedence) :
    h.Takes [.socket socket] (·.operandText · socket place) :=
  (h.operand socket).bind_pure _

theorem operandsOf (names : List String) :
    h.Takes (sockets names) fun r block => names.mapM (r.operand block) := by
  have hwalk := Walk.mapM_asks (fun name => [.socket name]) fun name (_ : name ∈ names) =>
    h.operand name
  rwa [show names.flatMap (fun name => [.socket name]) = sockets names from
    map_eq_flatMap.symm] at hwalk

theorem operands (stem : String) (count : Nat) :
    h.Takes (numbered stem count) (·.operands · stem count) := by
  have hwalk := Walk.mapM_asks (fun index => [.socket (stem ++ toString index)])
    fun index (_ : index ∈ List.range count) => h.operand (stem ++ toString index)
  rwa [show (List.range count).flatMap (fun index => [.socket (stem ++ toString index)]) =
    numbered stem count from map_eq_flatMap.symm] at hwalk

theorem callWith (function : String) (names : List String) :
    h.Takes (sockets names) (·.callWith · function names) :=
  (h.operandsOf names).bind_pure _

/-! ## Values -/

theorem binary (operator : Operator) : h.Takes (sockets ["A", "B"]) (·.binary · operator) :=
  .pair _ (h.operand "A") (h.operand "B")

theorem arithmetic (hkind : block.kind = .mathArithmetic) :
    h.Takes (sockets ["A", "B"]) (·.arithmetic ·) := by
  refine .answer_bind (block.own_requiredField _) fun op _ => ?_
  split
  · exact h.binary _
  · exact h.binary _
  · exact h.binary _
  · exact .quotient hkind
  · exact h.callWith _ _
  · exact .throw _ _ rfl

theorem decimalLogarithm : h.Takes (sockets ["NUM"]) (·.decimalLogarithm ·) := by
  simp only [Takes, Walks, Renderer.decimalLogarithm, h.target_eq]
  split
  · exact (h.operand _).bind_pure _
  · exact h.callWith _ _

theorem single : h.Takes (sockets ["NUM"]) (·.single ·) := by
  refine .answer_bind (block.own_requiredField _) fun op _ => ?_
  split
  · exact (h.operand _).bind_pure _
  · exact (h.operand _).bind_pure _
  · exact h.callWith _ _
  · exact h.callWith _ _
  · exact h.callWith _ _
  · exact h.decimalLogarithm
  · exact h.callWith _ _
  · exact .throw _ _ rfl

theorem ternary : h.Takes (sockets ["IF", "THEN", "ELSE"]) (·.ternary ·) := by
  refine (h.operand "IF").bind fun test test' htest => ?_
  refine (h.operand "THEN").bind fun yes yes' hyes => ?_
  exact (h.operand "ELSE").close fun no no' hno hexact => by
    rw [htest hexact, hyes hexact, hno hexact]

theorem items : h.Takes (numbered "ADD" block.itemCount) (·.items ·) :=
  h.operands "ADD" block.itemCount

theorem joined (hkind : block.kind = .textJoin) :
    h.Takes (numbered "ADD" block.itemCount) (·.joined ·) := by
  simp only [Takes, Walks, Renderer.joined, textLiteral, h.target_eq]
  by_cases hcount : block.itemCount = 0
  · rw [if_pos hcount, if_pos (show (block.relinked links).itemCount = 0 from hcount), hcount]
    exact .pure (.refl _)
  · rw [if_neg hcount, if_neg (show (block.relinked links).itemCount ≠ 0 from hcount)]
    refine h.items.andThen fun items items' hitems => ?_
    split
    · exact .pure (hitems.map _)
    · exact .pure fun hexact => by rw [h.firstIsText hkind hcount hexact, hitems hexact]

theorem listOf : h.Takes (numbered "ADD" block.itemCount) (·.listOf ·) := by
  simp only [Takes, Walks, Renderer.listOf, h.target_eq]
  refine h.items.andThen fun items items' hitems => ?_
  split
  · exact .pure (hitems.map _)
  · exact (Walk.own (.importKnown _)).close fun _ _ _ => hitems.map _

theorem procedureCall :
    h.Takes (numbered "ARG" block.procedureArguments.length) (·.procedureCall ·) := by
  refine .answer_bind block.own_procedureName fun name _ => ?_
  exact .pair _ (Walk.procedureIdentifier name) (h.operands _ _)

theorem angle : h.Takes (sockets ["Y", "X"]) (·.angle ·) :=
  .pair _ (h.operand "Y") (h.operand "X")

theorem sharedValue : h.Takes block.inputs (·.sharedValue ·) := by
  simp only [Takes, Walks, Renderer.sharedValue, textLiteral, Block.inputs, h.target_eq]
  cases hkind : block.kind with
  | mathNumber =>
    rw [Block.literal_relinked]
    exact .answer_bind block.own_literal fun value _ => .pure (.refl _)
  | mathArithmetic => exact h.arithmetic hkind
  | mathSingle => exact h.single
  | logicBoolean => exact .answer (own_truthValue block)
  | logicCompare => exact .answer_bind (own_comparison block) fun operator _ => h.binary operator
  | logicOperation =>
    exact .answer_bind (own_connective block) fun operator _ => h.binary operator
  | logicNegate => exact (h.operand _).bind_pure _
  | logicNull | text => exact .pure (.refl _)
  | logicTernary => exact h.ternary
  | textJoin => exact h.joined hkind
  | listsCreateWith => exact h.listOf
  | variablesGet =>
    refine .answer_bind (block.own_requiredField _) fun name _ => ?_
    exact (Walk.variableIdentifier name).bind_pure _
  | procedureCall returns =>
    cases returns with
    | true => exact h.procedureCall
    | false => exact .throw _ _ rfl
  | _ => exact .throw _ _ rfl

/-! ## Statements -/

theorem callStatement (function : String) (names : List String) :
    h.Takes (sockets names) (·.callStatement · function names) :=
  (h.callWith function names).bind_pure _

theorem assignment : h.Takes (sockets ["VALUE"]) (·.assignment ·) := by
  refine .answer_bind (block.own_requiredField _) fun name _ => ?_
  exact .pair _ (Walk.variableIdentifier name) (h.operandText _ _)

theorem branch (index : Nat) : h.Takes (Input.branch index) (·.branch · index) :=
  .pair _ (h.operandText _ _) (h.slot _)

theorem lastBranch :
    h.Takes (if block.shape.slots.contains "ELSE" then [.slot "ELSE"] else [])
      (·.lastBranch ·) := by
  simp only [Takes, Walks, Renderer.lastBranch]
  split
  · exact (h.slot _).bind_pure _
  · exact .pure (.refl _)

theorem branches :
    h.Takes ((List.range (branchCount block.shape)).flatMap Input.branch ++
      if block.shape.slots.contains "ELSE" then [.slot "ELSE"] else []) (·.branches ·) := by
  have hbranches := Walk.mapM_asks Input.branch
    fun index (_ : index ∈ List.range (branchCount block.shape)) => h.branch index
  have hlast := h.lastBranch
  simp only [Takes, Walks, asks] at hbranches hlast ⊢
  rw [map_append]
  exact .pair _ hbranches hlast

theorem loopCondition : h.Takes [.socket "BOOL"] (·.loopCondition ·) := by
  simp only [Takes, Walks, Renderer.loopCondition, Block.field?]
  split
  · exact h.operand _
  · exact (h.operand _).bind_pure _
  · exact .throw _ _ rfl

theorem conditionLoop : h.Takes [.socket "BOOL", .slot "DO"] (·.conditionLoop ·) :=
  .pair _ h.loopCondition (h.slot _)

theorem countedLoop : h.Takes [.socket "TIMES", .slot "DO"] (·.countedLoop ·) := by
  refine (h.operandText _ _).bind fun times times' htimes => ?_
  refine (Walk.own (.distinctName _)).first fun counter counter' hcounter => ?_
  exact (h.slot _).close fun body body' hbody hexact => by
    rw [h.target_eq, htimes hexact, hcounter hexact, hbody hexact]

theorem returnStatement : h.Takes [.socket "RETURN"] (·.returnStatement ·) :=
  (h.operandText _ _).bind_pure _

theorem sharedStatement : h.Takes block.inputs (·.sharedStatement ·) := by
  simp only [Takes, Walks, Renderer.sharedStatement, Block.inputs]
  cases hkind : block.kind with
  | variablesSet => exact h.assignment
  | controlsIf => exact h.branches
  | controlsWhileUntil => exact h.conditionLoop
  | controlsRepeat => exact h.countedLoop
  | controlsFlow => exact .answer (own_jump block)
  | procedureCall returns =>
    cases returns with
    | true => exact .throw _ _ rfl
    | false => exact h.procedureCall.bind_pure _
  | _ => exact .throw _ _ rfl

end Renderer.Aligned

end RobotBlocks
