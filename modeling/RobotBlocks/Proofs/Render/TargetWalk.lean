import RobotBlocks.Proofs.Render.Walk

/-!
# The walk in scripts and classes

In scripts a rendering comes to the inputs of a block, in classes to the declaration of its device,
if it is about one, and then to its inputs (`Renderer.Aligned.renderValue`,
`Renderer.Aligned.renderStatement`). Definitions of procedures are rendered as functions and methods.
-/

set_option autoImplicit false

namespace RobotBlocks

open Input (sockets)
open Renderer.Aligned (Takes Walks)
open Stop (asks)

variable {exact : Prop} {r r' : Renderer} {block block' : Block} {links : Block.Links}

theorem Block.signature?_of_signature {block : Block} {signature : CallSignature}
    (h : block.signature = .ok signature) : block.signature? = some signature := by
  unfold Block.signature at h
  split at h
  · cases h
    assumption
  · cases h

theorem BlockKind.exists_procedureDef {kind : BlockKind} (h : kind.isDefinition = true) :
    ∃ returns, kind = .procedureDef returns := by
  cases kind with
  | procedureDef returns => exact ⟨returns, rfl⟩
  | _ => cases h

/-! ## Scripts -/

variable {telemetry : TelemetryBlock}

namespace Script

variable (h : r.Aligned exact r' block links)

theorem walk_argument (parameter : CallParameter × Nat) :
    h.Takes (Input.ofParameter parameter) (argument · · parameter) := by
  obtain ⟨parameter, index⟩ := parameter
  simp only [Takes, Walks, argument, Input.ofParameter]
  cases parameter.supplied with
  | some code => exact .pure (.refl _)
  | none => exact h.operandOr _ _

theorem walk_methodCall :
    h.Takes (((block.signature?.map CallSignature.parameters).getD []).zipIdx.flatMap
      Input.ofParameter) methodCall := by
  refine .answer_bind block.own_signature fun signature hsignature => ?_
  rw [Block.signature?_of_signature hsignature]
  refine .answer_bind (own_calledDevice block) fun device _ => ?_
  exact (Walk.mapM_asks _ fun parameter _ => walk_argument h parameter).bind_pure _

theorem walk_miscValue {misc : MiscBlock} (hkind : block.kind = .misc misc) :
    h.Takes misc.inputs (miscValue · · misc) := by
  cases misc with
  | null => exact .pure (.refl _)
  | isNull | isNotNull | formatNumber | roundDecimal => exact h.callWith _ _
  | atan2 => exact h.angle
  | addItemToList => simpa only [Takes, Walks, miscValue, Block.inputs, hkind] using h.sharedValue

theorem walk_colorValue : h.Takes (sockets ["COLOR"]) colorValue :=
  .answer_bind (ColorProperty.own_of block) fun _ _ => h.callWith _ _

theorem walk_deviceObject (kind : DeviceKind) : h.Takes [] (deviceObject · · kind) := by
  simp only [Takes, Walks, deviceObject, h.hardware_eq]
  have hdevice : Walk exact r r' block (block.relinked links) []
      (Render.deviceOf r'.setting.hardware block kind)
      (Render.deviceOf r'.setting.hardware block kind) := by
    refine .answer_bind (block.own_requiredField _) fun identifier _ => ?_
    dsimp only
    split
    · exact (Walk.own (.record _)).close fun _ _ _ => .refl _
    · exact .pure (.refl _)
  refine hdevice.first fun _ _ _ => ?_
  exact .answer_bind (block.own_requiredField _) fun _ _ => .pure (.refl _)

theorem walk_deviceValue (kind : DeviceKind) : h.Takes [] (deviceValue · · kind) :=
  .answer_bind (DeviceProperty.own_of block kind false) fun _ _ =>
    (walk_deviceObject h kind).bind_pure _

/-- A call on the running program with an argument is no value. -/
theorem walk_value (hvalue : ∀ typed, block.kind ≠ .opMode (.sleep typed)) :
    h.Takes block.inputs value := by
  have hshared := h.sharedValue
  simp only [Takes, Walks, value, Block.inputs] at hshared ⊢
  generalize hkind : block.kind = kind at hshared ⊢
  cases kind with
  | misc misc => exact walk_miscValue h hkind
  | callStatic returns | callDevice returns =>
    cases returns with
    | true => exact walk_methodCall h
    | false => exact hshared
  | telemetry telemetry =>
    cases telemetry with
    | typedEnumDisplayFormat =>
      exact .answer_bind (block.own_choice _ _) fun _ _ => .pure (.refl _)
    | _ => exact hshared
  | opMode call =>
    cases call with
    | sleep typed => exact absurd hkind (hvalue typed)
    | _ => exact .pure (.refl _)
  | colorGet typed => exact walk_colorValue h
  | gamepadGet typing => exact .answer (own_gamepadValue block typing)
  | deviceGet kind => exact walk_deviceValue h kind
  | listsLength | listsIsEmpty => exact (h.operand _).bind_pure _
  | _ => exact hshared

theorem walk_telemetry (hkind : block.kind = .telemetry telemetry) :
    h.Takes telemetry.inputs (Script.telemetry · · telemetry) := by
  cases telemetry with
  | addNumericData | addTextData | speakWithLanguage | setDisplayFormat =>
    exact h.callStatement _ _
  | update => exact h.callStatement _ []
  | speak => exact (h.operand _).bind_pure _
  | typedEnumDisplayFormat =>
    simpa only [Takes, Walks, Script.telemetry, Block.inputs, hkind] using h.sharedStatement

theorem walk_addItem : h.Takes (sockets ["LIST", "ITEM"]) addItem :=
  .pair _ (h.operand "LIST") (h.operand "ITEM")

theorem walk_deviceSet (kind : DeviceKind) : h.Takes (sockets ["VALUE"]) (deviceSet · · kind) := by
  refine .answer_bind (DeviceProperty.own_of block kind true) fun property _ => ?_
  exact .pair _ (walk_deviceObject h kind) (h.operand "VALUE")

theorem walk_statement : h.Takes block.inputs statement := by
  have hshared := h.sharedStatement
  simp only [Takes, Walks, statement, Block.inputs] at hshared ⊢
  generalize hkind : block.kind = kind at hshared ⊢
  cases kind with
  | comment => exact .pure (.refl _)
  | misc misc =>
    cases misc with
    | addItemToList => exact walk_addItem h
    | _ => exact hshared
  | callStatic returns | callDevice returns =>
    cases returns with
    | true => exact hshared
    | false => exact (walk_methodCall h).bind_pure _
  | telemetry telemetry => exact walk_telemetry h hkind
  | opMode call =>
    cases call with
    | sleep typed => exact h.callStatement _ ["MILLISECONDS"]
    | _ => exact h.callStatement _ []
  | deviceSet kind => exact walk_deviceSet h kind
  | _ => exact hshared

theorem walk_function {returns : Bool} (hkind : block.kind = .procedureDef returns) :
    h.Takes block.inputs function := by
  simp only [Takes, Walks, function, Block.inputs, hkind]
  refine .answer_bind block.own_procedureName fun name _ => ?_
  refine (Walk.procedureIdentifier name).first fun identifier identifier' hidentifier => ?_
  refine (Walk.mapM_own block.procedureArguments Walk.variableIdentifier).first
    fun parameters parameters' hparameters => ?_
  refine (h.slot "STACK").bind fun body body' hbody => ?_
  cases returns with
  | true =>
    exact h.returnStatement.close fun last last' hlast hexact => by
      rw [hidentifier hexact, hparameters hexact, hbody hexact, hlast hexact]
  | false =>
    exact .pure fun hexact => by rw [hidentifier hexact, hparameters hexact, hbody hexact]

end Script

/-! ## Classes -/

/-- The device that a block is about in a class. -/
def Block.device? (hardware : Hardware) (block : Block) : Option DeviceUse :=
  match block.kind with
  | .deviceGet kind | .deviceSet kind =>
    (block.field? "IDENTIFIER").map fun identifier =>
      { className := kind.className, device := (hardware.resolve identifier kind).name }
  | .callDevice _ =>
    block.signature?.bind fun signature => (block.field? "DEVICE_NAME").map fun device =>
      { className := signature.simpleName, device }
  | _ => none

/-- The stops of a block in a class: its device, then its inputs. -/
def Block.stops (hardware : Hardware) (block : Block) : List Stop :=
  (block.device? hardware).toList.map .declare ++ asks block.inputs

theorem Hardware.kind_resolve (hardware : Hardware) (identifier : String) (kind : DeviceKind) :
    (hardware.resolve identifier kind).kind = kind := by
  unfold resolve
  split <;> rfl

namespace Compiled

theorem walk_importSignature (signature : CallSignature) :
    Walk exact r r' block block' [] (importSignature signature) (importSignature signature) :=
  (Walk.own (.importClassType _)).first fun _ _ _ =>
    .forM _ fun _ => .own (.importClassType _)

theorem walk_parameter (name : String) :
    Walk exact r r' block block' [] (parameter name) (parameter name) := by
  refine .look fun draft draft' hdraft => ?_
  have htype : Agree exact (draft.types.variableType name) (draft'.types.variableType name) :=
    fun hexact => by rw [(hdraft hexact).types_eq]
  refine (Walk.importIfKnown htype).first fun _ _ _ => ?_
  exact (Walk.variableIdentifier name).close fun identifier identifier' hidentifier hexact => by
    rw [htype hexact, hidentifier hexact]

variable (h : r.Aligned exact r' block links)
variable {kind : DeviceKind} {returns : Bool}

theorem walk_argument (parameter : CallParameter × Nat) :
    h.Takes (Input.ofParameter parameter) (argument · · parameter) := by
  obtain ⟨parameter, index⟩ := parameter
  simp only [Takes, Walks, argument, Input.ofParameter]
  cases parameter.supplied with
  | some code => exact .pure (.refl _)
  | none => exact h.operandOr _ _

include h in
theorem walk_methodCall {receiver receiver' : String} (hreceiver : Agree exact receiver receiver')
    (signature : CallSignature) :
    Walk exact r r' block (block.relinked links)
      (asks (signature.parameters.zipIdx.flatMap Input.ofParameter))
      (methodCall r block receiver signature)
      (methodCall r' (block.relinked links) receiver' signature) := by
  have harguments := Walk.mapM_asks Input.ofParameter
    fun parameter (_ : parameter ∈ signature.parameters.zipIdx) => walk_argument h parameter
  refine .answer_bind (block.own_requiredField _) fun method _ => ?_
  exact harguments.close fun arguments arguments' harguments hexact => by
    rw [hreceiver hexact, harguments hexact]

theorem walk_staticCall :
    h.Takes (((block.signature?.map CallSignature.parameters).getD []).zipIdx.flatMap
      Input.ofParameter) staticCall := by
  refine .answer_bind block.own_signature fun signature hsignature => ?_
  rw [Block.signature?_of_signature hsignature]
  refine (walk_importSignature signature).first fun _ _ _ => ?_
  dsimp only
  split
  · exact (Walk.own (.importClassType _)).first fun _ _ _ => walk_methodCall h (.refl _) signature
  · exact walk_methodCall h (.refl _) signature

theorem walk_deviceCall (hkind : block.kind = .callDevice returns) :
    h.Walks (block.stops r.setting.hardware) deviceCall := by
  simp only [Walks, Block.stops, Block.device?, Block.inputs, hkind]
  refine .answer_bind block.own_signature fun signature hsignature => ?_
  rw [Block.signature?_of_signature hsignature]
  refine (walk_importSignature signature).first fun _ _ _ => ?_
  refine .answer_bind (block.own_requiredField _) fun device hdevice => ?_
  rw [Block.field?_of_requiredField hdevice]
  refine (Walk.device { className := signature.simpleName, device } signature.className).bind
    fun identifier identifier' hidentifier => ?_
  exact walk_methodCall h hidentifier signature

theorem walk_formattedNumber : h.Takes (sockets ["NUMBER", "PRECISION"]) formattedNumber :=
  (Walk.own (.importKnown _)).first fun _ _ _ => h.callWith _ _

theorem walk_miscValue {misc : MiscBlock} (hkind : block.kind = .misc misc) :
    h.Takes misc.inputs (miscValue · · misc) := by
  cases misc with
  | null => exact .pure (.refl _)
  | isNull | isNotNull => exact (h.operand _).bind_pure _
  | atan2 => exact h.angle
  | formatNumber => exact walk_formattedNumber h
  | roundDecimal => exact (walk_formattedNumber h).bind_pure _
  | addItemToList => simpa only [Takes, Walks, miscValue, Block.inputs, hkind] using h.sharedValue

theorem walk_displayFormatValue : h.Takes [] fun _ block => displayFormatValue block :=
  .answer_bind (block.own_choice _ _) fun _ _ =>
    (Walk.own (.importKnown _)).close fun _ _ _ => .refl _

theorem walk_colorValue : h.Takes (sockets ["COLOR"]) colorValue := by
  refine .answer_bind (ColorProperty.own_of block) fun property _ => ?_
  refine (h.operand "COLOR").andThen fun color color' hcolor => ?_
  split <;> exact (Walk.own (.importKnown _)).close fun _ _ _ hexact => by rw [hcolor hexact]

/-- The device of a block is declared, whether the robot has it or not. -/
theorem walk_deviceField (hkind : block.kind = .deviceGet kind ∨ block.kind = .deviceSet kind) :
    h.Walks ((block.device? r.setting.hardware).toList.map .declare) (deviceField · · kind) := by
  have hdevice : block.device? r.setting.hardware = (block.field? "IDENTIFIER").map
      fun identifier => { className := kind.className,
                          device := (r.setting.hardware.resolve identifier kind).name } := by
    unfold Block.device?
    rcases hkind with hkind | hkind <;> rw [hkind]
  simp only [Walks, deviceField, Render.deviceOf, ← h.hardware_eq, hdevice, bind_assoc]
  refine .answer_bind (block.own_requiredField _) fun identifier hidentifier => ?_
  rw [Block.field?_of_requiredField hidentifier]
  have hresolved : ∀ device : ResolvedDevice, device = r.setting.hardware.resolve identifier kind →
      Walk exact r r' block (block.relinked links)
        [.declare { className := kind.className,
                    device := (r.setting.hardware.resolve identifier kind).name }]
        (do return Expr.name (← Render.declareResolved device))
        (do return Expr.name (← Render.declareResolved device)) := by
    rintro device rfl
    refine Walk.bind_pure ?_ _
    unfold Render.declareResolved
    rw [Hardware.kind_resolve]
    dsimp only
    split
    · exact .device { className := kind.className, device := _ } _
    · exact .throw _ _ rfl
  split
  · rw [bind_assoc]
    refine (Walk.own (.record _)).first fun _ _ _ => ?_
    rw [pure_bind]
    exact hresolved _ rfl
  · rw [pure_bind]
    exact hresolved _ rfl

theorem walk_deviceValue (hkind : block.kind = .deviceGet kind) :
    h.Walks (block.stops r.setting.hardware) (deviceValue · · kind) := by
  rw [Block.stops, show block.inputs = [] by rw [Block.inputs, hkind], asks, List.map_nil,
    List.append_nil]
  exact .answer_bind (DeviceProperty.own_of block kind false) fun _ _ =>
    (walk_deviceField h (.inl hkind)).bind_pure _

theorem walk_deviceSet (hkind : block.kind = .deviceSet kind) :
    h.Walks (block.stops r.setting.hardware) (deviceSet · · kind) := by
  rw [Block.stops, show block.inputs = sockets ["VALUE"] by rw [Block.inputs, hkind]]
  refine .answer_bind (DeviceProperty.own_of block kind true) fun property _ => ?_
  exact .pair _ (walk_deviceField h (.inr hkind)) (h.operand "VALUE")

theorem walk_value (hvalue : ∀ typed, block.kind ≠ .opMode (.sleep typed)) :
    h.Walks (block.stops r.setting.hardware) value := by
  have hshared := h.sharedValue
  have hcall := @walk_deviceCall _ _ _ _ _ h
  have hdevice := @walk_deviceValue _ _ _ _ _ h
  simp only [Takes, Walks, value, Block.stops, Block.inputs, Block.device?]
    at hshared hcall hdevice ⊢
  generalize hkind : block.kind = kind at hshared hcall hdevice ⊢
  cases kind with
  | misc misc => exact walk_miscValue h hkind
  | callStatic returns =>
    cases returns with
    | true => exact walk_staticCall h
    | false => exact hshared
  | callDevice returns =>
    cases returns with
    | true => exact hcall rfl
    | false =>
      simp only [Renderer.sharedValue, hkind]
      exact .throw _ _ rfl
  | telemetry telemetry =>
    cases telemetry with
    | typedEnumDisplayFormat => exact walk_displayFormatValue h
    | _ => exact hshared
  | opMode call =>
    cases call with
    | sleep typed => exact absurd hkind (hvalue typed)
    | _ => exact .pure (.refl _)
  | colorGet typed => exact walk_colorValue h
  | gamepadGet typing => exact .answer (own_gamepadValue block typing)
  | deviceGet kind => exact hdevice rfl
  | deviceSet kind =>
    simp only [Renderer.sharedValue, hkind]
    exact .throw _ _ rfl
  | listsLength | listsIsEmpty => exact (h.operand _).bind_pure _
  | _ => exact hshared

theorem walk_telemetry (hkind : block.kind = .telemetry telemetry) :
    h.Takes telemetry.inputs (Compiled.telemetry · · telemetry) := by
  cases telemetry with
  | addNumericData | addTextData | speakWithLanguage | setDisplayFormat =>
    exact h.callStatement _ _
  | update => exact h.callStatement _ []
  | speak => exact (h.operand _).bind_pure _
  | typedEnumDisplayFormat =>
    simpa only [Takes, Walks, Compiled.telemetry, Block.inputs, hkind] using h.sharedStatement

theorem walk_addItem : h.Takes (sockets ["LIST", "ITEM"]) addItem :=
  .pair _ (h.operand "LIST") (h.operand "ITEM")

theorem walk_statement : h.Walks (block.stops r.setting.hardware) statement := by
  have hshared := h.sharedStatement
  have hcall := @walk_deviceCall _ _ _ _ _ h
  have hset := @walk_deviceSet _ _ _ _ _ h
  simp only [Takes, Walks, statement, Block.stops, Block.inputs, Block.device?]
    at hshared hcall hset ⊢
  generalize hkind : block.kind = kind at hshared hcall hset ⊢
  cases kind with
  | comment => exact .pure (.refl _)
  | misc misc =>
    cases misc with
    | addItemToList => exact walk_addItem h
    | _ => exact hshared
  | callStatic returns =>
    cases returns with
    | true => exact hshared
    | false => exact (walk_staticCall h).bind_pure _
  | callDevice returns =>
    cases returns with
    | true =>
      simp only [Renderer.sharedStatement, hkind]
      exact .throw _ _ rfl
    | false => exact (hcall rfl).bind_pure _
  | telemetry telemetry => exact walk_telemetry h hkind
  | opMode call =>
    cases call with
    | sleep typed => exact h.callStatement _ ["MILLISECONDS"]
    | _ => exact h.callStatement _ []
  | deviceSet kind => exact hset rfl
  | deviceGet kind =>
    simp only [Renderer.sharedStatement, hkind]
    exact .throw _ _ rfl
  | _ => exact hshared

theorem walk_result (hkind : block.kind = .procedureDef returns) (name : String) :
    h.Takes (if returns then [.socket "RETURN"] else []) (result · · name) := by
  simp only [Takes, Walks, result, hkind]
  cases returns with
  | true =>
    refine h.returnStatement.andThen fun last last' hlast => ?_
    refine .look fun draft draft' hdraft => ?_
    have htype : Agree exact (draft.types.resultType name) (draft'.types.resultType name) :=
      fun hexact => by rw [(hdraft hexact).types_eq]
    exact (Walk.importIfKnown htype).close fun _ _ _ hexact => by rw [htype hexact, hlast hexact]
  | false => exact .pure (.refl _)

theorem walk_method (hkind : block.kind = .procedureDef returns) : h.Takes block.inputs method := by
  simp only [Takes, Walks, Block.inputs, hkind]
  refine .answer_bind block.own_procedureName fun name _ => ?_
  refine (Walk.procedureIdentifier name).first fun identifier identifier' hidentifier => ?_
  refine (Walk.mapM_own block.procedureArguments walk_parameter).first
    fun parameters parameters' hparameters => ?_
  refine (h.slot "STACK").bind fun body body' hbody => ?_
  exact (walk_result h hkind name).close fun result result' hresult hexact => by
    rw [hidentifier hexact, hparameters hexact, hbody hexact, hresult hexact]

end Compiled

/-! ## All blocks -/

/-- What the rendering of a block comes to: in classes its device, then its inputs. -/
def Setting.stops (setting : Setting) (block : Block) : List Stop :=
  match setting.target with
  | .javaScript => asks block.inputs
  | .java => block.stops setting.hardware

namespace Renderer.Aligned

variable (h : r.Aligned exact r' block links)

theorem renderValue (hvalue : ∀ typed, block.kind ≠ .opMode (.sleep typed)) :
    h.Walks (r.setting.stops block) (·.renderValue ·) := by
  simp only [Walks, Renderer.renderValue, Setting.stops, ← h.target_eq]
  cases r.setting.target with
  | javaScript => exact Script.walk_value h hvalue
  | java => exact Compiled.walk_value h hvalue

theorem renderStatement : h.Walks (r.setting.stops block) (·.renderStatement ·) := by
  simp only [Walks, Renderer.renderStatement, Setting.stops, ← h.target_eq]
  by_cases hstatement : block.shape.isStatement = true
  · rw [if_pos hstatement, if_pos hstatement]
    cases r.setting.target with
    | javaScript => exact Script.walk_statement h
    | java => exact Compiled.walk_statement h
  · rw [if_neg hstatement, if_neg hstatement]
    exact .throw _ _ rfl

end Renderer.Aligned

end RobotBlocks
