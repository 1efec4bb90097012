import Mathlib.Logic.Function.Iterate
import RobotBlocks.Proofs.Block.Inputs
import RobotBlocks.Proofs.Block.Signatures

/-!
# Shapes of mutated blocks

`BlockKind.shapeWith` tells the shape of a block by its kind and its mutation: the static sockets and
slots, and what the mutation adds behind them. Whether the arguments of a procedure get sockets is
asked of the kind there, and the checks and types of a call are those of its class types.

A block whose mutation was read for its kind gets that shape (`mutated_shape_is_described`), however
often the mutation is applied. No two of its sockets have the same name, and no two of its slots: the
names that are added carry different numbers, and none of them is one of the static names.
-/

set_option autoImplicit false

namespace RobotBlocks

open List
open ClassType (resolve)

/-- The sockets of a call by the class types of its parameters: one for each parameter without a
supplied argument, with the number of its place. -/
def CallSignature.openSockets (signature : CallSignature) : List Socket :=
  (signature.parameters.zipIdx.filter fun place => place.1.supplied.isNone).map fun place =>
    { name := "ARG" ++ toString place.2
      check := (resolve place.1.classType .input).check
      declared := some (resolve place.1.classType .input).label }

/-- The value that a call gives by the class type of its result. -/
def CallSignature.resultOutput (signature : CallSignature) : Output :=
  .value (resolve signature.returnType .output).check
    (some (resolve signature.returnType .output).label)

/-- The shape of a kind with a mutation, if it is one that the kind takes. -/
def BlockKind.shapeWith (kind : BlockKind) (mutation : Mutation) : Option Shape :=
  let static := Shape.ofKind kind
  match kind, mutation with
  | .callStatic returns, .call signature | .callDevice returns, .call signature =>
    some { static with
      sockets := static.sockets ++ signature.openSockets
      output :=
        if returns ∧ signature.returnType ≠ "void" then signature.resultOutput else static.output }
  | .controlsIf, .branches elseIf hasElse =>
    some { static with
      sockets := static.sockets ++
        (List.range elseIf).map fun i => ⟨"IF" ++ toString (i + 1), .boolean, none⟩
      slots := static.slots ++ ((List.range elseIf).map fun i => "DO" ++ toString (i + 1)) ++
        if hasElse then ["ELSE"] else [] }
  | .textJoin, .items count | .listsCreateWith, .items count =>
    some { static with
      sockets := static.sockets ++
        (List.range count).map fun i => ⟨"ADD" ++ toString i, .any, none⟩ }
  | .procedureDef _, .procedure _ _ => some static
  | .procedureCall _, .procedure _ arguments =>
    some { static with
      sockets := static.sockets ++
        (List.range arguments.length).map fun i => ⟨"ARG" ++ toString i, .any, none⟩ }
  | _, _ => none

/-! ## Different names -/

theorem nodup_numberedNames (stem : String) {numbers : List Nat} (h : numbers.Nodup) :
    (numbers.map fun i => stem ++ toString i).Nodup :=
  h.map (NameTable.append_toString_injective stem)

/-- The names of the sockets of a call have the numbers of different parameters. -/
theorem CallSignature.nodup_openSockets (signature : CallSignature) :
    (signature.openSockets.map Socket.name).Nodup := by
  have hnames : signature.openSockets.map Socket.name =
      ((signature.parameters.zipIdx.filter fun place => place.1.supplied.isNone).map Prod.snd).map
        fun i => "ARG" ++ toString i := by
    simp only [openSockets, map_map]
    rfl
  have hnumbers : (signature.parameters.zipIdx.map Prod.snd).Nodup := by
    rw [zipIdx_map_snd]
    exact nodup_range'
  rw [hnames]
  exact nodup_numberedNames "ARG" (hnumbers.sublist (filter_sublist.map Prod.snd))

/-- Names numbered from one on go on where the static name with a zero left off. -/
theorem map_range_succ_eq (stem : String) (count : Nat) :
    (stem ++ toString 0) :: (List.range count).map (fun i => stem ++ toString (i + 1)) =
      (List.range (count + 1)).map fun i => stem ++ toString i := by
  rw [range_succ_eq_map, map_cons, map_map]
  rfl

theorem nodup_branchNames (stem : String) (count : Nat) :
    ((stem ++ toString 0) :: (List.range count).map fun i => stem ++ toString (i + 1)).Nodup := by
  rw [map_range_succ_eq]
  exact nodup_numberedNames stem nodup_range

/-- The slot of the last branch has no number, so that it differs from all others. -/
theorem nodup_branchSlots (count : Nat) (hasElse : Bool) :
    ((("DO" ++ toString 0) :: (List.range count).map fun i => "DO" ++ toString (i + 1)) ++
      if hasElse then ["ELSE"] else []).Nodup := by
  have hnames := nodup_branchNames "DO" count
  cases hasElse with
  | false =>
    rw [if_neg Bool.false_ne_true, append_nil]
    exact hnames
  | true =>
    rw [if_pos rfl, ← concat_eq_append, nodup_concat]
    refine ⟨?_, hnames⟩
    rw [map_range_succ_eq, mem_map]
    rintro ⟨i, -, heq⟩
    have hchars := congrArg String.toList heq
    simp at hchars

variable {kind : BlockKind}

/-- A call of a method has no sockets or slots but those of its parameters. -/
theorem Shape.ofKind_of_isCall (h : kind.isCall = true) :
    (Shape.ofKind kind).sockets = [] ∧ (Shape.ofKind kind).slots = [] := by
  cases kind with
  | callStatic returns | callDevice returns => cases returns <;> exact ⟨rfl, rfl⟩
  | _ => cases h

variable {mutation : Mutation}

/-- No two sockets of a kind with a mutation have the same name, and no two slots. -/
theorem BlockKind.nodup_shapeWith (hfits : mutation.Fits kind) {shape : Shape}
    (h : kind.shapeWith mutation = some shape) :
    (shape.sockets.map Socket.name).Nodup ∧ shape.slots.Nodup := by
  cases mutation with
  | call signature =>
    obtain ⟨hsockets, hslots⟩ := Shape.ofKind_of_isCall hfits
    cases kind with
    | callStatic returns | callDevice returns =>
      cases h
      simp only [hsockets, hslots, nil_append]
      exact ⟨signature.nodup_openSockets, nodup_nil⟩
    | _ => cases hfits
  | branches elseIf hasElse =>
    obtain rfl : kind = .controlsIf := hfits
    cases h
    refine ⟨?_, nodup_branchSlots elseIf hasElse⟩
    rw [map_append, map_map]
    exact nodup_branchNames "IF" elseIf
  | items count =>
    have hnames := nodup_numberedNames "ADD" (nodup_range (n := count))
    rcases hfits with rfl | rfl <;>
    · cases h
      rw [map_append, map_map]
      exact ⟨hnames, nodup_nil⟩
  | procedure name arguments =>
    obtain ⟨returns, rfl | rfl⟩ := hfits
    · cases h
      cases returns <;> decide
    · cases h
      have hnames := nodup_numberedNames "ARG" (nodup_range (n := arguments.length))
      rw [map_append, map_map]
      cases returns <;> exact ⟨hnames, nodup_nil⟩

/-! ## Shapes that are described -/

/-- The parameters of a call carry what follows from their class types. -/
def Mutation.Resolved : Mutation → Prop
  | .call signature => ∀ parameter ∈ signature.parameters,
      parameter.resolved = resolve parameter.classType .input
  | _ => True

namespace CallSignature

theorem resolved_of_decode {attributes fields : Dict String} {signature : CallSignature}
    (h : decode attributes fields = .ok signature) : (Mutation.call signature).Resolved := by
  unfold decode at h
  obtain ⟨lookup, -, h⟩ := Known.bind_eq_ok_iff.1 h
  obtain ⟨returnType, -, h⟩ := Known.bind_eq_ok_iff.1 h
  obtain ⟨count, -, h⟩ := Known.bind_eq_ok_iff.1 h
  obtain ⟨parameters, hparameters, h⟩ := Known.bind_eq_ok_iff.1 h
  cases h
  intro parameter hparameter
  obtain ⟨i, hi⟩ := mem_iff_getElem?.1 hparameter
  exact ((decodeParameters_eq_ok_iff.1 hparameters).2 i parameter hi).resolved

end CallSignature

namespace Mutation

theorem resolved_of_decode {element : Xml.Element} {fields : Dict String}
    (h : decode kind element fields = .ok mutation) : mutation.Resolved := by
  have hfits := fits_of_decode h
  cases mutation with
  | call signature =>
    have hdecode : CallSignature.decode element.attributes fields = .ok signature := by
      cases kind with
      | callStatic returns | callDevice returns =>
        cases hsignature : CallSignature.decode element.attributes fields with
        | error fault => simp [decode, hsignature, Except.map] at h
        | ok found => simpa [decode, hsignature, Except.map] using h
      | _ => cases hfits
    exact CallSignature.resolved_of_decode hdecode
  | _ => trivial

/-- The sockets for parameters from a place on, picked by their places. -/
theorem parameterSockets_eq (parameters : List CallParameter) (index : Nat)
    (h : ∀ parameter ∈ parameters, parameter.resolved = resolve parameter.classType .input) :
    parameterSockets index parameters =
      ((parameters.zipIdx index).filter fun place => place.1.supplied.isNone).map fun place =>
        { name := "ARG" ++ toString place.2
          check := (resolve place.1.classType .input).check
          declared := some (resolve place.1.classType .input).label } := by
  induction parameters generalizing index with
  | nil => rfl
  | cons parameter rest ih =>
    have hrest := ih (index + 1) (forall_mem_cons.1 h).2
    rw [parameterSockets, zipIdx_cons]
    cases hsupplied : parameter.supplied with
    | none => simp [hsupplied, hrest, h parameter mem_cons_self]
    | some code => simp [hsupplied, hrest]

theorem numberedSockets_eq (stem : String) (first count : Nat) (check : Check) :
    numberedSockets stem first count check =
      (List.range count).map fun i => ⟨stem ++ toString (first + i), check, none⟩ := by
  unfold numberedSockets
  rw [range'_eq_map_range, map_map]
  rfl

theorem callOutput_eq (signature : CallSignature) (returns : Bool) :
    callOutput (Shape.ofKind (.callStatic returns)).output signature.result? =
      if returns ∧ signature.returnType ≠ "void" then signature.resultOutput
      else (Shape.ofKind (.callStatic returns)).output := by
  cases returns with
  | false => simp [callOutput, Shape.ofKind, Shape.doing]
  | true =>
    by_cases hvoid : signature.returnType = "void"
    · simp [CallSignature.result?, hvoid, callOutput]
    · simp [CallSignature.result?, hvoid, callOutput, Shape.ofKind, Shape.giving,
        CallSignature.resultOutput]

/-- A mutation of a kind extends the static shape to the one that is described. -/
theorem shapeWith_eq_extend (hfits : mutation.Fits kind) (hresolved : mutation.Resolved) :
    kind.shapeWith mutation = some (mutation.extend (Shape.ofKind kind)) := by
  cases mutation with
  | call signature =>
    have hsockets : signature.openSockets = parameterSockets 0 signature.parameters :=
      (parameterSockets_eq signature.parameters 0 hresolved).symm
    cases kind with
    | callStatic returns | callDevice returns =>
      simp only [BlockKind.shapeWith, extend, hsockets]
      exact congrArg some (congrArg (Shape.mk _ _) (callOutput_eq signature returns).symm)
    | _ => cases hfits
  | branches elseIf hasElse =>
    obtain rfl : kind = .controlsIf := hfits
    simp only [BlockKind.shapeWith, extend, numberedSockets_eq, range'_eq_map_range,
      map_map, Nat.add_comm 1]
    rfl
  | items count =>
    rcases hfits with rfl | rfl <;>
      simp only [BlockKind.shapeWith, extend, numberedSockets_eq, Nat.zero_add]
  | procedure name arguments =>
    obtain ⟨returns, rfl | rfl⟩ := hfits
    · rfl
    · cases returns <;>
        simp only [BlockKind.shapeWith, extend, numberedSockets_eq, Nat.zero_add] <;> rfl

end Mutation

/-- A mutation that was applied is applied again without any effect. -/
theorem Block.applyMutation_applyMutation (block : Block) :
    block.applyMutation.applyMutation = block.applyMutation := rfl

/-- A block whose mutation was read for its kind has, as soon as the mutation is applied, the shape
that kind and mutation describe. The names of its sockets are different, and so are those of its
slots, and to apply the mutation again any number of times changes nothing. -/
theorem mutated_shape_is_described (block : Block) {element : Xml.Element} {fields : Dict String}
    {mutation : Mutation} (hdecode : Mutation.decode block.kind element fields = .ok mutation) :
    let mutated := Block.applyMutation { block with mutation := some mutation }
    (mutated.shape.sockets.map Socket.name).Nodup ∧ mutated.shape.slots.Nodup ∧
      block.kind.shapeWith mutation = some mutated.shape ∧
      ∀ times, Block.applyMutation^[times] mutated = mutated := by
  have hfits := Mutation.fits_of_decode hdecode
  have hshape : block.kind.shapeWith mutation =
      some (Block.applyMutation { block with mutation := some mutation }).shape :=
    Mutation.shapeWith_eq_extend hfits (Mutation.resolved_of_decode hdecode)
  obtain ⟨hsockets, hslots⟩ := BlockKind.nodup_shapeWith hfits hshape
  exact ⟨hsockets, hslots, hshape, fun times =>
    Function.iterate_fixed (Block.applyMutation_applyMutation _) times⟩

/-! ## A call with a supplied argument -/

namespace ScaleSample

def signature : CallSignature where
  lookup := "scale"
  returnType := "int"
  comment := ""
  accessMethod := "callJava_String"
  conversion := "Number"
  className := "org.firstinspires.ftc.teamcode.Helpers"
  simpleName := "Helpers"
  parameters :=
    [⟨"com.qualcomm.robotcore.hardware.HardwareMap", some "hardwareMap",
        resolve "com.qualcomm.robotcore.hardware.HardwareMap" .input⟩,
      ⟨"double", none, resolve "double" .input⟩,
      ⟨"float", none, resolve "float" .input⟩]

def element : Xml.Element where
  name := "mutation"
  attributes := Dict.ofList [("methodLookupString", "scale"), ("parameterCount", "3"),
    ("returnType", "int"),
    ("argType0", "com.qualcomm.robotcore.hardware.HardwareMap"), ("argAuto0", "hardwareMap"),
    ("argType1", "double"), ("argAuto1", ""), ("argType2", "float")]
  text := ""
  children := []

def call : Block := { id := "c", typeName := "misc_callJava_return", kind := .callStatic true }

theorem decode_element :
    Mutation.decode call.kind element (Dict.ofList [("CLASS_NAME", "Helpers")]) =
      .ok (.call signature) := by
  rfl

/-- The supplied argument has no socket, the other two keep the numbers of their places, and the
result is a number. -/
theorem scale_has_two_sockets :
    let mutated := Block.applyMutation { call with mutation := some (.call signature) }
    Mutation.decode call.kind element (Dict.ofList [("CLASS_NAME", "Helpers")]) =
        .ok (.call signature) ∧
      mutated.shape = ⟨[⟨"ARG1", .number, some "double"⟩, ⟨"ARG2", .number, some "float"⟩], [],
        .value .number (some "int")⟩ ∧
      (mutated.shape.sockets.map Socket.name).Nodup ∧
      ∀ times, Block.applyMutation^[times] mutated = mutated := by
  obtain ⟨hsockets, -, hshape, htimes⟩ := mutated_shape_is_described call decode_element
  refine ⟨decode_element, ?_, hsockets, htimes⟩
  apply Option.some.inj
  rw [← hshape]
  rfl

end ScaleSample

end RobotBlocks
