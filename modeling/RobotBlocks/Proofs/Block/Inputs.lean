import RobotBlocks.Proofs.Program.Shapes
import RobotBlocks.Render.Statement

/-!
# The inputs of a block

A block takes other blocks in its sockets and slots. `Block.inputs` lists them by the kind of the
block, in the order in which rendering comes to them, and says nothing about the shape. The shape is
put together elsewhere, from a table and the mutation. For a block with a mutation of its kind the
two agree (`Block.mem_inputs_iff`), whatever numbers of branches, items and parameters there are.
-/

set_option autoImplicit false

namespace RobotBlocks

open List

/-- Where a block takes other blocks. -/
inductive Input where
  | socket (name : String)
  | slot (name : String)
  deriving DecidableEq, Repr

namespace Input

def sockets (names : List String) : List Input := names.map socket

/-- Sockets with consecutive numbers from zero on. -/
def numbered (stem : String) (count : Nat) : List Input :=
  (List.range count).map fun index => socket (stem ++ toString index)

/-- The socket of a parameter, which has none if its argument is supplied. -/
def ofParameter (parameter : CallParameter × Nat) : List Input :=
  if parameter.1.supplied.isSome then [] else [socket ("ARG" ++ toString parameter.2)]

/-- The condition and the body of a branch. -/
def branch (index : Nat) : List Input :=
  [socket ("IF" ++ toString index), slot ("DO" ++ toString index)]

end Input

open Input (sockets numbered)

def MiscBlock.inputs : MiscBlock → List Input
  | null => []
  | isNull | isNotNull => sockets ["VALUE"]
  | atan2 => sockets ["Y", "X"]
  | formatNumber | roundDecimal => sockets ["NUMBER", "PRECISION"]
  | addItemToList => sockets ["LIST", "ITEM"]

def TelemetryBlock.inputs : TelemetryBlock → List Input
  | addNumericData _ => sockets ["KEY", "NUMBER"]
  | addTextData _ => sockets ["KEY", "TEXT"]
  | speak => sockets ["TEXT"]
  | speakWithLanguage => sockets ["TEXT", "LANGUAGE_CODE", "COUNTRY_CODE"]
  | setDisplayFormat => sockets ["DISPLAY_FORMAT"]
  | update | typedEnumDisplayFormat => []

def OpModeCall.inputs : OpModeCall → List Input
  | sleep _ => sockets ["MILLISECONDS"]
  | _ => []

/-- The inputs of a block in the order in which they are rendered. -/
def Block.inputs (block : Block) : List Input :=
  match block.kind with
  | .mathArithmetic | .logicCompare | .logicOperation => sockets ["A", "B"]
  | .mathSingle => sockets ["NUM"]
  | .logicNegate => sockets ["BOOL"]
  | .logicTernary => sockets ["IF", "THEN", "ELSE"]
  | .textJoin | .listsCreateWith => numbered "ADD" block.itemCount
  | .listsLength | .listsIsEmpty | .variablesSet | .deviceSet _ => sockets ["VALUE"]
  | .controlsIf =>
    (List.range (Renderer.branchCount block.shape)).flatMap Input.branch ++
      if block.shape.slots.contains "ELSE" then [.slot "ELSE"] else []
  | .controlsWhileUntil => [.socket "BOOL", .slot "DO"]
  | .controlsRepeat => [.socket "TIMES", .slot "DO"]
  | .procedureDef returns => .slot "STACK" :: if returns then [.socket "RETURN"] else []
  | .procedureCall _ => numbered "ARG" block.procedureArguments.length
  | .callStatic _ | .callDevice _ =>
    ((block.signature?.map CallSignature.parameters).getD []).zipIdx.flatMap Input.ofParameter
  | .misc misc => misc.inputs
  | .telemetry telemetry => telemetry.inputs
  | .opMode call => call.inputs
  | .colorGet _ => sockets ["COLOR"]
  | .mathNumber | .logicBoolean | .logicNull | .text | .variablesGet | .controlsFlow | .comment
  | .gamepadGet _ | .deviceGet _ => []

/-- A shape has a place for an input. -/
def Shape.Takes (shape : Shape) : Input → Prop
  | .socket name => name ∈ shape.sockets.map Socket.name
  | .slot name => name ∈ shape.slots

instance Shape.decidableTakes (shape : Shape) : (input : Input) → Decidable (shape.Takes input)
  | .socket name => inferInstanceAs (Decidable (name ∈ shape.sockets.map Socket.name))
  | .slot name => inferInstanceAs (Decidable (name ∈ shape.slots))

/-- A block has the shape that its kind and its mutation give it, and its mutation, if it has one, was
read for its kind. -/
structure Block.Decoded (block : Block) : Prop where
  applyMutation_eq : block.applyMutation = block
  decoded (mutation : Mutation) : block.mutation = some mutation →
    ∃ element fields, Mutation.decode block.kind element fields = .ok mutation

/-! ## Mutations that fit their kinds -/

/-- What a mutation of a kind looks like. -/
def Mutation.Fits (kind : BlockKind) : Mutation → Prop
  | .call _ => kind.isCall = true
  | .branches _ _ => kind = .controlsIf
  | .items _ => kind = .textJoin ∨ kind = .listsCreateWith
  | .procedure _ _ => ∃ returns, kind = .procedureDef returns ∨ kind = .procedureCall returns

variable {mutation : Mutation}

/-- A decoded mutation fits the kind that it is decoded for. -/
theorem Mutation.fits_of_decode {kind : BlockKind} {element : Xml.Element} {fields : Dict String}
    (h : decode kind element fields = .ok mutation) : mutation.Fits kind := by
  unfold decode at h
  cases kind with
  | callStatic returns | callDevice returns =>
    cases hsignature : CallSignature.decode element.attributes fields with
    | error fault => simp [hsignature, Except.map] at h
    | ok signature =>
      obtain rfl : call signature = mutation := by simpa [hsignature, Except.map] using h
      rfl
  | controlsIf =>
    obtain ⟨elseIf, -, h⟩ := Known.bind_eq_ok_iff.1 h
    obtain ⟨elses, -, h⟩ := Known.bind_eq_ok_iff.1 h
    cases h
    rfl
  | textJoin | listsCreateWith =>
    cases hcount : countAttribute element.attributes "items" with
    | error fault => simp [hcount, Except.map] at h
    | ok count =>
      obtain rfl : items count = mutation := by simpa [hcount, Except.map] using h
      simp [Fits]
  | procedureDef returns | procedureCall returns =>
    cases h
    exact ⟨returns, by simp⟩
  | _ => cases h

namespace Block.Decoded

variable {block : Block}

theorem fits (h : block.Decoded) (hmutation : block.mutation = some mutation) :
    mutation.Fits block.kind := by
  obtain ⟨element, fields, hdecode⟩ := h.decoded mutation hmutation
  exact Mutation.fits_of_decode hdecode

theorem shape_eq (h : block.Decoded) : block.shape = match block.mutation with
    | some mutation => mutation.extend (Shape.ofKind block.kind)
    | none => Shape.ofKind block.kind := by
  have happly : block.applyMutation.shape = block.shape := by rw [h.applyMutation_eq]
  rw [← happly]
  rfl

theorem shaped (h : block.Decoded) : block.Shaped := by
  refine ⟨h.applyMutation_eq, fun htakes => ?_⟩
  cases hmutation : block.mutation with
  | none => rfl
  | some mutation =>
    have hfits := h.fits hmutation
    cases mutation with
    | call =>
      cases hkind : block.kind <;>
        simp_all [Mutation.Fits, BlockKind.isCall, BlockKind.takesMutation]
    | branches => simp_all [Mutation.Fits, BlockKind.takesMutation]
    | items => rcases hfits with hkind | hkind <;> simp_all [BlockKind.takesMutation]
    | procedure =>
      obtain ⟨returns, hkind | hkind⟩ := hfits <;> simp_all [BlockKind.takesMutation]

end Block.Decoded

/-! ## Inputs and shapes -/

variable {shape : Shape}

theorem Shape.isStatement_eq_false_of_outputCheck? {found : Check}
    (h : shape.outputCheck? = some found) : shape.isStatement = false := by
  cases houtput : shape.output <;> simp_all [Shape.outputCheck?, Shape.isStatement]

variable {names : List String}

namespace Input

@[simp] theorem mem_sockets {input : Input} :
    input ∈ sockets names ↔ ∃ name ∈ names, input = socket name := by
  simp only [sockets, mem_map, eq_comm]

theorem numbered_eq (stem : String) (count : Nat) (check : Check) :
    numbered stem count =
      sockets ((Mutation.numberedSockets stem 0 count check).map Socket.name) := by
  unfold numbered sockets Mutation.numberedSockets
  rw [range_eq_range', map_map, map_map]
  rfl

theorem flatMap_ofParameter_eq (parameters : List CallParameter) (index : Nat) :
    (parameters.zipIdx index).flatMap ofParameter =
      sockets ((Mutation.parameterSockets index parameters).map Socket.name) := by
  induction parameters generalizing index with
  | nil => rfl
  | cons parameter rest ih =>
    rw [zipIdx_cons, flatMap_cons, ih, Mutation.parameterSockets, ofParameter]
    dsimp only
    split <;> rfl

end Input

/-- A block with branches numbered from zero on has as many as it has sockets. -/
theorem Renderer.branchCount_eq {count : Nat}
    (h : shape.sockets.map Socket.name = (List.range count).map fun index => "IF" ++ toString index) :
    branchCount shape = count := by
  have hlength : shape.sockets.length = count := by simpa using congrArg List.length h
  have hfound : ∀ index ∈ List.range count,
      (shape.socket? ("IF" ++ toString index)).isSome = true := by
    intro index hindex
    have hmem : "IF" ++ toString index ∈ shape.sockets.map Socket.name := by
      rw [h]
      exact mem_map_of_mem hindex
    obtain ⟨socket, hsocket, hname⟩ := mem_map.1 hmem
    unfold Shape.socket?
    rw [find?_isSome]
    exact ⟨socket, hsocket, by simpa using hname⟩
  unfold branchCount
  rw [hlength, takeWhile_eq_self_iff.2 hfound, length_range]

/-- Numbered branches, with or without a last one, are what a shape with their names takes. -/
theorem Shape.takes_iff_of_branches {count : Nat} {last : List String}
    (hsockets : shape.sockets.map Socket.name =
      (List.range count).map fun index => "IF" ++ toString index)
    (hslots : shape.slots = ((List.range count).map fun index => "DO" ++ toString index) ++ last)
    (hlast : last = [] ∨ last = ["ELSE"]) (input : Input) :
    (input ∈ (List.range (Renderer.branchCount shape)).flatMap Input.branch ++
      if shape.slots.contains "ELSE" then [.slot "ELSE"] else []) ↔ shape.Takes input := by
  have hnot : ∀ index : Nat, "DO" ++ toString index ≠ "ELSE" := by
    intro index heq
    have hchars := congrArg String.toList heq
    simp at hchars
  have helse : (if shape.slots.contains "ELSE" then [Input.slot "ELSE"] else []) =
      last.map Input.slot := by
    rw [hslots]
    rcases hlast with rfl | rfl
    · simpa using fun index _ => hnot index
    · simp
  rw [helse, Renderer.branchCount_eq hsockets]
  cases input with
  | socket name => simp [Takes, hsockets, Input.branch, eq_comm]
  | slot name => simp [Takes, hslots, Input.branch, eq_comm]

open Shape

namespace Block

variable {block : Block}

/-- The inputs of a block of a kind without mutations are those of the table of shapes. -/
theorem mem_inputs_iff_of_fixed (hkind : block.kind.takesMutation = false) (input : Input) :
    input ∈ block.inputs ↔ (ofKind block.kind).Takes input := by
  unfold inputs
  cases hblock : block.kind with
  | misc misc =>
    cases misc <;> cases input <;>
      simp [MiscBlock.inputs, Takes, ofKind, ofMisc, taking, giving, doing, numeric, or_comm]
  | telemetry telemetry =>
    cases telemetry with
    | addNumericData typed =>
      cases typed <;> cases input <;>
        simp [TelemetryBlock.inputs, Takes, ofKind, ofTelemetry, doing, numeric]
    | _ =>
      cases input <;>
        simp [TelemetryBlock.inputs, Takes, ofKind, ofTelemetry, doing, giving]
  | opMode call =>
    cases call with
    | sleep typed | getRuntime typed =>
      cases typed <;> cases input <;>
        simp [OpModeCall.inputs, Takes, ofKind, ofOpMode, doing, giving, numeric]
    | _ =>
      cases input <;>
        simp [OpModeCall.inputs, Takes, ofKind, ofOpMode, doing, giving]
  | colorGet typed =>
    cases typed <;> cases input <;>
      simp [Takes, ofKind, taking, numeric]
  | gamepadGet typing =>
    cases typing <;> cases input <;> simp [Takes, ofKind, giving]
  | deviceGet device =>
    cases device <;> cases input <;> simp [Takes, ofKind, giving]
  | textJoin | listsCreateWith | controlsIf | procedureDef | procedureCall | callStatic
  | callDevice => simp [hblock, BlockKind.takesMutation] at hkind
  | _ =>
    cases input <;> simp [Takes, ofKind, taking, giving, doing]

/-- The inputs of a block without slots are its sockets. -/
theorem mem_sockets_iff (hsockets : shape.sockets.map Socket.name = names)
    (hslots : shape.slots = []) (input : Input) :
    input ∈ Input.sockets names ↔ shape.Takes input := by
  subst hsockets
  cases input <;> simp [Takes, hslots]

section

variable (h : block.Decoded)

include h

theorem mem_items_iff (hkind : block.kind = .textJoin ∨ block.kind = .listsCreateWith)
    (input : Input) : input ∈ Input.numbered "ADD" block.itemCount ↔ block.shape.Takes input := by
  have hown : (ofKind block.kind).sockets = [] ∧ (ofKind block.kind).slots = [] := by
    rcases hkind with hkind | hkind <;> rw [hkind] <;> exact ⟨rfl, rfl⟩
  rw [Input.numbered_eq _ _ .any]
  have hshape := h.shape_eq
  cases hmutation : block.mutation with
  | none =>
    rw [hmutation] at hshape
    refine mem_sockets_iff ?_ (hshape ▸ hown.2) input
    simp [hshape, hown.1, itemCount, hmutation, Mutation.numberedSockets]
  | some mutation =>
    have hfits := h.fits hmutation
    rw [hmutation] at hshape
    cases mutation with
    | items count =>
      refine mem_sockets_iff ?_ (hshape ▸ hown.2) input
      simp [hshape, hown.1, itemCount, hmutation, Mutation.extend]
    | _ => rcases hkind with hkind | hkind <;> simp [Mutation.Fits, BlockKind.isCall, hkind] at hfits

theorem mem_arguments_iff {returns : Bool} (hkind : block.kind = .procedureCall returns)
    (input : Input) :
    input ∈ Input.numbered "ARG" block.procedureArguments.length ↔ block.shape.Takes input := by
  have hown : (ofKind block.kind).sockets = [] ∧ (ofKind block.kind).slots = [] := by
    rw [hkind]
    cases returns <;> exact ⟨rfl, rfl⟩
  rw [Input.numbered_eq _ _ .any]
  have hshape := h.shape_eq
  cases hmutation : block.mutation with
  | none =>
    rw [hmutation] at hshape
    refine mem_sockets_iff ?_ (hshape ▸ hown.2) input
    simp [hshape, hown.1, procedureArguments, hmutation, Mutation.numberedSockets]
  | some mutation =>
    have hfits := h.fits hmutation
    rw [hmutation] at hshape
    cases mutation with
    | procedure name arguments =>
      refine mem_sockets_iff ?_ ?_ input
      · simp [hshape, hown.1, hown.2, procedureArguments, hmutation, Mutation.extend]
      · simp [hshape, hown.2, Mutation.extend]
    | _ => simp [Mutation.Fits, BlockKind.isCall, hkind] at hfits

/-- The inputs of a call of a method are the parameters that are not supplied. -/
theorem mem_parameters_iff (hkind : block.kind.isCall = true) (input : Input) :
    input ∈ ((block.signature?.map CallSignature.parameters).getD []).zipIdx.flatMap
      Input.ofParameter ↔ block.shape.Takes input := by
  have hown : (ofKind block.kind).sockets = [] ∧ (ofKind block.kind).slots = [] := by
    cases hcall : block.kind with
    | callStatic returns | callDevice returns => cases returns <;> exact ⟨rfl, rfl⟩
    | _ => simp [hcall, BlockKind.isCall] at hkind
  rw [Input.flatMap_ofParameter_eq]
  have hshape := h.shape_eq
  cases hmutation : block.mutation with
  | none =>
    rw [hmutation] at hshape
    refine mem_sockets_iff ?_ (hshape ▸ hown.2) input
    simp [hshape, hown.1, signature?, hmutation, Mutation.parameterSockets]
  | some mutation =>
    have hfits := h.fits hmutation
    rw [hmutation] at hshape
    cases mutation with
    | call signature =>
      refine mem_sockets_iff ?_ (hshape ▸ hown.2) input
      simp [hshape, hown.1, signature?, hmutation, Mutation.extend]
    | branches => rw [show block.kind = _ from hfits] at hkind; cases hkind
    | items => rcases hfits with hfits | hfits <;> rw [hfits] at hkind <;> cases hkind
    | procedure =>
      obtain ⟨returns, hfits | hfits⟩ := hfits <;> rw [hfits] at hkind <;> cases hkind

/-- The inputs of a branching are its conditions and slots. -/
theorem mem_branching_iff (hkind : block.kind = .controlsIf) (input : Input) :
    (input ∈ (List.range (Renderer.branchCount block.shape)).flatMap Input.branch ++
      if block.shape.slots.contains "ELSE" then [.slot "ELSE"] else []) ↔
        block.shape.Takes input := by
  have hshape := h.shape_eq
  rw [hkind] at hshape
  cases hmutation : block.mutation with
  | none =>
    rw [hmutation] at hshape
    refine @takes_iff_of_branches block.shape 1 [] ?_ ?_ (.inl rfl) input
    all_goals
      rw [hshape]
      rfl
  | some mutation =>
    have hfits := h.fits hmutation
    cases mutation with
    | branches elseIf hasElse =>
      rw [hmutation] at hshape
      have hnames : ∀ stem : String,
          (List.range (elseIf + 1)).map (fun index => stem ++ toString index) =
            (stem ++ toString 0) :: (List.range' 1 elseIf).map fun index => stem ++ toString index := by
        intro stem
        rw [range_eq_range', range'_succ, map_cons]
      refine @takes_iff_of_branches block.shape (elseIf + 1)
        (if hasElse then ["ELSE"] else []) ?_ ?_ (by cases hasElse <;> simp) input
      · rw [hshape, hnames "IF"]
        simp only [Mutation.extend, ofKind, doing, Mutation.numberedSockets,
          singleton_append, map_cons, map_map]
        rfl
      · rw [hshape, hnames "DO"]
        rfl
    | _ => simp [Mutation.Fits, BlockKind.isCall, hkind] at hfits

/-- The definition of a procedure has the inputs of its kind: its arguments are variables. -/
theorem mem_definition_iff {returns : Bool} (hkind : block.kind = .procedureDef returns)
    (input : Input) :
    (input ∈ .slot "STACK" :: if returns then [.socket "RETURN"] else []) ↔
      block.shape.Takes input := by
  have hshape : block.shape = ofKind (.procedureDef returns) := by
    rw [h.shape_eq, hkind]
    cases hmutation : block.mutation with
    | none => rfl
    | some mutation =>
      have hfits := h.fits hmutation
      cases mutation with
      | procedure name arguments => rfl
      | _ => simp [Mutation.Fits, BlockKind.isCall, hkind] at hfits
  rw [hshape]
  cases returns <;> cases input <;> simp [Takes, ofKind, doing]

/-- The inputs by which a block is rendered are those that its shape takes. -/
theorem mem_inputs_iff (input : Input) : input ∈ block.inputs ↔ block.shape.Takes input := by
  by_cases htakes : block.kind.takesMutation = false
  · rw [h.shaped.shape_eq htakes]
    exact mem_inputs_iff_of_fixed htakes input
  unfold inputs
  cases hkind : block.kind with
  | textJoin => exact mem_items_iff h (.inl hkind) input
  | listsCreateWith => exact mem_items_iff h (.inr hkind) input
  | controlsIf => exact mem_branching_iff h hkind input
  | procedureDef returns => exact mem_definition_iff h hkind input
  | procedureCall returns => exact mem_arguments_iff h hkind input
  | callStatic returns | callDevice returns =>
    exact mem_parameters_iff h (by rw [hkind]; rfl) input
  | _ => simp [hkind, BlockKind.takesMutation] at htakes

end

end Block

end RobotBlocks
