import RobotBlocks.Block.Mutation
import RobotBlocks.Proofs.NameTable.FreeNumber
import RobotBlocks.Proofs.Text.Counts
import RobotBlocks.Proofs.Yields

/-!
# Decoding of signatures

The signature of a called method is read from the attributes of a mutation. Some attributes have to be
there, among them one for each parameter, and how many these are is the value of another attribute.
`demands` lists what is asked for, in its order; decoding fails exactly with the fault of the first
demand that is not met (`decode_eq_error_iff`).

`Describes` says field by field what the attributes tell about a signature. Decoding gives the signature
that is described, and no other (`decode_eq_ok_iff`). Numbered attributes with the number of no
parameter are not looked at (`decode_congr`).
-/

set_option autoImplicit false

namespace RobotBlocks

open List

open Text (IsCount readCount trim)

namespace CallSignature

/-- The attribute with the class type of the parameter at a place. -/
def typeAttribute (index : Nat) : String := "argType" ++ toString index

def suppliedAttribute (index : Nat) : String := "argAuto" ++ toString index

/-- The number of parameters that attributes state. -/
def count? (attributes : Dict String) : Option Nat :=
  (attributes.get? "parameterCount").bind fun raw => (readCount (trim raw)).toOption

/-! ## What is asked for -/

/-- What is asked of the attributes. -/
inductive Demand where
  | lookup
  | returnType
  | count
  | parameter (index : Nat)

namespace Demand

variable {attributes : Dict String} {fault : MutationFault} {demand : Demand}

/-- The name of the attribute that has to be there. -/
def name : Demand → String
  | lookup => "methodLookupString"
  | returnType => "returnType"
  | count => "parameterCount"
  | parameter index => typeAttribute index

/-- The attribute is there, and the number of parameters is a count. -/
def Met (attributes : Dict String) (demand : Demand) : Prop :=
  ∃ raw, attributes.get? demand.name = some raw ∧
    (demand = count → ∃ number, IsCount (trim raw) number)

/-- The fault of a demand that is not met. -/
inductive Fails (attributes : Dict String) : Demand → MutationFault → Prop where
  | missing {demand : Demand} (h : attributes.get? demand.name = none) :
      Fails attributes demand (.missingAttribute demand.name)
  | malformed {raw : String} {cause : Text.CountFault}
      (h : attributes.get? "parameterCount" = some raw) (hcause : readCount (trim raw) = .error cause) :
      Fails attributes count (.badParameterCount raw cause)

/-- The fault of the first demand of a list that is not met. -/
inductive FirstFault (attributes : Dict String) : List Demand → MutationFault → Prop where
  | here {demand : Demand} {rest : List Demand} {fault : MutationFault}
      (h : Fails attributes demand fault) : FirstFault attributes (demand :: rest) fault
  | later {demand : Demand} {rest : List Demand} {fault : MutationFault}
      (hmet : Met attributes demand) (h : FirstFault attributes rest fault) :
      FirstFault attributes (demand :: rest) fault

theorem firstFault_cons_iff {rest : List Demand} :
    FirstFault attributes (demand :: rest) fault ↔
      Fails attributes demand fault ∨ Met attributes demand ∧ FirstFault attributes rest fault := by
  constructor
  · intro h
    cases h with
    | here h => exact .inl h
    | later hmet h => exact .inr ⟨hmet, h⟩
  · rintro (h | ⟨hmet, h⟩)
    · exact .here h
    · exact .later hmet h

theorem met_iff_not_fails : demand.Met attributes ↔ ∀ fault, ¬ demand.Fails attributes fault := by
  constructor
  · rintro ⟨raw, hraw, hcount⟩ fault hfails
    cases hfails with
    | missing hnone => simp [hraw] at hnone
    | malformed hfound hcause =>
      obtain ⟨number, hnumber⟩ := hcount rfl
      obtain rfl := Option.some.inj (hraw.symm.trans hfound)
      simp [Text.readCount_eq_ok_iff.2 hnumber] at hcause
  · intro hfails
    cases hget : attributes.get? demand.name with
    | none => exact absurd (.missing hget) (hfails _)
    | some raw =>
      refine ⟨raw, hget, ?_⟩
      rintro rfl
      cases hread : readCount (trim raw) with
      | error cause => exact absurd (.malformed hget hread) (hfails _)
      | ok number => exact ⟨number, Text.readCount_eq_ok_iff.1 hread⟩

variable {demands : List Demand}

theorem forall_met_iff_not_firstFault :
    (∀ demand ∈ demands, Met attributes demand) ↔
      ∀ fault, ¬ FirstFault attributes demands fault := by
  induction demands with
  | nil =>
    simp only [not_mem_nil, false_implies, implies_true, true_iff]
    intro fault h
    cases h
  | cons demand rest ih =>
    simp only [forall_mem_cons, firstFault_cons_iff, not_or, not_and, forall_and, ih,
      ← met_iff_not_fails]
    refine and_congr_right fun hmet => ?_
    simp only [hmet, forall_const]

theorem FirstFault.exists_fails (h : FirstFault attributes demands fault) :
    ∃ demand ∈ demands, demand.Fails attributes fault := by
  induction h with
  | here h => exact ⟨_, mem_cons_self, h⟩
  | later _ _ ih =>
    obtain ⟨demand, hmem, hfails⟩ := ih
    exact ⟨demand, mem_cons_of_mem _ hmem, hfails⟩

/-- The message of a fault names the attribute. -/
theorem Fails.exists_message_eq (h : demand.Fails attributes fault) :
    ∃ before after, fault.message = before ++ demand.name ++ after := by
  cases h with
  | missing => exact ⟨"mutation is missing attribute '", "'", rfl⟩
  | @malformed raw cause =>
    have hhead : "invalid parameterCount '" = "invalid " ++ "parameterCount" ++ " '" := by simp
    have hmessage : MutationFault.message (.badParameterCount raw cause) =
        "invalid parameterCount '" ++ raw ++ "': " ++ cause.message := rfl
    refine ⟨"invalid ", " '" ++ raw ++ "': " ++ cause.message, ?_⟩
    rw [hmessage, hhead]
    simp only [String.append_assoc, name]

end Demand

/-- What is asked of the attributes, in the order in which it is. If the number of parameters cannot be
read, nothing is asked of them. -/
def demands (attributes : Dict String) : List Demand :=
  .lookup :: .returnType :: .count ::
    (List.range ((count? attributes).getD 0)).map .parameter

section

variable {attributes fields : Dict String} {fault : MutationFault}

theorem required_eq_ok_iff {name value : String} :
    required attributes name = .ok value ↔ attributes.get? name = some value := by
  unfold required
  cases attributes.get? name <;> simp

theorem required_eq_error_iff {name : String} :
    required attributes name = .error fault ↔
      attributes.get? name = none ∧ fault = .missingAttribute name := by
  unfold required
  cases attributes.get? name <;> simp [eq_comm]

/-- An attribute that is only required answers a demand. -/
theorem fails_iff_required {demand : Demand} (h : demand ≠ .count) :
    demand.Fails attributes fault ↔ required attributes demand.name = .error fault := by
  rw [required_eq_error_iff]
  constructor
  · intro hfails
    cases hfails with
    | missing hnone => exact ⟨hnone, rfl⟩
    | malformed => exact absurd rfl h
  · rintro ⟨hnone, rfl⟩
    exact .missing hnone

theorem met_iff_isSome {demand : Demand} (h : demand ≠ .count) :
    demand.Met attributes ↔ (attributes.get? demand.name).isSome := by
  simp only [Demand.Met, h, false_implies, and_true, Option.isSome_iff_exists]

/-- Decoding asks for an attribute and goes on with its value, or it fails as the demand does. -/
theorem bind_required_eq_error_iff {α : Type} (demand : Demand) {rest : List Demand}
    {next : String → Except MutationFault α} (h : demand ≠ .count)
    (hnext : ∀ value, attributes.get? demand.name = some value →
      (next value = .error fault ↔ Demand.FirstFault attributes rest fault)) :
    required attributes demand.name >>= next = .error fault ↔
      Demand.FirstFault attributes (demand :: rest) fault := by
  simp only [Known.bind_eq_error_iff, Demand.firstFault_cons_iff, fails_iff_required h,
    met_iff_isSome h, Option.isSome_iff_exists, required_eq_ok_iff, ← exists_and_right]
  exact or_congr_right (exists_congr fun value => and_congr_right (hnext value))

/-! ## The number of parameters -/

variable {count : Nat}

theorem count?_eq_some_iff :
    count? attributes = some count ↔
      ∃ raw, attributes.get? "parameterCount" = some raw ∧ IsCount (trim raw) count := by
  unfold count?
  simp only [Option.bind_eq_some_iff, ← Text.readCount_eq_ok_iff]
  refine exists_congr fun raw => and_congr_right fun _ => ?_
  cases readCount (trim raw) <;> simp [Except.toOption]

theorem met_count_iff : Demand.count.Met attributes ↔ ∃ count, count? attributes = some count := by
  simp only [Demand.Met, count?_eq_some_iff, forall_const, Demand.name]
  constructor
  · rintro ⟨raw, hraw, count, hcount⟩
    exact ⟨count, raw, hraw, hcount⟩
  · rintro ⟨count, raw, hraw, hcount⟩
    exact ⟨raw, hraw, count, hcount⟩

/-- There are not more parameters than can be held. -/
def Holdable (attributes : Dict String) : Prop :=
  ∀ count, count? attributes = some count → count ≤ maxParameters

theorem Holdable.not_lt (hsmall : Holdable attributes) {raw : String} {number : Nat}
    (hraw : attributes.get? "parameterCount" = some raw) (hread : readCount (trim raw) = .ok number) :
    ¬ maxParameters < number := by
  apply Nat.not_lt.2
  exact hsmall number (count?_eq_some_iff.2 ⟨raw, hraw, Text.readCount_eq_ok_iff.1 hread⟩)

theorem decodeCount_eq_ok_iff (hsmall : Holdable attributes) :
    decodeCount attributes = .ok count ↔ count? attributes = some count := by
  unfold decodeCount
  rw [Known.bind_eq_ok_iff, count?_eq_some_iff]
  refine exists_congr fun raw => ?_
  rw [required_eq_ok_iff, ← Text.readCount_eq_ok_iff]
  refine and_congr_right fun hraw => ?_
  cases hread : readCount (trim raw) with
  | error cause => simp
  | ok number => simp [hsmall.not_lt hraw hread]

theorem decodeCount_eq_error_iff (hsmall : Holdable attributes) :
    decodeCount attributes = .error fault ↔ Demand.count.Fails attributes fault := by
  unfold decodeCount
  rw [Known.bind_eq_error_iff, required_eq_error_iff]
  constructor
  · rintro (⟨hnone, rfl⟩ | ⟨raw, hraw, hfault⟩)
    · exact .missing hnone
    · rw [required_eq_ok_iff] at hraw
      cases hread : readCount (trim raw) with
      | error cause =>
        simp only [hread, Except.error.injEq] at hfault
        exact hfault ▸ .malformed hraw hread
      | ok number => simp [hread, hsmall.not_lt hraw hread] at hfault
  · intro hfails
    cases hfails with
    | missing hnone => exact .inl ⟨hnone, rfl⟩
    | malformed hraw hread =>
      refine .inr ⟨_, required_eq_ok_iff.2 hraw, ?_⟩
      simp [hread]

/-! ## Parameters -/

/-- A parameter is the one that the attributes tell for a place. -/
structure IsParameter (attributes : Dict String) (index : Nat) (parameter : CallParameter) : Prop where
  classType : attributes.get? (typeAttribute index) = some parameter.classType
  resolved : parameter.resolved = ClassType.resolve parameter.classType .input
  supplied : ∀ auto, parameter.supplied = some auto ↔
    attributes.get? (suppliedAttribute index) = some auto ∧ auto ≠ ""

variable {index : Nat}

theorem decodeParameter_eq_ok_iff {parameter : CallParameter} :
    decodeParameter attributes index = .ok parameter ↔ IsParameter attributes index parameter := by
  have hsupplied : ∀ auto, (attributes.get? ("argAuto" ++ toString index)).filter
      (fun auto => !auto.isEmpty) = some auto ↔
        attributes.get? (suppliedAttribute index) = some auto ∧ auto ≠ "" := by
    intro auto
    rw [Option.filter_eq_some_iff]
    simp [suppliedAttribute]
  unfold decodeParameter
  rw [Known.bind_eq_ok_iff]
  constructor
  · rintro ⟨classType, hclass, h⟩
    cases h
    exact ⟨required_eq_ok_iff.1 hclass, rfl, hsupplied⟩
  · intro h
    refine ⟨parameter.classType, required_eq_ok_iff.2 h.classType, ?_⟩
    obtain ⟨classType, supplied, resolved⟩ := parameter
    have hresolved : resolved = ClassType.resolve classType .input := h.resolved
    have hsame : supplied = (attributes.get? ("argAuto" ++ toString index)).filter
        (fun auto => !auto.isEmpty) := by
      apply Option.ext
      intro auto
      rw [hsupplied auto]
      exact h.supplied auto
    rw [hresolved, hsame]
    rfl

/-- As many parameters are decoded as are counted, each from its own attributes. -/
theorem decodeParameters_eq_ok_iff {parameters : List CallParameter} :
    decodeParameters attributes index count = .ok parameters ↔
      parameters.length = count ∧
        ∀ i parameter, parameters[i]? = some parameter →
          IsParameter attributes (index + i) parameter := by
  induction count generalizing index parameters with
  | zero =>
    simp only [decodeParameters, Except.ok.injEq]
    constructor
    · rintro rfl
      simp
    · rintro ⟨hlength, -⟩
      exact (length_eq_zero_iff.1 hlength).symm
  | succ count ih =>
    rw [decodeParameters, Known.bind_eq_ok_iff]
    constructor
    · rintro ⟨first, hfirst, h⟩
      obtain ⟨rest, hrest, h⟩ := Known.bind_eq_ok_iff.1 h
      cases h
      obtain ⟨hlength, hparameters⟩ := ih.1 hrest
      refine ⟨by simp [hlength], fun i parameter hi => ?_⟩
      cases i with
      | zero =>
        cases hi
        exact decodeParameter_eq_ok_iff.1 hfirst
      | succ i =>
        have := hparameters i parameter hi
        rwa [Nat.add_assoc, Nat.add_comm 1] at this
    · rintro ⟨hlength, hparameters⟩
      obtain ⟨first, rest, rfl⟩ := exists_cons_of_length_eq_add_one hlength
      refine ⟨first, decodeParameter_eq_ok_iff.2 (hparameters 0 first rfl), ?_⟩
      refine Known.bind_eq_ok_iff.2 ⟨rest, ih.2 ⟨by simpa using hlength, ?_⟩, rfl⟩
      intro i parameter hi
      have := hparameters (i + 1) parameter hi
      rwa [Nat.add_assoc, Nat.add_comm 1]

theorem decodeParameters_eq_error_iff :
    decodeParameters attributes index count = .error fault ↔
      Demand.FirstFault attributes ((List.range' index count).map .parameter) fault := by
  induction count generalizing index with
  | zero =>
    simp only [decodeParameters, reduceCtorEq, false_iff]
    intro h
    cases h
  | succ count ih =>
    rw [decodeParameters, decodeParameter, range'_succ, map_cons]
    simp only [bind_assoc, pure_bind]
    refine bind_required_eq_error_iff (.parameter index) (by simp) fun classType _ => ?_
    rw [Known.bind_eq_error_iff, ← ih]
    simp [pure, Except.pure]

/-! ## Signatures -/

theorem decode_eq_error_iff (hsmall : Holdable attributes) :
    decode attributes fields = .error fault ↔
      Demand.FirstFault attributes (demands attributes) fault := by
  unfold decode demands
  refine bind_required_eq_error_iff .lookup (by simp) fun lookup _ => ?_
  refine bind_required_eq_error_iff .returnType (by simp) fun returnType _ => ?_
  rw [Known.bind_eq_error_iff, Demand.firstFault_cons_iff, decodeCount_eq_error_iff hsmall,
    met_count_iff, ← exists_and_right]
  refine or_congr_right (exists_congr fun count => ?_)
  rw [decodeCount_eq_ok_iff hsmall]
  refine and_congr_right fun hcount => ?_
  rw [hcount, Option.getD_some, range_eq_range', ← decodeParameters_eq_error_iff,
    Known.bind_eq_error_iff]
  -- What comes after the parameters cannot fail.
  simp [pure, Except.pure]

theorem exists_decode_eq_ok_iff (hsmall : Holdable attributes) :
    (∃ signature, decode attributes fields = .ok signature) ↔
      ∀ demand ∈ demands attributes, demand.Met attributes := by
  rw [Demand.forall_met_iff_not_firstFault]
  simp only [← @decode_eq_error_iff attributes fields _ hsmall]
  cases decode attributes fields <;> simp

/-- Every demand is met: the attributes are there, one for each parameter, and the number of these is a
count. -/
theorem forall_met_iff :
    (∀ demand ∈ demands attributes, demand.Met attributes) ↔
      (attributes.get? "methodLookupString").isSome ∧ (attributes.get? "returnType").isSome ∧
        ∃ raw count, attributes.get? "parameterCount" = some raw ∧ IsCount (trim raw) count ∧
          ∀ i < count, (attributes.get? (typeAttribute i)).isSome := by
  unfold demands
  simp only [forall_mem_cons, forall_mem_map, mem_range]
  refine and_congr (met_iff_isSome (by simp)) (and_congr (met_iff_isSome (by simp)) ?_)
  constructor
  · rintro ⟨hcount, hparameters⟩
    obtain ⟨count, hcount⟩ := met_count_iff.1 hcount
    obtain ⟨raw, hraw, hread⟩ := count?_eq_some_iff.1 hcount
    refine ⟨raw, count, hraw, hread, fun i hi => ?_⟩
    exact (met_iff_isSome (by simp)).1 (hparameters i (by rwa [hcount]))
  · rintro ⟨raw, count, hraw, hread, hparameters⟩
    have hcount : count? attributes = some count := count?_eq_some_iff.2 ⟨raw, hraw, hread⟩
    refine ⟨met_count_iff.2 ⟨count, hcount⟩, fun i hi => ?_⟩
    rw [hcount] at hi
    exact (met_iff_isSome (by simp)).2 (hparameters i hi)

/-- What attributes, and the fields of the block, tell about a signature. -/
structure Describes (attributes fields : Dict String) (signature : CallSignature) : Prop where
  lookup : attributes.get? "methodLookupString" = some signature.lookup
  returnType : attributes.get? "returnType" = some signature.returnType
  count : ∃ raw, attributes.get? "parameterCount" = some raw ∧
    IsCount (trim raw) signature.parameters.length
  parameters : ∀ i parameter, signature.parameters[i]? = some parameter →
    IsParameter attributes i parameter
  comment : signature.comment = (attributes.get? "comment").getD ""
  className : signature.className = (attributes.get? "fullClassName").getD
    (teamPackage ++ "." ++ (fields.get? "CLASS_NAME").getD "")
  simpleName : signature.simpleName =
    (attributes.get? "simpleName").getD ((fields.get? "CLASS_NAME").getD "")
  stated : ∀ access, attributes.get? "accessMethod" = some access → access ≠ "" →
    signature.accessMethod = access ∧
      signature.conversion = (attributes.get? "convertReturnValue").getD ""
  inferred : (∀ access, attributes.get? "accessMethod" = some access → access = "") →
    (signature.accessMethod, signature.conversion) = inferredAccess signature.returnType

/-- How a method is called, and what becomes of its result. -/
def access (attributes : Dict String) (returnType : String) : String × String :=
  if ((attributes.get? "accessMethod").getD "").isEmpty then inferredAccess returnType
  else ((attributes.get? "accessMethod").getD "", (attributes.get? "convertReturnValue").getD "")

theorem access_of_stated (returnType : String) {stated : String}
    (h : attributes.get? "accessMethod" = some stated) (hne : stated ≠ "") :
    access attributes returnType = (stated, (attributes.get? "convertReturnValue").getD "") := by
  simp [access, h, hne]

theorem access_of_inferred {returnType : String}
    (h : ∀ stated, attributes.get? "accessMethod" = some stated → stated = "") :
    access attributes returnType = inferredAccess returnType := by
  unfold access
  cases hget : attributes.get? "accessMethod" with
  | none => rfl
  | some stated =>
    obtain rfl := h stated hget
    rfl

/-- Attributes are decoded to exactly the signature that they describe. -/
theorem decode_eq_ok_iff (hsmall : Holdable attributes) {signature : CallSignature} :
    decode attributes fields = .ok signature ↔ Describes attributes fields signature := by
  unfold decode
  constructor
  · intro h
    obtain ⟨lookup, hlookup, h⟩ := Known.bind_eq_ok_iff.1 h
    obtain ⟨returnType, hreturn, h⟩ := Known.bind_eq_ok_iff.1 h
    obtain ⟨count, hcount, h⟩ := Known.bind_eq_ok_iff.1 h
    obtain ⟨parameters, hparameters, h⟩ := Known.bind_eq_ok_iff.1 h
    cases h
    obtain ⟨rfl, hplaces⟩ := decodeParameters_eq_ok_iff.1 hparameters
    refine {
      lookup := required_eq_ok_iff.1 hlookup
      returnType := required_eq_ok_iff.1 hreturn
      count := count?_eq_some_iff.1 ((decodeCount_eq_ok_iff hsmall).1 hcount)
      parameters := fun i parameter hi => ?_
      comment := rfl
      className := rfl
      simpleName := rfl
      stated := fun stated hget hne => ?_
      inferred := fun hnone => ?_ }
    · have := hplaces i parameter hi
      rwa [Nat.zero_add] at this
    · exact Prod.mk.inj (access_of_stated returnType hget hne)
    · exact access_of_inferred hnone
  · intro h
    obtain ⟨lookup, returnType, comment, accessMethod, conversion, className, simpleName,
      parameters⟩ := signature
    obtain rfl : comment = _ := h.comment
    obtain rfl : className = _ := h.className
    obtain rfl : simpleName = _ := h.simpleName
    have haccess : access attributes returnType = (accessMethod, conversion) := by
      by_cases hstated : ∃ stated, attributes.get? "accessMethod" = some stated ∧ stated ≠ ""
      · obtain ⟨stated, hget, hne⟩ := hstated
        rw [access_of_stated returnType hget hne]
        exact (Prod.ext_iff.2 (h.stated stated hget hne)).symm
      · have hnone : ∀ stated, attributes.get? "accessMethod" = some stated → stated = "" := by
          intro stated hget
          by_contra hne
          exact hstated ⟨stated, hget, hne⟩
        rw [access_of_inferred hnone]
        exact (h.inferred hnone).symm
    have hparameters : decodeParameters attributes 0 parameters.length = .ok parameters := by
      apply decodeParameters_eq_ok_iff.2
      refine ⟨rfl, fun i parameter hi => ?_⟩
      rw [Nat.zero_add]
      exact h.parameters i parameter hi
    refine Known.bind_eq_ok_iff.2 ⟨lookup, required_eq_ok_iff.2 h.lookup, ?_⟩
    refine Known.bind_eq_ok_iff.2 ⟨returnType, required_eq_ok_iff.2 h.returnType, ?_⟩
    refine Known.bind_eq_ok_iff.2 ⟨parameters.length,
      (decodeCount_eq_ok_iff hsmall).2 (count?_eq_some_iff.2 h.count), ?_⟩
    refine Known.bind_eq_ok_iff.2 ⟨parameters, hparameters, ?_⟩
    unfold access at haccess
    simp only [haccess]
    rfl

/-! ## Attributes that are not looked at -/

/-- Attributes that differ only in those with the number of a place behind the parameters. -/
def AgreeBelow (count : Nat) (attributes others : Dict String) : Prop :=
  ∀ name, (∀ i, count ≤ i → name ≠ typeAttribute i ∧ name ≠ suppliedAttribute i) →
    others.get? name = attributes.get? name

section

variable {others : Dict String} {count : Nat}

theorem typeAttribute_ne_suppliedAttribute (i j : Nat) : typeAttribute i ≠ suppliedAttribute j := by
  intro h
  have hchars := congrArg String.toList h
  simp [typeAttribute, suppliedAttribute] at hchars

section

variable (h : AgreeBelow count attributes others)

include h

theorem AgreeBelow.get?_typeAttribute {i : Nat} (hi : i < count) :
    others.get? (typeAttribute i) = attributes.get? (typeAttribute i) := by
  apply h
  intro j hj
  refine ⟨fun heq => ?_, typeAttribute_ne_suppliedAttribute i j⟩
  have : i = j := NameTable.append_toString_injective "argType" heq
  omega

theorem AgreeBelow.get?_suppliedAttribute {i : Nat} (hi : i < count) :
    others.get? (suppliedAttribute i) = attributes.get? (suppliedAttribute i) := by
  apply h
  intro j hj
  refine ⟨(typeAttribute_ne_suppliedAttribute j i).symm, fun heq => ?_⟩
  have : i = j := NameTable.append_toString_injective "argAuto" heq
  omega

/-- An attribute with a name that no numbered one has. -/
theorem AgreeBelow.get?_of_not_prefix (name : String) (hname : ¬ "arg".toList <+: name.toList) :
    others.get? name = attributes.get? name := by
  apply h
  intro i _
  constructor
  · rintro rfl
    apply hname
    simp [typeAttribute]
  · rintro rfl
    apply hname
    simp [suppliedAttribute]

theorem decodeParameters_congr {number : Nat} (hle : index + number ≤ count) :
    decodeParameters others index number = decodeParameters attributes index number := by
  induction number generalizing index with
  | zero => rfl
  | succ number ih =>
    have hfirst : decodeParameter others index = decodeParameter attributes index := by
      have htype : others.get? ("argType" ++ toString index) =
          attributes.get? ("argType" ++ toString index) := h.get?_typeAttribute (by omega)
      have hauto : others.get? ("argAuto" ++ toString index) =
          attributes.get? ("argAuto" ++ toString index) := h.get?_suppliedAttribute (by omega)
      rw [decodeParameter, decodeParameter, required, required, htype, hauto]
    rw [decodeParameters, decodeParameters, hfirst, ih (by omega)]

end

theorem decode_congr (hsmall : Holdable attributes) (hcount : count? attributes = some count)
    (h : AgreeBelow count attributes others) : decode others fields = decode attributes fields := by
  have hrequired : ∀ name, ¬ "arg".toList <+: name.toList →
      required others name = required attributes name := by
    intro name hname
    rw [required, required, h.get?_of_not_prefix name hname]
  have hread : decodeCount attributes = .ok count := (decodeCount_eq_ok_iff hsmall).2 hcount
  have hothers : decodeCount others = .ok count := by
    rw [← hread, decodeCount, decodeCount, hrequired "parameterCount" (by decide)]
  have hparameters : decodeParameters others 0 count = decodeParameters attributes 0 count :=
    decodeParameters_congr h (by omega)
  unfold decode
  rw [hread, hothers, hrequired "methodLookupString" (by decide),
    hrequired "returnType" (by decide)]
  simp only [bind, Except.bind, hparameters,
    h.get?_of_not_prefix "accessMethod" (by decide),
    h.get?_of_not_prefix "convertReturnValue" (by decide),
    h.get?_of_not_prefix "comment" (by decide),
    h.get?_of_not_prefix "fullClassName" (by decide),
    h.get?_of_not_prefix "simpleName" (by decide)]

end

/-- Decoding of signatures. It succeeds exactly if the method, the type of the result and the number of
parameters are stated, that number is a count, and each parameter has a type. Otherwise the fault is
that of the first of these, and its message names the attribute. The signature is the one that is
described, and numbered attributes behind those of the parameters do not matter. -/
theorem signatures_are_decoded_exactly (hsmall : Holdable attributes) :
    ((∃ signature, decode attributes fields = .ok signature) ↔
      (attributes.get? "methodLookupString").isSome ∧ (attributes.get? "returnType").isSome ∧
        ∃ raw count, attributes.get? "parameterCount" = some raw ∧ IsCount (trim raw) count ∧
          ∀ i < count, (attributes.get? (typeAttribute i)).isSome) ∧
    (∀ fault, decode attributes fields = .error fault ↔
      Demand.FirstFault attributes (demands attributes) fault) ∧
    (∀ fault, decode attributes fields = .error fault →
      ∃ demand ∈ demands attributes, demand.Fails attributes fault ∧
        ∃ before after, fault.message = before ++ demand.name ++ after) ∧
    (∀ signature, decode attributes fields = .ok signature ↔
      Describes attributes fields signature) ∧
    ∀ count others, count? attributes = some count → AgreeBelow count attributes others →
      decode others fields = decode attributes fields := by
  refine ⟨(exists_decode_eq_ok_iff hsmall).trans forall_met_iff,
    fun fault => decode_eq_error_iff hsmall, ?_, fun signature => decode_eq_ok_iff hsmall,
    fun count others hcount h => decode_congr hsmall hcount h⟩
  intro fault hfault
  obtain ⟨demand, hmem, hfails⟩ := ((decode_eq_error_iff hsmall).1 hfault).exists_fails
  exact ⟨demand, hmem, hfails, hfails.exists_message_eq⟩

end

namespace SpareTypeSample

def attributes : Dict String :=
  Dict.ofList [("methodLookupString", "scale"), ("returnType", "double"), ("parameterCount", " +1 "),
    ("argType0", "float"), ("argAuto0", "")]

def fields : Dict String := Dict.ofList [("CLASS_NAME", "Helpers")]

def signature : CallSignature where
  lookup := "scale"
  returnType := "double"
  comment := ""
  accessMethod := "callJava_String"
  conversion := "Number"
  className := "org.firstinspires.ftc.teamcode.Helpers"
  simpleName := "Helpers"
  parameters := [⟨"float", none, ClassType.resolve "float" .input⟩]

theorem count?_attributes : count? attributes = some 1 := by rfl

theorem holdable_attributes : Holdable attributes := by
  intro count h
  obtain rfl := Option.some.inj (count?_attributes.symm.trans h)
  exact Nat.one_le_two_pow

theorem agreeBelow_insert : AgreeBelow 1 attributes (attributes.insert (typeAttribute 1) "int") := by
  intro name hname
  have hne : name ≠ typeAttribute 1 := (hname 1 (by omega)).1
  rw [Dict.get?_insert, if_neg hne]

/-- There is one parameter. A type for a second one changes nothing. -/
theorem spare_type_is_not_read :
    Holdable attributes ∧ Describes attributes fields signature ∧
      decode (attributes.insert "argType1" "int") fields = .ok signature := by
  obtain ⟨-, -, -, hdescribes, hspare⟩ :=
    @signatures_are_decoded_exactly attributes fields holdable_attributes
  have hdecode : decode attributes fields = .ok signature := by rfl
  refine ⟨holdable_attributes, (hdescribes signature).1 hdecode, ?_⟩
  exact (hspare 1 _ count?_attributes agreeBelow_insert).trans hdecode

end SpareTypeSample

end CallSignature

end RobotBlocks
