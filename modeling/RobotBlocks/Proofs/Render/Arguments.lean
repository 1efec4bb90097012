import RobotBlocks.Proofs.Render.NumberDrawing
import RobotBlocks.Proofs.Render.NumberTypes

/-!
# Numbers in sockets with a type

A socket of a class may state a primitive type. What is rendered into it fits that type if it has the
type or a narrower one, by the rules of the language. For a tree of numbers it is known when that is so,
except for a choice between two choices that may both be boxed (`numeric_argument_fits_iff`). Where a
conversion is needed, one is written, except in three cases:

* a literal that is not finite is written as it is, also for types narrower than `double`;
* arithmetic on types narrower than `int` gives an `int`, and for a socket of such a type it is written
  as if it did not;
* a choice with an empty branch has a wrapper class or no type at all.
-/

set_option autoImplicit false

namespace RobotBlocks

open NumericType RobotBlocks.Expr
open StaticType (ofSocket)

variable {declarations : Declarations} {target : NumericType}

/-! ## Conversions -/

namespace Expr

variable {expr : Expr} {t : NumericType}

section

variable (h : expr.type? declarations = some (.primitive t))

include h

theorem fits_iff_of_type? : expr.Fits declarations target ↔ t.rank ≤ target.rank := by
  unfold Fits
  rw [h]
  simp

theorem type?_cast_of_primitive :
    (cast target.label expr).type? declarations = some (.primitive target) := by
  rw [type?, ofLabel?_label, h]
  rfl

theorem fits_cast : (cast target.label expr).Fits declarations target :=
  ⟨target, type?_cast_of_primitive h, Nat.le_refl _⟩

end

/-- A conversion of what is no number has no type. -/
theorem not_fits_cast (h : expr.number? declarations = none) :
    ¬ (cast target.label expr).Fits declarations target := by
  rintro ⟨t, htype, -⟩
  rw [type?, ofLabel?_label] at htype
  unfold number? at h
  cases hexpr : expr.type? declarations with
  | none =>
    rw [hexpr] at htype
    cases htype
  | some v =>
    rw [hexpr] at htype h
    cases v with
    | null => cases htype
    | primitive | boxed => cases h

theorem not_fits_of_number? (h : expr.number? declarations = none) :
    ¬ expr.Fits declarations target := by
  rintro ⟨t, htype, -⟩
  rw [number?, htype] at h
  cases h

/-- A literal in a socket fits unless it is not finite and the type of the socket is narrower than
`double`. -/
theorem fits_literalFor_iff (declarations : Declarations) (target : NumericType)
    (value : Binary64) :
    (literalFor target value (.number (Numeral.literal .java value))).Fits declarations target ↔
      value.isFinite = true ∨ target = .double := by
  have hliteral : (Expr.number (Numeral.literal .java value)).type? declarations =
      some (.primitive (if Numeral.fitsInt value then .int else .double)) := by
    rw [type?, Numeral.literalType?_literal]
    rfl
  cases hfinite : value.isFinite with
  | false =>
    have hfits : Numeral.fitsInt value = false := by
      cases value with
      | nan | infinite => rfl
      | finite => cases hfinite
    unfold literalFor
    rw [if_pos (by simp [hfinite]), fits_iff_of_type? hliteral, hfits]
    cases target <;> decide
  | true =>
    refine iff_of_true ?_ (.inl rfl)
    unfold literalFor
    split
    · rename_i hplain
      rw [fits_iff_of_type? hliteral]
      simp only [hfinite, Bool.not_true, Bool.false_or, Bool.and_eq_true, decide_eq_true_eq] at hplain
      rw [hplain.1]
      exact hplain.2
    · rename_i hplain
      simp only [hfinite, Bool.not_true, Bool.false_or, Bool.and_eq_true, decide_eq_true_eq,
        not_and] at hplain
      have hwide : NumericType.int.rank ≤ target.rank → Numeral.fitsInt value = false := by
        intro hrank
        by_contra hfits
        exact hplain (by simpa using hfits) hrank
      split
      · rw [fits_iff_of_type? hliteral]
        exact NumberTree.rank_le_double _
      · split
        · refine ⟨.float, ?_, Nat.le_refl _⟩
          rw [type?, Numeral.literalType?_classText_float hfinite (hwide (by decide))]
          rfl
        · exact fits_cast hliteral
      · split
        · rename_i hlong
          refine ⟨.long, ?_, Nat.le_refl _⟩
          rw [type?, Numeral.literalType?_toString_int_long
            (Numeral.natAbs_toInteger_lt_longBound hfinite (Bool.and_eq_true_iff.1 hlong).2)]
          rfl
        · exact fits_cast hliteral
      · exact fits_cast hliteral

end Expr

namespace NumberTree

/-- The expression of a tree with the conversion that is written for a socket of a type. -/
def converted (target : NumericType) (tree : NumberTree) (expr : Expr) : Expr :=
  match tree with
  | number value => .literalFor target value expr
  | tree =>
    match tree.found with
    | some found => if target.rank < found.rank then .cast target.label expr else expr
    | none => expr

/-- The two ways in which a solid tree does not fit a socket of a type: a literal that is not finite,
and a promoted value for a small type that is not converted. -/
def Misfits (target : NumericType) (tree : NumberTree) : Prop :=
  (∃ value, tree = .number value ∧ value.isFinite = false ∧ target ≠ .double) ∨
    (tree.promotes = true ∧ target.isSmall = true ∧
      ∃ found, tree.found = some found ∧ found.rank ≤ target.rank)

variable {tree : NumberTree} {empty expr : Expr}

theorem isUsable_of_isSolid (h : tree.isSolid = true) : tree.isUsable = true := by
  cases tree with
  | choice yes no =>
    simp only [isSolid, Bool.and_eq_true] at h
    simp [isUsable, h.1]
  | missing | number | arithmetic | single | call => exact h

theorem converted_eq (hnumber : ∀ value, tree ≠ .number value) :
    tree.converted target expr =
      match tree.found with
      | some found => if target.rank < found.rank then .cast target.label expr else expr
      | none => expr := by
  cases tree with
  | number value => exact absurd rfl (hnumber value)
  | missing | arithmetic | single | choice | call => rfl

/-- The calls of a tree are the same behind a conversion. -/
theorem Draws.agrees_of_converted (h : tree.Draws .zero expr)
    (hagrees : tree.Agrees declarations (tree.converted target expr).uncast) :
    tree.Agrees declarations expr := by
  by_cases hnumber : ∃ value, tree = .number value
  · obtain ⟨value, rfl⟩ := hnumber
    intro call hcall
    simp [calls] at hcall
  · have huncast : (tree.converted target expr).uncast = expr := by
      rw [converted_eq fun value heq => hnumber ⟨value, heq⟩]
      split
      · split
        · rfl
        · exact h.uncast_eq
      · exact h.uncast_eq
    rwa [huncast] at hagrees

/-- A number within its bounds fits a type that is not narrower than the one found, unless it was
promoted and the type is small. -/
theorem Bounds.rank_le_iff {found t : NumericType} (h : tree.Bounds t)
    (hfound : tree.found = some found) (hle : found.rank ≤ target.rank) :
    t.rank ≤ target.rank ↔ ¬ (tree.promotes = true ∧ target.isSmall = true) := by
  unfold Bounds at h
  rw [hfound] at h
  dsimp only at h
  simp only [NumericType.isSmall, decide_eq_true_eq] at h ⊢
  split at h
  · subst h
    cases tree.promotes with
    | true =>
      simp only [if_true, true_and]
      omega
    | false => simpa using hle
  · constructor
    · rintro - ⟨-, hsmall⟩
      omega
    · intro _
      omega

/-- The converted expression of a solid tree fits exactly if the tree does not misfit. -/
theorem Draws.fits_converted_iff (h : tree.Draws empty expr)
    (hagrees : tree.Agrees declarations expr) (hsolid : tree.isSolid = true) :
    (tree.converted target expr).Fits declarations target ↔ ¬ tree.Misfits target := by
  by_cases hnumber : ∃ value, tree = .number value
  · obtain ⟨value, rfl⟩ := hnumber
    cases h
    rw [converted, fits_literalFor_iff]
    cases hfinite : value.isFinite <;> simp [Misfits, promotes, hfinite]
  · have hne : ∀ value, tree ≠ .number value := fun value heq => hnumber ⟨value, heq⟩
    obtain ⟨v, t, htype, hnum, hbounds, hprimitive⟩ :=
      h.types_of_isUsable hagrees (isUsable_of_isSolid hsolid)
    obtain rfl := hprimitive hsolid
    obtain ⟨found, hfound⟩ := exists_found_of_isUsable (isUsable_of_isSolid hsolid)
    have hmisfits : tree.Misfits target ↔
        tree.promotes = true ∧ target.isSmall = true ∧ found.rank ≤ target.rank := by
      simp [Misfits, hne, hfound]
    rw [converted_eq hne, hfound, hmisfits]
    dsimp only
    split
    · refine iff_of_true (fits_cast htype) ?_
      rintro ⟨-, -, hle⟩
      omega
    · rename_i hlt
      have hle : found.rank ≤ target.rank := Nat.le_of_not_lt hlt
      rw [fits_iff_of_type? htype, hbounds.rank_le_iff hfound hle, ← and_assoc, and_iff_left hle]

/-- Nothing fits that is rendered from a tree that is not usable. -/
theorem Draws.not_fits_converted (h : tree.Draws .nothing expr) (husable : tree.isUsable = false) :
    ¬ (tree.converted target expr).Fits declarations target := by
  have hnumber : ∀ value, tree ≠ .number value := by
    rintro value rfl
    cases husable
  have hnone : expr.number? declarations = none := by
    unfold Expr.number?
    cases hnull : tree.isNull with
    | true =>
      rw [h.type?_of_isNull (fun _ => rfl) hnull]
      rfl
    | false =>
      rw [h.type?_eq_none husable hnull]
      rfl
  rw [converted_eq hnumber]
  split
  · split
    · exact not_fits_cast hnone
    · exact not_fits_of_number? hnone
  · exact not_fits_of_number? hnone

/-- What is rendered from a choice with an empty branch fits only if it is converted. -/
theorem Draws.lt_found_of_fits {yes no : NumberTree}
    (h : (NumberTree.choice yes no).Draws empty expr) (hnull : (yes.isNull || no.isNull) = true)
    (hfits : ((NumberTree.choice yes no).converted target expr).Fits declarations target) :
    ∃ found, (NumberTree.choice yes no).found = some found ∧ target.rank < found.rank := by
  have hprimitive : ∀ t, expr.type? declarations ≠ some (.primitive t) := by
    intro t htype
    obtain ⟨x, y, hx, hy, -, hexpr, -⟩ := h.choice_typed declarations
    rw [hexpr] at htype
    rcases Bool.or_eq_true_iff.1 hnull with hnull | hnull
    · rw [hx.type?_of_isNull (fun _ => rfl) hnull] at htype
      obtain ⟨v, -, hv⟩ := Option.map_eq_some_iff.1 htype
      cases v <;> cases hv
    · rw [hy.type?_of_isNull (fun _ => rfl) hnull] at htype
      obtain ⟨v, -, hv⟩ := Option.bind_eq_some_iff.1 htype
      cases v <;> cases hv
  rw [converted_eq (by simp)] at hfits
  split at hfits
  · rename_i found hfound
    refine ⟨found, hfound, ?_⟩
    by_contra hle
    rw [if_neg hle] at hfits
    obtain ⟨t, htype, -⟩ := hfits
    exact hprimitive t htype
  · obtain ⟨t, htype, -⟩ := hfits
    exact absurd htype (hprimitive t)

end NumberTree

/-! ## Rendered sockets -/

namespace Renderer

/-- A tree in a socket with a type is converted to the type. -/
theorem eq_converted_of_yields_coerce {r : Renderer} {block child : Block} {socket : String}
    {before after : Draft} {value expr : Expr} {tree : NumberTree}
    (hexpected : ofSocket r.setting.workspace before.types block socket = .ok (some target.label))
    (hholds : tree.Holds r.setting.workspace child)
    (h : Yields (r.coerce block socket child value) before expr after) :
    expr = tree.converted target value := by
  have hrest := yields_get_bind.1 h
  obtain ⟨type, start, htype, hcases⟩ := yields_bind.1 hrest
  obtain ⟨htypeOf, rfl⟩ := yields_liftM.1 htype
  rw [hexpected] at htypeOf
  cases htypeOf
  rw [Option.bind_some, ofLabel?_label] at hcases
  dsimp only at hcases
  by_cases hnumber : ∃ found, tree = .number found
  · obtain ⟨found, rfl⟩ := hnumber
    obtain ⟨hkind, hliteral⟩ := hholds
    rw [if_pos hkind, hliteral] at hcases
    exact (yields_pure.1 hcases).1.symm
  · have hne : ∀ found, tree ≠ .number found := fun found heq => hnumber ⟨found, heq⟩
    have hkind : child.kind ≠ .mathNumber := by
      cases tree with
      | missing => exact hholds.elim
      | number found => exact absurd rfl (hne found)
      | arithmetic | single | choice => simp [hholds.1.1]
      | call =>
        obtain ⟨signature, hcalls, -⟩ := hholds
        rcases hcalls.1 with hkind | hkind <;> simp [hkind]
    rw [if_neg hkind] at hcases
    obtain ⟨type, finish, htype, hlast⟩ := yields_bind.1 hcases
    obtain ⟨htypeOf, rfl⟩ := yields_liftM.1 htype
    obtain rfl := StaticType.eq_found_of_within tree _ child type hholds htypeOf
    rw [NumberTree.converted_eq hne]
    cases hfound : tree.found with
    | none =>
      rw [hfound] at hlast
      exact (yields_pure.1 hlast).1.symm
    | some found =>
      rw [hfound, Option.map_some, Option.bind_some, ofLabel?_label] at hlast
      exact (yields_pure.1 hlast).1.symm

end Renderer

/-- What is rendered into a socket with a primitive type, for every tree of numbers in it. From a solid
tree it fits unless the tree misfits, from an unusable tree it never fits, and a choice with an empty
branch fits at most behind a conversion. -/
theorem numeric_argument_fits_iff {setting : Setting} (hjava : setting.target = .java)
    {block child : Block} {socket : String} {fallback : Expr} {before after : Draft} {expr : Expr}
    {tree : NumberTree}
    (hexpected : ofSocket setting.workspace before.types block socket =
      .ok (some target.label))
    (hchild : setting.workspace.plugged? block socket = some child)
    (hholds : tree.Holds setting.workspace child)
    (h : Yields (setting.renderer.operandOr block socket fallback) before expr after)
    (hagrees : tree.Agrees declarations expr.uncast) :
    (tree.isSolid = true → (expr.Fits declarations target ↔ ¬ tree.Misfits target)) ∧
      (tree.isUsable = false → ¬ expr.Fits declarations target) ∧
      ∀ yes no, tree = .choice yes no → (yes.isNull || no.isNull) = true →
        expr.Fits declarations target → ∃ found, tree.found = some found ∧
          target.rank < found.rank := by
  have hplugged : setting.renderer.setting.workspace.plugged? block socket = some child := by
    simpa using hchild
  obtain ⟨hempty, -⟩ | ⟨_, hfound, hrendered⟩ := Renderer.cases_of_yields_operandOr h
  · rw [hempty] at hplugged
    cases hplugged
  obtain rfl := Option.some.inj (hfound.symm.trans hplugged)
  obtain ⟨start, value, middle, hstart, hvalue, hcoerce⟩ :=
    Renderer.exists_of_yields_plugged (by simpa using hjava) hrendered
  have hmiddle : middle.types = before.types := by
    rw [((Draft.steady_types.moves_rendererWithin setting _).1 _).of_yields hvalue, hstart]
  have hdraws : ∀ empty, tree.Draws empty value := fun empty =>
    NumberTree.draws_of_yields hjava tree _ _ start middle value empty hholds hvalue
  obtain rfl : expr = tree.converted target value := by
    refine Renderer.eq_converted_of_yields_coerce ?_ (by simpa using hholds) hcoerce
    rw [hmiddle]
    simpa using hexpected
  have hcalls := (hdraws .zero).agrees_of_converted hagrees
  refine ⟨(hdraws .zero).fits_converted_iff hcalls, (hdraws .nothing).not_fits_converted, ?_⟩
  rintro yes no rfl hnull hfits
  exact (hdraws .zero).lt_found_of_fits hnull hfits

/-! ## Sockets that misfit, and one that fits -/

namespace ArgumentSample

/-- A number that is not finite. -/
def nan : Block :=
  { id := "b", typeName := "math_number", kind := .mathNumber
    fields := Dict.ofList [("NUM", "NaN")], parent := some (.value "a" "VALUE") }

/-- A motor gets a target position, which is an `int`. -/
def motor : Block :=
  { id := "a", typeName := "dcMotor_setProperty_Number", kind := .deviceSet .dcMotor
    fields := Dict.ofList [("IDENTIFIER", "motor"), ("PROP", "TargetPosition")]
    values := Dict.ofList [("VALUE", "b")] }

def motorSetting : Setting where
  workspace := { blocks := [motor, nan], distinct := by decide }
  target := .java

/-- A method of a class, with its result and its parameters. -/
def methodOf (returnType : String) (parameters : List String) : CallSignature where
  lookup := "com.example.H.m()"
  returnType := returnType
  comment := ""
  accessMethod := "callJava"
  conversion := ""
  className := "com.example.H"
  simpleName := "H"
  parameters := parameters.map fun classType =>
    { classType, supplied := none, resolved := ClassType.resolve classType .input }

def byteCall : Block :=
  Block.applyMutation
    { id := "c", typeName := "misc_callJava_return", kind := .callStatic true
      fields := Dict.ofList [("METHOD_NAME", "least")]
      mutation := some (.call (methodOf "byte" [])), parent := some (.value "b" "NUM") }

def negated : Block :=
  { id := "b", typeName := "math_single", kind := .mathSingle
    fields := Dict.ofList [("OP", "NEG")], values := Dict.ofList [("NUM", "c")]
    parent := some (.value "a" "ARG0") }

/-- A call of a method that takes a number of a type. -/
def taking (parameter : NumericType) : Block :=
  Block.applyMutation
    { id := "a", typeName := "misc_callJava_return", kind := .callStatic true
      fields := Dict.ofList [("METHOD_NAME", "take")], values := Dict.ofList [("ARG0", "b")]
      mutation := some (.call (methodOf "int" [parameter.label])) }

def callSetting (parameter : NumericType) : Setting where
  workspace :=
    { blocks := [taking parameter, negated, byteCall]
      distinct := by cases parameter <;> decide }
  target := .java

def least : Expr := .method (.verbatim "H") "least" []

theorem yields_nan :
    Yields (motorSetting.renderer.operand motor "VALUE") {} (.number "Double.NaN") {} := rfl

theorem exists_yields_negated_byte :
    ∃ after, Yields ((callSetting .byte).renderer.operand (taking .byte) "ARG0") {}
      (.negate least) after :=
  ⟨_, yields_of_fst_run_eq (by with_unfolding_all rfl)⟩

theorem exists_yields_negated_int :
    ∃ after, Yields ((callSetting .int).renderer.operand (taking .int) "ARG0") {}
      (.negate least) after :=
  ⟨_, yields_of_fst_run_eq (by with_unfolding_all rfl)⟩

/-- A motor gets `Double.NaN` where it takes an `int`, and a method gets the negative of a `byte`, which
is an `int`, where it takes a `byte`. -/
theorem unconverted_arguments_misfit :
    (ofSocket motorSetting.workspace {} motor "VALUE" = .ok (some "int") ∧
      ∃ expr after, Yields (motorSetting.renderer.operand motor "VALUE") {} expr after ∧
        expr.print = "Double.NaN" ∧ ∀ declarations, ¬ expr.Fits declarations .int) ∧
    (ofSocket (callSetting .byte).workspace {} (taking .byte) "ARG0" =
        .ok (some "byte") ∧
      ∃ expr after, Yields ((callSetting .byte).renderer.operand (taking .byte) "ARG0") {} expr after ∧
        expr.print = "-H.least()" ∧ ∀ declarations : Declarations,
          declarations.result least = some .byte → ¬ expr.Fits declarations .byte) := by
  refine ⟨⟨rfl, _, _, yields_nan, rfl, fun declarations => ?_⟩, rfl, ?_⟩
  · have htype : (Expr.number "Double.NaN").type? declarations = some (.primitive .double) := by
      rw [Expr.type?]
      decide
    rw [fits_iff_of_type? htype]
    decide
  · obtain ⟨after, hyields⟩ := exists_yields_negated_byte
    refine ⟨_, after, hyields, by decide, fun declarations hresult => ?_⟩
    have htype : (Expr.negate least).type? declarations = some (.primitive .int) := by
      rw [type?_negate, Expr.number?, least, Expr.type?, ← least, hresult]
      rfl
    rw [fits_iff_of_type? htype]
    decide

/-- The negative of a `byte` fits where an `int` is taken. -/
theorem negated_byte_fits_int :
    ∃ expr after, Yields ((callSetting .int).renderer.operand (taking .int) "ARG0") {} expr after ∧
      expr.Fits ⟨fun _ => some .byte, fun _ _ => false⟩ .int := by
  obtain ⟨after, hyields⟩ := exists_yields_negated_int
  have hholds : (NumberTree.single .negative (.call .byte)).Holds (callSetting .int).workspace
      negated :=
    ⟨⟨rfl, rfl⟩, rfl, methodOf "byte" [], ⟨.inl rfl, rfl, rfl⟩, rfl⟩
  refine ⟨_, after, hyields, ?_⟩
  refine ((numeric_argument_fits_iff rfl rfl rfl hholds hyields ?_).1 rfl).2 ?_
  · intro call hcall
    obtain rfl := List.mem_singleton.1 hcall
    rfl
  · rintro (⟨value, heq, -⟩ | ⟨-, hsmall, -⟩)
    · cases heq
    · cases hsmall

end ArgumentSample

end RobotBlocks
