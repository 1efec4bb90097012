import RobotBlocks.Proofs.Expr.Typing
import RobotBlocks.Proofs.Render.NumberTree

/-!
# The types of drawn numbers

Which types the expressions have that a tree of numbers draws. An expression has a type exactly if the
tree is usable or stands for nothing (`isNull`), it is a primitive type for sure if the tree is solid,
and its number is no wider than the type found for the tree, unless that is narrower than `int` and
arithmetic has promoted it (`Bounds`).
-/

set_option autoImplicit false

namespace RobotBlocks

open List NumericType RobotBlocks.Expr Option

/-- The operand of a conversion, or the expression itself. -/
def Expr.uncast : Expr → Expr
  | .cast _ operand => operand
  | expr => expr

namespace NumberTree

/-! ## What is known of a tree without its expressions -/

def isMissing : NumberTree → Bool
  | missing => true
  | _ => false

/-- Whether nothing else than `null` can come out. -/
def isNull : NumberTree → Bool
  | missing => true
  | choice yes no => yes.isNull && no.isNull
  | _ => false

/-- Whether all operands of arithmetic are numbers, and something else than `null` can come out. -/
def isUsable : NumberTree → Bool
  | missing => false
  | number _ | call _ => true
  | arithmetic _ left right =>
    (left.isMissing || left.isUsable) && (right.isMissing || right.isUsable)
  | single _ operand => operand.isMissing || operand.isUsable
  | choice yes no =>
    (yes.isUsable && (no.isUsable || no.isNull)) || (yes.isNull && no.isUsable)

/-- Whether the tree is usable and `null` can not come out. A choice unwraps its values if one of them
is of a primitive type. -/
def isSolid : NumberTree → Bool
  | choice yes no => yes.isUsable && no.isUsable && (yes.isSolid || no.isSolid)
  | tree => tree.isUsable

/-- Whether the value may be a result of arithmetic that keeps types, or of a sign. -/
def promotes : NumberTree → Bool
  | arithmetic operation _ _ => operation.keepsType
  | single operation _ => operation.keepsType
  | choice yes no => yes.promotes || no.promotes
  | _ => false

/-- The type of a number is within what was found for a tree: a missing number is an `int`, and a type
narrower than `int` is exact unless the value was promoted. -/
def Bounds (tree : NumberTree) (t : NumericType) : Prop :=
  match tree.found with
  | none => t = .int
  | some found =>
    if found.isSmall then t = if tree.promotes then .int else found else t.rank ≤ found.rank

/-- The calls of a tree in an expression that it draws, with the types of their results. -/
def calls : NumberTree → Expr → List (Expr × NumericType)
  | call result, expr => [(expr, result)]
  | arithmetic _ left right, .binary _ x y => left.calls x.uncast ++ right.calls y
  | arithmetic _ left right, .call _ [x, y] => left.calls x ++ right.calls y
  | single _ operand, .negate x => operand.calls x
  | single _ operand, .call _ [x] => operand.calls x
  | single _ operand, .call _ [_, x] => operand.calls x
  | choice yes no, .conditional _ x y => yes.calls x ++ no.calls y
  | _, _ => []

/-- The methods that a tree calls in an expression are declared with the results that it states. -/
def Agrees (declarations : Declarations) (tree : NumberTree) (expr : Expr) : Prop :=
  ∀ call ∈ tree.calls expr, declarations.result call.1 = some call.2

/-- An expression has a type with a number within the bounds of a tree, and a primitive one if the tree
is solid. -/
def Types (declarations : Declarations) (tree : NumberTree) (expr : Expr) : Prop :=
  ∃ v t, expr.type? declarations = some v ∧ v.number? = some t ∧ tree.Bounds t ∧
    (tree.isSolid = true → v = .primitive t)

/-! ## Expressions of operations -/

section

variable {declarations : Declarations} {empty expr : Expr}
variable {tree : NumberTree} {yes no : NumberTree}

theorem Draws.uncast_eq (h : tree.Draws .zero expr) : expr.uncast = expr := by
  cases h <;> rfl

variable {operation : Arithmetic}

/-- The expression of arithmetic has a type if both operands are numbers, and none otherwise. -/
theorem Draws.arithmetic_typed {left right : NumberTree}
    (h : (NumberTree.arithmetic operation left right).Draws empty expr)
    (declarations : Declarations) :
    ∃ x y, left.Draws .zero x ∧ right.Draws .zero y ∧
      ((NumberTree.arithmetic operation left right).Agrees declarations expr →
        left.Agrees declarations x ∧ right.Agrees declarations y) ∧
      (∀ s t, x.number? declarations = some s → y.number? declarations = some t →
        ∃ u, expr.type? declarations = some (.primitive u) ∧
          (operation.keepsType = true → u = (s.widest t).promoted)) ∧
      (x.number? declarations = none ∨ y.number? declarations = none →
        expr.type? declarations = none) ∧
      (expr.isConstant = true → x.isConstant = true ∧ y.isConstant = true) := by
  have hagrees : ∀ {x y : Expr} {calls : List (Expr × NumericType)},
      calls = left.calls x ++ right.calls y →
      (∀ call ∈ calls, declarations.result call.1 = some call.2) →
      left.Agrees declarations x ∧ right.Agrees declarations y := by
    rintro x y _ rfl h
    exact ⟨fun call hcall => h call (mem_append_left _ hcall),
      fun call hcall => h call (mem_append_right _ hcall)⟩
  cases h with
  | @operator _ x y _ operator _ _ hoperator hx hy =>
    have harithmetic : Expr.isArithmetic operator = true := by
      cases operation <;> cases hoperator <;> decide
    refine ⟨x, y, hx, hy, hagrees ?_, ?_, ?_, by simp [Expr.isConstant]⟩
    · rw [calls, hx.uncast_eq]
    · intro s t hs ht
      exact ⟨_, by rw [type?_binary harithmetic, hs, ht]; rfl, fun _ => rfl⟩
    · rintro (hnone | hnone)
      · rw [type?_binary harithmetic, hnone]
        rfl
      · rw [type?_binary harithmetic, hnone]
        cases x.number? declarations <;> rfl
  | @quotient _ x y _ _ hx hy =>
    refine ⟨x, y, hx, hy, hagrees rfl, ?_, ?_, by simp [Expr.isConstant]⟩
    · intro s t hs ht
      exact ⟨_, by rw [type?_binary rfl, number?_cast_double, hs, ht]; rfl,
        by simp [Arithmetic.keepsType]⟩
    · rintro (hnone | hnone)
      · rw [type?_binary rfl, number?_cast_double, hnone]
        rfl
      · rw [type?_binary rfl, number?_cast_double, hnone]
        cases x.number? declarations <;> rfl
  | @power _ x y _ _ hx hy =>
    refine ⟨x, y, hx, hy, hagrees rfl, ?_, ?_, by simp [Expr.isConstant]⟩
    · intro s t hs ht
      exact ⟨_, by rw [type?_call_two, hs, ht]; rfl, by simp [Arithmetic.keepsType]⟩
    · rintro (hnone | hnone)
      all_goals
        rw [type?_call_two, hnone]
        exact callType?_eq_none (by simp)

variable {operand : NumberTree}

/-- The expression of an operation on one number has a type if the operand is a number, and none
otherwise. -/
theorem Draws.single_typed {operation : SingleOperation}
    (h : (NumberTree.single operation operand).Draws empty expr) (declarations : Declarations) :
    ∃ x, operand.Draws .zero x ∧
      ((NumberTree.single operation operand).Agrees declarations expr →
        operand.Agrees declarations x) ∧
      (∀ t, x.number? declarations = some t →
        ∃ u, expr.type? declarations = some (.primitive u) ∧
          (operation.keepsType = true → u = t.promoted)) ∧
      (x.number? declarations = none → expr.type? declarations = none) ∧
      (expr.isConstant = true → x.isConstant = true) := by
  cases h with
  | @negative _ x _ hx =>
    refine ⟨x, hx, id, ?_, ?_, by simp [Expr.isConstant]⟩
    · intro t ht
      exact ⟨_, by rw [type?_negate, ht]; rfl, fun _ => rfl⟩
    · intro hnone
      rw [type?_negate, hnone]
      rfl
  | @powerOfTen _ x _ hx =>
    refine ⟨x, hx, id, ?_, ?_, by simp [Expr.isConstant]⟩
    · intro t ht
      have hten : (Expr.number "10").number? declarations = some .int := by
        unfold Expr.number?
        rw [Expr.type?]
        decide
      exact ⟨_, by rw [type?_call_two, hten, ht]; rfl, by simp [SingleOperation.keepsType]⟩
    · intro hnone
      rw [type?_call_two, hnone]
      exact callType?_eq_none (by simp)
  | @function _ x _ function _ hfunction hx =>
    refine ⟨x, hx, id, ?_, ?_, by simp [Expr.isConstant]⟩
    · intro t ht
      rw [type?_call_one, ht]
      cases operation with
      | absolute =>
        cases hfunction
        exact ⟨_, rfl, fun _ => rfl⟩
      | root | naturalLogarithm | decimalLogarithm | exponential =>
        cases hfunction
        exact ⟨_, rfl, by simp [SingleOperation.keepsType]⟩
      | negative | powerOfTen => cases hfunction
    · intro hnone
      rw [type?_call_one, hnone]
      exact callType?_eq_none (by simp)

theorem Draws.choice_typed (h : (NumberTree.choice yes no).Draws empty expr)
    (declarations : Declarations) :
    ∃ x y, yes.Draws .nothing x ∧ no.Draws .nothing y ∧
      ((NumberTree.choice yes no).Agrees declarations expr →
        yes.Agrees declarations x ∧ no.Agrees declarations y) ∧
      expr.type? declarations =
        ((x.type? declarations).bind fun s => (y.type? declarations).map fun t =>
          choiceType declarations x.constant? y.constant? s t) ∧
      (expr.isConstant = true → x.isConstant = true ∧ y.isConstant = true) := by
  cases h with
  | @choice _ test x y _ _ hx hy =>
    refine ⟨x, y, hx, hy, ?_, by rw [Expr.type?], ?_⟩
    · intro h
      exact ⟨fun call hcall => h call (mem_append_left _ hcall),
        fun call hcall => h call (mem_append_right _ hcall)⟩
    · intro hconstant
      simp only [Expr.isConstant, Bool.and_eq_true] at hconstant
      exact ⟨hconstant.1.2, hconstant.2⟩

/-! ## Nothing -/

theorem found_of_isNull (h : tree.isNull = true) : tree.found = none ∧ tree.promotes = false := by
  induction tree with
  | missing => exact ⟨rfl, rfl⟩
  | choice yes no ihyes ihno =>
    obtain ⟨hyes, hno⟩ := Bool.and_eq_true_iff.1 h
    simp [found, promotes, ihyes hyes, ihno hno, StaticType.widest?]
  | number | arithmetic | single | call => cases h

theorem Draws.type?_of_isNull (h : tree.Draws empty expr)
    (hempty : tree.isMissing = true → empty = .nothing) (hnull : tree.isNull = true) :
    expr.type? declarations = some .null := by
  induction tree generalizing empty expr with
  | missing =>
    cases h
    rw [hempty rfl, Expr.nothing, Expr.type?]
    rfl
  | choice yes no ihyes ihno =>
    obtain ⟨hyes, hno⟩ := Bool.and_eq_true_iff.1 hnull
    obtain ⟨x, y, hx, hy, -, htype, -⟩ := h.choice_typed declarations
    rw [htype, ihyes hx (fun _ => rfl) hyes, ihno hy (fun _ => rfl) hno]
    rfl
  | number | arithmetic | single | call => cases hnull

theorem not_isUsable_of_isNull (h : tree.isNull = true) : tree.isUsable = false := by
  induction tree with
  | missing => rfl
  | choice yes no ihyes ihno =>
    obtain ⟨hyes, hno⟩ := Bool.and_eq_true_iff.1 h
    simp [isUsable, ihyes hyes, ihno hno]
  | number | arithmetic | single | call => cases h

/-! ## Numbers -/

theorem exists_found_of_isUsable (h : tree.isUsable = true) : ∃ found, tree.found = some found := by
  induction tree with
  | missing => cases h
  | number | arithmetic | single | call => exact ⟨_, rfl⟩
  | choice yes no ihyes ihno =>
    simp only [isUsable, Bool.or_eq_true, Bool.and_eq_true] at h
    rw [found]
    rcases h with ⟨hyes, hno | hno⟩ | ⟨hyes, hno⟩
    · obtain ⟨s, hs⟩ := ihyes hyes
      obtain ⟨t, ht⟩ := ihno hno
      exact ⟨s.widest t, by rw [hs, ht]; rfl⟩
    · obtain ⟨s, hs⟩ := ihyes hyes
      exact ⟨s, by rw [hs, (found_of_isNull hno).1]; rfl⟩
    · obtain ⟨t, ht⟩ := ihno hno
      exact ⟨t, by rw [(found_of_isNull hyes).1, ht]; rfl⟩

/-- Of two types, one of them perhaps unknown, one is small if the wider one is. -/
theorem isSmall_or_of_widest? {s t : Option NumericType} {wide : NumericType}
    (h : StaticType.widest? s t = some wide) (hsmall : wide.isSmall = true) :
    (∃ a, s = some a ∧ a.isSmall = true) ∨ ∃ a, t = some a ∧ a.isSmall = true := by
  cases s with
  | none =>
    cases t with
    | none => cases h
    | some t => exact .inr ⟨t, rfl, by cases h; exact hsmall⟩
  | some s =>
    refine .inl ⟨s, rfl, ?_⟩
    cases t with
    | none => cases h; exact hsmall
    | some t =>
      cases h
      have hrank := rank_widest s t
      simp only [NumericType.isSmall, decide_eq_true_eq] at hsmall ⊢
      omega

/-- Only a call gives a value of a small type, so such a value is not constant. -/
theorem Draws.not_isConstant (h : tree.Draws empty expr) {small : NumericType}
    (hfound : tree.found = some small) (hsmall : small.isSmall = true) :
    expr.isConstant = false := by
  -- whether an expression is constant does not depend on what is declared
  let declarations : Declarations := ⟨fun _ => none, fun _ _ => false⟩
  induction tree generalizing empty expr small with
  | missing => cases hfound
  | number value =>
    cases hfound
    split at hsmall <;> cases hsmall
  | call result =>
    cases h
    rfl
  | arithmetic operation left right ihleft ihright =>
    obtain ⟨x, y, hx, hy, -, -, -, hconstant⟩ := h.arithmetic_typed declarations
    rw [Bool.eq_false_iff]
    intro hexpr
    obtain ⟨hxconstant, hyconstant⟩ := hconstant hexpr
    rw [found] at hfound
    cases hfound
    split at hsmall
    · cases hwide : StaticType.widest? left.found right.found with
      | none =>
        rw [hwide] at hsmall
        cases hsmall
      | some wide =>
        rw [hwide] at hsmall
        rcases isSmall_or_of_widest? hwide hsmall with ⟨a, ha, hsmall⟩ | ⟨a, ha, hsmall⟩
        · rw [ihleft hx ha hsmall] at hxconstant
          cases hxconstant
        · rw [ihright hy ha hsmall] at hyconstant
          cases hyconstant
    · cases hsmall
  | single operation operand ih =>
    obtain ⟨x, hx, -, -, -, hconstant⟩ := h.single_typed declarations
    rw [Bool.eq_false_iff]
    intro hexpr
    have hxconstant := hconstant hexpr
    rw [found] at hfound
    cases hfound
    split at hsmall
    · cases hoperand : operand.found with
      | none =>
        rw [hoperand] at hsmall
        cases hsmall
      | some a =>
        rw [hoperand] at hsmall
        rw [ih hx hoperand hsmall] at hxconstant
        cases hxconstant
    · cases hsmall
  | choice yes no ihyes ihno =>
    obtain ⟨x, y, hx, hy, -, -, hconstant⟩ := h.choice_typed declarations
    rw [Bool.eq_false_iff]
    intro hexpr
    obtain ⟨hxconstant, hyconstant⟩ := hconstant hexpr
    rcases isSmall_or_of_widest? hfound hsmall with ⟨a, ha, hsmall⟩ | ⟨a, ha, hsmall⟩
    · rw [ihyes hx ha hsmall] at hxconstant
      cases hxconstant
    · rw [ihno hy ha hsmall] at hyconstant
      cases hyconstant

/-! ## Bounds -/

def rankOf (type : Option NumericType) : Nat := (type.map NumericType.rank).getD 0

theorem rank_of_widest? {s t : Option NumericType} {wide : NumericType}
    (h : StaticType.widest? s t = some wide) : wide.rank = max (rankOf s) (rankOf t) := by
  cases s with
  | none =>
    cases t with
    | none => cases h
    | some t =>
      cases h
      simp [rankOf]
  | some s =>
    cases t with
    | none =>
      cases h
      simp [rankOf]
    | some t =>
      cases h
      exact rank_widest s t

theorem rank_le_double (t : NumericType) : t.rank ≤ NumericType.double.rank := by
  cases t <;> decide

variable {t : NumericType}

theorem Bounds.rank_le (h : tree.Bounds t) :
    t.rank ≤ max NumericType.int.rank (rankOf tree.found) := by
  unfold Bounds at h
  split at h
  · subst h
    omega
  · rename_i found hfound
    rw [hfound]
    simp only [rankOf, map_some, getD_some]
    split at h
    · subst h
      split <;> omega
    · omega

variable {u : NumericType}

/-- A promoted type is within bounds if it is no wider than the type found and `int`. -/
theorem bounds_of_promoted {found : NumericType} (hfound : tree.found = some found)
    (hpromotes : tree.promotes = true) (hlow : NumericType.int.rank ≤ u.rank)
    (h : u.rank ≤ max NumericType.int.rank found.rank) : tree.Bounds u := by
  unfold Bounds
  rw [hfound, hpromotes]
  dsimp only
  split
  · rename_i hsmall
    simp only [NumericType.isSmall, decide_eq_true_eq] at hsmall
    exact rank_injective (by rw [if_pos rfl]; omega)
  · rename_i hsmall
    simp only [NumericType.isSmall, decide_eq_true_eq] at hsmall
    omega

theorem bounds_arithmetic {left right : NumberTree} {s : NumericType} (hleft : left.Bounds s)
    (hright : right.Bounds t) (h : operation.keepsType = true → u = (s.widest t).promoted) :
    (NumberTree.arithmetic operation left right).Bounds u := by
  cases hkeeps : operation.keepsType with
  | false =>
    unfold Bounds
    rw [found, hkeeps]
    exact rank_le_double u
  | true =>
    have hs := hleft.rank_le
    have ht := hright.rank_le
    have hu : u.rank = max NumericType.int.rank (max s.rank t.rank) := by
      rw [h hkeeps, rank_promoted, rank_widest]
    refine bounds_of_promoted rfl hkeeps (by omega) ?_
    rw [hkeeps, if_pos rfl]
    cases hwide : StaticType.widest? left.found right.found with
    | none =>
      have := rank_le_double u
      rw [getD_none]
      omega
    | some wide =>
      have := rank_of_widest? hwide
      rw [getD_some]
      omega

theorem bounds_single {operation : SingleOperation} (hoperand : operand.Bounds t)
    (h : operation.keepsType = true → u = t.promoted) :
    (NumberTree.single operation operand).Bounds u := by
  cases hkeeps : operation.keepsType with
  | false =>
    unfold Bounds
    rw [found, hkeeps]
    exact rank_le_double u
  | true =>
    have ht := hoperand.rank_le
    have hu : u.rank = max NumericType.int.rank t.rank := by
      rw [h hkeeps, rank_promoted]
    refine bounds_of_promoted rfl hkeeps (by omega) ?_
    rw [hkeeps, if_pos rfl]
    cases hfound : operand.found with
    | none =>
      have := rank_le_double u
      rw [getD_none]
      omega
    | some found =>
      rw [hfound, rankOf, map_some, getD_some] at ht
      rw [getD_some]
      omega

theorem bounds_choice {x y : Expr} {s a b : NumericType} (hx : yes.Draws .nothing x)
    (hy : no.Draws .nothing y) (ha : yes.found = some a) (hb : no.found = some b)
    (hyes : yes.Bounds s) (hno : no.Bounds t) :
    (NumberTree.choice yes no).Bounds
      (choiceType.ofTypes declarations x.constant? y.constant? s t) := by
  have hwide := rank_widest a b
  have hbounds : ∀ {tree : NumberTree} {found t : NumericType}, tree.found = some found →
      tree.Bounds t → found.isSmall = true → t = if tree.promotes then .int else found := by
    intro tree found t hfound h hsmall
    unfold Bounds at h
    simpa only [hfound, hsmall, if_true] using h
  have hs := hyes.rank_le
  have ht := hno.rank_le
  have hle := rank_ofTypes_le declarations x.constant? y.constant? s t
  simp only [ha, hb, rankOf, map_some, getD_some] at hs ht
  unfold Bounds
  rw [found, ha, hb, StaticType.widest?]
  dsimp only
  split
  · rename_i hsmall
    simp only [NumericType.isSmall, decide_eq_true_eq] at hsmall
    have hsmalla : a.isSmall = true := by
      simp only [NumericType.isSmall, decide_eq_true_eq]
      omega
    have hsmallb : b.isSmall = true := by
      simp only [NumericType.isSmall, decide_eq_true_eq]
      omega
    rw [Expr.constant?, hx.not_isConstant ha hsmalla, Expr.constant?, hy.not_isConstant hb hsmallb,
      hbounds ha hyes hsmalla, hbounds hb hno hsmallb]
    exact ofTypes_of_isSmall declarations _ _ hsmalla hsmallb
  · rename_i hsmall
    simp only [NumericType.isSmall, decide_eq_true_eq] at hsmall
    omega

theorem bounds_choice_isNull (hnull : no.isNull = true) (h : yes.Bounds t) :
    (NumberTree.choice yes no).Bounds t ∧ (NumberTree.choice no yes).Bounds t := by
  obtain ⟨hfound, hpromotes⟩ := found_of_isNull hnull
  have hleft : StaticType.widest? yes.found none = yes.found := by cases yes.found <;> rfl
  have hright : StaticType.widest? none yes.found = yes.found := by cases yes.found <;> rfl
  unfold Bounds at h ⊢
  simp only [found, promotes, hfound, hpromotes, hleft, hright, Bool.or_false, Bool.false_or]
  exact ⟨h, h⟩

/-! ## The types of drawn expressions -/

/-- The operand of arithmetic is a number within the bounds of its tree if it is missing or if the tree
is usable and has such numbers. -/
theorem Draws.exists_number? (h : tree.Draws .zero expr)
    (husable : (tree.isMissing || tree.isUsable) = true)
    (htypes : tree.isUsable = true → tree.Types declarations expr) :
    ∃ t, expr.number? declarations = some t ∧ tree.Bounds t := by
  rcases Bool.or_eq_true_iff.1 husable with hmissing | husable
  · cases tree with
    | missing =>
      cases h
      refine ⟨.int, ?_, rfl⟩
      unfold Expr.number? Expr.zero
      rw [Expr.type?]
      decide
    | number | arithmetic | single | choice | call => cases hmissing
  · obtain ⟨v, t, htype, hnumber, hbounds, -⟩ := htypes husable
    exact ⟨t, by rw [Expr.number?, htype]; exact hnumber, hbounds⟩

theorem types_choice {x y : Expr} (hx : yes.Draws .nothing x) (hy : no.Draws .nothing y)
    (hyes : yes.isUsable = true → yes.Types declarations x)
    (hno : no.isUsable = true → no.Types declarations y) (htype : expr.type? declarations =
      ((x.type? declarations).bind fun s => (y.type? declarations).map fun t =>
        choiceType declarations x.constant? y.constant? s t))
    (husable : (NumberTree.choice yes no).isUsable = true) :
    (NumberTree.choice yes no).Types declarations expr := by
  simp only [isUsable, Bool.or_eq_true, Bool.and_eq_true] at husable
  rcases husable with ⟨hyesUsable, hnoUsable | hnull⟩ | ⟨hnull, hnoUsable⟩
  · obtain ⟨v, s, hv, hs, hsbounds, hvsolid⟩ := hyes hyesUsable
    obtain ⟨v', t, hv', ht, htbounds, hvsolid'⟩ := hno hnoUsable
    obtain ⟨a, ha⟩ := exists_found_of_isUsable hyesUsable
    obtain ⟨b, hb⟩ := exists_found_of_isUsable hnoUsable
    obtain ⟨hnumber, hprimitive⟩ := choiceType_of_number? hs ht
    refine ⟨_, _, by rw [htype, hv, hv']; rfl, hnumber,
      bounds_choice hx hy ha hb hsbounds htbounds, fun hsolid => hprimitive ?_⟩
    simp only [isSolid, Bool.and_eq_true, Bool.or_eq_true] at hsolid
    exact hsolid.2.imp hvsolid hvsolid'
  · obtain ⟨v, s, hv, hs, hsbounds, -⟩ := hyes hyesUsable
    have hboxed : expr.type? declarations = some (.boxed s) := by
      rw [htype, hv, hy.type?_of_isNull (fun _ => rfl) hnull]
      exact congrArg some (choiceType_null_right hs)
    refine ⟨_, s, hboxed, rfl, (bounds_choice_isNull hnull hsbounds).1, fun hsolid => ?_⟩
    simp [isSolid, not_isUsable_of_isNull hnull] at hsolid
  · obtain ⟨v, t, hv, ht, htbounds, -⟩ := hno hnoUsable
    have hboxed : expr.type? declarations = some (.boxed t) := by
      rw [htype, hx.type?_of_isNull (fun _ => rfl) hnull, hv]
      exact congrArg some (choiceType_null_left ht)
    refine ⟨_, t, hboxed, rfl, (bounds_choice_isNull hnull htbounds).2, fun hsolid => ?_⟩
    simp [isSolid, not_isUsable_of_isNull hnull] at hsolid

/-- The expression of a usable tree has a type that the tree bounds. -/
theorem Draws.types_of_isUsable (h : tree.Draws empty expr)
    (hagrees : tree.Agrees declarations expr) (husable : tree.isUsable = true) :
    tree.Types declarations expr := by
  induction tree generalizing empty expr with
  | missing => cases husable
  | number value =>
    cases h
    refine ⟨_, _, by rw [Expr.type?, Numeral.literalType?_literal]; rfl, rfl, ?_, fun _ => rfl⟩
    unfold Bounds
    rw [found]
    cases Numeral.fitsInt value <;> exact Nat.le_refl _
  | call result =>
    cases h
    have hresult := hagrees _ (mem_singleton.2 rfl)
    refine ⟨_, _, by rw [Expr.type?, hresult]; rfl, rfl, ?_, fun _ => rfl⟩
    unfold Bounds
    rw [found]
    dsimp only
    split
    · rfl
    · exact Nat.le_refl _
  | arithmetic operation left right ihleft ihright =>
    obtain ⟨x, y, hx, hy, hparts, htyped, -, -⟩ := h.arithmetic_typed declarations
    obtain ⟨hleft, hright⟩ := hparts hagrees
    obtain ⟨hleftUsable, hrightUsable⟩ := Bool.and_eq_true_iff.1 husable
    obtain ⟨s, hs, hsbounds⟩ := hx.exists_number? hleftUsable (ihleft hx hleft)
    obtain ⟨t, ht, htbounds⟩ := hy.exists_number? hrightUsable (ihright hy hright)
    obtain ⟨u, htype, hu⟩ := htyped s t hs ht
    exact ⟨_, u, htype, rfl, bounds_arithmetic hsbounds htbounds hu, fun _ => rfl⟩
  | single operation operand ih =>
    obtain ⟨x, hx, hpart, htyped, -, -⟩ := h.single_typed declarations
    obtain ⟨t, ht, hbounds⟩ := hx.exists_number? husable (ih hx (hpart hagrees))
    obtain ⟨u, htype, hu⟩ := htyped t ht
    exact ⟨_, u, htype, rfl, bounds_single hbounds hu, fun _ => rfl⟩
  | choice yes no ihyes ihno =>
    obtain ⟨x, y, hx, hy, hparts, htype, -⟩ := h.choice_typed declarations
    obtain ⟨hyes, hno⟩ := hparts hagrees
    exact types_choice hx hy (ihyes hx hyes) (ihno hy hno) htype husable

/-- An operand of arithmetic that is neither missing nor usable is no number. -/
theorem Draws.number?_eq_none (h : tree.Draws empty expr)
    (husable : (tree.isMissing || tree.isUsable) = false)
    (hnone : tree.isUsable = false → tree.isNull = false → expr.type? declarations = none) :
    expr.number? declarations = none := by
  obtain ⟨hmissing, husable⟩ := Bool.or_eq_false_iff.1 husable
  unfold Expr.number?
  cases hnull : tree.isNull with
  | true =>
    rw [h.type?_of_isNull (by simp [hmissing]) hnull]
    rfl
  | false =>
    rw [hnone husable hnull]
    rfl

/-- The expression of a tree that is neither usable nor nothing has no type. -/
theorem Draws.type?_eq_none (h : tree.Draws empty expr) (husable : tree.isUsable = false)
    (hnull : tree.isNull = false) : expr.type? declarations = none := by
  induction tree generalizing empty expr with
  | missing => cases hnull
  | number | call => cases husable
  | arithmetic operation left right ihleft ihright =>
    obtain ⟨x, y, hx, hy, -, -, hnone, -⟩ := h.arithmetic_typed declarations
    refine hnone ((Bool.and_eq_false_iff.1 husable).imp ?_ ?_)
    · exact fun hleft => hx.number?_eq_none hleft (ihleft hx)
    · exact fun hright => hy.number?_eq_none hright (ihright hy)
  | single operation operand ih =>
    obtain ⟨x, hx, -, -, hnone, -⟩ := h.single_typed declarations
    exact hnone (hx.number?_eq_none husable (ih hx))
  | choice yes no ihyes ihno =>
    obtain ⟨x, y, hx, hy, -, htype, -⟩ := h.choice_typed declarations
    -- one of the two values has no type, for otherwise the choice would be usable or nothing
    have hsplit : yes.isUsable = false ∧ yes.isNull = false ∨
        no.isUsable = false ∧ no.isNull = false := by
      simp only [isUsable, isNull] at husable hnull
      revert husable hnull
      cases yes.isUsable <;> cases yes.isNull <;> cases no.isUsable <;> cases no.isNull <;> decide
    rw [htype]
    rcases hsplit with ⟨husable, hnull⟩ | ⟨husable, hnull⟩
    · rw [ihyes hx husable hnull]
      rfl
    · rw [ihno hy husable hnull]
      cases x.type? declarations <;> rfl

end

end NumberTree

end RobotBlocks
