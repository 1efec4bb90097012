import RobotBlocks.Proofs.Binary64.Integers
import RobotBlocks.Proofs.Render.Arguments

/-!
# Integer literals

The text of an integer is its digits, and past a bound also `.0`. A class has the bound of `int` and a
script a greater one, and both texts stand for the integer (`denoted?_integerText`). For a socket with a
primitive type four bounds count: of `int`, of plain texts, of `long` and of `float`. Up to two to the
power of 53 they leave one text for each type, `socketText`, and that is what is rendered into the socket
(`integer_literals_keep_value`).
-/

set_option autoImplicit false

namespace RobotBlocks

open Grammar List
open StaticType (within ofSocket ofBlock step)
open Binary64 (IsInteger Writes)

namespace Numeral

/-! ## What a literal stands for -/

/-- The number that a fraction adds. -/
def fractionValue? : List Char → Option ℚ
  | [] => some 0
  | '.' :: ds => if IsDigits ds then some (Nat.ofDigitChars 10 ds 0 / 10 ^ ds.length) else none
  | _ => none

def unsignedValue? (cs : List Char) : Option ℚ :=
  if cs.takeWhile Char.isDigit = [] then none
  else (fractionValue? (cs.dropWhile Char.isDigit)).map
    (Nat.ofDigitChars 10 (cs.takeWhile Char.isDigit) 0 + ·)

/-- The number that a literal stands for: digits with an optional minus and an optional fraction. -/
def denoted? (literal : String) : Option ℚ :=
  match literal.toList with
  | '-' :: cs => (unsignedValue? cs).map Neg.neg
  | cs => unsignedValue? cs

theorem unsignedValue?_append (n : ℕ) {rest : List Char}
    (hrest : rest.takeWhile Char.isDigit = [])
    (hfraction : fractionValue? (rest.dropWhile Char.isDigit) = some 0) :
    unsignedValue? (Nat.toDigits 10 n ++ rest) = some (n : ℚ) := by
  have hdigits := isDigits_toDigits n
  have hvalue : Nat.ofDigitChars 10 (Nat.toDigits 10 n) 0 = n :=
    Nat.ofDigitChars_toDigits (by decide) (by decide)
  rw [unsignedValue?, takeWhile_append_of_pos hdigits.2, dropWhile_append_of_pos hdigits.2,
    hrest, hfraction, append_nil, if_neg hdigits.1, hvalue, Option.map_some, add_zero]

/-- The text of an integer that is plain below a bound. -/
def integerText (bound : ℕ) (i : ℤ) : String :=
  if i.natAbs < bound then toString i else toString i ++ ".0"

/-- The text of an integer denotes that integer. -/
theorem denoted?_integerText (bound : ℕ) (i : ℤ) :
    denoted? (integerText bound i) = some (i : ℚ) := by
  obtain ⟨rest, htext, hrest⟩ : ∃ rest, (integerText bound i).toList = (toString i).toList ++ rest ∧
      unsignedValue? (Nat.toDigits 10 i.natAbs ++ rest) = some (i.natAbs : ℚ) := by
    unfold integerText
    split
    · exact ⟨[], by simp, unsignedValue?_append _ rfl rfl⟩
    · exact ⟨['.', '0'], by simp, unsignedValue?_append _ (by decide) (by decide +kernel)⟩
  unfold denoted?
  rw [htext, toList_toString_int]
  by_cases hneg : i < 0
  · rw [if_pos hneg]
    show (unsignedValue? (Nat.toDigits 10 i.natAbs ++ rest)).map Neg.neg = _
    rw [hrest, Option.map_some, Nat.cast_natAbs, abs_of_neg hneg, Int.cast_neg, neg_neg]
  · rw [if_neg hneg]
    have hvalue : (i.natAbs : ℚ) = i := by
      rw [Nat.cast_natAbs, abs_of_nonneg (not_lt.1 hneg)]
    split
    · rename_i cs hcs
      obtain ⟨c, ds, hds⟩ := exists_cons_of_ne_nil (isDigits_toDigits i.natAbs).1
      have hminus := (isDigits_toDigits i.natAbs).2 c (hds ▸ mem_cons_self)
      rw [hds, cons_append, List.cons.injEq] at hcs
      rw [hcs.1] at hminus
      cases hminus
    · rw [hrest, hvalue]

theorem hasPoint_append_point (text : String) : hasPoint (text ++ ".0") = true := by
  simp [hasPoint]

theorem wholeValue?_of_hasPoint {text : String} (h : hasPoint text = true) :
    wholeValue? text.toList = none := by
  obtain ⟨c, hc, hminus, hdigit⟩ : ∃ c ∈ text.toList, c ≠ '-' ∧ c.isDigit = false := by
    rcases hasPoint_eq_true_iff.1 h with h | h <;> exact ⟨_, h, by decide, by decide⟩
  have hnot : ∀ ds, c ∈ ds → ¬ IsDigits ds := by
    intro ds hmem hds
    rw [hds.2 c hmem] at hdigit
    cases hdigit
  unfold wholeValue?
  split
  · rename_i ds hds
    rw [hds] at hc
    rw [if_neg (hnot ds ((mem_cons.1 hc).resolve_left hminus))]
  · rw [if_neg (hnot _ hc)]

/-- Below the bound the text is plain, and otherwise it has a point. -/
theorem integerText_cases (bound : ℕ) (i : ℤ) :
    (i.natAbs < bound ∧ hasPoint (integerText bound i) = false ∧
        wholeValue? (integerText bound i).toList = some i) ∨
      (bound ≤ i.natAbs ∧ hasPoint (integerText bound i) = true ∧
        wholeValue? (integerText bound i).toList = none) := by
  unfold integerText
  by_cases h : i.natAbs < bound
  · rw [if_pos h]
    exact .inl ⟨h, hasPoint_toString_int i, wholeValue?_toString_int i⟩
  · rw [if_neg h]
    have hpoint := hasPoint_append_point (toString i)
    exact .inr ⟨not_lt.1 h, hpoint, wholeValue?_of_hasPoint hpoint⟩

/-! ## Texts of integers -/

variable {value : Binary64} {i : ℤ}

/-- Integers below this one are written without a point. -/
def plainBelow : Target → ℕ
  | .java => maxInt + 1
  | .javaScript => plainBound

section

variable (h : IsInteger value i)

include h

theorem fitsInt_iff : fitsInt value = true ↔ i.natAbs ≤ maxInt := by
  rw [fitsInt, h.isWhole, Bool.true_and, h.absAtMost_iff]

theorem scriptText_eq : scriptText value = integerText plainBound i := by
  unfold scriptText integerText
  simp only [h.isWhole, Bool.true_and, h.absBelow_iff, h.toInteger_eq]
  split
  · rfl
  · exact h.text_eq (by rw [← not_lt]; assumption)

theorem classText_eq : classText value = integerText (maxInt + 1) i := by
  unfold classText
  dsimp only
  rw [scriptText_eq h]
  unfold integerText
  rw [h.isWhole]
  by_cases hfits : i.natAbs ≤ maxInt
  · have hplain : i.natAbs < plainBound := hfits.trans_lt (by decide)
    simp [(fitsInt_iff h).2 hfits, hplain, Nat.lt_succ_iff.2 hfits]
  · have hnot : fitsInt value = false := by simpa using mt (fitsInt_iff h).1 hfits
    rw [if_neg (mt Nat.lt_succ_iff.1 hfits), hnot]
    split
    · rw [hasPoint_toString_int]
      rfl
    · rw [hasPoint_append_point]
      rfl

theorem literal_eq (target : Target) :
    literal target value = integerText (plainBelow target) i := by
  have hfinite := h.isFinite
  cases value with
  | nan | infinite => cases hfinite
  | finite =>
    cases target with
    | java => exact classText_eq h
    | javaScript => exact scriptText_eq h

end

def socketText (type : NumericType) (i : ℤ) : String :=
  let literal := integerText (maxInt + 1) i
  match type with
  | .byte | .short => "(" ++ type.label ++ ") " ++ literal
  | .int => if i.natAbs ≤ maxInt then toString i else "(int) " ++ literal
  | .long => if i.natAbs ≤ maxInt then toString i else toString i ++ "L"
  | .float => if i.natAbs ≤ maxInt then toString i else literal ++ "F"
  | .double => literal

end Numeral

namespace Expr

open Numeral

theorem print_cast_number (type literal : String) :
    (cast type (number literal)).print = "(" ++ type ++ ") " ++ literal := by
  have hplain : Precedence.wrap literal (number literal).level .unary = literal := by
    rw [level]
    split <;> rfl
  rw [print, print, hplain]

theorem print_literalFor {value : Binary64} {i : ℤ} (h : IsInteger value i)
    (hbound : i.natAbs ≤ 2 ^ 53) (type : NumericType) :
    (literalFor type value (number (Numeral.literal .java value))).print = socketText type i := by
  have hlong : value.absBelow longBound = true :=
    (h.absBelow_iff _).2 (hbound.trans_lt (by decide))
  have hfloat : value.absAtMost maxFloat = true := (h.absAtMost_iff _).2 (hbound.trans (by decide))
  unfold literalFor
  rw [literal_eq h, h.isFinite]
  by_cases hfits : i.natAbs ≤ maxInt
  · have hplain : integerText (maxInt + 1) i = toString i := if_pos (Nat.lt_succ_iff.2 hfits)
    rw [(fitsInt_iff h).2 hfits]
    cases type <;>
      simp [NumericType.rank, plainBelow, socketText, hplain, hfits, print_cast_number, print]
  · have hnot : fitsInt value = false := by simpa using mt (fitsInt_iff h).1 hfits
    rw [hnot, classText_eq h]
    cases type <;>
      simp [NumericType.rank, plainBelow, socketText, hfits, print_cast_number, print, hlong, hfloat,
        h.isWhole, h.toInteger_eq, NumericType.label]

end Expr

/-! ## Number blocks -/

/-- A block for a number that states an integer. -/
structure Block.StatesInteger (block : Block) (i : ℤ) : Prop where
  kind_eq : block.kind = .mathNumber
  shape_eq : block.shape = Shape.ofKind .mathNumber
  text : ∃ text, block.field? "NUM" = some text ∧ Writes (Text.trim text).toList i

section

variable {block child : Block} {i : ℤ} {value : Binary64} {setting : Setting}

theorem Block.StatesInteger.exists_literal (h : child.StatesInteger i) (hbound : i.natAbs ≤ 2 ^ 53) :
    ∃ value, child.literal = .ok value ∧ IsInteger value i := by
  obtain ⟨text, hfield, hwrites⟩ := h.text
  obtain ⟨value, hread, hinteger⟩ := Binary64.exists_readChars_of_writes hwrites hbound
  refine ⟨value, ?_, hinteger⟩
  have hnumber : Binary64.read (Text.trim text) = some value := hread
  unfold Block.literal Block.requiredField
  simp only [hfield, bind, Except.bind, hnumber]

theorem yields_value_number (hkind : child.kind = .mathNumber) (hliteral : child.literal = .ok value)
    (hsize : 0 < setting.workspace.size) (before : Draft) :
    Yields (setting.renderer.value child) before
      (.number (Numeral.literal setting.target value)) before := by
  obtain ⟨depth, hdepth⟩ := Nat.exists_eq_succ_of_ne_zero hsize.ne'
  have hshared : ∀ r : Renderer, r.setting = setting →
      Yields (r.sharedValue child) before (.number (Numeral.literal setting.target value)) before := by
    rintro r rfl
    unfold Renderer.sharedValue
    simp only [hkind]
    rw [hliteral]
    rfl
  rw [Setting.renderer, hdepth]
  show Yields ((setting.rendererWithin depth).renderValue child) _ _ _
  unfold Renderer.renderValue
  split
  · unfold Script.value
    simp only [hkind]
    exact hshared _ (setting.setting_rendererWithin depth)
  · unfold Compiled.value
    simp only [hkind]
    exact hshared _ (setting.setting_rendererWithin depth)

theorem ofBlock_number (hkind : child.kind = .mathNumber) (hliteral : child.literal = .ok value)
    {w : Workspace} (hsize : 0 < w.size) (table : TypeTable) :
    ofBlock w table child =
      .ok (some (if Numeral.fitsInt value then "int" else "double")) := by
  obtain ⟨depth, hdepth⟩ := Nat.exists_eq_succ_of_ne_zero hsize.ne'
  rw [ofBlock, hdepth, within, step]
  simp only [hkind, hliteral]
  rfl

/-- A number in a socket with a primitive type is always rendered, as the literal for that type. -/
theorem exists_yields_operandOr_number {socket : String} (fallback : Expr) {before : Draft}
    {type : NumericType} (hjava : setting.target = .java) (hkind : child.kind = .mathNumber)
    (hshape : child.shape = Shape.ofKind .mathNumber) (hliteral : child.literal = .ok value)
    (hplugged : setting.workspace.plugged? block socket = some child)
    (hexpected : ofSocket setting.workspace before.types block socket = .ok (some type.label)) :
    ∃ after, Yields (setting.renderer.operandOr block socket fallback) before
      (.literalFor type value (.number (Numeral.literal .java value))) after := by
  obtain ⟨id, hsocket, hget, henabled⟩ := Workspace.plugged?_eq_some_iff.1 hplugged
  have hsize : 0 < setting.workspace.size := length_pos_of_mem (mem_of_find?_eq_some hget)
  have houtput : child.shape.outputCheck? = some .number := by rw [hshape]; rfl
  obtain ⟨_, start, hcheck⟩ := Renderer.sure_checkSocket block socket .number before
  have htypes := (Draft.steady_types.closed.checkSocket block socket .number).of_yields hcheck
  have hvalue := yields_value_number hkind hliteral hsize start
  rw [hjava] at hvalue
  have hcoerce : Yields (setting.renderer.coerce block socket child
      (.number (Numeral.literal .java value))) start
      (.literalFor type value (.number (Numeral.literal .java value))) start := by
    unfold Renderer.coerce
    refine yields_bind.2 ⟨start, start, yields_get.2 ⟨rfl, rfl⟩, ?_⟩
    rw [setting.setting_renderer, htypes]
    dsimp only
    rw [hexpected]
    refine yields_bind.2 ⟨_, start, yields_liftM.2 ⟨rfl, rfl⟩, ?_⟩
    simp only [Option.bind_some, NumericType.ofLabel?_label, hkind, if_true, hliteral]
    exact yields_pure.2 ⟨rfl, rfl⟩
  rw [Renderer.operandOr_of_get?_eq_some hsocket (by simpa using hget), if_neg (by simp [henabled])]
  unfold Renderer.plugged
  rw [houtput, setting.setting_renderer, hjava]
  exact ⟨start, yields_bind.2 ⟨_, _, hcheck, yields_bind.2 ⟨_, _, hvalue, hcoerce⟩⟩⟩

end

/-- A number block with an integer of at most 53 bits keeps its value and gets the type that its text
has. Its literal stands for the integer in both targets. In a class it is plain, and its static type is
`int`, exactly in the range of `int`; beyond that it has a point and is a `double`. A socket with a
primitive type gets the text that is right for the type: a `long` socket the digits, with its mark
beyond the range of `int`, and a narrower type a conversion where it is needed. -/
theorem integer_literals_keep_value {child : Block} {i : ℤ} (hchild : child.StatesInteger i)
    (hbound : i.natAbs ≤ 2 ^ 53) :
    ∃ value, child.literal = .ok value ∧
      (∀ target, Numeral.denoted? (Numeral.literal target value) = some (i : ℚ)) ∧
      ((Numeral.wholeValue? (Numeral.literal .java value).toList).isSome = true ↔
        i.natAbs ≤ 2 ^ 31 - 1) ∧
      (Numeral.hasPoint (Numeral.literal .java value) = true ↔ 2 ^ 31 - 1 < i.natAbs) ∧
      (∀ (setting : Setting) before, 0 < setting.workspace.size →
        Yields (setting.renderer.value child) before
            (.number (Numeral.literal setting.target value)) before ∧
          ofBlock setting.workspace before.types child =
            .ok (some (if i.natAbs ≤ 2 ^ 31 - 1 then "int" else "double"))) ∧
      ∀ (setting : Setting) block socket fallback before (type : NumericType),
        setting.target = .java → setting.workspace.plugged? block socket = some child →
        ofSocket setting.workspace before.types block socket = .ok (some type.label) →
        ∃ expr after, Yields (setting.renderer.operandOr block socket fallback) before expr after ∧
          expr.print = Numeral.socketText type i := by
  obtain ⟨value, hliteral, hinteger⟩ := hchild.exists_literal hbound
  have hmax : Numeral.maxInt = 2 ^ 31 - 1 := rfl
  have hplain := Numeral.integerText_cases (Numeral.maxInt + 1) i
  have hjava : Numeral.literal .java value = Numeral.integerText (Numeral.maxInt + 1) i :=
    Numeral.literal_eq hinteger .java
  rw [← hjava, hmax] at hplain
  refine ⟨value, hliteral, fun target => ?_, ?_, ?_, fun setting before hsize => ⟨?_, ?_⟩, ?_⟩
  · rw [Numeral.literal_eq hinteger, Numeral.denoted?_integerText]
  · rcases hplain with ⟨hlt, -, hwhole⟩ | ⟨hle, -, hwhole⟩
    · exact iff_of_true (by rw [hwhole]; rfl) (by omega)
    · exact iff_of_false (by simp [hwhole]) (by omega)
  · rcases hplain with ⟨hlt, hpoint, -⟩ | ⟨hle, hpoint, -⟩
    · exact iff_of_false (by simp [hpoint]) (by omega)
    · exact iff_of_true hpoint (by omega)
  · exact yields_value_number hchild.kind_eq hliteral hsize before
  · rw [ofBlock_number hchild.kind_eq hliteral hsize]
    simp only [Numeral.fitsInt_iff hinteger]
    rfl
  · intro setting block socket fallback before type hjava hplugged hexpected
    obtain ⟨after, hyields⟩ := exists_yields_operandOr_number fallback hjava hchild.kind_eq
      hchild.shape_eq hliteral hplugged hexpected
    exact ⟨_, after, hyields, Expr.print_literalFor hinteger hbound type⟩

namespace ArgumentSample

/-- A number past the range of `int`. -/
def far : Block := { nan with fields := Dict.ofList [("NUM", " -3000000000 ")] }

def farSetting : Setting where
  workspace := { blocks := [motor, far], distinct := by decide }
  target := .java

/-- The number is converted for a motor that takes an `int`. -/
theorem far_is_converted :
    far.StatesInteger (-3000000000) ∧
      ∃ expr after, Yields (farSetting.renderer.operandOr motor "VALUE" (.number "0")) {} expr after ∧
        expr.print = "(int) -3000000000.0" := by
  have hfar : far.StatesInteger (-3000000000) :=
    ⟨rfl, rfl, _, rfl, "3000000000".toList, by decide, .inl (by decide)⟩
  obtain ⟨value, -, -, -, -, -, hsocket⟩ := integer_literals_keep_value hfar (by decide)
  obtain ⟨expr, after, hyields, hprint⟩ :=
    hsocket farSetting motor "VALUE" (.number "0") {} .int rfl rfl rfl
  exact ⟨hfar, expr, after, hyields, hprint.trans (by decide)⟩

end ArgumentSample

end RobotBlocks
