import RobotBlocks.Proofs.Expr.Minimal
import RobotBlocks.Proofs.Render.OperatorTree
import RobotBlocks.Proofs.Render.RoundTrip

/-!
# Rendered values have no parentheses too many

For every tree of operators, with any of its sockets empty, and for both targets: if one pair of the
parentheses around an operand in the rendered text is left out, the text is no longer read as the same
expression, or not read at all.

That is so for every readable expression, so it remains that readable expressions are rendered. One block is
rendered as an expression of some tree of the grammar if its operands are (`exists_drawsTree_renderValue`),
and by induction over the height so is a tree of operators (`exists_drawsTree`).
-/

set_option autoImplicit false

namespace RobotBlocks

open Grammar List

variable {r : Renderer} {types : TypeTable} {block : Block}
variable {slot : Slot}

/-! ## Sockets -/

/-- Operators take every value as it is. -/
theorem draws_coerce_of_expected_eq_none {head : ValueHead} {child : Block} {expr : Expr}
    (hkind : block.kind = head.kind) (hslot : slot.Matches (block.shape.socket? slot.name))
    (hexpected : slot.expected = none) :
    Draws types (r.coerce block slot.name child expr) fun _ result => result = expr := by
  refine .get_bind fun draft _ => ?_
  refine .liftM_bind (ofSocket_eq hkind) ?_
  rw [hslot.expected_cases.1, hexpected]
  exact .pure fun _ => rfl

/-- An operand of which no type is expected is drawn as a tree. -/
theorem exists_drawsTree_operand (height : Nat) {head : ValueHead} (hkind : block.kind = head.kind)
    (hslot : slot.Matches (block.shape.socket? slot.name)) (hexpected : slot.expected = none)
    (h : r.setting.workspace.SocketHolds (fun child =>
      r.setting.workspace.HoldsOperators height child ∧ ∃ tree, DrawsTree types (r.value child) tree)
      block slot.name) :
    ∃ tree, DrawsTree types (r.operand block slot.name) tree := by
  unfold Renderer.operand Renderer.operandOr
  cases hfound : block.values.get? slot.name with
  | none => exact ⟨_, .pure fun _ => writes_placeholder hslot⟩
  | some id =>
    obtain ⟨child, hchild, hholds⟩ := h id hfound
    have hblock : r.setting.workspace.block id = .ok child := by rw [Workspace.block, hchild]
    by_cases hdisabled : child.disabled = true
    · refine ⟨fun _ => slot.missing, .liftM_bind hblock ?_⟩
      rw [if_pos hdisabled]
      exact .pure fun _ => writes_placeholder hslot
    · obtain ⟨hoperators, tree, hvalue⟩ := hholds (by simpa using hdisabled)
      obtain ⟨check, hcheck⟩ := hoperators.exists_outputCheck?
      refine ⟨tree, .liftM_bind hblock ?_⟩
      rw [if_neg hdisabled, hcheck]
      refine (draws_checkSocket block slot.name check).bind fun _ => ?_
      refine Draws.bind hvalue fun expr => ?_
      generalize r.setting.target = target
      cases target with
      | javaScript => exact .pure fun _ hexpr _ => hexpr
      | java =>
        -- a class converts a value to the type that the socket expects, and this one expects none
        refine (draws_coerce_of_expected_eq_none hkind hslot hexpected).mono ?_
        rintro _ _ rfl hexpr -
        exact hexpr

theorem exists_drawsOperands {slots : List Slot}
    (hknown : ∀ slot ∈ slots, Known (StaticType.ofChild r.setting.workspace types block slot.name))
    (h : ∀ slot ∈ slots, ∃ tree, DrawsTree types (r.operand block slot.name) tree) :
    ∃ operands, r.DrawsOperands types block operands slots := by
  have : Nonempty Tree := ⟨.name "null"⟩
  choose! type htype using hknown
  choose! tree htree using h
  refine ⟨slots.map fun slot => ⟨type slot, tree slot⟩, forall₂_map_left_iff.2 ?_⟩
  exact forall₂_same.2 fun slot hslot => ⟨htype slot hslot, htree slot hslot⟩

/-! ## Blocks -/

section Operators

/-- The literals of the infinite numbers and of what is not a number are names. -/
theorem readable_literal (target : Target) {value : Binary64} (h : Binary64.InRange value) :
    Readable (.number (Numeral.literal target value)) := by
  cases value with
  | finite => exact .number (.inl (Numeral.isLiteral_literal target h).isNumber_magnitude)
  | nan => cases target <;> exact .number (.inr (by decide))
  | infinite negative => cases target <;> cases negative <;> exact .number (.inr (by decide))

variable {head : ValueHead}

/-- A block is rendered as an expression of a tree if its operands are. -/
theorem exists_drawsTree_renderValue (hkind : block.kind = head.kind) (hoperates : head.Operates block)
    {operands : List DrawnOperand}
    (h : r.DrawsOperands types block operands (head.slots block.itemCount)) :
    ∃ tree, DrawsTree types (r.renderValue block) tree := by
  cases head with
  | number =>
    rw [renderValue_eq_sharedValue hkind nofun, Renderer.sharedValue, hkind]
    refine ⟨_, .liftM_bind hoperates (.pure fun _ => ⟨?_, rfl⟩)⟩
    exact readable_literal _ (inRange_literal hoperates)
  | null | text | list | angle | formatted | rounded | isNull | isNotNull => exact hoperates.elim
  | _ => exact ⟨_, draws_renderValue hkind hoperates (fun _ _ => rfl) h⟩

theorem expected_of_operates (hoperates : head.Operates block) {items : Nat} {slot : Slot}
    (h : slot ∈ head.slots items) : slot.expected = none := by
  cases head with
  | join =>
    obtain ⟨index, -, rfl⟩ := mem_map.1 h
    rfl
  | number | truth | got => cases h
  | arithmetic | comparison | connective => rcases mem_pair.1 h with rfl | rfl <;> rfl
  | single | negation => rw [mem_singleton.1 h]; rfl
  | choice =>
    simp only [ValueHead.slots, mem_cons, not_mem_nil, or_false] at h
    rcases h with rfl | rfl | rfl <;> rfl
  | _ => exact hoperates.elim

end Operators

/-! ## Trees -/

/-- A renderer that goes as deep as a tree is high renders it as an expression of a tree. -/
theorem exists_drawsTree (setting : Setting) (types : TypeTable) {depth : Nat}
    (h : setting.workspace.HoldsOperators depth block) :
    ∃ tree, DrawsTree types ((setting.rendererWithin depth).value block) tree := by
  induction depth generalizing block with
  | zero => exact h.elim
  | succ depth ih =>
    obtain ⟨hplain, head, hhead, hslots⟩ := h
    obtain ⟨hkind, hoperates⟩ := ValueHead.operates hhead
    have hsetting : (setting.rendererWithin depth).setting = setting :=
      Setting.setting_rendererWithin setting depth
    obtain ⟨operands, hoperands⟩ : ∃ operands, (setting.rendererWithin depth).DrawsOperands types block
        operands (head.slots block.itemCount) := by
      refine exists_drawsOperands (fun slot hslot => ?_) fun slot hslot => ?_
      · rw [hsetting]
        exact StaticType.known_ofChild (hslots slot hslot)
      · refine exists_drawsTree_operand depth hkind (matches_socket? hplain hkind hslot)
          (expected_of_operates hoperates hslot) ?_
        rw [hsetting]
        exact (hslots slot hslot).mono fun child _ hchild => ⟨hchild, ih hchild⟩
    exact exists_drawsTree_renderValue hkind hoperates hoperands

theorem draws_readable (setting : Setting) (types : TypeTable) {depth : Nat}
    (h : setting.workspace.HoldsOperators depth block) :
    Draws types ((setting.rendererWithin depth).value block) fun _ expr => Readable expr := by
  obtain ⟨tree, htree⟩ := exists_drawsTree setting types h
  exact htree.mono fun _ _ hwrites => hwrites.1

/-- Every tree of operators is rendered, whatever was asked of the context before, and if any one pair of
the parentheses around an operand in its text is left out, the grammar reads something else or nothing. -/
theorem operator_parentheses_are_minimal {setting : Setting} {height : Nat}
    (hblock : block ∈ setting.workspace.blocks)
    (htree : setting.workspace.HoldsOperators height block)
    {draft : Draft} {package : Option String} {operations : List Context.Operation}
    (hdraft : draft.context = Context.after { ownPackage := package } operations) :
    ∃ expr after, Yields (setting.renderer.value block) draft expr after ∧
      ∃ tree, Grammar.read expr.print = some tree ∧
        ∀ (frames : List Frame) (frame : Frame) (part : Expr),
          expr = Frame.fillAll frames (frame.fill part) → frame.parenthesizes part = true →
            expr.print = Frame.around frames (frame.fill part) (frame.enclose true part.print) ∧
            Grammar.read (Frame.around frames (frame.fill part) (frame.enclose false part.print)) ≠
              some tree := by
  obtain ⟨expr, after, hyields, -, hreadable⟩ :=
    (draws_readable setting draft.types (htree.of_size hblock)).exists_yields hdraft
  exact ⟨expr, after, hyields, hreadable.needsAllParens⟩

/-! ## A negated infinity -/

namespace InfinitySample

def infinity : Block :=
  { id := "i", typeName := "math_number", kind := .mathNumber,
    fields := Dict.ofList [("NUM", "-Infinity")] }

def negative : Block :=
  { id := "n", typeName := "math_single", kind := .mathSingle, fields := Dict.ofList [("OP", "NEG")],
    values := Dict.ofList [("NUM", "i")] }

def workspace : Workspace where
  blocks := [infinity, negative]
  distinct := by decide

def setting : Setting := { workspace, target := .javaScript }

theorem holdsOperators_infinity : workspace.HoldsOperators 1 infinity := by
  refine ⟨⟨rfl, by simp [infinity]⟩, .number (.infinite true), by decide, ?_⟩
  simp [ValueHead.slots]

theorem holdsOperators_negative : workspace.HoldsOperators 2 negative := by
  refine ⟨⟨rfl, by simp [negative]⟩, .single .negative, by decide, ?_⟩
  intro slot hslot id hid
  obtain rfl : slot = .ofNumber "NUM" := by simpa [ValueHead.slots] using hslot
  cases hid
  exact ⟨infinity, rfl, fun _ => holdsOperators_infinity⟩

/-- Without the parentheses around it, the sign of the number would make one token with the sign of the
operation. -/
theorem negated_infinity_needs_parentheses :
    Yields (setting.renderer.value negative) {} (.negate (.number "-Infinity")) {} ∧
      (Expr.negate (.number "-Infinity")).print = "-(-Infinity)" ∧
      ∃ tree, Grammar.read "-(-Infinity)" = some tree ∧ Grammar.read "--Infinity" ≠ some tree := by
  have hrun : Yields (setting.renderer.value negative) {} (.negate (.number "-Infinity")) {} := rfl
  have hprint : (Expr.negate (.number "-Infinity")).print = "-(-Infinity)" := by decide
  refine ⟨hrun, hprint, ?_⟩
  have hmem : negative ∈ setting.workspace.blocks := by simp [setting, workspace]
  have hdraft : ({} : Draft).context = Context.after { ownPackage := none } [] := rfl
  obtain ⟨expr, after, hyields, tree, hread, hminimal⟩ :=
    operator_parentheses_are_minimal hmem holdsOperators_negative hdraft
  have hsame := hyields.symm.trans hrun
  obtain ⟨rfl, -⟩ : expr = .negate (.number "-Infinity") ∧ after = {} := by simpa using hsame
  rw [hprint] at hread
  exact ⟨tree, hread, (hminimal [] .negate (.number "-Infinity") rfl (by decide)).2⟩

end InfinitySample

end RobotBlocks
