import RobotBlocks.Proofs.Render.Values

/-!
# Rendered values are read back

For every tree of value blocks, with any of its sockets empty or taken by disabled blocks, and for
both targets, the text that is rendered is read back with the grammar as exactly the expression that
the tree stands for.

One block is rendered well if its operands are (`draws_renderValue`). By induction over the tree a
renderer that goes deep enough renders the whole tree well (`draws_rendererWithin`), and the renderer
of a setting goes as deep as there are blocks.
-/

set_option autoImplicit false

namespace RobotBlocks

open Grammar List ValueTree

variable {r : Renderer} {types : TypeTable} {block : Block} {head : ValueHead}

/-! ## One block -/

section

variable {operands : List DrawnOperand} {starts : Bool} {items : Nat}

theorem draws_angle (h : r.DrawsOperands types block operands (ValueHead.angle.slots items)) :
    DrawsTree types (r.angle block) (r.nodeTree types starts .angle operands) := by
  rcases h with _ | ⟨⟨-, hy⟩, _ | ⟨⟨-, hx⟩, _ | _⟩⟩
  refine Draws.bind hy fun y => Draws.bind_pure hx fun naming x hx hy => ?_
  have hangle : (Expr.call "Math.atan2" [y, x]).Writes _ :=
    .call (by decide) rfl (.cons hy (.cons hx .nil))
  exact .binary (by decide) (.binary (by decide) hangle (.path (by decide) rfl))
    (.digits (by decide))

/-- A class formats numbers with a function that it imports. -/
theorem draws_formattedNumber {trees : (String → String) → List Tree}
    (h : DrawsTrees types (["NUMBER", "PRECISION"].mapM (r.operand block)) trees) :
    DrawsTree types (Compiled.formattedNumber r block) fun naming =>
      memberCall "JavaUtil" "formatNumber" (trees naming) := by
  refine draws_importJavaUtil.bind fun _ => ?_
  exact Draws.mono (draws_callWith (by decide) rfl h) fun _ _ hexpr _ => hexpr

theorem draws_comparedWithNull {operand : (String → String) → Tree} {operator : Operator}
    (hoperator : operator ∈ Operator.all) (h : DrawsTree types (r.operand block "VALUE") operand) :
    DrawsTree types (Compiled.comparedWithNull r block operator) fun naming =>
      .binary operator.symbol (operand naming) (.name "null") :=
  Draws.bind_pure h fun _ _ hexpr =>
    .binary hoperator hexpr (.name (by decide) (by decide))

theorem draws_ternary (h : r.DrawsOperands types block operands (ValueHead.choice.slots items)) :
    DrawsTree types (r.ternary block) (r.nodeTree types starts .choice operands) := by
  rcases h with _ | ⟨⟨-, htest⟩, _ | ⟨⟨-, hyes⟩, _ | ⟨⟨-, hno⟩, _ | _⟩⟩⟩
  refine Draws.bind htest fun test => Draws.bind hyes fun yes => ?_
  exact Draws.bind_pure hno fun _ _ hno hyes htest => htest.conditional hyes hno

/-- A value that both targets share is drawn as the node of its head. -/
theorem draws_sharedValue (hkind : block.kind = head.kind) (hstated : head.Stated block)
    (hmisc : ∀ misc, head.kind ≠ .misc misc)
    (hstarts : head = .join → operands ≠ [] → r.firstIsText block = starts)
    (h : r.DrawsOperands types block operands (head.slots block.itemCount)) :
    DrawsTree types (r.sharedValue block) (r.nodeTree types starts head operands) := by
  unfold Renderer.sharedValue
  rw [hkind]
  cases head with
  | number value => exact .liftM_bind hstated.1 (.pure fun _ => writes_literal _ hstated.1 hstated.2)
  | arithmetic operation => exact draws_arithmetic hstated h
  | single operation => exact draws_single hstated h
  | truth word =>
    obtain ⟨hvalue, hword⟩ := truthValue_eq hstated
    exact .liftM hvalue fun _ => hword
  | comparison sign =>
    obtain ⟨operator, hoperator, hcomparison, rfl⟩ := comparison_eq hstated
    rcases h with _ | ⟨⟨-, hleft⟩, _ | ⟨⟨-, hright⟩, _ | _⟩⟩
    exact .liftM_bind hcomparison (draws_binary hoperator hleft hright)
  | connective sign =>
    obtain ⟨operator, hoperator, hconnective, rfl⟩ := connective_eq hstated
    rcases h with _ | ⟨⟨-, hleft⟩, _ | ⟨⟨-, hright⟩, _ | _⟩⟩
    exact .liftM_bind hconnective (draws_binary hoperator hleft hright)
  | negation =>
    rcases h with _ | ⟨⟨-, hoperand⟩, _ | _⟩
    exact Draws.bind_pure hoperand fun _ _ hexpr => hexpr.not
  | null => exact .pure fun _ => .name (by decide) (by decide)
  | choice => exact draws_ternary h
  | text content => exact .pure fun _ => hstated ▸ writes_textLiteral _
  | join => exact draws_joined (hstarts rfl) h
  | list => exact draws_listOf h
  | got name => exact .liftM_bind (Block.requiredField_eq_ok hstated) draws_variable
  | angle | formatted | rounded | isNull | isNotNull => exact absurd rfl (hmisc _)

/-- Where the targets differ, each is looked at by itself. -/
theorem draws_byTarget {script compiled : Render Expr}
    {scriptTree compiledTree : (String → String) → Tree} (target : Target)
    (hscript : DrawsTree types script scriptTree) (hcompiled : DrawsTree types compiled compiledTree) :
    DrawsTree types
      (match target with
        | .javaScript => script
        | .java => compiled)
      fun naming =>
        match target with
        | .javaScript => scriptTree naming
        | .java => compiledTree naming := by
  cases target with
  | javaScript => exact hscript
  | java => exact hcompiled

theorem draws_miscValue {misc : MiscBlock} (hmisc : head.kind = .misc misc)
    (h : r.DrawsOperands types block operands (head.slots block.itemCount)) :
    DrawsTree types
      (match r.setting.target with
        | .javaScript => Script.miscValue r block misc
        | .java => Compiled.miscValue r block misc)
      (r.nodeTree types starts head operands) := by
  have hmapM := h.mapM
  cases head <;> cases hmisc
  case angle =>
    have hangle : DrawsTree types _ (r.nodeTree types starts .angle operands) := draws_angle h
    cases r.setting.target <;> exact hangle
  case formatted =>
    exact draws_byTarget r.setting.target (draws_callWith (by decide) rfl hmapM)
      (draws_formattedNumber hmapM)
  case rounded =>
    refine draws_byTarget r.setting.target (draws_callWith (by decide) rfl hmapM) ?_
    exact Draws.bind_pure (draws_formattedNumber hmapM) fun _ _ hexpr =>
      .call (by decide) rfl (.cons hexpr .nil)
  case isNull | isNotNull =>
    rcases h with _ | ⟨⟨-, hoperand⟩, _ | _⟩
    exact draws_byTarget r.setting.target (draws_callWith (by decide) rfl hmapM)
      (draws_comparedWithNull (by decide) hoperand)

/-- The targets differ only in the blocks that are called miscellaneous. -/
theorem renderValue_eq_sharedValue (hkind : block.kind = head.kind)
    (hmisc : ∀ misc, head.kind ≠ .misc misc) : r.renderValue block = r.sharedValue block := by
  unfold Renderer.renderValue Script.value Compiled.value
  rw [hkind]
  cases head with
  | angle | formatted | rounded | isNull | isNotNull => exact absurd rfl (hmisc _)
  | _ => cases r.setting.target <;> rfl

theorem draws_renderValue (hkind : block.kind = head.kind) (hstated : head.Stated block)
    (hstarts : head = .join → operands ≠ [] → r.firstIsText block = starts)
    (h : r.DrawsOperands types block operands (head.slots block.itemCount)) :
    DrawsTree types (r.renderValue block) (r.nodeTree types starts head operands) := by
  by_cases hmisc : ∃ misc, head.kind = .misc misc
  · obtain ⟨misc, hmisc⟩ := hmisc
    unfold Renderer.renderValue Script.value Compiled.value
    rw [hkind, hmisc]
    exact draws_miscValue hmisc h
  · have hmisc : ∀ misc, head.kind ≠ .misc misc := fun misc hkind => hmisc ⟨misc, hkind⟩
    rw [renderValue_eq_sharedValue hkind hmisc]
    exact draws_sharedValue hkind hstated hmisc hstarts h

end

/-! ## The whole tree -/

variable {operands : List (Option ValueTree)} {items : Nat}

/-- What is rendered for sockets is what the trees in them stand for, if the renderer renders these
trees. -/
theorem Renderer.exists_drawsOperands (hkind : block.kind = head.kind) {slots : List Slot}
    (hslots : List.Forall₂
      (fun operand slot => ValueTree.HoldsAt r.setting.workspace operand block slot.name) operands slots)
    (hmatches : ∀ slot ∈ slots, slot.Matches (block.shape.socket? slot.name))
    (htrees : ∀ tree, some tree ∈ operands → r.Draws types tree) :
    ∃ drawn, r.DrawsOperands types block drawn slots ∧
      drawn.map DrawnOperand.type = ValueTree.types types operands ∧
      ∀ naming, drawn.map (·.tree naming) =
        ValueTree.denoteAll (r.scope types naming) slots operands := by
  induction hslots with
  | nil => exact ⟨[], .nil, rfl, fun _ => rfl⟩
  | @cons operand slot _ _ hholds _ ih =>
    obtain ⟨drawn, hdrawn, htypes, hdenote⟩ :=
      ih (forall_mem_cons.1 hmatches).2
        fun tree htree => htrees tree (mem_cons_of_mem _ htree)
    have hoperand := draws_operand hkind (hmatches slot mem_cons_self) hholds fun tree htree =>
      htrees tree (htree ▸ mem_cons_self)
    refine ⟨⟨operand.bind (·.type? types), _⟩ :: drawn,
      .cons ⟨StaticType.ofChild_eq hholds, hoperand⟩ hdrawn, ?_, fun naming => ?_⟩
    · rw [map_cons, htypes, StaticType.types_eq_map, StaticType.types_eq_map, map_cons]
    · rw [map_cons, hdenote, denoteAll_cons]
      rfl

/-- Whether the first item is a text block is seen from its tree. -/
theorem firstIsText_eq (h : List.Forall₂
      (fun operand slot => ValueTree.HoldsAt r.setting.workspace operand block slot.name) operands
      (ValueHead.join.slots items)) (hne : operands ≠ []) :
    r.firstIsText block = startsWithText operands := by
  cases operands with
  | nil => cases hne rfl
  | cons operand rest =>
    obtain rfl : rest.length + 1 = items := by simpa [ValueHead.slots] using h.length_eq
    rw [ValueHead.slots, range_succ_eq_map] at h
    cases h with
    | cons h _ =>
      unfold Renderer.firstIsText
      cases operand with
      | none =>
        cases hvalue : block.values.get? "ADD0" with
        | none => rfl
        | some id =>
          obtain ⟨child, hchild, hdisabled⟩ := h id hvalue
          simp [hchild, hdisabled, startsWithText]
      | some tree =>
        obtain ⟨id, child, hvalue, hchild, henabled, htree⟩ := h
        obtain ⟨head, operands⟩ := tree
        have hkind := (ValueHead.kind_and_stated (holds_node.1 htree).2.1).1
        have hvalue : block.values.get? "ADD0" = some id := hvalue
        rw [hvalue, Option.bind_some, hchild, Option.any_some, hkind, henabled]
        cases head <;> rfl

/-- A block has as many items as there are operands. -/
theorem slots_length (h : operands.length = (head.slots items).length) :
    head.slots items = head.slots operands.length := by
  cases head with
  | join | list =>
    obtain rfl : operands.length = items := by simpa [ValueHead.slots] using h
    rfl
  | _ => rfl

/-- A renderer that goes at least as deep as a tree is high renders it as what it stands for. -/
theorem draws_rendererWithin (setting : Setting) (types : TypeTable) (tree : ValueTree) :
    ∀ depth, tree.height ≤ depth → (setting.rendererWithin depth).Draws types tree := by
  induction tree using ValueTree.ind with
  | node head operands ih =>
    intro depth hdepth block _ hholds
    cases depth with
    | zero => simp [ValueTree.height] at hdepth
    | succ depth =>
      obtain ⟨hplain, hhead, hslots⟩ := holds_node.1 hholds
      obtain ⟨hkind, hstated⟩ := ValueHead.kind_and_stated hhead
      have htrees : ∀ tree, some tree ∈ operands →
          (setting.rendererWithin depth).Draws types tree := by
        intro tree hmem
        refine ih tree hmem depth ?_
        have := height_le_heights hmem
        rw [ValueTree.height] at hdepth
        omega
      obtain ⟨drawn, hdrawn, htypes, hdenote⟩ := Renderer.exists_drawsOperands
        (r := setting.rendererWithin depth) hkind hslots (fun _ => matches_socket? hplain hkind) htrees
      have hstarts : head = .join → drawn ≠ [] →
          (setting.rendererWithin depth).firstIsText block = startsWithText operands := by
        rintro rfl hne
        refine firstIsText_eq hslots fun hnil => hne ?_
        simpa [hnil, ValueTree.types] using htypes
      have hnode := draws_renderValue hkind hstated hstarts hdrawn
      unfold Renderer.nodeTree at hnode
      simp only [htypes, hdenote, slots_length hslots.length_eq] at hnode
      exact hnode

/-- Every tree of value blocks is rendered, whatever was asked of the context before, and its text is
read back with the grammar as exactly the expression that the tree stands for, under every naming of
the variables that agrees with their identifiers. -/
theorem rendered_value_is_read_back {setting : Setting} {tree : ValueTree} {block : Block}
    (hblock : block ∈ setting.workspace.blocks) (hholds : tree.Holds setting.workspace block)
    {draft : Draft} {package : Option String} {operations : List Context.Operation}
    (hdraft : draft.context = Context.after { ownPackage := package } operations) :
    ∃ expr after, Yields (setting.renderer.value block) draft expr after ∧
      ∀ naming, after.context.names.NamedBy naming →
        Grammar.read expr.print =
          some (tree.denote
            { target := setting.target, types := draft.types, identifier := naming }) := by
  have hdraws : DrawsTree draft.types (setting.renderer.value block) fun naming =>
      tree.denote (setting.renderer.scope draft.types naming) := by
    refine draws_rendererWithin setting draft.types tree setting.workspace.size
      (height_le_size hblock hholds) block ?_ ?_
    · rwa [Setting.setting_rendererWithin]
    · rwa [Setting.setting_rendererWithin]
  have hready : draft.Ready draft.types := by
    refine ⟨rfl, ?_⟩
    rw [hdraft]
    exact Context.variablesAreWords_run package operations
  obtain ⟨expr, after, hyields, -, -, hwrites⟩ := hdraws draft hready
  refine ⟨expr, after, hyields, fun naming hnamed => ?_⟩
  have hread := (hwrites naming hnamed).read
  unfold Renderer.scope Setting.renderer at hread
  rwa [Setting.setting_rendererWithin] at hread

/-! ## A choice -/

namespace ChoiceSample

def minusFour : Block :=
  { id := "m", typeName := "math_number", kind := .mathNumber, fields := Dict.ofList [("NUM", "-4")] }

def negative : Block :=
  { id := "n", typeName := "math_single", kind := .mathSingle, fields := Dict.ofList [("OP", "NEG")]
    values := Dict.ofList [("NUM", "m")] }

def two : Block :=
  { id := "t", typeName := "math_number", kind := .mathNumber, fields := Dict.ofList [("NUM", "2")] }

def quotient : Block :=
  { id := "q", typeName := "math_arithmetic", kind := .mathArithmetic
    fields := Dict.ofList [("OP", "DIVIDE")], values := Dict.ofList [("A", "n"), ("B", "t")] }

/-- A test that is switched off. -/
def test : Block :=
  { id := "u", typeName := "logic_boolean", kind := .logicBoolean, disabled := true }

/-- A choice with a disabled test and nothing for the other case. -/
def choice : Block :=
  { id := "c", typeName := "logic_ternary", kind := .logicTernary
    values := Dict.ofList [("IF", "u"), ("THEN", "q")] }

def workspace : Workspace where
  blocks := [minusFour, negative, two, quotient, test, choice]
  distinct := by decide

/-- The numbers as they are read. -/
def minusFourValue : Binary64 := .finite true (Nat.pow 2 52) (-50)

def twoValue : Binary64 := .finite false (Nat.pow 2 52) (-51)

def quotientTree : ValueTree :=
  .node (.arithmetic .divide)
    [some (.node (.single .negative) [some (.node (.number minusFourValue) [])]),
      some (.node (.number twoValue) [])]

theorem holds_quotientTree : quotientTree.Holds workspace quotient := by
  have hminusFour : (ValueTree.node (.number minusFourValue) []).Holds workspace minusFour :=
    holds_node.2 ⟨⟨rfl, nofun⟩, by decide +kernel, .nil⟩
  have htwo : (ValueTree.node (.number twoValue) []).Holds workspace two :=
    holds_node.2 ⟨⟨rfl, nofun⟩, by decide +kernel, .nil⟩
  have hnegative : (ValueTree.node (.single .negative)
      [some (.node (.number minusFourValue) [])]).Holds workspace negative :=
    holds_node.2 ⟨⟨rfl, nofun⟩, by decide,
      .cons ⟨"m", minusFour, rfl, rfl, rfl, hminusFour⟩ .nil⟩
  exact holds_node.2 ⟨⟨rfl, nofun⟩, by decide,
    .cons ⟨"n", negative, rfl, rfl, rfl, hnegative⟩ (.cons ⟨"t", two, rfl, rfl, rfl, htwo⟩ .nil)⟩

theorem holds_choice :
    (ValueTree.node .choice [none, some quotientTree, none]).Holds workspace choice := by
  refine holds_node.2 ⟨⟨rfl, nofun⟩, by decide, .cons ?_ (.cons ?_ (.cons ?_ .nil))⟩
  · intro id hid
    cases hid
    exact ⟨test, rfl, rfl⟩
  · exact ⟨"q", quotient, rfl, rfl, rfl, holds_quotientTree⟩
  · exact fun id hid => nomatch hid

def setting : Setting := { workspace, target := .java }

/-- What the choice stands for in a class: `false ? (double) -(-4) / 2 : null`. -/
theorem denote_choice (scope : Scope) (hscope : scope.target = .java) :
    (ValueTree.node .choice [none, some quotientTree, none]).denote scope =
      .conditional (.name "false")
        (.binary "/" (.cast "double" (.negate (.negate (.number "4")))) (.number "2"))
        (.name "null") := by
  have hminusFour : Numeral.literal .java minusFourValue = "-4" := by decide
  have htwo : Numeral.literal .java twoValue = "2" := by decide
  have hint : Numeral.fitsInt minusFourValue ∧ Numeral.fitsInt twoValue := by decide
  simp only [ValueTree.denote, ValueTree.denoteAll, ValueTree.types, ValueTree.type?, quotientTree,
    ValueHead.tree, ValueHead.slots, ValueHead.type?, arithmeticTree, singleTree, hscope, hminusFour,
    htwo, hint]
  rfl

/-- The text of the choice is read back. -/
theorem choice_is_read_back :
    ∃ expr after, Yields (setting.renderer.value choice) {} expr after ∧
      Grammar.read expr.print = some (.conditional (.name "false")
        (.binary "/" (.cast "double" (.negate (.negate (.number "4")))) (.number "2"))
        (.name "null")) := by
  have hdraft : ({} : Draft).context = Context.after { ownPackage := none } [] := rfl
  have hmem : choice ∈ setting.workspace.blocks := by simp [setting, workspace]
  obtain ⟨expr, after, hyields, hread⟩ := rendered_value_is_read_back hmem holds_choice hdraft
  have hnamed : after.context.names.NamedBy fun name =>
      (after.context.names.assigned? .variableNames name).getD "" := by
    intro name identifier hassigned
    simp [hassigned]
  refine ⟨expr, after, hyields, ?_⟩
  rw [hread _ hnamed, denote_choice _ rfl]

end ChoiceSample

end RobotBlocks
