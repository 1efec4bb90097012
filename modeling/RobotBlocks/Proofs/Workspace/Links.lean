import RobotBlocks.Proofs.Program.Loading

/-!
# Both ends of every link

A workspace is built by steps: a block without links is inserted, or a block is connected at a
position of another one. Any step may fail, and a connection that fails late leaves its child
hanging at a parent that does not hold it. The other direction is never lost: a block that is held at a
position has exactly that link upwards (`Workspace.Consistent`), so no block is held twice.

`connectAt_cases` says all that a connection can do, and `Consistent.step` and `Consistent.run` are
derived from it.
-/

set_option autoImplicit false

namespace RobotBlocks

open List

namespace Block

theorem branch?_hang (block : Block) (position other : Position) (child : String) :
    (block.hang position child).branch? other =
      if other = position then some child else block.branch? other := by
  cases position <;> cases other <;> simp [hang, branch?, Dict.get?_insert]

@[simp] theorem parent_hang (block : Block) (position : Position) (child : String) :
    (block.hang position child).parent = block.parent := by
  cases position <;> rfl

@[simp] theorem branch?_hungAt (block : Block) (parent : Option Link) (position : Position) :
    (block.hungAt parent).branch? position = block.branch? position := by
  cases position <;> rfl

theorem Bare.branch?_eq_none {block : Block} (h : block.Bare) (position : Position) :
    block.branch? position = none := by
  rw [Option.eq_none_iff_forall_ne_some]
  intro id hid
  have hmem := mem_branches_iff.2 hid
  rw [h.branches_eq] at hmem
  exact not_mem_nil hmem

end Block

namespace Workspace

/-! ## Look-up after a change -/

theorem get?_modify (w : Workspace) (id key : String) (change : Block → Block)
    (keepsId : ∀ block, (change block).id = block.id) :
    (w.modify id change keepsId).get? key =
      if key = id then (w.get? key).map change else w.get? key := by
  have hkeeps : ∀ block : Block, (if block.id = id then change block else block).id = block.id := by
    intro block
    split
    · exact keepsId block
    · rfl
  have hfind : (w.modify id change keepsId).get? key =
      (w.get? key).map (fun block => if block.id = id then change block else block) := by
    unfold get? modify
    rw [find?_map]
    simp only [Function.comp_def, hkeeps]
  rw [hfind]
  cases hget : w.get? key with
  | none => simp
  | some block => by_cases hid : key = id <;> simp [id_of_get? hget, hid]

theorem get?_setParent (w : Workspace) (child key : String) (link : Link) :
    (w.setParent child link).get? key =
      if key = child then (w.get? key).map (·.hungAt (some link)) else w.get? key :=
  get?_modify w child key _ _

theorem get?_of_insert {w w' : Workspace} {block : Block} (h : w.insert block = .ok w')
    (key : String) :
    w'.get? key = (w.get? key).or (if block.id = key then some block else none) := by
  unfold get?
  rw [(Loader.eq_of_insert_eq_ok h).1, find?_append]
  by_cases hid : block.id = key <;> simp [hid]

/-! ## Steps -/

/-- A step in the making of a workspace. -/
inductive Step where
  | insert (block : Block) (bare : block.Bare)
  | connect (parent : String) (position : Position) (child : String)

/-- What a step answers, and the workspace that it leaves. -/
def Step.apply (w : Workspace) : Step → Except Fault Unit × Workspace
  | insert block _ =>
    match w.insert block with
    | .ok w' => (.ok (), w')
    | .error fault => (.error fault, w)
  | connect parent position child => w.connectAt parent position child

/-- The workspace after some steps, whether they fail or not. -/
def run (w : Workspace) (steps : List Step) : Workspace :=
  steps.foldl (fun w step => (step.apply w).2) w

/-- A block is adopted only if it is there and hangs nowhere. -/
theorem adopt_cases (w : Workspace) (child : String) (link : Link) :
    (∃ fault, w.adopt child link = .error fault) ∨
      ∃ block, w.get? child = some block ∧ block.parent = none ∧
        w.adopt child link = .ok (w.setParent child link) := by
  unfold adopt Workspace.block
  cases hget : w.get? child with
  | none => exact .inl ⟨_, rfl⟩
  | some block =>
    cases hparent : block.parent with
    | some existing =>
      refine .inl ⟨.linkedTwice child existing.parent link.parent, ?_⟩
      simp only [bind, Except.bind, hparent]
    | none =>
      refine .inr ⟨block, rfl, hparent, ?_⟩
      simp only [bind, Except.bind, hparent]

/-- A connection fails with no effect, or fails with the child adopted, or links both ends. -/
theorem connectAt_cases (w : Workspace) (parent : String) (position : Position) (child : String) :
    (∃ fault, w.connectAt parent position child = (.error fault, w)) ∨
      ∃ block, w.get? child = some block ∧ block.parent = none ∧
        ((∃ fault, w.connectAt parent position child =
            (.error fault, w.setParent child (position.link parent))) ∨
          w.connectAt parent position child = (.ok (), Loader.hang w parent position child)) := by
  -- the three kinds of connection differ in how they enter the child at its parent
  have hconnect : ∃ enter, w.connectAt parent position child =
        w.connect child (position.link parent) enter ∧
      ∀ w' block, (∃ fault, enter w' block = .error fault) ∨
        enter w' block = .ok (w'.modify parent (fun block => block.hang position child)
          (fun block => block.id_hang position child)) := by
    cases position with
    | value socket | statement slot => exact ⟨_, rfl, fun w' block => .inr rfl⟩
    | next =>
      refine ⟨_, rfl, fun w' block => ?_⟩
      by_cases htaken : block.next.isSome
      · exact .inl ⟨_, if_pos htaken⟩
      · exact .inr (if_neg htaken)
  obtain ⟨enter, hconnect, henter⟩ := hconnect
  rw [hconnect]
  unfold connect
  rcases adopt_cases w child (position.link parent) with
    ⟨fault, hadopt⟩ | ⟨block, hget, hparent, hadopt⟩
  · exact .inl ⟨fault, by simp only [hadopt]⟩
  · refine .inr ⟨block, hget, hparent, ?_⟩
    simp only [hadopt]
    cases (w.setParent child (position.link parent)).block (position.link parent).parent with
    | error fault => exact .inl ⟨fault, rfl⟩
    | ok holder =>
      rcases henter (w.setParent child (position.link parent)) holder with
        ⟨fault, hentered⟩ | hentered
      · exact .inl ⟨fault, by simp only [hentered]⟩
      · refine .inr ?_
        simp only [hentered]
        rfl

/-! ## The invariant -/

/-- A block that is held at a position is there and hangs at exactly that link. -/
def Consistent (w : Workspace) : Prop :=
  ∀ id parent, w.get? id = some parent → ∀ position child, parent.branch? position = some child →
    ∃ block, w.get? child = some block ∧ block.parent = some (position.link id)

theorem consistent_empty : empty.Consistent := by
  intro id parent hparent
  cases hparent

variable {child : String} {position : Position}

namespace Consistent

variable {w w' : Workspace}
variable {block : Block}

section

variable (h : w.Consistent)

include h

/-- The new block holds nothing, and what is found before is found after. -/
theorem insert (hbare : block.Bare) (hinsert : w.insert block = .ok w') : w'.Consistent := by
  intro id parent hparent position child hchild
  rw [get?_of_insert hinsert] at hparent
  cases hget : w.get? id with
  | some found =>
    rw [hget, Option.some_or, Option.some.injEq] at hparent
    subst hparent
    obtain ⟨held, hheld, hlink⟩ := h id found hget position child hchild
    refine ⟨held, ?_, hlink⟩
    rw [get?_of_insert hinsert, hheld, Option.some_or]
  | none =>
    rw [hget, Option.none_or] at hparent
    split at hparent
    · cases hparent
      rw [hbare.branch?_eq_none position] at hchild
      cases hchild
    · cases hparent

/-- A block that hangs nowhere is held nowhere, so a link upwards may be entered at it. -/
theorem setParent (hget : w.get? child = some block) (hfree : block.parent = none) (link : Link) :
    (w.setParent child link).Consistent := by
  intro id parent hparent position other hother
  have hbefore : ∃ before, w.get? id = some before ∧ before.branch? position = some other := by
    rw [get?_setParent] at hparent
    split at hparent
    · obtain ⟨before, hbefore, rfl⟩ := Option.map_eq_some_iff.1 hparent
      exact ⟨before, hbefore, by simpa using hother⟩
    · exact ⟨parent, hparent, hother⟩
  obtain ⟨before, hbefore, hheld⟩ := hbefore
  obtain ⟨held, hfound, hlink⟩ := h id before hbefore position other hheld
  have hne : other ≠ child := by
    rintro rfl
    rw [hget, Option.some.injEq] at hfound
    subst hfound
    rw [hfree] at hlink
    cases hlink
  refine ⟨held, ?_, hlink⟩
  rw [get?_setParent, if_neg hne, hfound]

/-- A child that hangs at a position of a block may be entered there. -/
theorem modify_hang {parent : String} (hget : w.get? child = some block)
    (hlink : block.parent = some (position.link parent)) :
    (w.modify parent (fun block => block.hang position child)
      (fun block => block.id_hang position child)).Consistent := by
  -- entering changes no link upwards
  have hkept : ∀ {id : String} {found : Block}, w.get? id = some found →
      ∃ after, (w.modify parent (fun block => block.hang position child)
        (fun block => block.id_hang position child)).get? id = some after ∧
          after.parent = found.parent := by
    intro id found hfound
    rw [get?_modify, hfound]
    split
    · exact ⟨_, rfl, Block.parent_hang found position child⟩
    · exact ⟨found, rfl, rfl⟩
  intro id holder hholder other held hheld
  have hcases : (id = parent ∧ other = position ∧ held = child) ∨
      ∃ before, w.get? id = some before ∧ before.branch? other = some held := by
    rw [get?_modify] at hholder
    split at hholder
    · rename_i hid
      obtain ⟨before, hbefore, rfl⟩ := Option.map_eq_some_iff.1 hholder
      rw [Block.branch?_hang] at hheld
      split at hheld
      · rename_i hposition
        exact .inl ⟨hid, hposition, (Option.some.inj hheld).symm⟩
      · exact .inr ⟨before, hbefore, hheld⟩
    · exact .inr ⟨holder, hholder, hheld⟩
  rcases hcases with ⟨rfl, rfl, rfl⟩ | ⟨before, hbefore, hbranch⟩
  · obtain ⟨after, hafter, hparent⟩ := hkept hget
    exact ⟨after, hafter, hparent.trans hlink⟩
  · obtain ⟨found, hfound, hup⟩ := h id before hbefore other held hbranch
    obtain ⟨after, hafter, hparent⟩ := hkept hfound
    exact ⟨after, hafter, hparent.trans hup⟩

/-- Every step keeps a workspace consistent. -/
theorem step (step : Step) : (step.apply w).2.Consistent := by
  cases step with
  | insert block bare =>
    rw [Step.apply]
    cases hinsert : w.insert block with
    | error fault => exact h
    | ok w' => exact h.insert bare hinsert
  | connect parent position child =>
    rw [Step.apply]
    rcases connectAt_cases w parent position child with
      ⟨fault, heq⟩ | ⟨block, hget, hfree, ⟨fault, heq⟩ | heq⟩
    · rw [heq]
      exact h
    · rw [heq]
      exact h.setParent hget hfree _
    · rw [heq]
      have hadopted : (w.setParent child (position.link parent)).get? child =
          some (block.hungAt (some (position.link parent))) := by
        rw [get?_setParent, if_pos rfl, hget]
        rfl
      exact (h.setParent hget hfree _).modify_hang hadopted rfl

theorem run (steps : List Step) : (w.run steps).Consistent := by
  unfold Workspace.run
  induction steps generalizing w with
  | nil => exact h
  | cons step rest ih => exact ih (h.step step)

/-- The link upwards of a block names the only place where it can be held. -/
theorem held_once {id id' : String} {parent parent' : Block} {position' : Position}
    (hparent : w.get? id = some parent) (hheld : parent.branch? position = some child)
    (hparent' : w.get? id' = some parent') (hheld' : parent'.branch? position' = some child) :
    id = id' ∧ position = position' := by
  obtain ⟨block, hget, hlink⟩ := h id parent hparent position child hheld
  obtain ⟨block', hget', hlink'⟩ := h id' parent' hparent' position' child hheld'
  rw [hget, Option.some.injEq] at hget'
  subst hget'
  rw [hlink, Option.some.injEq] at hlink'
  constructor
  · simpa using congrArg Link.parent hlink'
  · simpa using congrArg Link.position hlink'

end

end Consistent

/-- A failed connection changes at most the link upwards of its child, from none to the one that was
tried. -/
def OnlyAdopts (w w' : Workspace) (child : String) (link : Link) : Prop :=
  w'.variableNames = w.variableNames ∧
    List.Forall₂ (fun before after => after = before ∨
      before.id = child ∧ before.parent = none ∧ after = { before with parent := some link })
      w.blocks w'.blocks

theorem onlyAdopts_of_connectAt_fails {w w' : Workspace} {parent : String} {fault : Fault}
    (h : w.connectAt parent position child = (.error fault, w')) :
    w.OnlyAdopts w' child (position.link parent) := by
  rcases connectAt_cases w parent position child with
    ⟨_, heq⟩ | ⟨block, hget, hfree, ⟨_, heq⟩ | heq⟩
  · rw [heq, Prod.mk.injEq] at h
    obtain ⟨-, rfl⟩ := h
    exact ⟨rfl, forall₂_same.2 (fun block _ => .inl rfl)⟩
  · rw [heq, Prod.mk.injEq] at h
    obtain ⟨-, rfl⟩ := h
    refine ⟨rfl, forall₂_map_right_iff.2 (forall₂_same.2 ?_)⟩
    intro before hbefore
    by_cases hid : before.id = child
    · have hfound := get?_of_mem hbefore
      rw [hid, hget, Option.some.injEq] at hfound
      subst hfound
      exact .inr ⟨hid, hfree, if_pos hid⟩
    · exact .inl (if_neg hid)
  · rw [heq, Prod.mk.injEq] at h
    cases h.1

/-- After any steps from the empty workspace, failed ones among them, a block that is held in a
socket, in a slot or next is there and hangs at exactly that link, and it is held only there. A
connection that fails, in any workspace, leaves all that blocks hold as it was and adopts at most
its child. -/
theorem links_agree_after_any_steps (steps : List Step) :
    (∀ id parent position child,
      (empty.run steps).get? id = some parent → parent.branch? position = some child →
        ∃ block, (empty.run steps).get? child = some block ∧
          block.parent = some (position.link id)) ∧
    (∀ id parent position id' parent' position' child,
      (empty.run steps).get? id = some parent → parent.branch? position = some child →
      (empty.run steps).get? id' = some parent' → parent'.branch? position' = some child →
        id = id' ∧ position = position') ∧
    (∀ (w w' : Workspace) (parent : String) (position : Position) (child : String) (fault : Fault),
      w.connectAt parent position child = (.error fault, w') →
        w.OnlyAdopts w' child (position.link parent)) := by
  have hconsistent := consistent_empty.run steps
  refine ⟨?_, ?_, ?_⟩
  · intro id parent position child hparent hheld
    exact hconsistent id parent hparent position child hheld
  · intro id parent position id' parent' position' child hparent hheld hparent' hheld'
    exact hconsistent.held_once hparent hheld hparent' hheld'
  · intro w w' parent position child fault hfails
    exact onlyAdopts_of_connectAt_fails hfails

namespace LinkSample

def negation : Block := { id := "not", typeName := "logic_negate", kind := .logicNegate }
def truth : Block := { id := "true", typeName := "logic_boolean", kind := .logicBoolean }

/-- The second connection comes too late, and the third one has no parent. -/
def steps : List Step :=
  [.insert negation ⟨rfl, rfl, rfl, rfl⟩, .insert truth ⟨rfl, rfl, rfl, rfl⟩,
    .connect "not" (.value "BOOL") "true", .connect "not" .next "true",
    .connect "nowhere" (.statement "DO") "not"]

end LinkSample

open LinkSample in
/-- One of three connections succeeds, and the last one leaves its child hanging. -/
theorem links_agree_after_late_connections :
    ((empty.run steps).get? "not").map
        (fun block => (block.branch? (.value "BOOL"), block.parent)) =
        some (some "true", some (.statement "nowhere" "DO")) ∧
      ∃ block, (empty.run steps).get? "true" = some block ∧
        block.parent = some (.value "not" "BOOL") := by
  refine ⟨by decide, ?_⟩
  exact (links_agree_after_any_steps steps).1 "not" _ (.value "BOOL") "true" rfl rfl

end Workspace

end RobotBlocks
