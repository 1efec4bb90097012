import RobotBlocks.Proofs.Render.UndeclaredLinks

/-!
# Declared inputs

A block declares its inputs by its shape, and rendering asks for its inputs by their names. The two
lists are made independently of each other, and they agree: links under other names make no
difference, and no declared input is left out.

That an input is not left out is said by replacing what stands in it. `Render.Includes` holds of a
rendering, as a function of the rendering of one of its parts, if for every draft it fails before it
comes to the part, whatever the part is, or comes to the part in some draft and fails if the part fails
there. Two runs with different parts go in lockstep up to the part (`Lockstep`), by induction on the
course of the rendering.

There is one exception. The main procedure of a class is a method without a result, and only its
statements are rendered; a value that its definition gives back is left out without a word.
-/

set_option autoImplicit false

namespace RobotBlocks

open List Renderer Workspace

open Stop (asks)

/-! ## Blocks in their places -/

/-- What the rendering of a block gives. -/
inductive Rendering where
  | value (expr : Expr)
  | text (text : String)

/-- A procedure in the form that the target has for it. Of the main procedure a class has the statements
only. -/
def Renderer.renderDefinition (r : Renderer) (block : Block) : Render String :=
  match r.setting.target with
  | .javaScript => Script.function r block
  | .java => do
    if (← block.procedureName) ≠ Render.mainName then Compiled.method r block
    else return (← Compiled.mainParts r (some block)).1

/-- Any block in its place: a procedure, a statement or a value. -/
def Renderer.render (r : Renderer) (block : Block) : Render Rendering :=
  if block.kind.isDefinition then do return .text (← r.renderDefinition block)
  else if block.shape.isStatement then do return .text (← r.renderStatement block)
  else do return .value (← r.renderValue block)

/-- The input is the result of the main procedure of a class. -/
def Setting.LeavesOut (setting : Setting) (block : Block) (input : Input) : Prop :=
  setting.target = .java ∧ block.kind = .procedureDef true ∧
    block.procedureName = .ok Render.mainName ∧ input = .socket "RETURN"

section

variable {r r' : Renderer} {block block' : Block}

/-- A definition asks for each of its inputs that is not left out. -/
theorem Renderer.Beside.renderDefinition (h : r.Beside r' block block') {returns : Bool}
    (hkind : block.kind = .procedureDef returns) :
    ∃ stops, Course r r' block block' stops (r.renderDefinition block) (r'.renderDefinition block') ∧
      ∀ input, .ask input ∈ stops ↔ input ∈ block.inputs ∧ ¬ r.setting.LeavesOut block input := by
  obtain ⟨links, rfl, haligned⟩ := h.exists_aligned
  unfold Renderer.renderDefinition
  rw [← h.target_eq]
  cases htarget : r.setting.target with
  | javaScript =>
    refine ⟨_, (Script.walk_function haligned hkind).course h, fun input => ?_⟩
    simp [asks, Setting.LeavesOut, htarget]
  | java =>
    have hname' : (block.relinked links).procedureName = block.procedureName := rfl
    dsimp only
    rw [hname']
    cases hname : block.procedureName with
    | error fault =>
      refine ⟨_, .throw (asks block.inputs) fault, fun input => ?_⟩
      simp [asks, Setting.LeavesOut, hname]
    | ok name =>
      by_cases hother : name ≠ Render.mainName
      · refine ⟨asks block.inputs, ?_, fun input => ?_⟩
        · refine .liftM_bind fun found hfound => ?_
          cases hfound
          rw [if_pos hother, if_pos hother]
          exact (Compiled.walk_method haligned hkind).course h
        · simp [asks, Setting.LeavesOut, hname, hother]
      · refine ⟨asks [.slot "STACK"], ?_, fun input => ?_⟩
        · refine .liftM_bind fun found hfound => ?_
          cases hfound
          rw [if_neg hother, if_neg hother]
          exact ((Course.slot "STACK").bind_pure _).bind_pure _
        · rw [not_not] at hother
          subst hother
          unfold Block.inputs
          rw [hkind]
          cases returns with
          | false => simp [asks, Setting.LeavesOut, hkind]
          | true =>
            cases input <;> simp [asks, Setting.LeavesOut, hname, htarget, hkind]

/-- Rendering a block comes to its inputs, up to the exception. -/
theorem Renderer.Beside.render (h : r.Beside r' block block') (hdecoded : block.Decoded) :
    ∃ stops, Course r r' block block' stops (r.render block) (r'.render block') ∧
      ∀ input, .ask input ∈ stops ↔ input ∈ block.inputs ∧ ¬ r.setting.LeavesOut block input := by
  obtain ⟨links, rfl⟩ := h.head
  unfold Renderer.render
  by_cases hdefinition : block.kind.isDefinition = true
  · obtain ⟨returns, hkind⟩ := BlockKind.exists_procedureDef hdefinition
    obtain ⟨stops, hcourse, hstops⟩ := h.renderDefinition hkind
    rw [if_pos hdefinition, if_pos hdefinition]
    exact ⟨stops, hcourse.bind_pure _, hstops⟩
  · have hall : ∀ input, .ask input ∈ r.setting.stops block ↔
        input ∈ block.inputs ∧ ¬ r.setting.LeavesOut block input := by
      intro input
      rw [r.setting.ask_mem_stops_iff]
      refine ⟨fun hinput => ⟨hinput, ?_⟩, And.left⟩
      rintro ⟨-, hkind, -⟩
      rw [hkind] at hdefinition
      exact hdefinition rfl
    rw [if_neg hdefinition, if_neg hdefinition]
    by_cases hstatement : block.shape.isStatement = true
    · rw [if_pos hstatement, if_pos hstatement]
      exact ⟨_, h.renderStatement.bind_pure _, hall⟩
    · rw [if_neg hstatement, if_neg hstatement]
      have hvalue := hdecoded.ne_sleep (by simpa using hstatement)
      exact ⟨_, (h.renderValue hvalue).bind_pure _, hall⟩

end

/-! ## Parts that are not left out -/

/-- A rendering, as a function of a part of it, does not leave the part out. For every draft it fails
before it comes to the part, whatever the part is, or it comes to the part in a draft that is the same
for all parts, and a fault of the part there is its own. -/
def Render.Includes {α β : Type} (whole : Render α → Render β) : Prop :=
  ∀ draft, (∃ fault after, ∀ part, Fails (whole part) draft fault after) ∨
    ∃ reached, ∀ part fault after, Fails part reached fault after →
      Fails (whole part) draft fault after

/-- Two runs with different parts do the same until they come to their parts. If they have to come to
them, they fail before that or come to them. -/
def Lockstep {γ : Type} (part part' : Render γ) (must : Prop) {α : Type} (x y : Render α) : Prop :=
  ∀ draft, (Setting.step x draft = Setting.step y draft ∧
      (must → ∃ fault after, Fails x draft fault after)) ∨
    ∃ reached, (∀ fault after, Fails part reached fault after → Fails x draft fault after) ∧
      ∀ fault after, Fails part' reached fault after → Fails y draft fault after

variable {fault : Fault}

theorem fails_unique {α : Type} {x : Render α} {draft after after' : Draft} {fault' : Fault}
    (h : Fails x draft fault after) (h' : Fails x draft fault' after') :
    fault = fault' ∧ after = after' := by
  cases h.symm.trans h'
  exact ⟨rfl, rfl⟩

namespace Lockstep

variable {α β γ : Type} {part part' : Render γ} {must must' : Prop} {x y : Render α}
variable {f g : α → Render β}

/-- A run that does not come to the part. -/
theorem same (x : Render α) (h : ¬ must) : Lockstep part part' must x x :=
  fun _ => .inl ⟨rfl, fun hmust => absurd hmust h⟩

theorem failing (x : Render α) (h : ∀ draft, ∃ fault after, Fails x draft fault after) :
    Lockstep part part' must x x :=
  fun draft => .inl ⟨rfl, fun _ => h draft⟩

theorem ofFault (fault : Fault) : Lockstep part part' must (throw fault : Render α) (throw fault) :=
  failing _ fun draft => ⟨fault, draft, fails_throw.2 ⟨rfl, rfl⟩⟩

theorem reach : Lockstep part part' must part part' :=
  fun draft => .inr ⟨draft, fun _ _ h => h, fun _ _ h => h⟩

section

variable (h : Lockstep part part' must x y)

include h

theorem weaken (hmust : must' → must) : Lockstep part part' must' x y := by
  intro draft
  rcases h draft with ⟨hsame, hfails⟩ | hreached
  · exact .inl ⟨hsame, fun h => hfails (hmust h)⟩
  · exact .inr hreached

theorem bind (hnext : ∀ a, Lockstep part part' must' (f a) (g a)) :
    Lockstep part part' (must ∨ must') (x >>= f) (y >>= g) := by
  intro draft
  rcases h draft with ⟨hsame, hfails⟩ | ⟨reached, hx, hy⟩
  · rcases yields_or_fails x draft with ⟨a, middle, hx⟩ | ⟨fault, after, hx⟩
    · have hy : Yields y draft a middle := hsame.symm.trans hx
      have hfront : ¬ must := by
        intro hmust
        obtain ⟨fault, after, hfault⟩ := hfails hmust
        cases hx.symm.trans hfault
      rcases hnext a middle with ⟨hsame', hfails'⟩ | ⟨reached, hf, hg⟩
      · refine .inl ⟨?_, fun hmust => ?_⟩
        · unfold Setting.step
          rw [run_run_bind, run_run_bind, show x.run.run draft = _ from hx,
            show y.run.run draft = _ from hy]
          exact hsame'
        · obtain ⟨fault, after, hfault⟩ := hfails' (hmust.resolve_left hfront)
          exact ⟨fault, after, hx.fails hfault⟩
      · exact .inr ⟨reached, fun fault after hpart => hx.fails (hf _ _ hpart),
          fun fault after hpart => hy.fails (hg _ _ hpart)⟩
    · have hy : Fails y draft fault after := hsame.symm.trans hx
      have hfault : Fails (x >>= f) draft fault after := fails_bind.2 (.inl hx)
      have hfault' : Fails (y >>= g) draft fault after := fails_bind.2 (.inl hy)
      exact .inl ⟨Eq.trans hfault hfault'.symm, fun _ => ⟨fault, after, hfault⟩⟩
  · exact .inr ⟨reached, fun fault after hpart => fails_bind.2 (.inl (hx _ _ hpart)),
      fun fault after hpart => fails_bind.2 (.inl (hy _ _ hpart))⟩

theorem bind_same (f : α → Render β) : Lockstep part part' must (x >>= f) (y >>= f) :=
  (h.bind fun a => same (f a) not_false).weaken .inl

end

theorem same_bind (x : Render α) (h : ∀ a, Lockstep part part' must (f a) (g a)) :
    Lockstep part part' must (x >>= f) (x >>= g) :=
  ((same x not_false).bind h).weaken .inr

theorem mapM (items : List α) (mustAt : α → Prop)
    (h : ∀ item ∈ items, Lockstep part part' (mustAt item) (f item) (g item)) :
    Lockstep part part' (∃ item ∈ items, mustAt item) (items.mapM f) (items.mapM g) := by
  induction items with
  | nil => exact same _ (by simp)
  | cons item rest ih =>
    rw [mapM_cons, mapM_cons]
    have hrest := ih (forall_mem_cons.1 h).2
    refine ((h item mem_cons_self).bind fun first => hrest.bind_same _).weaken ?_
    rintro ⟨other, hother, hmust⟩
    rcases mem_cons.1 hother with rfl | hother
    · exact .inl hmust
    · exact .inr ⟨other, hother, hmust⟩

/-- Runs that have to come to their parts include them. What a run with some part does is compared with
two runs whose parts fail at once, with different faults: only a run that came to its part can tell the
faults apart. -/
theorem includes {whole : Render γ → Render α}
    (h : ∀ part part', Lockstep part part' True (whole part) (whole part')) :
    Render.Includes whole := by
  have hcompare : ∀ part probe draft,
      (∃ fault after, Fails (whole (throw probe)) draft fault after ∧
        Fails (whole part) draft fault after) ∨
      ∃ reached, Fails (whole (throw probe)) draft probe reached ∧
        ∀ fault after, Fails part reached fault after → Fails (whole part) draft fault after := by
    intro part probe draft
    rcases h (throw probe) part draft with ⟨hsame, hfails⟩ | ⟨reached, hprobe, hpart⟩
    · obtain ⟨fault, after, hfault⟩ := hfails trivial
      exact .inl ⟨fault, after, hfault, hsame.symm.trans hfault⟩
    · exact .inr ⟨reached, hprobe _ _ (fails_throw.2 ⟨rfl, rfl⟩), hpart⟩
  intro draft
  let first := Fault.unknownBlock "first"
  let second := Fault.unknownBlock "second"
  have hdistinct : first ≠ second := by simp [first, second]
  rcases hcompare (throw second) first draft with
    ⟨fault, after, hfirst, hsecond⟩ | ⟨reached, hfirst, hpasses⟩
  · refine .inl ⟨fault, after, fun part => ?_⟩
    rcases hcompare part first draft with ⟨_, _, hfirst', hpart⟩ | ⟨_, hfirst', -⟩
    · obtain ⟨rfl, rfl⟩ := fails_unique hfirst hfirst'
      exact hpart
    · obtain ⟨rfl, rfl⟩ := fails_unique hfirst hfirst'
      rcases hcompare part second draft with ⟨_, _, hsecond', hpart⟩ | ⟨_, hsecond', -⟩
      · obtain ⟨rfl, rfl⟩ := fails_unique hsecond hsecond'
        exact hpart
      · exact absurd (fails_unique hsecond hsecond').1 hdistinct
  · refine .inr ⟨reached, fun part => ?_⟩
    have hsecond := hpasses second reached (fails_throw.2 ⟨rfl, rfl⟩)
    rcases hcompare part first draft with ⟨_, _, hfirst', hpart⟩ | ⟨_, hfirst', hpart⟩
    · obtain ⟨rfl, rfl⟩ := fails_unique hfirst hfirst'
      rcases hcompare part second draft with ⟨_, _, hsecond', hpart'⟩ | ⟨_, hsecond', hpart'⟩
      · obtain ⟨rfl, rfl⟩ := fails_unique hsecond hsecond'
        exact absurd (fails_unique hpart hpart').1 hdistinct
      · obtain ⟨-, rfl⟩ := fails_unique hsecond hsecond'
        exact hpart'
    · obtain ⟨-, rfl⟩ := fails_unique hfirst hfirst'
      exact hpart

end Lockstep

/-- Rendering goes in lockstep if its inputs do. -/
theorem Course.lockstep {r r' : Renderer} {block block' : Block} {stops : List Stop} {α γ : Type}
    {part part' : Render γ} {x y : Render α} (h : Course r r' block block' stops x y)
    (input : Input) (hsocket : ∀ name fallback, Lockstep part part' (input = .socket name)
      (r.operandOr block name fallback) (r'.operandOr block' name fallback))
    (hslot : ∀ name, Lockstep part part' (input = .slot name) (r.slot block name)
      (r'.slot block' name)) : Lockstep part part' (.ask input ∈ stops) x y := by
  induction h with
  | own => exact .same _ (by simp)
  | throw stops fault => exact .ofFault fault
  | socket name fallback => exact (hsocket name fallback).weaken (by simp)
  | slot name => exact (hslot name).weaken (by simp)
  | device => exact .same _ (by simp)
  | bind _ _ hfirst hsecond => exact (hfirst.bind hsecond).weaken mem_append.1

/-! ## Inputs that are not left out -/

namespace Renderer

def withValue (r : Renderer) (id : String) (part : Render Expr) : Renderer :=
  { r with value := fun block => if block.id = id then part else r.value block }

def withStatement (r : Renderer) (id : String) (part : Render String) : Renderer :=
  { r with statement := fun block => if block.id = id then part else r.statement block }

variable {r : Renderer} {block child : Block}

section

variable (hchild : r.setting.workspace.get? child.id = some child) (henabled : child.disabled = false)
include hchild henabled

theorem lockstep_operandOr (part part' : Render Expr) (name : String) (fallback : Expr) :
    Lockstep part part' (block.values.get? name = some child.id)
      ((r.withValue child.id part).operandOr block name fallback)
      ((r.withValue child.id part').operandOr block name fallback) := by
  refine operandOr_cases (P := Lockstep part part' (block.values.get? name = some child.id)) rfl
    (fun hdisabled => .same _ fun hid => ?_) (fun _ _ _ => .ofFault _)
    fun id found hsocket hget _ => ?_
  · rw [hdisabled _ child hid hchild] at henabled
    cases henabled
  · unfold plugged
    cases found.shape.outputCheck? with
    | none => exact .ofFault _
    | some check =>
      refine .same_bind _ fun _ => .bind_same ?_ _
      by_cases hid : found.id = child.id
      · simp only [withValue, if_pos hid]
        exact .reach
      · simp only [withValue, if_neg hid]
        refine .same _ fun hsame => hid ?_
        rw [hsocket] at hsame
        exact congrArg Block.id (Option.some.inj (hget.symm.trans (Option.some.inj hsame ▸ hchild)))

omit hchild in
theorem lockstep_link (part part' : Render String) (member : Block) :
    Lockstep part part' (member = child) ((r.withStatement child.id part).link member)
      ((r.withStatement child.id part').link member) := by
  unfold link
  split
  · rename_i hdisabled
    refine .same _ fun hmember => ?_
    rw [hmember, henabled] at hdisabled
    cases hdisabled
  · refine .bind_same ?_ _
    by_cases hid : member.id = child.id
    · simp only [withStatement, if_pos hid]
      exact .reach
    · simp only [withStatement, if_neg hid]
      exact .same _ fun hsame => hid (by rw [hsame])

omit hchild in
theorem lockstep_slot (part part' : Render String) (name : String) :
    Lockstep part part' (∃ start, block.statements.get? name = some start ∧
        child ∈ (r.setting.workspace.chain start).1)
      ((r.withStatement child.id part).slot block name)
      ((r.withStatement child.id part').slot block name) := by
  cases hslot : block.statements.get? name with
  | none =>
    rw [slot_of_get?_eq_none hslot, slot_of_get?_eq_none hslot]
    exact .same _ (by simp)
  | some start =>
    rw [slot_of_get?_eq_some hslot, slot_of_get?_eq_some hslot]
    have hchain : Lockstep part part' (child ∈ (r.setting.workspace.chain start).1)
        ((r.withStatement child.id part).chain start)
        ((r.withStatement child.id part').chain start) := by
      refine .bind_same (.weaken (.mapM _ (fun member => member = child) fun member _ =>
        lockstep_link henabled part part' member) fun hmember => ⟨child, hmember, rfl⟩) _
    refine (hchain.bind_same _).weaken ?_
    rintro ⟨_, ⟨⟩, hmember⟩
    exact hmember

end

/-- A chain that is broken fails in any case. -/
theorem fails_slot_of_broken {name start : String}
    (hslot : block.statements.get? name = some start)
    (hbroken : (r.setting.workspace.chain start).2 = some fault) (draft : Draft) :
    ∃ found after, Fails (r.slot block name) draft found after := by
  rw [slot_of_get?_eq_some hslot]
  unfold chain
  rcases hchain : r.setting.workspace.chain start with ⟨blocks, ends⟩
  obtain rfl : ends = some fault := by simpa [hchain] using hbroken
  rcases yields_or_fails (blocks.mapM r.link) draft with ⟨texts, after, hlinks⟩ | ⟨found, after, hlinks⟩
  · refine ⟨fault, after, fails_bind.2 (.inl (hlinks.fails ?_))⟩
    exact fails_throw.2 ⟨rfl, rfl⟩
  · exact ⟨found, after, fails_bind.2 (.inl (fails_bind.2 (.inl hlinks)))⟩

/-- Nothing is replaced if a statement of a workspace is replaced by itself. -/
theorem slot_withStatement_self (hchild : r.setting.workspace.get? child.id = some child)
    (name : String) :
    (r.withStatement child.id (r.statement child)).slot block name = r.slot block name := by
  cases hslot : block.statements.get? name with
  | none => rw [slot_of_get?_eq_none hslot, slot_of_get?_eq_none hslot]
  | some start =>
    rw [slot_of_get?_eq_some hslot, slot_of_get?_eq_some hslot]
    have hchain : (r.withStatement child.id (r.statement child)).chain start = r.chain start := by
      refine @chain_eq (r.withStatement child.id (r.statement child)) r (.refl r.setting) start ?_
      intro member hmember
      by_cases hid : member.id = child.id
      · have hget := get?_of_mem (mem_of_mem_chainFrom hmember)
        rw [hid] at hget
        obtain rfl := Option.some.inj (hchild.symm.trans hget)
        exact if_pos rfl
      · exact if_neg hid
    rw [hchain]

/-- Nothing is replaced if a value of a workspace is replaced by itself. -/
theorem operandOr_withValue_self (hchild : r.setting.workspace.get? child.id = some child)
    (name : String) (fallback : Expr) :
    (r.withValue child.id (r.value child)).operandOr block name fallback =
      r.operandOr block name fallback := by
  refine operandOr_cases (r := r.withValue child.id (r.value child)) (P := Eq) rfl (fun _ => rfl)
    (fun _ _ _ => rfl) fun id found _ hget _ => ?_
  have hvalue : (r.withValue child.id (r.value child)).value found = r.value found := by
    by_cases hid : found.id = child.id
    · obtain rfl := id_of_get? hget
      obtain rfl := Option.some.inj (hget.symm.trans (hid ▸ hchild))
      exact if_pos rfl
    · exact if_neg hid
  unfold plugged
  rw [hvalue]
  rfl

end Renderer

/-! ## Main statement -/

section

variable {r : Renderer} {block : Block}

section

variable (hdecoded : block.Decoded)

include hdecoded

/-- An input that goes in lockstep goes into the rendering of its block. -/
theorem Renderer.includes_of_lockstep {γ : Type} {input : Input}
    (htakes : block.shape.Takes input) (hrendered : ¬ r.setting.LeavesOut block input)
    {replaced : Render γ → Renderer} (hsetting : ∀ part, (replaced part).setting = r.setting)
    (hsocket : ∀ part part' name fallback, Lockstep part part' (input = .socket name)
      ((replaced part).operandOr block name fallback) ((replaced part').operandOr block name fallback))
    (hslot : ∀ part part' name, Lockstep part part' (input = .slot name)
      ((replaced part).slot block name) ((replaced part').slot block name)) :
    Render.Includes fun part => (replaced part).render block := by
  refine Lockstep.includes fun part part' => ?_
  have hbeside := beside_of_setting_eq ((hsetting part).trans (hsetting part').symm) block
  obtain ⟨stops, hcourse, hstops⟩ := hbeside.render hdecoded
  refine (hcourse.lockstep input (hsocket part part') (hslot part part')).weaken fun _ => ?_
  rw [hstops, hsetting]
  exact ⟨(Block.mem_inputs_iff hdecoded input).2 htakes, hrendered⟩

/-- Renderers that do the same for all inputs do the same for the block. -/
theorem Renderer.render_eq_of_inputs {r' : Renderer} (hsetting : r'.setting = r.setting)
    (hsocket : ∀ name fallback, r'.operandOr block name fallback = r.operandOr block name fallback)
    (hslot : ∀ name, r'.slot block name = r.slot block name) :
    r'.render block = r.render block := by
  obtain ⟨stops, hcourse, -⟩ := (beside_of_setting_eq hsetting block).render hdecoded
  exact hcourse.eq_of_asked (fun name _ => hsocket name) fun name _ => hslot name

/-- A block with a broken chain in a declared slot fails. -/
theorem Renderer.fails_render_of_broken {name start : String}
    (htakes : block.shape.Takes (.slot name)) (hslot : block.statements.get? name = some start)
    (hbroken : (r.setting.workspace.chain start).2 = some fault) (draft : Draft) :
    ∃ found after, Fails (r.render block) draft found after := by
  obtain ⟨stops, hcourse, hstops⟩ := (beside_of_setting_eq rfl block).render hdecoded
  have hlockstep : Lockstep (throw fault : Render Unit) (throw fault) (.ask (.slot name) ∈ stops)
      (r.render block) (r.render block) := by
    refine hcourse.lockstep (.slot name) (fun _ _ => .same _ (by simp)) fun other => ?_
    by_cases hname : other = name
    · subst hname
      exact .failing _ (fails_slot_of_broken hslot hbroken)
    · exact .same _ fun hsame => hname (Input.slot.inj hsame).symm
  have hasked : Stop.ask (.slot name) ∈ stops := by
    refine (hstops _).2 ⟨(Block.mem_inputs_iff hdecoded _).2 htakes, ?_⟩
    rintro ⟨-, -, -, ⟨⟩⟩
  rcases hlockstep draft with ⟨-, hfails⟩ | ⟨reached, hfails, -⟩
  · exact hfails hasked
  · exact ⟨fault, reached, hfails _ _ (fails_throw.2 ⟨rfl, rfl⟩)⟩

/-- Rendering the main procedure of a class asks for no value. -/
theorem Renderer.render_withValue_of_leavesOut {input : Input}
    (h : r.setting.LeavesOut block input) (id : String) (part : Render Expr) :
    (r.withValue id part).render block = r.render block := by
  obtain ⟨htarget, hkind, hname, -⟩ := h
  have hsetting : (r.withValue id part).setting = r.setting := rfl
  obtain ⟨stops, hcourse, hstops⟩ := (beside_of_setting_eq hsetting block).render hdecoded
  refine hcourse.eq_of_asked (fun socket hsocket => ?_) fun _ _ => rfl
  obtain ⟨hinput, hrendered⟩ := (hstops _).1 hsocket
  have hresult : Input.socket socket = .socket "RETURN" := by
    unfold Block.inputs at hinput
    simpa [hkind] using hinput
  exact absurd ⟨htarget, hkind, hname, hresult⟩ hrendered

end

end

/-- Rendering a block depends on its declared inputs, on all of them and on no other links, if the shape
and the mutation of the block are those of its kind. -/
theorem rendering_depends_on_declared_inputs (block : Block) (hdecoded : block.Decoded) :
    -- Settings that agree about what the declared inputs lead to render the block by the same steps.
    (∀ part setting setting' block', Setting.SameDeclared part setting setting' →
      block.SameDeclared block' → block.InputsIn part →
      setting.renderer.render block = setting'.renderer.render block') ∧
    ∀ r : Renderer,
      -- The value of an enabled block in a declared socket is not left out, with one exception.
      (∀ socket child, block.shape.Takes (.socket socket) →
        block.values.get? socket = some child.id → r.setting.workspace.get? child.id = some child →
        child.disabled = false → ¬ r.setting.LeavesOut block (.socket socket) →
        (r.withValue child.id (r.value child)).render block = r.render block ∧
          Render.Includes fun part => (r.withValue child.id part).render block) ∧
      -- Nor is an enabled statement of the chain in a declared slot, and a broken chain is a fault.
      (∀ slot start, block.shape.Takes (.slot slot) → block.statements.get? slot = some start →
        (∀ child ∈ (r.setting.workspace.chain start).1, child.disabled = false →
          (r.withStatement child.id (r.statement child)).render block = r.render block ∧
            Render.Includes fun part => (r.withStatement child.id part).render block) ∧
        ∀ fault, (r.setting.workspace.chain start).2 = some fault →
          ∀ draft, ∃ found after, Fails (r.render block) draft found after) ∧
      -- The exception is left out whatever it is.
      ∀ socket, r.setting.LeavesOut block (.socket socket) → ∀ id part,
        (r.withValue id part).render block = r.render block := by
  refine ⟨fun part setting setting' block' hsame hblock hinputs => ?_,
    fun r => ⟨fun socket child htakes hsocket hchild henabled hrendered => ⟨?_, ?_⟩,
      fun slot start htakes hslot => ⟨fun child hchild henabled => ⟨?_, ?_⟩,
        fun fault hbroken draft => ?_⟩, fun socket hleaves id part => ?_⟩⟩
  · obtain ⟨hbeside, hsockets, hslots⟩ := Setting.inputs_eq_of_sameDeclared hsame hdecoded hblock hinputs
    obtain ⟨stops, hcourse, hstops⟩ := hbeside.render hdecoded
    have htakes : ∀ input, .ask input ∈ stops → block.shape.Takes input :=
      fun input hinput => (Block.mem_inputs_iff hdecoded input).1 ((hstops input).1 hinput).1
    exact hcourse.eq_of_asked (fun name hname => hsockets name (htakes _ hname))
      fun name hname => hslots name (htakes _ hname)
  · exact render_eq_of_inputs hdecoded rfl (operandOr_withValue_self hchild) fun _ => rfl
  · refine includes_of_lockstep hdecoded htakes hrendered (fun _ => rfl)
      (fun part part' name fallback => ?_) (fun part part' name => .same _ (by simp))
    refine (lockstep_operandOr hchild henabled part part' name fallback).weaken ?_
    rintro ⟨⟩
    exact hsocket
  · have hget := get?_of_mem (mem_of_mem_chainFrom hchild)
    exact render_eq_of_inputs hdecoded rfl (fun _ _ => rfl) (slot_withStatement_self hget)
  · refine includes_of_lockstep hdecoded htakes ?_ (fun _ => rfl)
      (fun part part' name fallback => .same _ (by simp)) (fun part part' name => ?_)
    · rintro ⟨-, -, -, ⟨⟩⟩
    · refine (lockstep_slot henabled part part' name).weaken ?_
      rintro ⟨⟩
      exact ⟨start, hslot, hchild⟩
  · exact fails_render_of_broken hdecoded htakes hslot hbroken draft
  · exact render_withValue_of_leavesOut hdecoded hleaves id part

/-! ## A call with a supplied parameter, and a main procedure with a result -/

namespace SwingSample

def signature : CallSignature where
  lookup := "swing(HardwareMap,double)"
  returnType := "void"
  comment := ""
  accessMethod := "callJava"
  conversion := ""
  className := "com.example.Arm"
  simpleName := "Arm"
  parameters :=
    [⟨"com.qualcomm.robotcore.hardware.HardwareMap", some "hardwareMap",
        ClassType.resolve "com.qualcomm.robotcore.hardware.HardwareMap" .input⟩,
      ⟨"double", none, ClassType.resolve "double" .input⟩]

def mutation : Xml.Element where
  name := "mutation"
  attributes := Dict.ofList [("methodLookupString", "swing(HardwareMap,double)"),
    ("returnType", "void"), ("parameterCount", "2"),
    ("argType0", "com.qualcomm.robotcore.hardware.HardwareMap"), ("argAuto0", "hardwareMap"),
    ("argType1", "double"), ("accessMethod", "callJava"), ("fullClassName", "com.example.Arm"),
    ("simpleName", "Arm")]
  text := ""
  children := []

theorem decode_mutation : CallSignature.decode mutation.attributes {} = .ok signature := by
  rfl

def call (values : Dict String) : Block :=
  Block.applyMutation
    { id := "a", typeName := "misc_callJava_noReturn", kind := .callStatic false
      fields := Dict.ofList [("METHOD_NAME", "swing")], values
      mutation := some (.call signature) }

def angle : Block :=
  Block.applyMutation
    { id := "b", typeName := "math_number", kind := .mathNumber
      fields := Dict.ofList [("NUM", "30")], parent := some (.value "a" "ARG1") }

/-- A text where the supplied parameter would have its socket. -/
def stray : Block :=
  Block.applyMutation
    { id := "c", typeName := "text", kind := .text
      fields := Dict.ofList [("TEXT", "arm")], parent := some (.value "a" "ARG0") }

def plainCall : Block := call (Dict.ofList [("ARG1", "b")])

def strayCall : Block := call (Dict.ofList [("ARG0", "c"), ("ARG1", "b")])

def plain : Setting where
  workspace := { blocks := [plainCall, angle], distinct := by decide }
  target := .java

def withStray : Setting where
  workspace := { blocks := [strayCall, angle, stray], distinct := by decide }
  target := .java

theorem decoded_call (values : Dict String) : (call values).Decoded := by
  refine ⟨rfl, fun found hfound => ?_⟩
  cases hfound
  refine ⟨mutation, {}, ?_⟩
  show (CallSignature.decode mutation.attributes {}).map Mutation.call = _
  rw [decode_mutation]
  rfl

theorem takes_call_iff (values : Dict String) (input : Input) :
    (call values).shape.Takes input ↔ input = .socket "ARG1" := by
  have hsockets : (call values).shape.sockets.map Socket.name = ["ARG1"] := by
    show (call {}).shape.sockets.map Socket.name = ["ARG1"]
    decide
  have hslots : (call values).shape.slots = [] := rfl
  cases input <;> simp [Shape.Takes, hsockets, hslots]

theorem decoded_angle : angle.Decoded := by
  refine ⟨rfl, ?_⟩
  rintro _ ⟨⟩

theorem parameters?_eq_none {w : Workspace} (h : ∀ block ∈ w.blocks, block.kind.isDefinition = false)
    (procedure : String) : w.parameters? procedure = none := by
  unfold Workspace.parameters?
  rw [Option.map_eq_none_iff, find?_eq_none]
  intro block hblock
  rw [Workspace.byId, mem_mergeSort] at hblock
  simp [h block hblock]

/-- The two programs differ in what stands where no socket is. -/
theorem sameDeclared : Setting.SameDeclared (fun id => id = "b") withStray plain := by
  have hangle : ∀ block ∈ withStray.workspace.blocks, block.id = "b" → block = angle := by
    intro block hblock hid
    simp only [withStray, mem_cons, not_mem_nil, or_false] at hblock
    rcases hblock with rfl | rfl | rfl
    · exact absurd hid (by decide)
    · rfl
    · exact absurd hid (by decide)
  refine ⟨⟨?_, ?_, ?_⟩, ?_, ?_, rfl, rfl, fun _ name => ?_⟩
  · rintro _ rfl
    exact ⟨angle, by simp [withStray], angle, by simp [plain], rfl, decoded_angle, .refl _⟩
  · intro block hblock hid input id htakes hlinked
    obtain rfl := hangle block hblock hid
    cases input <;> cases hlinked
  · intro block hblock hid id hnext
    obtain rfl := hangle block hblock hid
    cases hnext
  · rw [validate_of_sorted (by decide) (by decide)]
    decide
  · rw [validate_of_sorted (by decide) (by decide)]
    decide
  · rw [parameters?_eq_none (by decide), parameters?_eq_none (by decide)]

/-- The call does not depend on the text, and does not leave the number out. -/
theorem stray_argument_is_ignored :
    strayCall.Decoded ∧ Setting.SameDeclared (fun id => id = "b") withStray plain ∧
      withStray.renderer.render strayCall = plain.renderer.render plainCall ∧
      Render.Includes fun part => (withStray.renderer.withValue "b" part).render strayCall := by
  have htakes := (takes_call_iff strayCall.values (.socket "ARG1")).2 rfl
  obtain ⟨hindependent, hincluded⟩ := rendering_depends_on_declared_inputs strayCall (decoded_call _)
  refine ⟨decoded_call _, sameDeclared, hindependent _ _ _ _ sameDeclared ?_ ?_,
    ((hincluded withStray.renderer).1 "ARG1" angle htakes rfl ?_ rfl ?_).2⟩
  · refine ⟨⟨plainCall.values, plainCall.statements, plainCall.parent⟩, rfl, fun input htakes => ?_⟩
    obtain rfl := (takes_call_iff _ input).1 htakes
    rfl
  · intro input id htakes hlinked
    obtain rfl := (takes_call_iff _ input).1 htakes
    exact (Option.some.inj hlinked).symm
  · rw [Setting.setting_renderer]
    rfl
  · rintro ⟨-, ⟨⟩, -⟩

end SwingSample

namespace ResultSample

/-- A constant that is neither true nor false. -/
def maybe : Block :=
  Block.applyMutation
    { id := "b", typeName := "logic_boolean", kind := .logicBoolean
      fields := Dict.ofList [("BOOL", "MAYBE")], parent := some (.value "main" "RETURN") }

def main : Block :=
  Block.applyMutation
    { id := "main", typeName := "procedures_defreturn", kind := .procedureDef true
      fields := Dict.ofList [("NAME", "runOpMode")], values := Dict.ofList [("RETURN", "b")] }

def setting (target : Target) : Setting where
  workspace := { blocks := [maybe, main], distinct := by decide }
  target

/-- The value in a declared socket of an enabled block fails in every draft. In a script the block fails
with it, in a class it is rendered as if the socket were empty. -/
theorem result_of_main_is_left_out :
    main.Decoded ∧ main.shape.Takes (.socket "RETURN") ∧
      main.values.get? "RETURN" = some maybe.id ∧ maybe.disabled = false ∧
      (∀ target draft, ∃ fault, Fails ((setting target).renderer.value maybe) draft fault draft) ∧
      (∀ draft, ∃ fault after,
        Fails ((setting .javaScript).renderer.render main) draft fault after) ∧
      ∀ draft, Yields ((setting .java).renderer.render main) draft (.text "") draft := by
  have hdecoded : main.Decoded := by
    refine ⟨rfl, ?_⟩
    rintro _ ⟨⟩
  refine ⟨hdecoded, by decide, rfl, rfl, fun target draft => ?_, fun draft => ?_, fun draft => ?_⟩
  · refine ⟨maybe.unexpected "BOOL" "MAYBE", ?_⟩
    cases target <;> rfl
  · exact ⟨maybe.unexpected "BOOL" "MAYBE", draft, rfl⟩
  · rfl

end ResultSample

end RobotBlocks
