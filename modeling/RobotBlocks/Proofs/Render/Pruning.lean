import RobotBlocks.Proofs.Render.Targets
import RobotBlocks.Proofs.StaticType.Success

/-!
# Pruning keeps rendering possible

A program that can be rendered can still be rendered when some of its blocks that hang somewhere are
disabled. Whether a run ends well does not depend on its draft: the steps that look at the draft, for
identifiers, imports and static types, cannot fail for that (`Parallel.succeeds`). The one exception
is a class, where the static types in the draft decide whether the type of a block is asked for at
all. Such a question has an answer whenever the block can be rendered
(`Setting.known_within_of_able`).
-/

set_option autoImplicit false

namespace RobotBlocks

open StaticType Workspace

/-- If the first run ends well from some draft, the second one does from every draft, with a related
result. -/
def Succeeds {α : Type} (R : α → α → Prop) (x y : Render α) : Prop :=
  ∀ before a after, Yields x before a after →
    ∀ before', ∃ b after', Yields y before' b after' ∧ R a b

namespace Succeeds

variable {α β : Type} {R : α → α → Prop} {S : β → β → Prop} {x y : Render α}

theorem sure (h : Succeeds R x y) (hx : Able x) : Sure y := by
  intro before'
  obtain ⟨before, a, after, hyields⟩ := hx
  obtain ⟨b, after', hyields', -⟩ := h before a after hyields before'
  exact ⟨b, after', hyields'⟩

theorem of_sure (h : Able x → Sure y) : Succeeds (Agree False) x y := by
  intro before a after hyields before'
  obtain ⟨b, after', hyields'⟩ := h ⟨before, a, after, hyields⟩ before'
  exact ⟨b, after', hyields', nofun⟩

theorem bind {f g : α → Render β} (h : Succeeds R x y)
    (hnext : ∀ a b, R a b → Succeeds S (f a) (g b)) : Succeeds S (x >>= f) (y >>= g) := by
  intro before c after hyields before'
  obtain ⟨a, middle, hx, hf⟩ := yields_bind.1 hyields
  obtain ⟨b, middle', hy, hab⟩ := h before a middle hx before'
  obtain ⟨d, after', hg, hcd⟩ := hnext a b hab middle c after hf middle'
  exact ⟨d, after', yields_bind.2 ⟨b, middle', hy, hg⟩, hcd⟩

end Succeeds

namespace Render

theorem sure_withContext {α : Type} (operation : Context → α × Context) :
    Sure (withContext operation) :=
  fun _ => ⟨_, _, yields_modifyGet.2 rfl⟩

theorem sure_recordImport (added : Option String) : Sure (recordImport added) := by
  cases added with
  | none => exact .pure _
  | some className => exact .modify _

theorem sure_importKnown {simple : String}
    (h : (knownClass? (Context.outerName simple)).isSome = true) : Sure (importKnown simple) := by
  obtain ⟨className, hclass⟩ := Option.isSome_iff_exists.1 h
  rw [importKnown_eq, hclass]
  exact (sure_withContext _).bind sure_recordImport

theorem isSome_of_able_importKnown {simple : String} (h : Able (importKnown simple)) :
    (knownClass? (Context.outerName simple)).isSome = true := by
  rw [importKnown_eq] at h
  cases hclass : knownClass? (Context.outerName simple) with
  | some className => rfl
  | none =>
    rw [hclass] at h
    exact absurd h not_able_throw

/-- The class of a type has no outer class any more. -/
theorem sure_importIfKnown (type : String) : Sure (importIfKnown type) := by
  unfold importIfKnown
  dsimp only
  split
  · rename_i hknown
    refine sure_importKnown ?_
    have houter : Context.outerName (String.ofList
        (type.toList.takeWhile (fun c => c ≠ '.' && c ≠ '['))) =
        String.ofList (type.toList.takeWhile (fun c => c ≠ '.' && c ≠ '[')) := by
      unfold Context.outerName
      rw [String.toList_ofList, List.takeWhile_eq_self_iff.2]
      intro c hc
      have hc' := List.mem_takeWhile_imp hc
      simp only [Bool.and_eq_true] at hc'
      exact hc'.1
    rw [houter]
    exact hknown
  · exact .pure _

end Render

/-- Runs in parallel end well together, whatever their drafts. -/
theorem Parallel.succeeds {α : Type} {R : α → α → Prop} {x y : Render α}
    (h : Parallel False (fun _ => Succeeds) R x y) : Succeeds R x y := by
  have hsure : ∀ {β : Type} {x y : Render β}, Sure y → Succeeds (Agree False) x y :=
    fun hy => .of_sure fun _ => hy
  induction h with
  | inner h => exact h
  | pure hab =>
    intro before a after hyields before'
    obtain ⟨rfl, -⟩ := yields_pure.1 hyields
    exact ⟨_, before', yields_pure.2 ⟨rfl, rfl⟩, hab⟩
  | bind _ _ hx hnext => exact hx.bind hnext
  | weaken _ himp hx =>
    intro before a after hyields before'
    obtain ⟨b, after', hyields', hab⟩ := hx before a after hyields before'
    exact ⟨b, after', hyields', himp a b hab⟩
  | throw => exact fun before a after hyields => absurd hyields yields_throw
  | get => exact fun _ _ _ _ draft => ⟨draft, draft, yields_get.2 ⟨rfl, rfl⟩, False.elim⟩
  | record => exact hsure (.modify _)
  | identifierFor | distinctName => exact hsure (Render.sure_withContext _)
  | importClassType =>
    exact hsure ((Render.sure_withContext _).bind fun _ => Render.sure_recordImport _)
  | importKnown =>
    exact .of_sure fun hable => Render.sure_importKnown (Render.isSome_of_able_importKnown hable)
  | importIfKnown => exact hsure (Render.sure_importIfKnown _)
  | declare => exact hsure ((Render.sure_withContext _).bind fun _ => .pure _)

/-! ## Types of blocks that can be rendered -/

namespace Compiled

variable {r : Renderer} {block : Block}

/-- What the type of a block says about itself is known if the block can be rendered. -/
theorem known_stated_of_able (h : Able (value r block)) : Known (StaticType.stated block) := by
  have houtput : Known block.outputType := by
    unfold value at h
    unfold Block.outputType
    split
    · rename_i hkind
      rw [hkind] at h
      obtain ⟨property, hproperty, -⟩ := h.of_liftM_bind
      exact Known.bind_pure_iff.2 ⟨property, hproperty⟩
    · rename_i hkind
      rw [hkind] at h
      obtain ⟨property, hproperty, -⟩ := Known.bind_iff.1 h.known
      exact Known.bind_pure_iff.2 ⟨property, hproperty⟩
    · rename_i hkind
      rw [hkind] at h
      obtain ⟨property, hproperty, -⟩ := h.of_liftM_bind
      exact Known.bind_pure_iff.2 ⟨property, hproperty⟩
    · split <;> exact .ok _
  obtain ⟨declared, hdeclared⟩ := houtput
  refine Known.bind_iff.2 ⟨declared, hdeclared, ?_⟩
  split
  · exact .pure _
  · split <;> exact .pure _

theorem able_binary {operator : Operator} (h : Able (r.binary block operator)) :
    Able (r.operand block "A") ∧ Able (r.operand block "B") := by
  obtain ⟨_, hrest⟩ := h.right
  exact ⟨h.left, hrest.left⟩

/-- The type of a block that can be rendered needs nothing but what was rendered. -/
theorem typeNeeds_of_able (h : Able (value r block)) :
    block.TypeNeeds fun socket => Able (r.operand block socket) := by
  have hstated := known_stated_of_able h
  unfold Block.TypeNeeds
  split
  all_goals try
    rename_i hkind
    unfold value Renderer.sharedValue at h
    rw [hkind] at h
  · obtain ⟨value, hvalue, -⟩ := h.of_liftM_bind
    exact ⟨value, hvalue⟩
  · obtain ⟨op, hop, hrest⟩ := h.of_liftM_bind
    have hfield := Block.field?_of_requiredField hop
    split at hrest
    · exact .inr (.inr (able_binary hrest))
    · exact .inr (.inr (able_binary hrest))
    · exact .inr (.inr (able_binary hrest))
    · exact .inr (.inl hfield)
    · exact .inl hfield
    · exact absurd hrest not_able_throw
  · obtain ⟨op, hop, hrest⟩ := h.of_liftM_bind
    have hfield := Block.field?_of_requiredField hop
    rw [hfield]
    rintro (hneg | habs)
    · cases hneg
      exact hrest.left
    · cases habs
      exact hrest.left.of_mem_mapM (List.mem_singleton.2 rfl)
  · obtain ⟨name, hname, -⟩ := h.of_liftM_bind
    exact ⟨name, hname⟩
  · obtain ⟨name, hname, -⟩ := h.of_liftM_bind
    exact ⟨name, hname⟩
  · obtain ⟨_, hbranches⟩ := h.right
    obtain ⟨_, hno⟩ := hbranches.right
    exact ⟨hbranches.left, hno.left⟩
  · exact hstated

end Compiled

/-- The setting with some of the blocks that hang somewhere disabled. -/
def Setting.prune (setting : Setting) (off : String → Bool) : Setting :=
  { setting with workspace := setting.workspace.prune off }

namespace Renderer

variable {r : Renderer} {block : Block}
variable {socket : String}

/-- What stands in a socket that can be rendered: nothing that is enabled after pruning, or the same
block as before, which can be rendered too. -/
theorem socket_cases_of_able (off : String → Bool) {fallback : Expr}
    (h : Able (r.operandOr block socket fallback)) :
    block.values.get? socket = none ∨ ∃ id child, block.values.get? socket = some id ∧
      (r.setting.workspace.prune off).get? id = some child ∧
      (child.disabled = false → Able (r.plugged block socket child)) := by
  cases hsocket : block.values.get? socket with
  | none => exact .inl rfl
  | some id =>
    refine .inr ⟨id, ?_⟩
    cases hget : r.setting.workspace.get? id with
    | none =>
      rw [operandOr_of_dangling hsocket hget] at h
      exact absurd h not_able_throw
    | some child =>
      refine ⟨child.pruned off, rfl, by rw [get?_prune, hget, Option.map_some], ?_⟩
      intro henabled
      have hsame := Block.pruned_eq_of_enabled henabled
      rw [hsame] at henabled ⊢
      rwa [operandOr_of_get?_eq_some hsocket hget, if_neg (by simp [henabled])] at h

theorem able_value_of_able_plugged {child : Block} (h : Able (r.plugged block socket child)) :
    Able (r.value child) := by
  unfold plugged at h
  split at h
  · exact absurd h not_able_throw
  · obtain ⟨_, hrest⟩ := h.right
    exact hrest.left

theorem known_inSocket_of_able (off : String → Bool) {typeOf : Block → StaticType.Answer}
    (h : Able (r.operand block socket))
    (htype : ∀ child, Able (r.value child) → Known (typeOf child)) :
    Known (StaticType.inSocket (r.setting.workspace.prune off) typeOf block socket) := by
  rcases socket_cases_of_able off h with hsocket | ⟨id, child, hsocket, hget, hplugged⟩
  · rw [inSocket_of_get?_eq_none hsocket]
    exact .ok _
  · rw [inSocket_of_get?_eq_some hsocket hget]
    split
    · exact .ok _
    · rename_i henabled
      exact htype child (able_value_of_able_plugged (hplugged (by simpa using henabled)))

end Renderer

/-- In a class, the type of a block that can be rendered is known after pruning, by any table. -/
theorem Setting.known_within_of_able {setting : Setting} {off : String → Bool}
    (htarget : setting.target = .java) {depth depth' : Nat} (hdepth : depth ≤ depth') {block : Block}
    (h : Able ((setting.rendererWithin depth).value block)) (table : TypeTable) :
    Known (StaticType.within (setting.workspace.prune off) table depth' block) := by
  induction depth generalizing depth' block with
  | zero =>
    exact absurd h not_able_throw
  | succ depth ih =>
    obtain ⟨depth', rfl⟩ : ∃ n, depth' = n + 1 := ⟨depth' - 1, by omega⟩
    have hvalue : Able (Compiled.value (setting.rendererWithin depth) block) := by
      have hrendered : Able ((setting.rendererWithin depth).renderValue block) := h
      unfold Renderer.renderValue at hrendered
      rwa [setting_rendererWithin, htarget] at hrendered
    refine known_step_iff.2 ((Compiled.typeNeeds_of_able hvalue).mono fun socket hsocket => ?_)
    have htype : ∀ child, Able ((setting.rendererWithin depth).value child) →
        Known (StaticType.within (setting.workspace.prune off) table depth' child) :=
      fun child hchild => ih (by omega) hchild
    have hknown := Renderer.known_inSocket_of_able off hsocket htype
    rwa [setting_rendererWithin] at hknown

/-! ## Sockets and slots -/

namespace Renderer

/-- What is known about a renderer and the one of the pruned workspace: what the first can render the
second surely renders, and in a class the types of what the first can render are known. -/
structure Covers (r r' : Renderer) (off : String → Bool) : Prop where
  setting_eq : r'.setting = r.setting.prune off
  value (block : Block) : Able (r.value block) → Sure (r'.value block)
  statement (block : Block) : Able (r.statement block) → Sure (r'.statement block)
  known (block : Block) (table : TypeTable) : r.setting.target = .java → Able (r.value block) →
    Known (StaticType.ofBlock (r.setting.workspace.prune off) table block)

namespace Covers

variable {r r' : Renderer} {off : String → Bool} {block : Block}
variable {socket : String} {child : Block}

theorem known_literal {w : Workspace} {table : TypeTable} (hkind : child.kind = .mathNumber)
    (h : Known (StaticType.ofBlock w table child)) : Known child.literal := by
  unfold StaticType.ofBlock at h
  cases hsize : w.size with
  | zero =>
    rw [hsize] at h
    obtain ⟨type, htype⟩ := h
    cases htype
  | succ depth =>
    rw [hsize] at h
    have hneeds := known_step_iff.1 h
    unfold Block.TypeNeeds at hneeds
    rwa [hkind] at hneeds

/-- Whether a quotient is cast or not, both of its operands are rendered. -/
theorem able_operands_of_able_quotient (hquotient : Able (r.quotient block)) :
    Able (r.operand block "A") ∧ Able (r.operand block "B") := by
  obtain ⟨drops, hrest⟩ := hquotient.right
  split at hrest
  · obtain ⟨_, hdivisor⟩ := hrest.right
    exact ⟨hrest.left, hdivisor.left⟩
  · exact Compiled.able_binary hrest

variable (h : r.Covers r' off)

include h

theorem target_eq : r'.setting.target = r.setting.target := by
  rw [h.setting_eq]
  rfl

theorem workspace_eq : r'.setting.workspace = r.setting.workspace.prune off := by
  rw [h.setting_eq]
  rfl

theorem sure_coerce (htarget : r.setting.target = .java) {expr expr' : Expr}
    (hcoerce : Able (r.coerce block socket child expr)) (hchild : Able (r.value child)) :
    Sure (r'.coerce block socket child expr') := by
  have hsocket : ∀ table, Known (StaticType.ofSocket r'.setting.workspace table block socket) := by
    intro table
    obtain ⟨draft, hrest⟩ := hcoerce.right
    obtain ⟨type, htype, -⟩ := hrest.of_liftM_bind
    exact known_ofSocket ⟨type, htype⟩
  have hknown : ∀ table, Known (StaticType.ofBlock r'.setting.workspace table child) := by
    intro table
    rw [h.workspace_eq]
    exact h.known child table htarget hchild
  refine Sure.get.bind fun draft => ?_
  obtain ⟨type, htype⟩ := hsocket draft.types
  refine .liftM_bind htype ?_
  split
  · exact .pure _
  · split
    · rename_i hkind
      obtain ⟨value, hvalue⟩ := known_literal hkind (hknown draft.types)
      exact .liftM_bind hvalue (.pure _)
    · obtain ⟨found, hfound⟩ := hknown draft.types
      refine .liftM_bind hfound ?_
      split <;> exact .pure _

theorem sure_plugged (hplugged : Able (r.plugged block socket child)) :
    Sure (r'.plugged block socket child) := by
  have hchild := able_value_of_able_plugged hplugged
  unfold plugged at hplugged ⊢
  rw [h.target_eq]
  split at hplugged
  · exact absurd hplugged not_able_throw
  · obtain ⟨_, hrest⟩ := hplugged.right
    obtain ⟨expr, hexpr⟩ := hrest.right
    refine (sure_checkSocket block socket _).bind fun _ => (h.value child hchild).bind fun expr' => ?_
    split
    · rename_i htarget
      rw [htarget] at hexpr
      exact h.sure_coerce htarget hexpr hchild
    · exact .pure _

theorem sure_operandOr {fallback : Expr} (hoperand : Able (r.operandOr block socket fallback))
    (fallback' : Expr) : Sure (r'.operandOr block socket fallback') := by
  rcases socket_cases_of_able off hoperand with hsocket | ⟨id, child, hsocket, hget, hplugged⟩
  · rw [operandOr_of_get?_eq_none hsocket]
    exact .pure _
  · rw [operandOr_of_get?_eq_some hsocket (h.workspace_eq ▸ hget)]
    split
    · exact .pure _
    · rename_i henabled
      exact h.sure_plugged (hplugged (by simpa using henabled))

theorem sure_link (hlink : Able (r.link block)) : Sure (r'.link (block.pruned off)) := by
  unfold link
  split
  · exact (Sure.modify _).bind fun _ => .pure _
  · rename_i henabled
    have hsame : block.pruned off = block := Block.pruned_eq_of_enabled (by simpa using henabled)
    rw [hsame] at henabled ⊢
    unfold link at hlink
    rw [if_neg henabled] at hlink
    exact (h.statement block hlink.left).bind fun _ => .pure _

theorem sure_chain {start : String} (hchain : Able (r.chain start)) : Sure (r'.chain start) := by
  unfold chain at hchain ⊢
  rw [h.workspace_eq, chain_prune]
  dsimp only at hchain ⊢
  obtain ⟨texts, hend⟩ := hchain.right
  cases hfault : (r.setting.workspace.chain start).2 with
  | some fault =>
    rw [hfault] at hend
    exact absurd hend not_able_throw
  | none =>
    refine (Sure.mapM _ fun member hmember => ?_).bind fun _ => .pure _
    obtain ⟨original, horiginal, rfl⟩ := List.mem_map.1 hmember
    exact h.sure_link (hchain.left.of_mem_mapM horiginal)

theorem sure_slot {name : String} (hslot : Able (r.slot block name)) :
    Sure (r'.slot block name) := by
  unfold slot at hslot ⊢
  split at hslot
  · exact (h.sure_chain hslot.left).bind fun _ => .pure _
  · exact .pure _

theorem sure_isIntegral (htarget : r.setting.target = .java)
    (hoperand : Able (r.operand block socket)) : Sure (r'.isIntegral block socket) := by
  refine Sure.get.bind fun draft => ?_
  have hknown : Known (StaticType.ofChild r'.setting.workspace draft.types block socket) := by
    rw [h.workspace_eq]
    exact known_inSocket_of_able off hoperand fun child hchild =>
      h.known child draft.types htarget hchild
  obtain ⟨type, htype⟩ := hknown
  exact .liftM_bind htype (.pure _)

theorem sure_quotient (hquotient : Able (r.quotient block)) : Sure (r'.quotient block) := by
  obtain ⟨hleft, hright⟩ := able_operands_of_able_quotient hquotient
  have hoperands : ∀ make : Expr → Expr → Expr, Sure (do
      let left ← r'.operand block "A"
      let right ← r'.operand block "B"
      return make left right) := fun make =>
    (h.sure_operandOr hleft _).bind fun _ => (h.sure_operandOr hright _).bind fun _ => .pure _
  have hdrops : Sure (r'.dropsFraction block) := by
    unfold dropsFraction
    rw [h.target_eq]
    split
    · exact .pure _
    · rename_i htarget
      refine (h.sure_isIntegral htarget hleft).bind fun integral => ?_
      split
      · exact h.sure_isIntegral htarget hright
      · exact .pure _
  refine hdrops.bind fun drops => ?_
  split
  · exact hoperands fun left right => .binary .divide (.cast "double" left) right
  · exact hoperands (.binary .divide)

theorem parallelAt (block : Block) : r.ParallelAt False (fun _ => Succeeds) r' block := by
  refine ⟨h.target_eq.symm, ?_, fun socket fallback => .inner (.of_sure fun hable => ?_),
    fun name => .inner (.of_sure h.sure_slot), .inner (.of_sure h.sure_quotient), nofun⟩
  · rw [h.setting_eq]
    rfl
  · exact h.sure_operandOr hable fallback

end Covers

end Renderer

/-! ## Programs -/

namespace Setting

variable {setting : Setting} {off : String → Bool}

theorem covers_rendererWithin {depth : Nat} (hdepth : depth ≤ setting.workspace.size) :
    (setting.rendererWithin depth).Covers ((setting.prune off).rendererWithin depth) off := by
  induction depth with
  | zero =>
    refine ⟨rfl, fun block h => ?_, fun block h => ?_, fun block table _ h => ?_⟩
    all_goals
      exact absurd h not_able_throw
  | succ depth ih =>
    have hcovers := ih (by omega)
    refine ⟨by simp, fun block => (hcovers.parallelAt block).renderValue.succeeds.sure,
      fun block => (hcovers.parallelAt block).renderStatement.succeeds.sure,
      fun block table htarget h => ?_⟩
    rw [setting_rendererWithin] at htarget ⊢
    unfold StaticType.ofBlock
    rw [size_prune]
    exact known_within_of_able htarget hdepth h table

theorem covers_renderer (setting : Setting) (off : String → Bool) :
    setting.renderer.Covers (setting.prune off).renderer off := by
  unfold renderer
  rw [show (setting.prune off).workspace.size = setting.workspace.size from size_prune]
  exact covers_rendererWithin le_rfl

theorem parallelRoots_prune (setting : Setting) (off : String → Bool) :
    setting.renderer.ParallelRoots False (fun _ => Succeeds) (setting.prune off).renderer := by
  have hcovers := covers_renderer setting off
  refine ⟨?_, ?_, ?_, fun root _ _ => hcovers.parallelAt root,
    fun root _ _ => .inner (.of_sure hcovers.sure_chain),
    fun root _ _ => .inner (.of_sure (hcovers.value root))⟩
  · exact Block.sameRoots_of_eq (by simp [prune, roots_prune])
  · simp [prune, Workspace.prune]
  · simp [prune]

theorem sure_inferTypes_prune {w : Workspace} (h : Able (Render.inferTypes w)) :
    Sure (Render.inferTypes (w.prune off)) := by
  have hable : Able (Inference.inferAll w) := by
    obtain ⟨draft, hrest⟩ := h.right
    obtain ⟨_, hrest⟩ := hrest.right
    obtain ⟨result, hresult⟩ := hrest.left.known
    exact ⟨draft.types, result, _, yields_of_fst_run_eq hresult⟩
  refine Sure.get.bind fun draft => ?_
  obtain ⟨result, types, hyields⟩ := Inference.sure_inferAll_prune hable off draft.types
  rw [show StateT.run (ExceptT.run (Inference.inferAll (w.prune off))) draft.types =
    (.ok result, types) from hyields]
  exact (Sure.modify _).bind fun _ => (Sure.liftM ⟨result, rfl⟩).bind fun _ => .modify _

/-- What can be rendered at all can be rendered without the blocks that are off. -/
theorem sure_program_prune {registration : Registration} (h : Able (setting.program registration))
    (off : String → Bool) : Sure ((setting.prune off).program registration) := by
  have hroots := parallelRoots_prune setting off
  obtain ⟨_, hrest⟩ := h.right
  refine (Sure.modify _).bind fun _ => ?_
  rw [show (setting.prune off).target = setting.target from rfl]
  split
  · rename_i htarget
    rw [htarget] at hrest
    exact (Script.parallel_program hroots).succeeds.sure hrest
  · rename_i htarget
    rw [htarget] at hrest
    obtain ⟨_, hclass⟩ := hrest.right
    refine (sure_inferTypes_prune hrest.left).bind fun _ => ?_
    refine (Compiled.parallel_program hroots registration ?_ ?_).succeeds.sure hclass
    · exact fun _ _ _ _ h => absurd h yields_throw
    · exact .of_sure fun _ => Render.sure_withContext _

end Setting

end RobotBlocks
