import RobotBlocks.Proofs.Render.Targets

/-!
# Renderers that do the same

Two runs that go in parallel and start at the same draft do the same (`Parallel.alike`), so two
renderers that do the same for the blocks inside a block do the same for the block itself, also if
their workspaces list their blocks in different orders. No step reads what has been recorded, so the
drafts may also differ in that (`Draft.SameWork`).
-/

set_option autoImplicit false

namespace RobotBlocks

open List

variable {α : Type} {same : Draft → Draft → Prop} {x y : Render α}

/-- Two drafts that are related stay so if a step does the same to both, and no step can tell them
apart. -/
structure Draft.Indistinct (same : Draft → Draft → Prop) : Prop where
  sameWork {draft draft' : Draft} : same draft draft' → draft.SameWork draft'
  withContext {draft draft' : Draft} (context : Context) :
    same draft draft' → same { draft with context } { draft' with context }
  record {draft draft' : Draft} (event : Event) : same draft draft' →
    same { draft with events := event :: draft.events } { draft' with events := event :: draft'.events }

theorem Draft.indistinct_eq : Draft.Indistinct Eq where
  sameWork := by
    rintro draft _ rfl
    exact .refl draft
  withContext := by
    rintro draft _ context rfl
    rfl
  record := by
    rintro draft _ event rfl
    rfl

theorem Draft.indistinct_sameWork : Draft.Indistinct Draft.SameWork where
  sameWork h := h
  withContext _ h := ⟨rfl, h.types_eq⟩
  record _ h := ⟨h.context_eq, h.types_eq⟩

/-- Two runs end alike from two drafts: well, in related drafts and with related results, or with the
same fault in related drafts. -/
abbrev AlikeFrom (same : Draft → Draft → Prop) {α : Type} (R : α → α → Prop) (x y : Render α)
    (draft draft' : Draft) : Prop :=
  (∃ a b after after', Yields x draft a after ∧ Yields y draft' b after' ∧ same after after' ∧ R a b) ∨
    ∃ fault after after', Fails x draft fault after ∧ Fails y draft' fault after' ∧ same after after'

/-- Two runs that end alike give the same answer. -/
theorem AlikeFrom.answer_eq {draft draft' : Draft}
    (h : AlikeFrom same (Agree True) x y draft draft') :
    (Setting.step x draft).1 = (Setting.step y draft').1 := by
  rcases h with ⟨a, b, after, after', hx, hy, -, hab⟩ | ⟨fault, after, after', hx, hy, -⟩
  · rw [show Setting.step x draft = _ from hx, show Setting.step y draft' = _ from hy, hab trivial]
  · rw [show Setting.step x draft = _ from hx, show Setting.step y draft' = _ from hy]

/-- Two runs end alike from any two related drafts. -/
def Alike (same : Draft → Draft → Prop) {α : Type} (R : α → α → Prop) (x y : Render α) : Prop :=
  ∀ draft draft', same draft draft' → AlikeFrom same R x y draft draft'

namespace Alike

variable {same : Draft → Draft → Prop}
variable {α β : Type} {R : α → α → Prop} {S : β → β → Prop} {x y : Render α}
variable {f g : α → Render β}

theorem pure {a b : α} (hab : R a b) : Alike same R (pure a) (pure b) :=
  fun draft draft' hsame => .inl ⟨a, b, draft, draft', yields_pure.2 ⟨rfl, rfl⟩,
    yields_pure.2 ⟨rfl, rfl⟩, hsame, hab⟩

theorem throw (fault : Fault) : Alike same R (throw fault) (throw fault) :=
  fun draft draft' hsame => .inr ⟨fault, draft, draft', fails_throw.2 ⟨rfl, rfl⟩,
    fails_throw.2 ⟨rfl, rfl⟩, hsame⟩

theorem modify {change change' : Draft → Draft}
    (h : ∀ draft draft', same draft draft' → same (change draft) (change' draft')) :
    Alike same (Agree True) (modify change : Render PUnit) (modify change') :=
  fun draft draft' hsame => .inl ⟨⟨⟩, ⟨⟩, change draft, change' draft', yields_modify.2 rfl,
    yields_modify.2 rfl, h draft draft' hsame, .refl _⟩

theorem get : Alike same same (get : Render Draft) get :=
  fun draft draft' hsame => .inl ⟨draft, draft', draft, draft', yields_get.2 ⟨rfl, rfl⟩,
    yields_get.2 ⟨rfl, rfl⟩, hsame, hsame⟩

theorem bindFrom {draft draft' : Draft} (h : AlikeFrom same R x y draft draft')
    (hnext : ∀ a b middle middle', Yields x draft a middle → Yields y draft' b middle' →
      same middle middle' → R a b → AlikeFrom same S (f a) (g b) middle middle') :
    AlikeFrom same S (x >>= f) (y >>= g) draft draft' := by
  rcases h with ⟨a, b, middle, middle', hx, hy, hmiddle, hab⟩ | ⟨fault, after, after', hx, hy, hafter⟩
  · rcases hnext a b middle middle' hx hy hmiddle hab with
      ⟨c, d, after, after', hf, hg, hafter, hcd⟩ | ⟨fault, after, after', hf, hg, hafter⟩
    · exact .inl ⟨c, d, after, after', yields_bind.2 ⟨a, middle, hx, hf⟩,
        yields_bind.2 ⟨b, middle', hy, hg⟩, hafter, hcd⟩
    · exact .inr ⟨fault, after, after', hx.fails hf, hy.fails hg, hafter⟩
  · exact .inr ⟨fault, after, after', fails_bind.2 (.inl hx), fails_bind.2 (.inl hy), hafter⟩

theorem bind (h : Alike same R x y) (hnext : ∀ a b, R a b → Alike same S (f a) (g b)) :
    Alike same S (x >>= f) (y >>= g) :=
  fun draft draft' hsame => bindFrom (h draft draft' hsame) fun a b middle middle' _ _ hmiddle hab =>
    hnext a b hab middle middle' hmiddle

theorem andThen {f g : Render β} (h : Alike same R x y) (hnext : Alike same S f g) :
    Alike same S (x >>= fun _ => f) (y >>= fun _ => g) :=
  h.bind fun _ _ _ => hnext

theorem weaken {S : α → α → Prop} (h : Alike same R x y) (himp : ∀ a b, R a b → S a b) :
    Alike same S x y := by
  intro draft draft' hsame
  rcases h draft draft' hsame with ⟨a, b, after, after', hx, hy, hafter, hab⟩ | hfails
  · exact .inl ⟨a, b, after, after', hx, hy, hafter, himp a b hab⟩
  · exact .inr hfails

theorem bind_pure (h : Alike same (Agree True) x y) (f : α → β) :
    Alike same (Agree True) (x >>= fun a => Pure.pure (f a)) (y >>= fun a => Pure.pure (f a)) :=
  h.bind fun _ _ hab => pure (hab.map f)

theorem liftM (answer : Except Fault α) :
    Alike same (Agree True) (liftM answer : Render α) (liftM answer) := by
  cases answer with
  | error fault => exact throw fault
  | ok a => exact pure (.refl a)

variable {answer : Except Fault α}

/-- Two steps after the same answer, if it is no fault. -/
theorem liftM_bind_of_ok (h : ∀ a, answer = .ok a → Alike same S (f a) (g a)) :
    Alike same S (MonadLiftT.monadLift answer >>= f) (MonadLiftT.monadLift answer >>= g) := by
  cases answer with
  | error fault => exact throw fault
  | ok a => exact h a rfl

theorem liftM_bind {answer' : Except Fault α} (heq : answer = answer')
    (h : ∀ a, Alike same S (f a) (g a)) :
    Alike same S (MonadLiftT.monadLift answer >>= f) (MonadLiftT.monadLift answer' >>= g) :=
  heq ▸ liftM_bind_of_ok fun a _ => h a

theorem mapM_forall₂ {items items' : List α}
    (h : List.Forall₂ (fun a b => Alike same (Agree True) (f a) (g b)) items items') :
    Alike same (Agree True) (items.mapM f) (items'.mapM g) := by
  induction h with
  | nil => exact pure (.refl _)
  | cons hitem _ ih =>
    rw [mapM_cons, mapM_cons]
    refine hitem.bind fun a b hab => ih.bind fun as bs habs => ?_
    exact pure fun _ => by rw [hab trivial, habs trivial]

theorem refl (x : Render α) : Alike Eq (Agree True) x x := by
  rintro draft _ rfl
  rcases yields_or_fails x draft with ⟨a, after, hx⟩ | ⟨fault, after, hx⟩
  · exact .inl ⟨a, a, after, after, hx, hx, rfl, .refl a⟩
  · exact .inr ⟨fault, after, after, hx, hx, rfl⟩

theorem eq (h : Alike Eq (Agree True) x y) : x = y := by
  funext draft
  rcases h draft draft rfl with ⟨a, b, after, _, hx, hy, rfl, hab⟩ | ⟨fault, after, _, hx, hy, rfl⟩
  · exact hx.trans (hab trivial ▸ hy.symm)
  · exact hx.trans hy.symm

end Alike

namespace Draft.Indistinct

variable {same : Draft → Draft → Prop} (hsame : Draft.Indistinct same)
include hsame

theorem alike_withContext {α : Type} (operation : Context → α × Context) :
    Alike same (Agree True) (Render.withContext operation) (Render.withContext operation) := by
  intro draft draft' hdraft
  refine .inl ⟨(operation draft.context).1, (operation draft.context).1,
    { draft with context := (operation draft.context).2 },
    { draft' with context := (operation draft.context).2 }, yields_modifyGet.2 rfl, ?_,
    hsame.withContext _ hdraft, .refl _⟩
  rw [(hsame.sameWork hdraft).context_eq]
  exact yields_modifyGet.2 rfl

theorem alike_record (event : Event) :
    Alike same (Agree True) (Render.record event) (Render.record event) :=
  .modify fun _ _ => hsame.record event

theorem alike_recordImport (added : Option String) :
    Alike same (Agree True) (Render.recordImport added) (Render.recordImport added) := by
  cases added with
  | none => exact .pure (.refl _)
  | some className => exact hsame.alike_record _

theorem alike_importKnown (simple : String) :
    Alike same (Agree True) (Render.importKnown simple) (Render.importKnown simple) := by
  rw [Render.importKnown_eq]
  cases knownClass? (Context.outerName simple) with
  | none => exact .throw _
  | some className =>
    refine (hsame.alike_withContext _).bind fun added _ hadded => ?_
    exact hadded trivial ▸ hsame.alike_recordImport added

end Draft.Indistinct

/-- Runs in parallel from indistinct drafts on do the same. -/
theorem Parallel.alike (hsame : Draft.Indistinct same) {R : α → α → Prop}
    (h : Parallel True (fun _ => Alike same) R x y) : Alike same R x y := by
  induction h with
  | inner h => exact h
  | pure hab => exact .pure hab
  | bind _ _ hx hnext => exact hx.bind hnext
  | weaken _ himp hx => exact hx.weaken himp
  | throw fault _ => exact .throw fault
  | get => exact Alike.get.weaken fun _ _ hdraft _ => hsame.sameWork hdraft
  | record h => exact h trivial ▸ hsame.alike_record _
  | identifierFor hspace hname =>
    exact hspace trivial ▸ hname trivial ▸ hsame.alike_withContext _
  | distinctName base => exact hsame.alike_withContext _
  | importClassType h =>
    refine h trivial ▸ (hsame.alike_withContext _).bind fun added _ hadded => ?_
    exact hadded trivial ▸ hsame.alike_recordImport added
  | importKnown simple => exact hsame.alike_importKnown simple
  | importIfKnown h =>
    rw [← h trivial]
    unfold Render.importIfKnown
    dsimp only
    split
    · exact hsame.alike_importKnown _
    · exact .pure (.refl _)
  | declare hkey htext =>
    refine hkey trivial ▸ htext trivial ▸ (hsame.alike_withContext _).andThen (.pure (.refl _))

theorem Parallel.runs_eq (h : Parallel True (fun _ => Alike Eq) (Agree True) x y) : x = y :=
  (h.alike Draft.indistinct_eq).eq

theorem Parallel.of_eq {exact : Prop} (h : x = y) :
    Parallel exact (fun _ => Alike Eq) (Agree exact) x y :=
  .inner (h ▸ (Alike.refl x).weaken fun _ _ hab _ => hab trivial)

/-- A value that does not fit its socket is only recorded. -/
theorem Renderer.alike_checkSocket
    (hrecord : ∀ event, Alike same (Agree True) (Render.record event) (Render.record event))
    (block : Block) (socket : String) (found : Check) :
    Alike same (Agree True) (checkSocket block socket found) (checkSocket block socket found) := by
  unfold checkSocket
  split
  · split
    · exact .pure (.refl _)
    · exact hrecord _
  · exact .pure (.refl _)

/-- What two workspaces have in a socket. An enabled block is the same in both and rendered alike. -/
structure Renderer.AlikeIn (same : Draft → Draft → Prop) (r r' : Renderer) (block : Block)
    (socket : String) (child child' : Block) : Prop where
  kind_eq : child.kind = child'.kind
  disabled_eq : child.disabled = child'.disabled
  of_enabled : child.disabled = false → child = child' ∧
    Alike same (Agree True) (r.value child) (r'.value child) ∧
    (r.setting.target = .java → ∀ expr,
      Alike same (Agree True) (r.coerce block socket child expr) (r'.coerce block socket child expr))

namespace Renderer

variable {r r' : Renderer} {block : Block} (hsame : Draft.Indistinct same)
variable (htarget : r.setting.target = r'.setting.target)

include hsame htarget

theorem AlikeIn.plugged {child child' : Block} {socket : String}
    (h : r.AlikeIn same r' block socket child child') (henabled : child.disabled = false) :
    Alike same (Agree True) (r.plugged block socket child) (r'.plugged block socket child') := by
  obtain ⟨rfl, hvalue, hcoerce⟩ := h.of_enabled henabled
  unfold Renderer.plugged
  rw [← htarget]
  cases child.shape.outputCheck? with
  | none => exact .throw _
  | some found =>
    refine (alike_checkSocket hsame.alike_record _ _ _).andThen ?_
    refine hvalue.bind fun expr expr' hexpr => ?_
    obtain rfl := hexpr trivial
    cases htarget : r.setting.target with
    | javaScript => exact .pure (.refl _)
    | java => exact hcoerce htarget expr

/-- Two renderers that do the same for what stands in the sockets and slots of a block agree about
them. -/
theorem parallelAt_of_alike (hhardware : r.setting.hardware = r'.setting.hardware)
    (hsockets : ∀ socket id, block.values.get? socket = some id →
      (r.setting.workspace.get? id = none ∧ r'.setting.workspace.get? id = none) ∨
        ∃ child child', r.setting.workspace.get? id = some child ∧
          r'.setting.workspace.get? id = some child' ∧ r.AlikeIn same r' block socket child child')
    (hslots : ∀ name start, block.statements.get? name = some start →
      Alike same (Agree True) (r.chain start) (r'.chain start))
    (hdrops : Alike same (Agree True) (r.dropsFraction block) (r'.dropsFraction block)) :
    r.ParallelAt True (fun _ => Alike same) r' block := by
  have hoperandOr : ∀ socket fallback, Alike same (Agree True) (r.operandOr block socket fallback)
      (r'.operandOr block socket fallback) := by
    intro socket fallback
    cases hsocket : block.values.get? socket with
    | none =>
      rw [operandOr_of_get?_eq_none hsocket, operandOr_of_get?_eq_none hsocket]
      exact .pure (.refl _)
    | some id =>
      rcases hsockets socket id hsocket with ⟨hget, hget'⟩ | ⟨child, child', hget, hget', halike⟩
      · rw [operandOr_of_dangling hsocket hget, operandOr_of_dangling hsocket hget']
        exact .throw _
      · rw [operandOr_of_get?_eq_some hsocket hget, operandOr_of_get?_eq_some hsocket hget',
          ← halike.disabled_eq]
        split
        · exact .pure (.refl _)
        · next henabled => exact halike.plugged hsame htarget (by simpa using henabled)
  refine ⟨htarget, hhardware, fun socket fallback => .inner (hoperandOr socket fallback),
    fun name => .inner ?_, .inner (hdrops.bind fun drops drops' hdrops => ?_), fun _ => ?_⟩
  · unfold slot
    cases hslot : block.statements.get? name with
    | none => exact .pure (.refl _)
    | some start => exact (hslots name start hslot).bind_pure _
  · obtain rfl := hdrops trivial
    unfold binary operand placeholder textLiteral
    rw [← htarget]
    split <;>
    · refine (hoperandOr "A" _).bind fun left left' hleft => ?_
      exact (hoperandOr "B" _).bind fun right right' hright =>
        .pure fun _ => by rw [hleft trivial, hright trivial]
  · unfold firstIsText
    cases hsocket : block.values.get? "ADD0" with
    | none => rfl
    | some id =>
      rcases hsockets "ADD0" id hsocket with ⟨hget, hget'⟩ | ⟨child, child', hget, hget', halike⟩
      · simp [hget, hget']
      · simp [hget, hget', halike.kind_eq, halike.disabled_eq]

end Renderer

theorem mapM_eq_of_forall₂ {α β γ : Type} {f : α → Render γ} {g : β → Render γ} {items : List α}
    {items' : List β} (h : List.Forall₂ (fun a b => f a = g b) items items') :
    items.mapM f = items'.mapM g := by
  induction h with
  | nil => rfl
  | cons hfirst _ ih => rw [mapM_cons, mapM_cons, hfirst, ih]

/-- Two settings are the same but for the order in which their workspaces list the blocks. -/
structure Setting.SameRun (setting setting' : Setting) : Prop where
  sameBlocks : setting.workspace.SameBlocks setting'.workspace
  variableNames_eq : setting.workspace.variableNames = setting'.workspace.variableNames
  hardware_eq : setting.hardware = setting'.hardware
  target_eq : setting.target = setting'.target
  options_eq : setting.options = setting'.options

theorem Setting.SameRun.refl (setting : Setting) : setting.SameRun setting :=
  ⟨.refl _, rfl, rfl, rfl, rfl⟩

namespace Renderer

variable {r r' : Renderer} {block : Block}

section

variable (hrun : r.setting.SameRun r'.setting)

include hrun

theorem coerce_eq : r.coerce = r'.coerce := by
  funext block socket child expr
  unfold coerce
  rw [hrun.sameBlocks.ofSocket_eq, hrun.sameBlocks.ofBlock_eq]

theorem chain_eq {start : String} (hstatement : ∀ child ∈ (r.setting.workspace.chain start).1,
      r.statement child = r'.statement child) : r.chain start = r'.chain start := by
  have hlinks : (r.setting.workspace.chain start).1.mapM r.link =
      (r.setting.workspace.chain start).1.mapM r'.link := by
    refine mapM_eq_of_forall₂ (forall₂_same.2 fun child hchild => ?_)
    unfold link
    rw [hstatement child hchild]
  unfold chain
  rw [← hrun.sameBlocks.chain_eq]
  dsimp only
  rw [hlinks]

theorem isIntegral_eq : r.isIntegral = r'.isIntegral := by
  funext block socket
  unfold isIntegral
  rw [hrun.sameBlocks.ofChild_eq]

/-- Two renderers that do the same for the blocks inside a block agree about its sockets and
slots. -/
theorem parallelAt (hvalue : ∀ socket id child, block.values.get? socket = some id →
      r.setting.workspace.get? id = some child → r.value child = r'.value child)
    (hstatement : ∀ slot start, block.statements.get? slot = some start →
      ∀ child ∈ (r.setting.workspace.chain start).1, r.statement child = r'.statement child) :
    r.ParallelAt True (fun _ => Alike Eq) r' block := by
  refine parallelAt_of_alike Draft.indistinct_eq hrun.target_eq hrun.hardware_eq
    (fun socket id hsocket => ?_) (fun name start hslot => ?_) ?_
  · rw [← hrun.sameBlocks]
    cases hget : r.setting.workspace.get? id with
    | none => exact .inl ⟨rfl, rfl⟩
    | some child =>
      refine .inr ⟨child, child, rfl, rfl, rfl, rfl, fun _ => ⟨rfl, ?_, fun _ expr => ?_⟩⟩
      · exact hvalue socket id child hsocket hget ▸ .refl _
      · exact coerce_eq hrun ▸ .refl _
  · exact chain_eq hrun (hstatement name start hslot) ▸ .refl _
  · unfold dropsFraction
    rw [isIntegral_eq hrun, hrun.target_eq]
    exact .refl _

end

end Renderer

end RobotBlocks
