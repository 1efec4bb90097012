import RobotBlocks.Proofs.Render.Moves

/-!
# Requests to a run

A run is asked for values, statements or the whole program, for the static types, and for the
operations of its context, one request after the other. A request that fails leaves a draft as well,
and the next one goes on from there. A class that was rendered to its end has handed over what the run
had collected, and the run starts anew; until then every request goes on from the one before
(`Setting.continues_serve`). Whatever was asked, the context is one that operations have gathered from
nothing (`Setting.context_draftAfter`).
-/

set_option autoImplicit false

namespace RobotBlocks

theorem Context.after_append (context : Context) (front back : List Operation) :
    context.after (front ++ back) = (context.after front).after back := by
  induction front generalizing context with
  | nil => rfl
  | cons operation rest ih => exact ih (operation.apply context).2

/-- The context of a draft comes from that of another one by operations. -/
def Draft.Continues (before after : Draft) : Prop :=
  ∃ operations, after.context = before.context.after operations

variable {draft : Draft}

theorem Draft.Continues.refl : draft.Continues draft := ⟨[], rfl⟩

theorem Draft.Continues.trans {first second third : Draft} (h : first.Continues second)
    (h' : second.Continues third) : first.Continues third := by
  obtain ⟨front, hfront⟩ := h
  obtain ⟨back, hback⟩ := h'
  exact ⟨front ++ back, by rw [hback, hfront, Context.after_append]⟩

theorem Draft.steady_continues : Draft.Steady Draft.Continues where
  refl _ := .refl
  trans := .trans
  record _ _ := ⟨[], rfl⟩
  operate _ operation := ⟨[operation], rfl⟩

/-- What may be asked of a run. -/
inductive Request where
  | value (block : Block)
  | statement (block : Block)
  | program (registration : Registration)
  | types
  | operation (operation : Context.Operation)

namespace Setting

/-- The draft after a request, whether that ends well or not. -/
def serve (setting : Setting) (draft : Draft) : Request → Draft
  | .value block => (step (setting.renderer.value block) draft).2
  | .statement block => (step (setting.renderer.statement block) draft).2
  | .program registration => (step (setting.program registration) draft).2
  | .types => (step (Render.inferTypes setting.workspace) draft).2
  | .operation operation => { draft with context := (operation.apply draft.context).2 }

/-- The draft after some requests to a new run. -/
def draftAfter (setting : Setting) (requests : List Request) : Draft :=
  requests.foldl setting.serve setting.firstDraft

/-- A request renders a class to its end. -/
def Finishes (setting : Setting) (draft : Draft) (request : Request) : Prop :=
  setting.target = .java ∧ ∃ registration text last, request = .program registration ∧
    Yields (setting.program registration) draft text last

/-- No request renders a class to its end. -/
def Unfinished (setting : Setting) : Draft → List Request → Prop
  | _, [] => True
  | draft, request :: rest =>
    ¬ setting.Finishes draft request ∧ setting.Unfinished (setting.serve draft request) rest

variable {setting : Setting}

/-- A request that does not end the run goes on from its draft. -/
theorem continues_serve {request : Request} (h : ¬ setting.Finishes draft request) :
    draft.Continues (setting.serve draft request) := by
  have hsteady := Draft.steady_continues
  obtain ⟨hvalue, hstatement⟩ := hsteady.moves_rendererWithin setting setting.workspace.size
  have htypes : ∀ draft types, Draft.Continues draft { draft with types } :=
    fun draft types => ⟨[], rfl⟩
  cases request with
  | value block => exact hvalue block draft
  | statement block => exact hstatement block draft
  | program registration =>
    cases htarget : setting.target with
    | javaScript => exact hsteady.moves_script htarget registration draft
    | java =>
      show draft.Continues (step (setting.program registration) draft).2
      rcases yields_or_fails (setting.program registration) draft with
        ⟨text, last, hyields⟩ | ⟨fault, last, hfails⟩
      · exact absurd ⟨htarget, registration, text, last, rfl, hyields⟩ h
      · rw [show step (setting.program registration) draft = _ from hfails]
        exact hsteady.of_fails_program htypes htarget hfails
  | types => exact hsteady.inferTypes htypes setting.workspace draft
  | operation operation => exact hsteady.operate draft operation

/-- Nothing is left in the context of a class that was rendered to its end. -/
theorem context_serve_of_finishes {request : Request} (h : setting.Finishes draft request) :
    (setting.serve draft request).context = {} := by
  obtain ⟨htarget, registration, text, last, rfl, hyields⟩ := h
  obtain ⟨parts, full, -, -, rfl⟩ := exists_completes htarget hyields
  show (step (setting.program registration) draft).2.context = {}
  rw [show step (setting.program registration) draft = _ from hyields]
  rfl

theorem continues_of_unfinished {requests : List Request} (h : setting.Unfinished draft requests) :
    draft.Continues (requests.foldl setting.serve draft) := by
  induction requests generalizing draft with
  | nil => exact .refl
  | cons request rest ih => exact (continues_serve h.1).trans (ih h.2)

/-- A run comes to a draft: after some requests, or while it renders a class, right before it hands over
what it has collected. -/
def ComesTo (setting : Setting) (draft : Draft) : Prop :=
  ∃ requests, setting.Unfinished setting.firstDraft requests ∧
    (draft = setting.draftAfter requests ∨
      ∃ registration parts, setting.Completes registration (setting.draftAfter requests) parts draft)

/-- Whatever a run comes to goes on from its first draft. -/
theorem ComesTo.continues (h : setting.ComesTo draft) : setting.firstDraft.Continues draft := by
  obtain ⟨requests, hunfinished, rfl | ⟨registration, parts, hcompletes⟩⟩ := h
  · exact continues_of_unfinished hunfinished
  · exact (continues_of_unfinished hunfinished).trans
      (Draft.steady_continues.of_completes (fun _ _ => ⟨[], rfl⟩) hcompletes)

/-- The identifiers that come first are asked for one after the other, and nothing is declared. -/
theorem exists_firstContext_eq (setting : Setting) :
    ∃ operations, setting.firstContext = Context.gathered setting.ownPackage operations ∧
      operations.filterMap Context.Operation.declaration? = [] := by
  have hnamed : ∀ {α : Type} (request : α → Namespace × String) (items : List α) {context : Context},
      (∃ operations, context = Context.gathered setting.ownPackage operations ∧
        operations.filterMap Context.Operation.declaration? = []) →
      ∃ operations, items.foldl (fun context item =>
        (context.identifierFor (request item).1 (request item).2).2) context =
          Context.gathered setting.ownPackage operations ∧
        operations.filterMap Context.Operation.declaration? = [] := by
    intro α request items
    induction items with
    | nil => exact fun h => h
    | cons item rest ih =>
      rintro context ⟨operations, rfl, hquiet⟩
      refine ih ⟨operations ++ [.identifierFor (request item).1 (request item).2], ?_, ?_⟩
      · unfold Context.gathered
        rw [Context.after_append]
        rfl
      · rw [List.filterMap_append, hquiet]
        rfl
  refine hnamed (fun name => (.variableNames, name)) setting.workspace.variableNames ?_
  exact hnamed (fun device : Device => (.deviceNames device.kind.className, device.name)) _
    ⟨[], rfl, rfl⟩

/-- A context that goes on from the first one is one that operations gather from nothing. -/
theorem gathered_of_continues (setting : Setting) (h : setting.firstDraft.Continues draft) :
    ∃ operations, draft.context = Context.gathered setting.ownPackage operations := by
  obtain ⟨front, hfront, -⟩ := setting.exists_firstContext_eq
  obtain ⟨back, hback⟩ := h
  refine ⟨front ++ back, ?_⟩
  rw [hback, show setting.firstDraft.context = setting.firstContext from rfl, hfront]
  exact (Context.after_append _ front back).symm

/-- Whatever was asked, the context is one that operations gather from nothing. -/
theorem context_draftAfter (setting : Setting) (requests : List Request) :
    ∃ own operations, (setting.draftAfter requests).context = Context.gathered own operations := by
  have hrun : ∀ (requests : List Request) (draft : Draft),
      (∃ own operations, draft.context = Context.gathered own operations) →
      ∃ own operations, (requests.foldl setting.serve draft).context =
        Context.gathered own operations := by
    intro requests
    induction requests with
    | nil => exact fun _ h => h
    | cons request rest ih =>
      rintro draft ⟨own, front, hfront⟩
      refine ih _ ?_
      by_cases hfinishes : setting.Finishes draft request
      · exact ⟨none, [], context_serve_of_finishes hfinishes⟩
      · obtain ⟨back, hback⟩ := continues_serve hfinishes
        refine ⟨own, front ++ back, ?_⟩
        rw [hback, hfront]
        exact (Context.after_append _ front back).symm
  obtain ⟨operations, hfirst, -⟩ := setting.exists_firstContext_eq
  exact hrun requests setting.firstDraft ⟨_, operations, hfirst⟩

end Setting

end RobotBlocks
