import Mathlib.Data.List.Forall2
import RobotBlocks.Proofs.Context.Operations
import RobotBlocks.Proofs.Yields

/-!
# Runs that go in parallel

Rendering one block does a few things to the draft and otherwise asks for what stands in the sockets
and slots of the block. `Parallel exact inner R x y` says that two runs `x` and `y` do so in the same
way: they take the same steps in the same order, what they ask for is related by `inner`, and their
results are related by `R`. If `exact` holds, the two are also at the same draft all the time, but for
what has been recorded, which no step reads; if not, nothing is said about the drafts, and what comes
out of a draft need not be the same in both.

A property of runs that every single step has, and that goes from steps to runs, holds of all runs in
parallel to something (`Parallel.rec`). How blocks are rendered is looked at only once, to see that
it runs in parallel for any two renderers that agree about sockets and slots.
-/

set_option autoImplicit false

namespace RobotBlocks

open List

/-- The fault is about links between blocks: one that leads nowhere or in a circle. -/
def Fault.isAboutLinks : Fault → Bool
  | unknownBlock _ | chainLoops _ | nestedTooDeep _ => true
  | _ => false

/-- The fault can be one of a single block: it is neither about links nor about the name of the
class. -/
def Fault.isOwn : Fault → Bool
  | badClassName _ => false
  | fault => !fault.isAboutLinks

/-- Two results agree as far as results have to. -/
def Agree (exact : Prop) {α : Type} (a b : α) : Prop := exact → a = b

namespace Agree

variable {exact : Prop} {α β : Type}

theorem refl (a : α) : Agree exact a a := fun _ => rfl

theorem map {a b : α} (h : Agree exact a b) (f : α → β) : Agree exact (f a) (f b) :=
  fun hexact => congrArg f (h hexact)

end Agree

/-- Two drafts differ at most in the events. -/
structure Draft.SameWork (draft draft' : Draft) : Prop where
  context_eq : draft.context = draft'.context
  types_eq : draft.types = draft'.types

theorem Draft.SameWork.refl (draft : Draft) : draft.SameWork draft := ⟨rfl, rfl⟩

/-- Relations between runs, over relations between their results. -/
abbrev Relator : Type 1 := (α : Type) → (α → α → Prop) → Render α → Render α → Prop

/-- Two runs go in parallel. -/
inductive Parallel (exact : Prop) (inner : Relator) :
    {α : Type} → (α → α → Prop) → Render α → Render α → Prop
  /-- What stands in sockets and slots. -/
  | inner {α : Type} {R : α → α → Prop} {x y : Render α} :
      inner α R x y → Parallel exact inner R x y
  | pure {α : Type} {R : α → α → Prop} {a b : α} :
      R a b → Parallel exact inner R (pure a) (pure b)
  | bind {α β : Type} {R : α → α → Prop} {S : β → β → Prop} {x y : Render α}
      {f g : α → Render β} :
      Parallel exact inner R x y → (∀ a b, R a b → Parallel exact inner S (f a) (g b)) →
      Parallel exact inner S (x >>= f) (y >>= g)
  | weaken {α : Type} {R S : α → α → Prop} {x y : Render α} :
      Parallel exact inner R x y → (∀ a b, R a b → S a b) → Parallel exact inner S x y
  | throw {α : Type} {R : α → α → Prop} (fault : Fault) :
      fault.isOwn = true → Parallel exact inner R (throw fault) (throw fault)
  | get : Parallel exact inner (fun draft draft' => exact → draft.SameWork draft') get get
  | record {event event' : Event} : Agree exact event event' →
      Parallel exact inner (Agree exact) (Render.record event) (Render.record event')
  | identifierFor {space space' : Namespace} {name name' : String} :
      Agree exact space space' → Agree exact name name' →
      Parallel exact inner (Agree exact) (Render.identifierFor space name)
        (Render.identifierFor space' name')
  | distinctName (base : String) :
      Parallel exact inner (Agree exact) (Render.distinctName base) (Render.distinctName base)
  | importClassType {classType classType' : String} : Agree exact classType classType' →
      Parallel exact inner (Agree exact) (Render.importClassType classType)
        (Render.importClassType classType')
  | importKnown (simple : String) :
      Parallel exact inner (Agree exact) (Render.importKnown simple) (Render.importKnown simple)
  | importIfKnown {type type' : String} : Agree exact type type' →
      Parallel exact inner (Agree exact) (Render.importIfKnown type) (Render.importIfKnown type')
  | declare {key key' : DeclarationKey} {text text' : String} :
      Agree exact key key' → Agree exact text text' →
      Parallel exact inner (Agree exact) (Render.declare key text) (Render.declare key' text')

/-- Two runs go in parallel, and their results agree. -/
abbrev InStep (exact : Prop) (inner : Relator) {α : Type} (x y : Render α) : Prop :=
  Parallel exact inner (Agree exact) x y

/-- An answer about one block ends with faults of single blocks only. -/
def Own {α : Type} (answer : Except Fault α) : Prop :=
  ∀ fault, answer = .error fault → fault.isOwn = true

namespace Parallel

variable {exact : Prop} {inner : Relator}
variable {α β : Type}

theorem bind_pure {x y : Render α} (h : InStep exact inner x y) (f : α → β) :
    InStep exact inner (x >>= fun a => Pure.pure (f a))
      (y >>= fun a => Pure.pure (f a)) :=
  h.bind fun _ _ hab => pure (hab.map f)

variable {S : β → β → Prop}

theorem andThen {x y : Render α} {f g : Render β} (h : InStep exact inner x y)
    (h' : Parallel exact inner S f g) :
    Parallel exact inner S (x >>= fun _ => f) (y >>= fun _ => g) :=
  h.bind fun _ _ _ => h'

variable {answer : Except Fault α}

theorem liftM (hown : Own answer) :
    Parallel exact inner Eq (liftM answer : Render α) (liftM answer) := by
  cases answer with
  | error fault => exact throw fault (hown fault rfl)
  | ok a => exact pure rfl

variable {f g : α → Render β}

theorem liftM_bind (hown : Own answer) (h : ∀ a, Parallel exact inner S (f a) (g a)) :
    Parallel exact inner S (MonadLiftT.monadLift answer >>= f) (MonadLiftT.monadLift answer >>= g) := by
  refine (liftM hown).bind ?_
  rintro a _ rfl
  exact h a

theorem mapM_forall₂ {items items' : List α}
    (h : List.Forall₂ (fun a b => InStep exact inner (f a) (g b)) items items') :
    InStep exact inner (items.mapM f) (items'.mapM g) := by
  induction h with
  | nil => exact pure (.refl _)
  | cons hitem _ ih =>
    rw [mapM_cons, mapM_cons]
    refine hitem.bind fun a b hab => ?_
    refine ih.bind fun as bs habs => ?_
    exact pure fun hexact => by rw [hab hexact, habs hexact]

theorem mapM (items : List α) (h : ∀ item ∈ items, InStep exact inner (f item) (g item)) :
    InStep exact inner (items.mapM f) (items.mapM g) :=
  mapM_forall₂ (forall₂_same.2 h)

theorem foldlM {R : β → β → Prop} {f g : β → α → Render β} {items items' : List α}
    (h : List.Forall₂ (fun item item' => ∀ a b, R a b →
      Parallel exact inner R (f a item) (g b item')) items items') {a b : β} (hab : R a b) :
    Parallel exact inner R (items.foldlM f a) (items'.foldlM g b) := by
  induction h generalizing a b with
  | nil => exact pure hab
  | cons hitem _ ih =>
    rw [foldlM_cons, foldlM_cons]
    exact (hitem a b hab).bind fun c d hcd => ih hcd

end Parallel

end RobotBlocks
