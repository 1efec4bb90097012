import RobotBlocks.Proofs.Context.Words
import RobotBlocks.Proofs.Yields

/-!
# Steps of a run and identifiers

A step of a run may ask for identifiers, and what it gives may contain them. `Draws types action
result` says that the step ends well from every draft with the given static types, that it keeps
them, and that it takes back no identifier; what it gives is described relative to any naming of the
variables that agrees with the identifiers at the end. A naming that agrees with the identifiers at
the end of a run agrees with those at the end of every step of it, so what the steps give fits
together (`Draws.bind`).
-/

set_option autoImplicit false

namespace RobotBlocks

open NameTable

/-- A naming of the variables gives each the identifier that it has in a table. -/
def NameTable.NamedBy (table : NameTable) (naming : String → String) : Prop :=
  ∀ name identifier, table.assigned? .variableNames name = some identifier →
    naming name = identifier

theorem NameTable.NamedBy.of_extends {after before : NameTable} {naming : String → String}
    (h : after.NamedBy naming) (hextends : after.Extends before) : before.NamedBy naming :=
  fun name identifier hname => h name identifier (hextends _ name identifier hname)

/-- A draft with given static types, in which the identifiers of variables are words. -/
structure Draft.Ready (types : TypeTable) (draft : Draft) : Prop where
  types_eq : draft.types = types
  words : draft.context.names.VariablesAreWords

variable {α β γ : Type} {types : TypeTable}

/-- A step ends well and keeps the types and the identifiers, and what it gives fits every naming
that agrees with the identifiers at the end. -/
def Draws (types : TypeTable) (action : Render α) (result : (String → String) → α → Prop) :
    Prop :=
  ∀ draft : Draft, draft.Ready types → ∃ a after, Yields action draft a after ∧
    after.Ready types ∧ after.context.names.Extends draft.context.names ∧
    ∀ naming, after.context.names.NamedBy naming → result naming a

namespace Draws

variable {result : (String → String) → α → Prop} {action : Render α}

theorem pure {a : α} (h : ∀ naming, result naming a) : Draws types (pure a) result := by
  intro draft hready
  exact ⟨a, draft, yields_pure.2 ⟨rfl, rfl⟩, hready, extends_refl _, fun naming _ => h naming⟩

variable {result : (String → String) → α → Prop}

theorem mono {result' : (String → String) → α → Prop} (h : Draws types action result)
    (himp : ∀ naming a, result naming a → result' naming a) : Draws types action result' := by
  intro draft hready
  obtain ⟨a, after, hyields, hafter, hextends, hresult⟩ := h draft hready
  exact ⟨a, after, hyields, hafter, hextends, fun naming hnamed => himp _ _ (hresult naming hnamed)⟩

variable {next : α → Render β} {result' : (String → String) → β → Prop}

/-- The second step may rely on what the first one gave, under one naming for both. -/
theorem bind (h : Draws types action result)
    (hnext : ∀ a, Draws types (next a) fun naming b => result naming a → result' naming b) :
    Draws types (action >>= next) result' := by
  intro draft hready
  obtain ⟨a, middle, hyields, hmiddle, hextends, hresult⟩ := h draft hready
  obtain ⟨b, after, hyields', hafter, hextends', hresult'⟩ := hnext a middle hmiddle
  refine ⟨b, after, yields_bind.2 ⟨a, middle, hyields, hyields'⟩, hafter,
    hextends'.trans hextends, fun naming hnamed => ?_⟩
  exact hresult' naming hnamed (hresult naming (hnamed.of_extends hextends'))

theorem bind_pure {make : α → β} (h : Draws types action result)
    (himp : ∀ naming a, result naming a → result' naming (make a)) :
    Draws types (action >>= fun a => Pure.pure (make a)) result' :=
  h.bind fun a => pure fun naming => himp naming a

variable {answer : Except Fault α}

theorem liftM_bind {a : α} {result : (String → String) → β → Prop} (h : answer = .ok a)
    (hnext : Draws types (next a) result) : Draws types (liftM answer >>= next) result := by
  intro draft hready
  obtain ⟨b, after, hyields, hafter⟩ := hnext draft hready
  exact ⟨b, after, yields_bind.2 ⟨a, draft, yields_liftM.2 ⟨h, rfl⟩, hyields⟩, hafter⟩

theorem liftM {a : α} (h : answer = .ok a) (hresult : ∀ naming, result naming a) :
    Draws types (liftM answer) result := by
  intro draft hready
  exact ⟨a, draft, yields_liftM.2 ⟨h, rfl⟩, hready, extends_refl _, fun naming _ => hresult naming⟩

theorem get_bind {next : Draft → Render β} {result : (String → String) → β → Prop}
    (hnext : ∀ draft : Draft, draft.types = types → Draws types (next draft) result) :
    Draws types (get >>= next) result := by
  intro draft hready
  obtain ⟨b, after, hyields, hafter⟩ := hnext draft hready.types_eq draft hready
  exact ⟨b, after, yields_bind.2 ⟨draft, draft, yields_get.2 ⟨rfl, rfl⟩, hyields⟩, hafter⟩

theorem modify {change : Draft → Draft} {result : (String → String) → Unit → Prop}
    (htypes : ∀ draft, (change draft).types = draft.types)
    (hnames : ∀ draft, (change draft).context.names = draft.context.names)
    (hresult : ∀ naming, result naming ()) : Draws types (modify change) result := by
  intro draft hready
  refine ⟨(), change draft, yields_modify.2 rfl, ⟨(htypes draft).trans hready.types_eq, ?_⟩, ?_,
    fun naming _ => hresult naming⟩
  · rw [hnames]
    exact hready.words
  · rw [hnames]
    exact extends_refl _

/-- A step ends well whatever was asked of the context before, and some naming fits what it gives. -/
theorem exists_yields {action : Render α} {draft : Draft} {package : Option String}
    {operations : List Context.Operation} (h : Draws draft.types action result)
    (hdraft : draft.context = Context.after { ownPackage := package } operations) :
    ∃ a after, Yields action draft a after ∧ ∃ naming, result naming a := by
  have hwords : draft.context.names.VariablesAreWords :=
    hdraft ▸ Context.variablesAreWords_run package operations
  obtain ⟨a, after, hyields, -, -, hresult⟩ := h draft ⟨rfl, hwords⟩
  refine ⟨a, after, hyields, fun name => (after.context.names.assigned? .variableNames name).getD "", ?_⟩
  exact hresult _ fun name identifier hassigned => by simp [hassigned]

end Draws

namespace Render

theorem draws_record (event : Event) : Draws types (record event) fun _ _ => True :=
  .modify (fun _ => rfl) (fun _ => rfl) fun _ => trivial

/-- The identifier of a variable is a word that is not reserved, and the name that a naming gives
the variable. -/
theorem draws_variableIdentifier (name : String) :
    Draws types (variableIdentifier name) fun naming identifier =>
      Grammar.IsWord identifier.toList ∧ Identifier.isReserved identifier = false ∧
        naming name = identifier := by
  intro draft hready
  obtain ⟨hextends, hassigned⟩ :=
    identifierFor_spec draft.context.names .variableNames name
  have hwords := variablesAreWords_identifierFor hready.words .variableNames name
  refine ⟨_, _, yields_modifyGet.2 rfl, ⟨hready.types_eq, hwords⟩, hextends, ?_⟩
  intro naming hnamed
  obtain ⟨hword, hreserved⟩ := hwords name _ hassigned
  exact ⟨hword, hreserved, hnamed name _ hassigned⟩

theorem draws_recordImport (added : Option String) :
    Draws types (recordImport added) fun _ _ => True := by
  cases added with
  | none => exact .pure fun _ => trivial
  | some className => exact draws_record _

theorem draws_importKnown {simple : String}
    (h : (knownClass? (Context.outerName simple)).isSome = true) :
    Draws types (importKnown simple) fun _ _ => True := by
  obtain ⟨className, hclass⟩ := Option.isSome_iff_exists.1 h
  rw [importKnown_eq, hclass]
  have hadds : Draws types (withContext (·.registerImport className)) fun _ _ => True := by
    intro draft hready
    have hnames := Context.names_registerImport draft.context className
    exact ⟨_, { draft with context := (draft.context.registerImport className).2 },
      yields_modifyGet.2 rfl, ⟨hready.types_eq, by rw [hnames]; exact hready.words⟩,
      by rw [hnames]; exact extends_refl _, fun _ _ => trivial⟩
  exact hadds.bind fun added => (draws_recordImport added).mono fun _ _ _ _ => trivial

end Render

end RobotBlocks
