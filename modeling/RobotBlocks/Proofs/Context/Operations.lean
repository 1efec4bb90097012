import RobotBlocks.Render.Basic

/-!
# Runs of context operations

While a program is rendered, its context is asked for identifiers and helper names and told about
imports and declarations, in an order that the program decides. An `Operation` is one such request,
and `Context.run` does a whole sequence of them and keeps the answers.

The table of identifiers changes by requests for identifiers and helper names only
(`names_apply_of_not_naming`).
-/

set_option autoImplicit false

namespace RobotBlocks.Context

/-- What may be asked of a context. -/
inductive Operation where
  | identifierFor (space : Namespace) (name : String)
  | distinctName (base : String)
  | registerImport (className : String)
  | importClassType (classType : String)
  | importKnown (simple : String)
  | registerDeclaration (key : DeclarationKey) (text : String)
  deriving DecidableEq, Repr

namespace Operation

/-- Whether an operation asks for an identifier or a helper name. -/
def isNaming : Operation → Bool
  | identifierFor .. | distinctName .. => true
  | _ => false

/-- Does an operation. The first result is the identifier that it hands out, if it hands one out; an
unknown class to import leaves the context as it is. -/
def apply : Operation → Context → Option String × Context
  | identifierFor space name, context =>
    let (identifier, context) := context.identifierFor space name
    (some identifier, context)
  | distinctName base, context =>
    let (identifier, context) := context.distinctName base
    (some identifier, context)
  | registerImport className, context => (none, (context.registerImport className).2)
  | importClassType classType, context => (none, (context.importClassType classType).2)
  | importKnown simple, context => (none, ((context.importKnown simple).map Prod.snd).getD context)
  | registerDeclaration key text, context => (none, (context.registerDeclaration key text).2)

end Operation

/-- Does operations one after the other. The first result lists them with the identifiers that they
handed out. -/
def run (context : Context) : List Operation → List (Operation × Option String) × Context
  | [] => ([], context)
  | operation :: rest =>
    let (answer, next) := operation.apply context
    let (answers, last) := next.run rest
    ((operation, answer) :: answers, last)

def after (context : Context) (operations : List Operation) : Context := (context.run operations).2

theorem names_registerImport (context : Context) (className : String) :
    (context.registerImport className).2.names = context.names := by
  unfold registerImport
  split
  · rfl
  · split <;> rfl

theorem names_importClassType (context : Context) (classType : String) :
    (context.importClassType classType).2.names = context.names := by
  unfold importClassType
  split
  · exact names_registerImport context _
  · rfl

/-- The name before the first dot. -/
def outerName (simple : String) : String := String.ofList (simple.toList.takeWhile (· ≠ '.'))

theorem importKnown_eq (context : Context) (simple : String) :
    context.importKnown simple = (knownClass? (outerName simple)).map context.registerImport := rfl

theorem names_registerDeclaration (context : Context) (key : DeclarationKey) (text : String) :
    (context.registerDeclaration key text).2.names = context.names := by
  unfold registerDeclaration
  split <;> rfl

/-- An operation that asks for no name gets no answer and leaves the table of identifiers alone. -/
theorem names_apply_of_not_naming {operation : Operation} (h : operation.isNaming = false)
    (context : Context) :
    (operation.apply context).1 = none ∧ (operation.apply context).2.names = context.names := by
  cases operation with
  | identifierFor space name | distinctName base => simp [Operation.isNaming] at h
  | registerImport className => exact ⟨rfl, names_registerImport context className⟩
  | importClassType classType => exact ⟨rfl, names_importClassType context classType⟩
  | importKnown simple =>
    refine ⟨rfl, ?_⟩
    simp only [Operation.apply, importKnown_eq]
    cases knownClass? (outerName simple) with
    | none => rfl
    | some className => exact names_registerImport context className
  | registerDeclaration key text => exact ⟨rfl, names_registerDeclaration context key text⟩

/-- What requests for identifiers and helper names keep holds after all operations. -/
theorem names_after {P : NameTable → Prop}
    (hidentifier : ∀ table space name, P table → P (table.identifierFor space name).2)
    (hhelper : ∀ table base, P table → P (table.distinctName base).2) (operations : List Operation)
    {context : Context} (h : P context.names) : P (context.after operations).names := by
  induction operations generalizing context with
  | nil => exact h
  | cons operation rest ih =>
    refine @ih (operation.apply context).2 ?_
    cases hnaming : operation.isNaming with
    | false => exact (names_apply_of_not_naming hnaming context).2 ▸ h
    | true =>
      cases operation with
      | identifierFor space name => exact hidentifier _ space name h
      | distinctName base => exact hhelper _ base h
      | _ => simp [Operation.isNaming] at hnaming

theorem map_fst_run (context : Context) (operations : List Operation) :
    (context.run operations).1.map Prod.fst = operations := by
  induction operations generalizing context with
  | nil => rfl
  | cons operation rest ih => simp only [run, List.map_cons, ih]

theorem isSome_answer_of_isNaming (context : Context) (operations : List Operation) :
    ∀ entry ∈ (context.run operations).1, entry.1.isNaming = true → entry.2.isSome = true := by
  induction operations generalizing context with
  | nil => simp [run]
  | cons operation rest ih =>
    intro entry hentry hnaming
    rcases List.mem_cons.1 hentry with rfl | hentry
    · cases operation with
      | identifierFor space name | distinctName base => rfl
      | _ => simp [Operation.isNaming] at hnaming
    · exact ih _ entry hentry hnaming

end RobotBlocks.Context

/-- A known class is imported like any other one, an unknown one is a fault before anything happens. -/
theorem RobotBlocks.Render.importKnown_eq (simple : String) :
    importKnown simple = match knownClass? (Context.outerName simple) with
      | some className => withContext (·.registerImport className) >>= recordImport
      | none => throw (.noKnownClass simple) := by
  unfold importKnown
  simp only [Context.importKnown_eq]
  cases knownClass? (Context.outerName simple) with
  | none | some className => rfl
