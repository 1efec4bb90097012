import RobotBlocks.ClassType
import RobotBlocks.NameTable

/-!
# What a run collects

While it renders, a run collects the imports and the declarations that the finished program needs,
and hands out identifiers. Imports form a set that is listed in order; the classes of `java.lang` and
of the program's own package are left out. Of several declarations with one key the first counts.
-/

set_option autoImplicit false

namespace RobotBlocks

inductive DeclarationKey where
  | field (identifier : String)
  /-- The first assignment to the field with an identifier. -/
  | assignment (identifier : String)
  deriving DecidableEq, Repr

structure Collected where
  imports : List String
  fields : List String
  assignments : List String
  deriving DecidableEq, Repr

structure Context where
  /-- The package of the program, whose classes need no import. -/
  ownPackage : Option String := none
  imports : Dict Unit := {}
  declarations : List (DeclarationKey × String) := []
  names : NameTable := {}

namespace Context

/-- The package of a class name: all before its last dot. -/
def package? (className : String) : Option String :=
  if '.' ∈ className.toList then
    some (String.ofList ((className.toList.reverse.dropWhile (· ≠ '.')).drop 1).reverse)
  else none

def importsFrom (context : Context) (package : String) : Bool :=
  package ≠ "java.lang" && context.ownPackage ≠ some package

/-- Registers an import. The first result is the class if it is new and needs an import. -/
def registerImport (context : Context) (className : String) : Option String × Context :=
  match package? className with
  | none => (none, context)
  | some package =>
    if context.importsFrom package && !context.imports.contains className then
      (some className, { context with imports := context.imports.insert className () })
    else (none, context)

/-- Registers what a class type needs, be it an array or an inner class. -/
def importClassType (context : Context) (classType : String) : Option String × Context :=
  match ClassType.importTarget classType with
  | some className => context.registerImport className
  | none => (none, context)

/-- Registers the known class with a simple name, or the outer class of an inner one; no such class,
no result. -/
def importKnown (context : Context) (simple : String) : Option (Option String × Context) :=
  let outer := String.ofList (simple.toList.takeWhile (· ≠ '.'))
  (knownClass? outer).map context.registerImport

/-- Adds a declaration unless its key has one. The first result tells whether it was added. -/
def registerDeclaration (context : Context) (key : DeclarationKey) (text : String) :
    Bool × Context :=
  if context.declarations.any (fun entry => entry.1 = key) then (false, context)
  else (true, { context with declarations := context.declarations ++ [(key, text)] })

def identifierFor (context : Context) (space : Namespace) (name : String) : String × Context :=
  let (identifier, names) := context.names.identifierFor space name
  (identifier, { context with names })

def distinctName (context : Context) (base : String) : String × Context :=
  let (identifier, names) := context.names.distinctName base
  (identifier, { context with names })

def fieldText? : DeclarationKey × String → Option String
  | (.field _, text) => some text
  | (.assignment _, _) => none

def assignmentText? : DeclarationKey × String → Option String
  | (.field _, _) => none
  | (.assignment _, text) => some text

/-- What was collected: imports in order, declarations as they came. -/
def collected (context : Context) : Collected :=
  { imports := context.imports.keys
    fields := context.declarations.filterMap fieldText?
    assignments := context.declarations.filterMap assignmentText? }

/-- Hands over what was collected. Nothing is left of the context, its package included. -/
def flush (context : Context) : Collected × Context := (context.collected, {})

end Context

end RobotBlocks
