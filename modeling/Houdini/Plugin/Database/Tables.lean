import Houdini.Data.AutoTable
import Houdini.Plugin.Documents.Collected

/-! The tables that the compiler keeps documents in. What is selected stands in its own table, and
references say where in which document. -/

set_option autoImplicit false

namespace Houdini.Plugin

structure StoredDocument where
  name : String
  kind : DocumentKind
  typeCondition : Option String := none
  isInternal : Bool := false
  deriving DecidableEq

structure DocumentState where
  currentTask : Option String := none
  processed : Option Bool := some false

/-- Whether a document is to be compiled. Without a task all of them are. -/
def DocumentState.isPending (task : Option String) (state : DocumentState) : Bool :=
  (task.isNone || state.currentTask = task) && state.processed ≠ some true

/-- A selection. The type of a field is the one that it belongs to, with its name; the reference and
the arguments of a fragment are noted where its arguments were expanded. -/
structure StoredSelection where
  fieldName : String
  kind : SelectionKind
  aliased : Option String := none
  type : Option String := none
  fragmentRef : Option String := none
  fragmentArgs : List String := []
  deriving DecidableEq

structure SelectionRef where
  parent : Option Nat
  child : Nat
  pathIndex : Nat := 0
  document : Nat
  isInternal : Bool := false
  deriving DecidableEq

structure SelectionArgument where
  selection : Nat
  document : Nat
  name : String
  value : Nat
  deriving DecidableEq

structure StoredDirective where
  owner : Nat
  directive : String
  deriving DecidableEq

structure SelectionDirectiveArgument where
  parent : Nat
  name : String
  value : Nat
  document : Nat
  deriving DecidableEq

structure StoredArgument where
  parent : Nat
  name : String
  value : Nat
  deriving DecidableEq

structure StoredValue where
  kind : ValueKind
  raw : String
  document : Nat
  deriving DecidableEq

/-- What stands in a list or an object. Items of lists have no names. -/
structure StoredValueChild where
  name : Option String
  parent : Nat
  value : Nat
  document : Nat
  deriving DecidableEq

structure StoredVariable where
  document : Nat
  name : String
  type : String
  typeModifiers : String
  defaultValue : Option Nat
  deriving DecidableEq

structure Tables where
  documents : AutoTable StoredDocument := .empty
  selections : AutoTable StoredSelection := .empty
  selectionRefs : AutoTable SelectionRef := .empty
  selectionArguments : AutoTable SelectionArgument := .empty
  selectionDirectives : AutoTable StoredDirective := .empty
  selectionDirectiveArguments : AutoTable SelectionDirectiveArgument := .empty
  argumentValues : AutoTable StoredValue := .empty
  argumentValueChildren : AutoTable StoredValueChild := .empty
  documentVariables : AutoTable StoredVariable := .empty
  variableDirectives : AutoTable StoredDirective := .empty
  variableDirectiveArguments : AutoTable StoredArgument := .empty
  documentDirectives : AutoTable StoredDirective := .empty
  documentDirectiveArguments : AutoTable StoredArgument := .empty

end Houdini.Plugin
