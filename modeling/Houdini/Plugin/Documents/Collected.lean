import Houdini.Data.OrderedMap

/-! Documents as the compiler collects them from its database. -/

set_option autoImplicit false

namespace Houdini.Plugin

inductive ValueKind where
  | «variable»
  | int
  | float
  | string
  | block
  | boolean
  | null
  | enum
  | list
  | object
  deriving DecidableEq, Repr

inductive ArgumentValue where
  | mk (kind : ValueKind) (raw : String) (children : List (String × ArgumentValue))
  deriving Repr

namespace ArgumentValue

def kind : ArgumentValue → ValueKind
  | mk kind _ _ => kind

def raw : ArgumentValue → String
  | mk _ raw _ => raw

def children : ArgumentValue → List (String × ArgumentValue)
  | mk _ _ children => children

def leaf (kind : ValueKind) (raw : String) : ArgumentValue := mk kind raw []

def list (values : List ArgumentValue) : ArgumentValue :=
  mk .list "" (values.map fun value => ("", value))

def object (fields : List (String × ArgumentValue)) : ArgumentValue := mk .object "" fields

end ArgumentValue

mutual

inductive Argument where
  | mk (name : String) (value : Option ArgumentValue) (directives : List Directive)
  deriving Repr

inductive Directive where
  | mk (name : String) (isInternal : Bool) (arguments : List Argument)
  deriving Repr

end

def Directive.isInternal : Directive → Bool
  | .mk _ isInternal _ => isInternal

inductive SelectionKind where
  | field
  | inlineFragment
  | fragment
  deriving DecidableEq, Repr

/-- A selection. Its name is that of a field or a fragment, or the type that an inline fragment
is for, if it names one. -/
inductive Selection where
  | mk (kind : SelectionKind) (fieldName : String) (aliased : Option String)
      (fragmentArgs : List String) (arguments : List Argument) (directives : List Directive)
      (children : List Selection)
  deriving Repr

structure OperationVariable where
  name : String
  type : String
  typeModifiers : String := ""
  defaultValue : Option ArgumentValue := none
  directives : List Directive := []
  deriving Repr

inductive DocumentKind where
  | query
  | mutation
  | subscription
  | fragment
  deriving DecidableEq, Repr

structure Document where
  name : String
  kind : DocumentKind
  typeCondition : String := ""
  declared : List OperationVariable := []
  selections : List Selection := []
  directives : List Directive := []
  referencedFragments : List String := []
  deriving Repr

structure Documents where
  selections : OrderedMap String Document := ∅

end Houdini.Plugin
