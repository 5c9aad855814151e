import Mathlib.Algebra.Order.Ring.Nat
import Mathlib.Data.List.Basic

/-! What an artifact records about the places in a response. One path builder goes along with the
walk over the selection of a document. -/

set_option autoImplicit false

namespace Houdini.Plugin.Artifacts

structure FieldDirective where
  name : String
  arguments : List (String × String) := []
  deriving DecidableEq, Repr

structure ListInfo where
  connection : Bool
  paginated : Bool
  supportsForward : Bool
  supportsBackward : Bool
  pageSize : Int
  mode : String
  targetType : String
  embedded : Bool
  deriving DecidableEq, Repr

mutual

inductive Field where
  | mk (aliasName fieldType : String) (list : Option ListInfo) (directives : List FieldDirective)
      (children : List Selection)
  deriving Repr

/-- A selection. What a fragment selects is beside its spread. -/
inductive Selection where
  | field (field : Field)
  | fragment (fieldName : String)
  | inlineFragment (fieldName : String) (children : List Selection)
  deriving Repr

end

namespace Field

def aliasName : Field → String
  | mk aliasName _ _ _ _ => aliasName

def fieldType : Field → String
  | mk _ fieldType _ _ _ => fieldType

def list : Field → Option ListInfo
  | mk _ _ list _ _ => list

def directives : Field → List FieldDirective
  | mk _ _ _ directives _ => directives

def children : Field → List Selection
  | mk _ _ _ _ children => children

end Field

structure PathBuilder where
  path : List String
  deriving DecidableEq, Repr

namespace PathBuilder

def push (builder : PathBuilder) (field : String) : PathBuilder := ⟨builder.path ++ [field]⟩

def pop (builder : PathBuilder) : PathBuilder := ⟨builder.path.dropLast⟩

def fieldPath (builder : PathBuilder) (field : Field) : List String :=
  if builder.path.getLast? = some field.aliasName then builder.path
  else builder.path ++ [field.aliasName]

end PathBuilder

inductive RefetchMethod where
  | cursor
  | offset
  deriving DecidableEq, Repr

inductive Direction where
  | forward
  | backward
  | both
  deriving DecidableEq, Repr

structure RefetchSpec where
  path : List String
  method : RefetchMethod
  pageSize : Int
  embedded : Bool
  targetType : String
  paginated : Bool
  direction : Option Direction
  mode : String
  deriving DecidableEq, Repr

structure RootOperation where
  action : String
  type : String
  path : List String
  deriving DecidableEq, Repr

structure ArtifactFlags where
  refetch : Option RefetchSpec := none
  rootOperations : List RootOperation := []
  deriving DecidableEq, Repr

def directionOf (list : ListInfo) : Option Direction :=
  if list.supportsForward && list.supportsBackward then some .both
  else if list.supportsBackward then some .backward
  else if list.supportsForward then some .forward
  else none

def refetchSpec (list : ListInfo) (path : List String) : RefetchSpec where
  path := path
  method := if list.connection then .cursor else .offset
  pageSize := list.pageSize
  embedded := list.embedded
  targetType := list.targetType
  paginated := list.paginated
  direction := directionOf list
  mode := list.mode

def Field.isRefetched (field : Field) : Bool :=
  field.directives.any fun directive => directive.name = "refetch"

def ArtifactFlags.record (flags : ArtifactFlags) (field : Field) (path : List String) :
    ArtifactFlags where
  rootOperations :=
    if field.isRefetched then flags.rootOperations ++ [⟨"refetch", field.fieldType, path⟩]
    else flags.rootOperations
  refetch :=
    match field.list with
    | some list =>
        if flags.refetch.isNone || list.paginated then some (refetchSpec list path)
        else flags.refetch
    | none => flags.refetch

def atoi (text : String) : Option Int :=
  let digits (chars : List Char) : Option Nat :=
    if chars ≠ [] && chars.all Char.isDigit then
      some (chars.foldl (fun value char => value * 10 + (char.toNat - '0'.toNat)) 0)
    else none
  match text.toList with
  | '-' :: rest => (digits rest).bind fun value =>
      if value ≤ 2 ^ 63 then some (-value : Int) else none
  | '+' :: rest => (digits rest).bind fun value =>
      if value < 2 ^ 63 then some (value : Int) else none
  | chars => (digits chars).bind fun value =>
      if value < 2 ^ 63 then some (value : Int) else none

/-- The walk does not go below a field that counts its loading values by something else than a
number. -/
def Field.isUncounted (field : Field) : Bool :=
  field.directives.any fun directive => directive.name = "loading" &&
    directive.arguments.any fun argument => argument.1 = "count" && (atoi argument.2).isNone

structure Walk where
  pathBuilder : PathBuilder
  flags : ArtifactFlags := {}
  deriving DecidableEq, Repr

namespace Walk

def push (walk : Walk) (field : String) : Walk :=
  { walk with pathBuilder := walk.pathBuilder.push field }

def pop (walk : Walk) : Walk := { walk with pathBuilder := walk.pathBuilder.pop }

def record (walk : Walk) (field : Field) : Walk :=
  { walk with flags := walk.flags.record field (walk.pathBuilder.fieldPath field) }

end Walk

mutual

def stringifySelection : List Selection → Walk → Walk
  | [], walk => walk
  | .field field :: rest, walk =>
      stringifySelection rest (stringifyFieldSelection field (walk.push field.aliasName)).pop
  | .fragment _ :: rest, walk => stringifySelection rest walk
  | .inlineFragment _ children :: rest, walk =>
      stringifySelection rest (stringifyInlineFragment children walk)

def stringifyInlineFragment : List Selection → Walk → Walk
  | [], walk => walk
  | .field field :: rest, walk =>
      stringifyInlineFragment rest (stringifyFieldSelection field walk)
  | .fragment _ :: rest, walk => stringifyInlineFragment rest walk
  | .inlineFragment _ _ :: rest, walk => stringifyInlineFragment rest walk

def stringifyFieldSelection : Field → Walk → Walk
  | .mk aliasName fieldType list directives children, walk =>
      let field := Field.mk aliasName fieldType list directives children
      if field.isUncounted then walk.record field
      else stringifySelection children (walk.record field)

end

def paginationQuerySuffix : String := "_Pagination_Query"

def isPaginationQuery (name : String) : Bool :=
  paginationQuerySuffix.toList.isSuffixOf name.toList

/-- A document as its artifact is generated. A query that was generated for the pages of a fragment
may have to find the fragment by a field of its own. -/
structure Document where
  name : String
  selections : List Selection
  findsFragment : Bool := false
  generated : findsFragment = true → isPaginationQuery name = true

namespace Document

def flags (document : Document) : ArtifactFlags :=
  (stringifySelection document.selections ⟨⟨[]⟩, {}⟩).flags

/-- The path that is printed for `refetch`. The first entry of a pagination query's is the field
that finds its fragment. -/
def refetchPath (document : Document) : Option (List String) :=
  document.flags.refetch.map fun spec =>
    if isPaginationQuery document.name then spec.path.drop 1 else spec.path

def operationPaths (document : Document) : List (List String) :=
  document.flags.rootOperations.map RootOperation.path

end Document

end Houdini.Plugin.Artifacts
