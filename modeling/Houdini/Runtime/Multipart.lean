import Houdini.Data.LabelledTree

/-! Bodies of requests whose variables hold files. The form handler and the client's fetch plugin
each have their own way to find the files. -/

set_option autoImplicit false

namespace Houdini.Runtime.Multipart

universe u

abbrev Text := List Char

inductive Scalar where
  | null
  | boolean (value : Bool)
  | number (text : Text)
  | string (text : Text)
  deriving DecidableEq, Repr

inductive Value (File : Type u) where
  /-- What is neither an object nor a list. `undefined` has no JSON. -/
  | primitive (json : Option Scalar)
  | file (file : File)
  /-- An object without fields of its own, such as a date. JSON has a text for some of them. -/
  | builtin (json : Option Scalar)
  | list (items : List (Value File))
  /-- An object is plain unless it has a class. -/
  | object (isPlain : Bool) (fields : List (Text × Value File))

/-- What is at the end of a path in JSON, or instead of it. -/
inductive Sent (File : Type u) where
  | scalar (value : Scalar)
  | file (file : File)

inductive NodeKind where
  | list
  | object
  deriving DecidableEq, Repr

abbrev Json (File : Type u) := LabelledTree Text NodeKind (Sent File)

def indexText (index : Nat) : Text := index.repr.toList

def dotted (path : List Text) : Text := ['.'].intercalate path

variable {File : Type u}

mutual

def render (put : List Text → File → Json File) : Value File → Option (Json File)
  | .primitive json => json.map fun scalar => .leaf (.scalar scalar)
  | .file file => some (put [] file)
  | .builtin json => some (json.elim (.node .object []) fun scalar => .leaf (.scalar scalar))
  | .list items => some (.node .list (renderItems put 0 items))
  | .object _ fields => some (.node .object (renderFields put fields))

/-- An item without JSON is `null`. -/
def renderItems (put : List Text → File → Json File) (index : Nat) :
    List (Value File) → List (Text × Json File)
  | [] => []
  | item :: rest =>
      (indexText index, (render (fun path => put (indexText index :: path)) item).getD
        (.leaf (.scalar .null))) :: renderItems put (index + 1) rest

def renderFields (put : List Text → File → Json File) :
    List (Text × Value File) → List (Text × Json File)
  | [] => []
  | (key, value) :: rest =>
      match render (fun path => put (key :: path)) value with
      | some json => (key, json) :: renderFields put rest
      | none => renderFields put rest

end

/-- `JSON.stringify`, which sees no fields of a file. -/
def stringify (value : Value File) : Option (Json File) :=
  render (fun _ _ => .node .object []) value

def described (value : Value File) : Option (Json File) :=
  render (fun _ file => .leaf (.file file)) value

abbrev FileMap (File : Type u) := List (File × List Text)

variable [DecidableEq File]

def FileMap.add (file : File) (path : Text) : FileMap File → FileMap File
  | [] => [(file, [path])]
  | (other, paths) :: rest =>
      if other = file then (other, paths ++ [path]) :: rest
      else (other, paths) :: FileMap.add file path rest

def protoKey : Text := "__proto__".toList

mutual

def extractFiles : Value File → List Text → FileMap File → Value File × FileMap File
  | .file file, path, files => (.primitive (some .null), files.add file (dotted path))
  | .list items, path, files =>
      let extracted := extractItems 0 items path files
      (.list extracted.1, extracted.2)
  | .builtin _, _, files => (.object true [], files)
  | .object _ fields, path, files =>
      let extracted := extractFields fields path files
      (.object true extracted.1, extracted.2)
  | .primitive json, _, files => (.primitive json, files)

def extractItems (index : Nat) :
    List (Value File) → List Text → FileMap File → List (Value File) × FileMap File
  | [], _, files => ([], files)
  | item :: rest, path, files =>
      let first := extractFiles item (path ++ [indexText index]) files
      let others := extractItems (index + 1) rest path first.2
      (first.1 :: others.1, others.2)

/-- To assign to `__proto__` makes no field. -/
def extractFields : List (Text × Value File) → List Text → FileMap File →
    List (Text × Value File) × FileMap File
  | [], _, files => ([], files)
  | (key, value) :: rest, path, files =>
      let first := extractFiles value (path ++ [key]) files
      let others := extractFields rest path first.2
      (if key = protoKey then others.1 else (key, first.1) :: others.1, others.2)

end

def pathPrefix (path : Text) : Text := if path = [] then [] else path ++ ['.']

mutual

def recurse : Value File → Text → FileMap File → FileMap File
  | .file file, path, files => files.add file path
  | .list items, path, files => recurseItems 0 items path files
  | .object isPlain fields, path, files =>
      if isPlain then recurseFields fields path files else files
  | .builtin _, _, files => files
  | .primitive _, _, files => files

def recurseItems (index : Nat) : List (Value File) → Text → FileMap File → FileMap File
  | [], _, files => files
  | item :: rest, path, files =>
      recurseItems (index + 1) rest path
        (recurse item (pathPrefix path ++ indexText index) files)

def recurseFields : List (Text × Value File) → Text → FileMap File → FileMap File
  | [], _, files => files
  | (key, value) :: rest, path, files =>
      recurseFields rest path (recurse value (pathPrefix path ++ key) files)

end

inductive Body (File : Type u) where
  | json (body : Option (Json File))
  | form (operations : Option (Json File)) (map : List (Text × List Text))
      (parts : List (Text × File))

def Body.isForm : Body File → Bool
  | .json _ => false
  | .form _ _ _ => true

def formOf (operations : Option (Json File)) (files : FileMap File) : Body File :=
  .form operations (files.zipIdx.map fun entry => (indexText (entry.2 + 1), entry.1.2))
    (files.zipIdx.map fun entry => (indexText (entry.2 + 1), entry.1.1))

def variablesKey : Text := "variables".toList

def operation (others : List (Text × Text)) (vars : Value File) : Value File :=
  .object true ((others.map fun other => (other.1, .primitive (some (.string other.2)))) ++
    [(variablesKey, vars)])

def buildGraphQLBody (query : Text) (vars : Value File) : Body File :=
  let others := [("query".toList, query)]
  let extracted := extractFiles vars [variablesKey] []
  if extracted.2 = [] then .json (stringify (operation others vars))
  else formOf (stringify (operation others extracted.1)) extracted.2

def fetchBody (name text : Text) (vars : Value File) : Body File :=
  let others := [("operationName".toList, name), ("query".toList, text)]
  let body := stringify (operation others vars)
  let files := recurse (.object true [(variablesKey, vars)]) [] []
  if files = [] then .json body else formOf body files

/-- A receiver puts the file of a part at each of the paths that the map has for it. -/
def resolve (parts : List (Text × File)) (operations : Json File) (entry : Text × List Text) :
    Option (Json File) := do
  let file ← parts.lookup entry.1
  entry.2.foldlM (fun tree path => tree.replace? (.file file) (path.splitOn '.')) operations

def Body.received : Body File → Option (Json File)
  | .json body => body.bind (LabelledTree.at? [variablesKey])
  | .form operations map parts => do
      let tree ← operations
      let resolved ← map.foldlM (resolve parts) tree
      resolved.at? [variablesKey]

end Houdini.Runtime.Multipart
