import Houdini.Data.Worklist
import Houdini.Plugin.Documents.Print
import Houdini.Plugin.FragmentArguments.CloneNames
import Mathlib.Data.List.Dedup

/-! Which variables a request declares, and which ones it uses. An operation is sent with every
fragment that can be reached from it. -/

set_option autoImplicit false

namespace Houdini.Plugin

def Documents.referencedFragments (docs : Documents) (name : String) : List String :=
  match docs.selections.get? name with
  | some document => document.referencedFragments
  | none => []

def Documents.references (docs : Documents) (start : String) : Graph String where
  next := docs.referencedFragments
  nodes := start :: docs.selections.values.flatMap (·.referencedFragments)
  next_subset := by
    intro name reference member
    unfold Documents.referencedFragments at member
    cases found : docs.selections.get? name with
    | none => simp [found] at member
    | some document =>
        rw [found] at member
        have entry := OrderedMap.mem_entries_iff.mpr found
        exact List.mem_cons_of_mem _ (List.mem_flatMap.mpr
          ⟨document, List.mem_map.mpr ⟨_, entry, rfl⟩, member⟩)

def walkReferencedDocs (docs : Documents) (start : String) : List String :=
  (Walk.start (docs.references start) start List.mem_cons_self).finish

theorem mem_walkReferencedDocs_iff (docs : Documents) (start name : String) :
    name ∈ walkReferencedDocs docs start ↔
      Relation.ReflTransGen (fun document reference =>
        reference ∈ docs.referencedFragments document) start name :=
  Walk.mem_finish_start_iff List.mem_cons_self

mutual

def ArgumentValue.references : ArgumentValue → List String
  | .mk kind raw children =>
      match kind with
      | .variable => [raw]
      | .object | .list => childReferences children
      | _ => []

def childReferences : List (String × ArgumentValue) → List String
  | [] => []
  | (_, value) :: rest => value.references ++ childReferences rest

end

/-- The variables nested in the values of a scope. Those at its root are copied with it. -/
def WithSpread.descendantVarNames (spread : WithSpread) : List String :=
  spread.fragmentScope.values.flatMap fun value => childReferences value.children

/-- What is noted for a spread. The values are only searched when the fragment gets cloned. -/
def WithSpread.usedVars (spread : WithSpread) (hasExisting : Bool) : List String :=
  (spread.withArgs.filter fun arg => arg.2.kind = .variable).map (·.2.raw) ++
    if hasExisting then [] else spread.descendantVarNames

section References

variable (includeHidden : Bool)

mutual

def Directive.references : Directive → List String
  | .mk _ _ arguments => argumentReferences arguments

def directiveReferences : List Directive → List String
  | [] => []
  | directive :: rest =>
      (if directive.isInternal && !includeHidden then [] else directive.references) ++
        directiveReferences rest

def Argument.references : Argument → List String
  | .mk _ value directives =>
      (match value with
        | none => []
        | some value => value.references) ++ directiveReferences directives

def argumentReferences : List Argument → List String
  | [] => []
  | argument :: rest => argument.references ++ argumentReferences rest

end

mutual

def Selection.references : Selection → List String
  | .mk kind _ _ _ arguments directives children =>
      (if kind = .field then argumentReferences includeHidden arguments else []) ++
        directiveReferences includeHidden directives ++ selectionReferences children

def selectionReferences : List Selection → List String
  | [] => []
  | selection :: rest =>
      (if selection.isHidden then [] else selection.references) ++ selectionReferences rest

end

mutual

def Selection.passedArgs : Selection → List String
  | .mk kind _ _ fragmentArgs _ _ children =>
      (if kind = .fragment then fragmentArgs else []) ++ passedArgs children

def passedArgs : List Selection → List String
  | [] => []
  | selection :: rest =>
      (if selection.isHidden then [] else selection.passedArgs) ++ passedArgs rest

end

def OperationVariable.references (declared : OperationVariable) : List String :=
  (match declared.defaultValue with
    | none => []
    | some value => value.references) ++ directiveReferences includeHidden declared.directives

def Document.references (document : Document) : List String :=
  directiveReferences includeHidden document.directives ++
    selectionReferences includeHidden document.selections

def definitionReferences : List OperationVariable → List String
  | [] => []
  | declared :: rest => declared.references includeHidden ++ definitionReferences rest

end References

def Notes {Printed : Type} (printer : PrintM Printed) (names : List String) : Prop :=
  ∀ used name, name ∈ (printer.run used).2 ↔ name ∈ used ∨ name ∈ names

namespace Notes

variable {Printed Other : Type}

theorem pure (printed : Printed) : Notes (pure printed) [] := by
  intro used name
  exact ⟨Or.inl, fun either => either.resolve_right List.not_mem_nil⟩

theorem use (variableName : String) : Notes (useVariable variableName) [variableName] := by
  intro used name
  exact List.mem_append

theorem bind {printer : PrintM Printed} {next : Printed → PrintM Other}
    {names others : List String} (first : Notes printer names)
    (second : ∀ printed, Notes (next printed) others) :
    Notes (printer >>= next) (names ++ others) := by
  intro used name
  have split := second (printer.run used).1 (printer.run used).2 name
  rw [first used name] at split
  rw [List.mem_append, ← or_assoc]
  exact split

theorem andThen {printer : PrintM Printed} {next : Printed → Other} {names : List String}
    (first : Notes printer names) : Notes (printer >>= fun printed => Pure.pure (next printed))
      names := by
  have both := first.bind fun printed => Notes.pure (next printed)
  rwa [List.append_nil] at both

theorem forM (names : List String) : Notes (names.forM useVariable) names := by
  induction names with
  | nil => exact Notes.pure _
  | cons name rest ih => exact (Notes.use name).bind fun _ => ih

theorem congr {printer : PrintM Printed} {names others : List String}
    (notes : Notes printer names) (same : ∀ name, name ∈ names ↔ name ∈ others) :
    Notes printer others := by
  intro used name
  rw [notes used name, same name]

end Notes

variable (isPrint : Char → Bool) (includeHidden : Bool)

mutual

theorem stringifyValue_notes : (value : ArgumentValue) →
    Notes (stringifyValue isPrint value) value.references
  | .mk kind raw children => by
      have fields := stringifyFields_notes children
      have values := stringifyValues_notes children
      cases kind with
      | «variable» => exact (Notes.use raw).andThen
      | object => exact fields.andThen
      | list => exact values.andThen
      | _ => exact Notes.pure _

theorem stringifyFields_notes : (children : List (String × ArgumentValue)) →
    Notes (stringifyFields isPrint children) (childReferences children)
  | [] => Notes.pure _
  | (_, value) :: rest =>
      (stringifyValue_notes value).bind fun _ => (stringifyFields_notes rest).andThen

theorem stringifyValues_notes : (children : List (String × ArgumentValue)) →
    Notes (stringifyValues isPrint children) (childReferences children)
  | [] => Notes.pure _
  | (_, value) :: rest =>
      (stringifyValue_notes value).bind fun _ => (stringifyValues_notes rest).andThen

end

mutual

theorem printValue_notes : (value : ArgumentValue) →
    Notes (printValue isPrint value) value.references
  | .mk kind raw children => by
      have fields := printFields_notes children
      have values := printValues_notes children
      cases kind with
      | enum => exact Notes.pure _
      | object => exact fields.andThen
      | list => exact values.andThen
      | _ => exact stringifyValue_notes isPrint (.mk _ raw children)

theorem printFields_notes : (children : List (String × ArgumentValue)) →
    Notes (printFields isPrint children) (childReferences children)
  | [] => Notes.pure _
  | (_, value) :: rest =>
      (printValue_notes value).bind fun _ => (printFields_notes rest).andThen

theorem printValues_notes : (children : List (String × ArgumentValue)) →
    Notes (printValues isPrint children) (childReferences children)
  | [] => Notes.pure _
  | (_, value) :: rest =>
      (printValue_notes value).bind fun _ => (printValues_notes rest).andThen

end

mutual

theorem printDirective_notes : (directive : Directive) →
    Notes (printDirective isPrint includeHidden directive) (directive.references includeHidden)
  | .mk _ _ arguments => (printEachArgument_notes arguments).andThen

theorem printEachDirective_notes : (directives : List Directive) →
    Notes (printEachDirective isPrint includeHidden directives)
      (directiveReferences includeHidden directives)
  | [] => Notes.pure _
  | directive :: rest => by
      have first := printDirective_notes directive
      have others := printEachDirective_notes rest
      unfold printEachDirective directiveReferences
      split
      · exact others
      · exact first.bind fun _ => others.andThen

theorem printArgument_notes : (argument : Argument) →
    Notes (printArgument isPrint includeHidden argument) (argument.references includeHidden)
  | .mk name value directives => by
      have own := printEachDirective_notes directives
      have first : Notes (printValue? isPrint value)
          (match value with
            | none => []
            | some value => value.references) := by
        cases value with
        | none => exact Notes.pure _
        | some value => exact printValue_notes isPrint value
      exact first.bind fun _ => own.andThen

theorem printEachArgument_notes : (arguments : List Argument) →
    Notes (printEachArgument isPrint includeHidden arguments)
      (argumentReferences includeHidden arguments)
  | [] => Notes.pure _
  | argument :: rest =>
      (printArgument_notes argument).bind fun _ => (printEachArgument_notes rest).andThen

end

theorem printDirectives_notes (directives : List Directive) :
    Notes (printDirectives isPrint includeHidden directives)
      (directiveReferences includeHidden directives) :=
  (printEachDirective_notes isPrint includeHidden directives).andThen

theorem printSelectionArguments_notes (arguments : List Argument) :
    Notes (printSelectionArguments isPrint includeHidden arguments)
      (argumentReferences includeHidden arguments) := by
  unfold printSelectionArguments
  split
  · next empty =>
      rw [List.isEmpty_iff.mp empty]
      exact Notes.pure _
  · exact (printEachArgument_notes isPrint includeHidden arguments).andThen

theorem printSelectionStart_notes (kind : SelectionKind) (fieldName : String)
    (aliased : Option String) (fragmentArgs : List String) (arguments : List Argument) :
    Notes (printSelectionStart isPrint includeHidden kind fieldName aliased fragmentArgs arguments)
      ((if kind = .field then argumentReferences includeHidden arguments else []) ++
        (if kind = .fragment then fragmentArgs else [])) := by
  cases kind with
  | field =>
      refine (printSelectionArguments_notes isPrint includeHidden arguments).andThen.congr ?_
      simp
  | inlineFragment => exact Notes.pure _
  | fragment => exact (Notes.forM fragmentArgs).andThen

mutual

theorem printSelection_notes (level : Nat) : (selection : Selection) →
    Notes (printSelection isPrint includeHidden level selection)
      (selection.references includeHidden ++ selection.passedArgs)
  | .mk kind fieldName aliased fragmentArgs arguments directives children => by
      have start := printSelectionStart_notes isPrint includeHidden kind fieldName aliased
        fragmentArgs arguments
      have own := printDirectives_notes isPrint includeHidden directives
      have below := printSelections_notes (level + 1) children
      unfold printSelection Selection.references Selection.passedArgs
      refine (start.bind fun _ => own.bind fun _ => below.andThen).congr fun name => ?_
      simp only [List.mem_append]
      tauto

theorem printSelections_notes (level : Nat) : (selections : List Selection) →
    Notes (printSelections isPrint includeHidden level selections)
      (selectionReferences includeHidden selections ++ passedArgs selections)
  | [] => Notes.pure _
  | selection :: rest => by
      have first := printSelection_notes level selection
      have others := printSelections_notes level rest
      unfold printSelections selectionReferences passedArgs
      split
      · exact others
      · refine (first.bind fun _ => others.andThen).congr fun name => ?_
        simp only [List.mem_append]
        tauto

end

theorem printDocumentVariables_notes (declared : OperationVariable) :
    Notes (printDocumentVariables isPrint includeHidden declared)
      (declared.references includeHidden) := by
  have own := printDirectives_notes isPrint includeHidden declared.directives
  have first : Notes (printDefaultValue isPrint declared.defaultValue)
      (match declared.defaultValue with
        | none => []
        | some value => value.references) := by
    cases declared.defaultValue with
    | none => exact Notes.pure _
    | some value => exact (printValue_notes isPrint value).andThen
  exact first.bind fun _ => own.andThen

theorem printEachVariable_notes (declared : List OperationVariable) :
    Notes (printEachVariable isPrint includeHidden declared)
      (definitionReferences includeHidden declared) := by
  induction declared with
  | nil => exact Notes.pure _
  | cons first rest ih =>
      exact (printDocumentVariables_notes isPrint includeHidden first).bind fun _ => ih.andThen

theorem printEachVariable_isSome (declared : List OperationVariable) (used : List String)
    (name : String) :
    (((printEachVariable isPrint includeHidden declared).run used).1.get? name).isSome ↔
      name ∈ declared.map (·.name) := by
  induction declared generalizing used with
  | nil => exact ⟨nofun, nofun⟩
  | cons first rest ih =>
      let own := (printDocumentVariables isPrint includeHidden first).run used
      let others := ((printEachVariable isPrint includeHidden rest).run own.2).1
      have known := ih own.2
      have printed : ((printEachVariable isPrint includeHidden (first :: rest)).run used).1 =
          if (others.get? first.name).isSome then others else others.set first.name own.1 := rfl
      rw [printed, List.map_cons, List.mem_cons]
      split
      · next again =>
          have declaredAgain : (others.get? name).isSome ↔ name ∈ rest.map (·.name) := known
          constructor
          · exact fun found => Or.inr (declaredAgain.mp found)
          · rintro (rfl | later)
            · exact again
            · exact declaredAgain.mpr later
      · rw [OrderedMap.get?_set]
        split
        · next same => exact ⟨fun _ => Or.inl same, fun _ => rfl⟩
        · next other =>
            rw [known]
            exact ⟨Or.inr, fun either => either.resolve_left other⟩

theorem mem_sortedNames (used : List String) (name : String) :
    name ∈ sortedNames used ↔ name ∈ used := by
  unfold sortedNames
  rw [List.mem_mergeSort, List.mem_dedup]

/-- The variables that are noted when an operation is printed: those of the text, those that its
spreads are noted to pass, and those in the definitions of variables. -/
def Document.notes (document : Document) : List String :=
  (document.references includeHidden ++ passedArgs document.selections) ++
    definitionReferences includeHidden document.declared

theorem mem_printed_iff (document : Document) (name : String) :
    name ∈ ((printEachVariable isPrint includeHidden document.declared).run
        ((printBody isPrint includeHidden document).run []).2).2 ↔
      name ∈ document.notes includeHidden := by
  have bodyNotes : Notes (printBody isPrint includeHidden document)
      (document.references includeHidden ++ passedArgs document.selections) := by
    refine ((printDirectives_notes isPrint includeHidden document.directives).bind fun _ =>
      (printSelections_notes isPrint includeHidden 1 document.selections).andThen).congr ?_
    intro other
    rw [Document.references, List.append_assoc]
  rw [printEachVariable_notes isPrint includeHidden document.declared _ name,
    bodyNotes [] name, Document.notes]
  simp only [List.not_mem_nil, false_or, List.mem_append]

theorem printCollectedDocument_notes {document : Document} (isOperation : document.kind ≠ .fragment)
    (name : String) :
    (name ∈ (printCollectedDocument isPrint includeHidden document).headerNames ↔
      name ∈ document.declared.map (·.name) ∧ name ∈ document.notes includeHidden) ∧
    (name ∈ (printCollectedDocument isPrint includeHidden document).unusedVariables ↔
      name ∈ document.declared.map (·.name) ∧ name ∉ document.notes includeHidden) := by
  let used := ((printBody isPrint includeHidden document).run []).2
  let printedVars := (printEachVariable isPrint includeHidden document.declared).run used
  have noted (other : String) : other ∈ printedVars.2 ↔ other ∈ document.notes includeHidden :=
    mem_printed_iff isPrint includeHidden document other
  have names : (printCollectedDocument isPrint includeHidden document).headerNames =
      (sortedNames printedVars.2).filter fun other => (printedVars.1.get? other).isSome := by
    unfold printCollectedDocument
    rw [if_neg isOperation]
  have unused : (printCollectedDocument isPrint includeHidden document).unusedVariables =
      (document.declared.map (·.name)).filter fun other => !printedVars.2.contains other := by
    unfold printCollectedDocument
    rw [if_neg isOperation]
  constructor
  · rw [names, List.mem_filter, mem_sortedNames, noted, printEachVariable_isSome]
    exact and_comm
  · rw [unused, List.mem_filter]
    simp [noted]

/-- The text that is sent uses the variable: in what is printed of the operation, in the definitions
of its header, or in what is printed of a fragment that it leads to. -/
def Documents.Sends (docs : Documents) (operation : Document) (header : List String)
    (name : String) : Prop :=
  name ∈ operation.references includeHidden ∨
    (∃ declared ∈ operation.declared, declared.name ∈ header ∧
      name ∈ declared.references includeHidden) ∨
    ∃ reference ∈ walkReferencedDocs docs operation.name, ∃ fragment,
      docs.selections.get? reference = some fragment ∧ fragment.kind = .fragment ∧
        name ∈ fragment.references includeHidden

/-- The header defines the declared variables that the text uses, and the request is stripped of the
other ones. -/
def Documents.DeclaresSent (docs : Documents) (operation : Document)
    (printed : PrintedDocument) : Prop :=
  ∀ name,
    (name ∈ printed.headerNames ↔ name ∈ operation.declared.map (·.name) ∧
      docs.Sends includeHidden operation printed.headerNames name) ∧
    (name ∈ printed.unusedVariables ↔ name ∈ operation.declared.map (·.name) ∧
      ¬ docs.Sends includeHidden operation printed.headerNames name)

/-- A definition in the header or a fragment that is sent uses the variable. -/
def Documents.UsedElsewhere (docs : Documents) (operation : Document) (name : String) : Prop :=
  (∃ declared ∈ operation.declared, declared.name ∈ operation.notes includeHidden ∧
      name ∈ declared.references includeHidden) ∨
    ∃ reference ∈ walkReferencedDocs docs operation.name, ∃ fragment,
      docs.selections.get? reference = some fragment ∧ fragment.kind = .fragment ∧
        name ∈ fragment.references includeHidden

theorem mem_definitionReferences_iff (declared : List OperationVariable) (name : String) :
    name ∈ definitionReferences includeHidden declared ↔
      ∃ definition ∈ declared, name ∈ definition.references includeHidden := by
  induction declared with
  | nil => exact ⟨nofun, nofun⟩
  | cons first rest ih => simp [definitionReferences, ih]

theorem sends_iff (docs : Documents) {operation : Document}
    (isOperation : operation.kind ≠ .fragment) (name : String) :
    docs.Sends includeHidden operation
        (printCollectedDocument isPrint includeHidden operation).headerNames name ↔
      name ∈ operation.references includeHidden ∨
        docs.UsedElsewhere includeHidden operation name := by
  have header (definition : OperationVariable) (isDeclared : definition ∈ operation.declared) :
      definition.name ∈ (printCollectedDocument isPrint includeHidden operation).headerNames ↔
        definition.name ∈ operation.notes includeHidden := by
    rw [(printCollectedDocument_notes isPrint includeHidden isOperation _).1]
    exact and_iff_right (List.mem_map.mpr ⟨definition, isDeclared, rfl⟩)
  refine or_congr_right (or_congr_left ?_)
  exact exists_congr fun definition => and_congr_right fun isDeclared =>
    and_congr_left' (header definition isDeclared)

def usersFound : WithSpread where
  fragment := { name := "Users", docArgs := [("filter", none)] }
  withArgs := [("filter", .object [("age", .leaf .variable "age")])]

def usersFoundDocument : Document where
  name := usersFound.newFragmentName
  kind := .fragment
  typeCondition := "Query"
  selections := [.mk .field "users" none []
    [.mk "filter" (some (.object [("age", .leaf .variable "age")])) []] []
    [.mk .field "name" none [] [] [] []]]

def findUsers (name : String) (hasExisting : Bool) : Document where
  name := name
  kind := .query
  declared := [{ name := "age", type := "Int" }]
  selections := [.mk .fragment usersFound.newFragmentName none (usersFound.usedVars hasExisting) []
    [.mk "with" true
      [.mk "filter" (some (.object [("age", .leaf .variable "age")])) []]] []]
  referencedFragments := [usersFound.newFragmentName]

def findUsersDocuments : Documents where
  selections := .ofList [("First", findUsers "First" false), ("Second", findUsers "Second" true),
    (usersFound.newFragmentName, usersFoundDocument)]

theorem findUsers_usedElsewhere {name : String} {hasExisting : Bool}
    (found : findUsersDocuments.selections.get? name = some (findUsers name hasExisting)) :
    findUsersDocuments.UsedElsewhere false (findUsers name hasExisting) "age" := by
  have clone : findUsersDocuments.selections.get? usersFound.newFragmentName =
      some usersFoundDocument := OrderedMap.get?_set_self _ _ _
  have walked : usersFound.newFragmentName ∈ walkReferencedDocs findUsersDocuments name := by
    refine (mem_walkReferencedDocs_iff _ _ _).mpr (Relation.ReflTransGen.single ?_)
    unfold Documents.referencedFragments
    rw [found]
    exact List.mem_cons_self
  exact Or.inr ⟨_, walked, usersFoundDocument, clone, rfl, List.mem_cons_self⟩

theorem findUsers_first :
    findUsersDocuments.selections.get? "First" = some (findUsers "First" false) :=
  (OrderedMap.get?_set_of_ne _ _ (by decide +kernel)).trans rfl

theorem findUsers_second :
    findUsersDocuments.selections.get? "Second" = some (findUsers "Second" true) :=
  (OrderedMap.get?_set_of_ne _ _ (by decide +kernel)).trans rfl

end Houdini.Plugin
