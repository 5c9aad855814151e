import Houdini.Runtime.Cache.Layer

/-! Custom scalars are sent to the API in their marshaled form. -/

set_option autoImplicit false

namespace Houdini.Runtime

abbrev ScalarFunction := GraphQLValue → Except JSError GraphQLValue

structure CustomScalar where
  marshal : Option ScalarFunction := none
  unmarshal : Option ScalarFunction := none

abbrev Scalars := List (String × CustomScalar)

def Scalars.marshal? (scalars : Scalars) (type : String) : Option ScalarFunction :=
  (scalars.lookup type).bind CustomScalar.marshal

def isScalar (scalars : Scalars) (type : String) : Bool :=
  (["String", "Boolean", "Float", "ID", "Int"] ++ scalars.map Prod.fst).contains type

structure InputObject where
  fields : List (String × String)
  types : List (String × List (String × String)) := []
  runtimeScalars : List (String × String) := []

/-- What happens to the value of a field. -/
inductive InputTreatment where
  | keep
  | scalar (marshalFn : ScalarFunction)
  | nested (type : String)

def marshalLeaf (marshalFn : ScalarFunction) : GraphQLValue → Except JSError GraphQLValue
  | .array items => .array <$> items.mapM marshalFn
  | value => marshalFn value

section Inputs

variable (scalars : Scalars) (input : InputObject)

def inputFields : Option String → Option (List (String × String))
  | none => some input.fields
  | some rootType => input.types.lookup rootType

def inputTreatment (rootType : Option String) (fieldName : String) : InputTreatment :=
  match (inputFields input rootType).bind (List.lookup fieldName) with
  | none => .keep
  | some type =>
      match scalars.marshal? type with
      | some marshalFn => .scalar marshalFn
      | none =>
          if isScalar scalars type || (input.types.lookup type).isNone then .keep
          else .nested type

mutual

def marshalInput (rootType : Option String) : GraphQLValue → Except JSError GraphQLValue
  | .undefined => .ok .undefined
  | .null => .ok .null
  | .array items => .array <$> marshalInputItems rootType items
  | .object fields => .object <$> marshalInputFields rootType fields
  -- the entries of a string are its characters, and no field is named by a number
  | .string text => .ok (.object (text.toList.zipIdx.map fun (character, index) =>
      (toString index, .string (String.singleton character))))
  | .boolean _ | .number _ | .component .. => .ok (.object [])

def marshalInputItems (rootType : Option String) :
    List GraphQLValue → Except JSError (List GraphQLValue)
  | [] => .ok []
  | item :: rest => do
      let marshaled ← marshalInput rootType item
      return marshaled :: (← marshalInputItems rootType rest)

def marshalInputFields (rootType : Option String) :
    GraphQLObject → Except JSError GraphQLObject
  | [] => .ok []
  | (fieldName, value) :: rest => do
      let marshaled ←
        match inputTreatment scalars input rootType fieldName with
        | .keep => .ok value
        | .scalar marshalFn => marshalLeaf marshalFn value
        | .nested type => marshalInput (some type) value
      return (fieldName, marshaled) :: (← marshalInputFields rootType rest)

end

def marshalInputField (rootType : Option String) (fieldName : String) (value : GraphQLValue) :
    Except JSError GraphQLValue :=
  match inputTreatment scalars input rootType fieldName with
  | .keep => .ok value
  | .scalar marshalFn => marshalLeaf marshalFn value
  | .nested type => marshalInput scalars input (some type) value

theorem marshalInputFields_cons (rootType : Option String) (fieldName : String)
    (value : GraphQLValue) (rest : GraphQLObject) :
    marshalInputFields scalars input rootType ((fieldName, value) :: rest) =
      (do
        let marshaled ← marshalInputField scalars input rootType fieldName value
        return (fieldName, marshaled) :: (← marshalInputFields scalars input rootType rest)) := by
  rw [marshalInputFields, marshalInputField]
  cases inputTreatment scalars input rootType fieldName <;> rfl

theorem marshalInputFields_spec {rootType : Option String} {fields marshaled : GraphQLObject}
    (done : marshalInputFields scalars input rootType fields = .ok marshaled) :
    marshaled.map Prod.fst = fields.map Prod.fst ∧
      ∀ name, (marshaled.lookup name).map Except.ok =
        (fields.lookup name).map (marshalInputField scalars input rootType name) := by
  induction fields generalizing marshaled with
  | nil =>
      obtain rfl : [] = marshaled := Except.ok.inj done
      exact ⟨rfl, fun _ => rfl⟩
  | cons entry rest ih =>
      obtain ⟨fieldName, value⟩ := entry
      rw [marshalInputFields_cons] at done
      cases first : marshalInputField scalars input rootType fieldName value with
      | error error => simp [first, bind, Except.bind] at done
      | ok head =>
          cases later : marshalInputFields scalars input rootType rest with
          | error error => simp [first, later, bind, Except.bind] at done
          | ok tail =>
              obtain rfl : (fieldName, head) :: tail = marshaled := by
                simpa [first, later, bind, Except.bind, pure, Except.pure] using done
              obtain ⟨names, values⟩ := ih later
              refine ⟨by simp [names], fun name => ?_⟩
              rw [List.lookup_cons, List.lookup_cons]
              cases same : name == fieldName with
              | true =>
                  obtain rfl := eq_of_beq same
                  exact congrArg some first.symm
              | false => exact values name

end Inputs

def marshalInputs (scalars : Scalars) (input : Option InputObject) (value : GraphQLValue) :
    Except JSError GraphQLValue :=
  match input with
  | none => .ok value
  | some input => marshalInput scalars input none value

def marshalVariable (scalars : Scalars) (input : Option InputObject) (name : String)
    (value : GraphQLValue) : Except JSError GraphQLValue :=
  match input with
  | none => .ok value
  | some input => marshalInputField scalars input none name value

theorem marshalInputs_object {scalars : Scalars} {input : Option InputObject}
    {fields : GraphQLObject} {value : GraphQLValue}
    (done : marshalInputs scalars input (.object fields) = .ok value) :
    ∃ marshaled, value = .object marshaled ∧ marshaled.map Prod.fst = fields.map Prod.fst ∧
      ∀ name, (marshaled.lookup name).map Except.ok =
        (fields.lookup name).map (marshalVariable scalars input name) := by
  cases input with
  | none =>
      obtain rfl : .object fields = value := Except.ok.inj done
      exact ⟨fields, rfl, rfl, fun _ => rfl⟩
  | some input =>
      rw [marshalInputs, marshalInput] at done
      cases each : marshalInputFields scalars input none fields with
      | error error =>
          rw [each] at done
          cases done
      | ok marshaled =>
          rw [each] at done
          obtain rfl : .object marshaled = value := Except.ok.inj done
          exact ⟨marshaled, rfl, marshalInputFields_spec scalars input each⟩

end Houdini.Runtime
