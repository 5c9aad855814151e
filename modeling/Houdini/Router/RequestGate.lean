import Mathlib.Data.List.DropRight
import Mathlib.Data.List.Infix

/-! Requests to the graphql endpoint. A page of another site can post some content types without
asking first, and the server recognizes them by a part of the header's value. -/

set_option autoImplicit false

namespace Houdini.Router

def isHttpWhitespace (char : Char) : Bool := ['\n', '\r', '\t', ' '].contains char

def isTokenChar (char : Char) : Bool :=
  char.isAlphanum || "!#$%&'*+-.^_`|~".toList.contains char

def isMimeToken (text : List Char) : Bool := !text.isEmpty && text.all isTokenChar

def trimmed (text : List Char) : List Char :=
  (text.dropWhile isHttpWhitespace).rdropWhile isHttpWhitespace

def beforeSlash (text : List Char) : List Char := (trimmed text).takeWhile (· ≠ '/')

def behindSlash (text : List Char) : List Char :=
  ((((trimmed text).dropWhile (· ≠ '/')).drop 1).takeWhile (· ≠ ';')).rdropWhile isHttpWhitespace

/-- The essence of a media type, if the text can be parsed as one. Case and parameters do not
matter. -/
def essence (text : List Char) : Option (List Char) :=
  if isMimeToken (beforeSlash text) && isMimeToken (behindSlash text) then
    some ((beforeSlash text ++ '/' :: behindSlash text).map Char.toLower)
  else none

structure Request where
  method : String
  pathname : String
  headers : List (String × String)

def Request.header (request : Request) (name : String) : Option String :=
  match request.headers.filter fun header => header.1.toList.map Char.toLower = name.toList with
  | [] => none
  | found => some (", ".intercalate (found.map Prod.snd))

def includes (text part : String) : Bool := decide (part.toList <:+: text.toList)

def urlencoded : String := "application/x-www-form-urlencoded"

def multipart : String := "multipart/form-data"

def textPlain : String := "text/plain"

def houdiniRequestHeader : String := "x-houdini-request"

inductive Outcome where
  | unsupportedMediaType
  | forbidden
  | requestHandler
  /-- The request is for another part of the server. -/
  | elsewhere
  deriving DecidableEq

def serverHandler (graphqlEndpoint : String) (request : Request) : Outcome :=
  if request.pathname = graphqlEndpoint then
    if request.method = "POST" then
      let contentType := (request.header "content-type").getD ""
      if includes contentType urlencoded then .unsupportedMediaType
      else
        let corsSimpleBody :=
          contentType = "" || includes contentType multipart || includes contentType textPlain
        if corsSimpleBody && ((request.header houdiniRequestHeader).getD "").isEmpty then .forbidden
        else .requestHandler
    else .requestHandler
  else .elsewhere

def simpleEssences : List (List Char) := [urlencoded, multipart, textPlain].map String.toList

def Request.essence (request : Request) : Option (List Char) :=
  (request.header "content-type").bind fun contentType => Router.essence contentType.toList

def Request.CorsSimple (request : Request) : Prop :=
  request.header "content-type" = none ∨ ∃ type ∈ simpleEssences, request.essence = some type

/-- The handler sees the request only with the header, and never as a form. -/
def Guarded (graphqlEndpoint : String) (request : Request) : Prop :=
  serverHandler graphqlEndpoint request = .requestHandler →
    (request.header houdiniRequestHeader).isSome ∧ request.essence ≠ some urlencoded.toList

def Request.Unmarked (request : Request) : Prop :=
  (request.header houdiniRequestHeader).getD "" = ""

/-- One of the names stands in lower case somewhere in the content type. For a form that is its own
name, or the request is refused because of another one. -/
def Recognized (request : Request) : Prop :=
  ∀ contentType, request.header "content-type" = some contentType →
    if request.essence = some urlencoded.toList then
      includes contentType urlencoded ∨ request.Unmarked ∧
        (includes contentType multipart ∨ includes contentType textPlain)
    else
      (request.header houdiniRequestHeader).isSome ∨ includes contentType urlencoded ∨
        includes contentType multipart ∨ includes contentType textPlain

variable {graphqlEndpoint : String} {request : Request}

theorem handled_iff (post : request.method = "POST") (place : request.pathname = graphqlEndpoint) :
    serverHandler graphqlEndpoint request = .requestHandler ↔
      includes ((request.header "content-type").getD "") urlencoded = false ∧
        (((request.header "content-type").getD "" = "" ∨
            includes ((request.header "content-type").getD "") multipart ∨
            includes ((request.header "content-type").getD "") textPlain) →
          ¬ request.Unmarked) := by
  unfold serverHandler Request.Unmarked
  rw [if_pos place, if_pos post]
  dsimp only
  cases form : includes ((request.header "content-type").getD "") urlencoded with
  | true => simp
  | false =>
      simp only [Bool.false_eq_true, if_false, true_and]
      split
      · next refused =>
          simp only [Bool.and_eq_true, Bool.or_eq_true, decide_eq_true_eq, or_assoc,
            String.isEmpty_iff] at refused
          exact iff_of_false Outcome.noConfusion fun needs => needs refused.1 refused.2
      · next passed =>
          simp only [Bool.and_eq_true, Bool.or_eq_true, decide_eq_true_eq, or_assoc,
            String.isEmpty_iff, not_and] at passed
          exact iff_of_true rfl passed

/-- A form is never handled when its name is recognized, and nothing is without the header. -/
theorem guarded_iff_recognized (post : request.method = "POST")
    (place : request.pathname = graphqlEndpoint) (simple : request.CorsSimple) :
    Guarded graphqlEndpoint request ↔ Recognized request := by
  unfold Guarded Recognized
  rw [handled_iff post place]
  cases given : request.header "content-type" with
  | none =>
      have noType : request.essence = none := by rw [Request.essence, given, Option.bind_none]
      refine iff_of_true (fun handled => ⟨?_, ?_⟩) ?_
      · cases found : request.header houdiniRequestHeader with
        | none => exact absurd (by rw [Request.Unmarked, found]; rfl) (handled.2 (.inl rfl))
        | some value => rfl
      · rw [noType]
        exact nofun
      · intro _ some
        cases some
  | some contentType =>
      obtain ⟨type, member, parsed⟩ : ∃ type ∈ simpleEssences, request.essence = some type :=
        simple.resolve_left fun absent => by rw [given] at absent; cases absent
      have nonempty : contentType ≠ "" := by
        rintro rfl
        have unparsed : request.essence = none := by
          rw [Request.essence, given]
          decide
        rw [unparsed] at parsed
        cases parsed
      have marked (absent : request.header houdiniRequestHeader = none) : request.Unmarked := by
        rw [Request.Unmarked, absent]
        rfl
      simp only [Option.getD_some, nonempty, false_or, Option.some.injEq, forall_eq']
      have refused : ¬ (includes contentType urlencoded = false ∧
          (includes contentType multipart ∨ includes contentType textPlain →
            ¬ request.Unmarked)) ↔
          includes contentType urlencoded ∨ request.Unmarked ∧
            (includes contentType multipart ∨ includes contentType textPlain) := by
        cases includes contentType urlencoded <;> simp [and_comm]
      by_cases isForm : request.essence = some urlencoded.toList
      · rw [if_pos isForm, ← refused]
        exact ⟨fun safe handled => (safe handled).2 isForm,
          fun unhandled handled => absurd handled unhandled⟩
      · rw [if_neg isForm]
        constructor
        · intro safe
          by_cases carried : (request.header houdiniRequestHeader).isSome = true
          · exact .inl carried
          · exact .inr ((refused.mp fun handled => carried (safe handled).1).imp_right And.right)
        · intro named handled
          refine ⟨?_, isForm⟩
          by_contra carried
          have unmarked : request.Unmarked :=
            marked (Option.not_isSome_iff_eq_none.mp carried)
          exact refused.mpr ((named.resolve_left carried).imp_right fun other => ⟨unmarked, other⟩)
            handled

/-- A form that was posted by another page, spelled as forms spell it. -/
def lowerCasePost : Request where
  method := "POST"
  pathname := "/_api"
  headers := [("Content-Type", "text/plain;charset=UTF-8")]

theorem guarded_iff_recognized_lowerCase :
    Guarded "/_api" lowerCasePost ↔ Recognized lowerCasePost :=
  guarded_iff_recognized rfl rfl (.inr ⟨textPlain.toList, by decide, by decide +kernel⟩)

/-- The case of a media type does not matter to who sends it, and the header is missing. -/
def upperCasePost : Request where
  method := "POST"
  pathname := "/_api"
  headers := [("Content-Type", "TEXT/PLAIN")]

theorem upperCasePost_unguarded :
    upperCasePost.method = "POST" ∧ upperCasePost.pathname = "/_api" ∧ upperCasePost.CorsSimple ∧
      ¬ Guarded "/_api" upperCasePost := by
  have handled : serverHandler "/_api" upperCasePost = .requestHandler := by decide +kernel
  have unmarked : upperCasePost.header houdiniRequestHeader = none := by decide +kernel
  refine ⟨rfl, rfl, .inr ⟨textPlain.toList, by decide, by decide +kernel⟩, fun guarded => ?_⟩
  have carried := (guarded handled).1
  rw [unmarked] at carried
  exact Bool.noConfusion carried

end Houdini.Router
