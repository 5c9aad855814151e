import Houdini.Plugin.Redirect
import Houdini.Runtime.Encoding
import Houdini.Runtime.Json
import Houdini.Url.Resolution
import Mathlib.Data.Bool.AllAny

/-! Where the redirect of an `@endpoint` leads. The URL is put together at runtime, of a template
that was checked when it was compiled. -/

set_option autoImplicit false

namespace Houdini.Runtime

open Plugin (RedirectPart parseRedirectTemplate isRelativePath)

/-- What scripts do with a value: `value == null`, `value[key]` and `String(value)`. A getter or a
conversion can throw. -/
structure ScriptValues (Value : Type) where
  undefined : Value
  isNullish : Value → Bool
  property : Value → String → Option Value
  text : Value → Option (List UInt16)

inductive Redirect where
  | thrown
  | none
  | url (text : List Char)
  deriving DecidableEq, Repr

section Values

variable {Value : Type} (script : ScriptValues Value)

def valueAtPath : Value → List String → Option Value
  | cursor, [] => some cursor
  | cursor, key :: rest =>
      if script.isNullish cursor then some script.undefined
      else (script.property cursor key).bind (valueAtPath · rest)

def interpolate (data : Value) (url : List Char) : List RedirectPart → Redirect
  | [] => .url url
  | .literal text :: rest => interpolate data (url ++ text) rest
  | .path segments :: rest =>
      match valueAtPath script data segments with
      | Option.none => .thrown
      | some value =>
          if script.isNullish value then .none
          else
            match (script.text value).bind encodeURIComponent with
            | Option.none => .thrown
            | some encoded => interpolate data (url ++ encoded) rest

def interpolateRedirect (template : List RedirectPart) (data : Value) : Redirect :=
  interpolate script data [] template

def Readable (data : Value) : List RedirectPart → Prop
  | [] => True
  | .literal _ :: rest => Readable data rest
  | .path segments :: rest =>
      ∃ value ∈ valueAtPath script data segments, script.isNullish value = true ∨
        (((script.text value).bind encodeURIComponent).isSome ∧ Readable data rest)

def IsMissing (data : Value) (parts : List RedirectPart) : Prop :=
  ∃ segments, .path segments ∈ parts ∧
    ∃ value ∈ valueAtPath script data segments, script.isNullish value = true

def WritesSlash (data : Value) : List RedirectPart → Prop
  | [] => False
  | .literal text :: rest =>
      Url.BeginsAuthority text ∨ ((∀ char ∈ text, Url.isTabOrNewline char = true) ∧
        WritesSlash data rest)
  | .path segments :: rest =>
      (∃ value ∈ valueAtPath script data segments, script.text value = some []) ∧
        WritesSlash data rest

theorem interpolate_of_missing {data : Value} {parts : List RedirectPart}
    (readable : Readable script data parts) (missing : IsMissing script data parts)
    (url : List Char) : interpolate script data url parts = .none := by
  induction parts generalizing url with
  | nil =>
      obtain ⟨_, member, _⟩ := missing
      cases member
  | cons part rest ih =>
      cases part with
      | literal text =>
          obtain ⟨segments, member, absent⟩ := missing
          have later := (List.mem_cons.mp member).resolve_left nofun
          exact ih readable ⟨segments, later, absent⟩ _
      | path segments =>
          obtain ⟨value, found, kind⟩ := readable
          rw [Option.mem_def] at found
          unfold interpolate
          rw [found]
          by_cases nullish : script.isNullish value = true
          · simp only [nullish, if_true]
          · obtain ⟨encodable, others⟩ := kind.resolve_left nullish
            obtain ⟨encoded, same⟩ := Option.isSome_iff_exists.mp encodable
            simp only [nullish, same]
            obtain ⟨absentSegments, member, absent⟩ := missing
            refine ih others ⟨absentSegments, ?_, absent⟩ _
            rcases List.mem_cons.mp member with first | later
            · obtain rfl := RedirectPart.path.inj first
              obtain ⟨missingValue, read, missingNullish⟩ := absent
              rw [Option.mem_def, found] at read
              obtain rfl := Option.some.inj read
              exact absurd missingNullish nullish
            · exact later

theorem interpolate_of_unreadable {data : Value} {parts : List RedirectPart}
    (unreadable : ¬ Readable script data parts) (url : List Char) :
    interpolate script data url parts = .thrown := by
  induction parts generalizing url with
  | nil => exact absurd trivial unreadable
  | cons part rest ih =>
      cases part with
      | literal text => exact ih unreadable _
      | path segments =>
          unfold interpolate
          cases found : valueAtPath script data segments with
          | none => rfl
          | some value =>
              unfold Readable at unreadable
              rw [found] at unreadable
              by_cases nullish : script.isNullish value = true
              · exact absurd ⟨value, rfl, Or.inl nullish⟩ unreadable
              · cases encoded : (script.text value).bind encodeURIComponent with
                | none => simp only [nullish, encoded]; rfl
                | some text =>
                    simp only [nullish, encoded]
                    exact ih (fun readable =>
                      unreadable ⟨value, rfl, Or.inr ⟨by rw [encoded]; rfl, readable⟩⟩) _

theorem beginsAuthority_append (text rest : List Char) :
    Url.BeginsAuthority (text ++ rest) ↔ Url.BeginsAuthority text ∨
      ((∀ char ∈ text, Url.isTabOrNewline char = true) ∧ Url.BeginsAuthority rest) := by
  unfold Url.BeginsAuthority
  rw [List.filter_append]
  cases kept : text.filter (!Url.isTabOrNewline ·) with
  | nil =>
      have blank : ∀ char ∈ text, Url.isTabOrNewline char = true := by
        simpa using List.filter_eq_nil_iff.mp kept
      constructor
      · exact fun begins => Or.inr ⟨blank, begins⟩
      · rintro (⟨_, ⟨⟩, _⟩ | ⟨_, begins⟩)
        exact begins
  | cons first others =>
      have filled : ¬ ∀ char ∈ text, Url.isTabOrNewline char = true := by
        intro blank
        have member : first ∈ text.filter (!Url.isTabOrNewline ·) := by
          rw [kept]
          exact List.mem_cons_self
        obtain ⟨inside, mark⟩ := List.mem_filter.mp member
        simp [blank first inside] at mark
      exact ⟨Or.inl, fun either => either.resolve_right fun later => filled later.1⟩

theorem beginsAuthority_encoded {text : List UInt16} {encoded : List Char}
    (success : encodeURIComponent text = some encoded) (rest : List Char) :
    Url.BeginsAuthority (encoded ++ rest) ↔ text = [] ∧ Url.BeginsAuthority rest := by
  rcases encodeURIComponent_cases success with ⟨rfl, rfl⟩ | ⟨filled, first, others, rfl, kind⟩
  · exact (and_iff_right rfl).symm
  · refine iff_of_false ?_ fun both => filled both.1
    have apart : Url.isTabOrNewline first = false ∧ Url.isSlash first = false := by
      have all : ∀ other ∈ ['\t', '\n', '\r', '/', '\\'],
          isUnreserved other = false ∧ other ≠ '%' := List.all_iff_forall_prop.mp (by decide)
      have other (char : Char) (member : char ∈ ['\t', '\n', '\r', '/', '\\']) : first ≠ char := by
        rintro rfl
        obtain ⟨reserved, plain⟩ := all first member
        rcases kind with unreserved | percent
        · rw [reserved] at unreserved
          cases unreserved
        · exact plain percent
      simp [Url.isTabOrNewline, Url.isSlash, other]
    rintro ⟨char, found, slash⟩
    rw [List.cons_append, List.filter_cons_of_pos (by simp [apart.1])] at found
    obtain rfl := Option.some.inj found
    rw [apart.2] at slash
    cases slash

theorem interpolate_of_present {data : Value} {parts : List RedirectPart}
    (readable : Readable script data parts) (present : ¬ IsMissing script data parts)
    (url : List Char) :
    ∃ written, interpolate script data url parts = .url (url ++ written) ∧
      (Url.BeginsAuthority written ↔ WritesSlash script data parts) := by
  induction parts generalizing url with
  | nil => exact ⟨[], by rw [List.append_nil]; rfl, iff_of_false (by rintro ⟨_, ⟨⟩, _⟩) id⟩
  | cons part rest ih =>
      have presentRest : ¬ IsMissing script data rest := by
        rintro ⟨segments, member, absent⟩
        exact present ⟨segments, List.mem_cons_of_mem _ member, absent⟩
      cases part with
      | literal text =>
          obtain ⟨written, same, begins⟩ := ih readable presentRest (url ++ text)
          refine ⟨text ++ written, by rw [interpolate, same, List.append_assoc], ?_⟩
          rw [beginsAuthority_append, begins]
          rfl
      | path segments =>
          obtain ⟨value, found, kind⟩ := readable
          have given : ¬ script.isNullish value = true := fun nullish =>
            present ⟨segments, List.mem_cons_self, value, found, nullish⟩
          obtain ⟨encodable, others⟩ := kind.resolve_left given
          obtain ⟨encoded, same⟩ := Option.isSome_iff_exists.mp encodable
          obtain ⟨text, converted, success⟩ := Option.bind_eq_some_iff.mp same
          obtain ⟨written, rest_eq, begins⟩ := ih others presentRest (url ++ encoded)
          rw [Option.mem_def] at found
          refine ⟨encoded ++ written, ?_, ?_⟩
          · rw [interpolate, found]
            simp only [given, same]
            rw [← List.append_assoc]
            exact rest_eq
          · rw [beginsAuthority_encoded success, begins]
            have empty : text = [] ↔ ∃ given ∈ valueAtPath script data segments,
                script.text given = some [] := by
              rw [found]
              constructor
              · rintro rfl
                exact ⟨value, rfl, converted⟩
              · rintro ⟨_, ⟨⟩, none⟩
                rw [converted] at none
                exact Option.some.inj none
            rw [WritesSlash]
            exact and_congr_left' empty

variable {Host : Type} (hostParser : List Char → Option Host)

def Redirect.IsOnSite : Redirect → Prop
  | .thrown => False
  | .none => True
  | .url text => Url.StaysOnSite hostParser text

def behindSlash : List RedirectPart → List RedirectPart
  | .literal (_ :: text) :: rest => .literal text :: rest
  | parts => parts

/-- The redirect of a relative path stays on the site exactly if its values can be read, and either
one of them is missing or no slash follows the first one. -/
theorem interpolateRedirect_isOnSite_iff [Nonempty Host] {template : List Char}
    (relative : isRelativePath template = true) (data : Value) :
    (interpolateRedirect script (parseRedirectTemplate template) data).IsOnSite hostParser ↔
      Readable script data (parseRedirectTemplate template) ∧
        (IsMissing script data (parseRedirectTemplate template) ∨
          ¬ WritesSlash script data (behindSlash (parseRedirectTemplate template))) := by
  obtain ⟨text, rest, parts⟩ := Plugin.parseRedirectTemplate_slash relative
  rw [parts]
  by_cases readable : Readable script data (.literal ('/' :: text) :: rest)
  · rw [and_iff_right readable]
    by_cases missing : IsMissing script data (.literal ('/' :: text) :: rest)
    · have ended : interpolateRedirect script (.literal ('/' :: text) :: rest) data = .none :=
        interpolate_of_missing script readable missing []
      rw [ended]
      exact iff_of_true trivial (Or.inl missing)
    · have presentRest : ¬ IsMissing script data (.literal text :: rest) := by
        rintro ⟨segments, member, absent⟩
        have later := (List.mem_cons.mp member).resolve_left nofun
        exact missing ⟨segments, List.mem_cons_of_mem _ later, absent⟩
      have readableRest : Readable script data (.literal text :: rest) := readable
      obtain ⟨written, ended, begins⟩ :=
        interpolate_of_present script readableRest presentRest ['/']
      have whole : interpolateRedirect script (.literal ('/' :: text) :: rest) data =
          .url ('/' :: written) := ended
      have onSite : (Redirect.url ('/' :: written)).IsOnSite hostParser ↔
          ¬ Url.BeginsAuthority written := Url.staysOnSite_slash_iff hostParser written
      rw [whole, or_iff_right missing, onSite, begins]
      rfl
  · have ended : interpolateRedirect script (.literal ('/' :: text) :: rest) data = .thrown :=
      interpolate_of_unreadable script readable []
    rw [ended]
    exact iff_of_false id fun both => readable both.1

end Values

def responseValues : ScriptValues (Option Json) where
  undefined := none
  isNullish
    | none | some .null => true
    | _ => false
  property
    | some (.object fields), key => some (fields.lookup key)
    | _, _ => some none
  text
    | some (.string value) => some (scriptText value)
    | some (.number value) => some (scriptText value.text)
    | some (.boolean value) => some (scriptText (if value then "true" else "false"))
    | _ => none

def editTemplate : List Char :=
  '/' :: Plugin.openingBrace :: (" user.name ".toList ++ Plugin.closingBrace :: "/edit".toList)

def renamedUser (name : String) : Option Json :=
  some (.object [("user", .object [("name", .string name)])])

theorem editTemplate_parts : parseRedirectTemplate editTemplate =
    [.literal ['/'], .path ["user", "name"], .literal "/edit".toList] := by
  have found : Plugin.findInterpolation editTemplate =
      some (['/'], " user.name ".toList, "/edit".toList) := by decide +kernel
  have last : Plugin.findInterpolation "/edit".toList = none := by decide +kernel
  have inner : Plugin.interpolationPart " user.name ".toList = .path ["user", "name"] := by
    decide +kernel
  rw [Plugin.parseRedirectTemplate_of_some found, Plugin.parseRedirectTemplate_of_none last, inner]
  rfl

theorem editTemplate_readable {name : String} {encoded : List Char}
    (encodable : encodeURIComponent (scriptText name) = some encoded) :
    Readable responseValues (renamedUser name) (parseRedirectTemplate editTemplate) := by
  rw [editTemplate_parts]
  exact ⟨some (.string name), rfl, Or.inr ⟨Option.isSome_iff_exists.mpr ⟨encoded, encodable⟩,
    trivial⟩⟩

theorem interpolateRedirect_isOnSite_named :
    isRelativePath editTemplate = true ∧
      (interpolateRedirect responseValues (parseRedirectTemplate editTemplate)
        (renamedUser "Ada")).IsOnSite Url.anyHost := by
  have relative : isRelativePath editTemplate = true := by decide +kernel
  have encodable : encodeURIComponent (scriptText "Ada") = some "Ada".toList := by decide +kernel
  refine ⟨relative, (interpolateRedirect_isOnSite_iff responseValues Url.anyHost relative
    (renamedUser "Ada")).mpr ⟨editTemplate_readable encodable, Or.inr ?_⟩⟩
  rw [editTemplate_parts]
  rintro (⟨_, ⟨⟩, _⟩ | ⟨_, ⟨_, ⟨⟩, empty⟩, _⟩)
  exact absurd empty (by decide +kernel)

/-- The user without a name is shown by another site. -/
theorem interpolateRedirect_unnamed_leaves :
    isRelativePath editTemplate = true ∧
      ¬ (interpolateRedirect responseValues (parseRedirectTemplate editTemplate)
        (renamedUser "")).IsOnSite Url.anyHost := by
  refine ⟨by decide +kernel, ?_⟩
  rw [editTemplate_parts]
  have ended : interpolateRedirect responseValues
      [.literal ['/'], .path ["user", "name"], .literal "/edit".toList] (renamedUser "") =
        .url "//edit".toList := by decide +kernel
  rw [ended]
  exact fun stays => (Url.staysOnSite_slash_iff Url.anyHost "/edit".toList).mp stays
    ⟨'/', rfl, rfl⟩

end Houdini.Runtime
