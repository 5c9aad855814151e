import Mathlib.Data.List.DropRight
import Mathlib.Data.List.Infix

/-! The templates of `@endpoint` redirects. -/

set_option autoImplicit false

namespace Houdini.Plugin

inductive RedirectPart where
  | literal (text : List Char)
  | path (segments : List String)
  deriving DecidableEq, Repr

def isSpace (char : Char) : Bool :=
  [9, 10, 11, 12, 13, 32, 0x85, 0xA0, 0x1680, 0x2028, 0x2029, 0x202F, 0x205F, 0x3000].contains
    char.toNat || (0x2000 ≤ char.toNat && char.toNat ≤ 0x200A)

def trimSpace (text : List Char) : List Char := (text.dropWhile isSpace).rdropWhile isSpace

def openingBrace : Char := Char.ofNat 123

def closingBrace : Char := Char.ofNat 125

def findInterpolation (template : List Char) :
    Option (List Char × List Char × List Char) :=
  match template.dropWhile (· ≠ openingBrace) with
  | [] => none
  | _ :: rest =>
      match rest.dropWhile (· ≠ closingBrace) with
      | [] => none
      | _ :: behind =>
          some (template.takeWhile (· ≠ openingBrace), rest.takeWhile (· ≠ closingBrace), behind)

theorem findInterpolation_length {template literal inner behind : List Char}
    (found : findInterpolation template = some (literal, inner, behind)) :
    behind.length < template.length := by
  unfold findInterpolation at found
  split at found
  · cases found
  · next first rest opened =>
      split at found
      · cases found
      · next second others closed =>
          cases found
          have outer := (List.dropWhile_suffix (l := template) (· ≠ openingBrace)).length_le
          have inner := (List.dropWhile_suffix (l := rest) (· ≠ closingBrace)).length_le
          rw [opened] at outer
          rw [closed] at inner
          simp only [List.length_cons] at outer inner
          omega

def literalPart (text : List Char) : List RedirectPart :=
  if text.isEmpty then [] else [.literal text]

/-- What the braces stand for. Braces around nothing stand for themselves. -/
def interpolationPart (inner : List Char) : RedirectPart :=
  let path := trimSpace inner
  if path.isEmpty then .literal (openingBrace :: inner ++ [closingBrace])
  else .path ((path.splitOn '.').map fun segment => String.ofList (trimSpace segment))

def parseRedirectTemplate (template : List Char) : List RedirectPart :=
  match _found : findInterpolation template with
  | none => literalPart template
  | some (literal, inner, behind) =>
      literalPart literal ++ interpolationPart inner :: parseRedirectTemplate behind
termination_by template.length
decreasing_by exact findInterpolation_length _found

theorem parseRedirectTemplate_of_none {template : List Char}
    (none : findInterpolation template = none) :
    parseRedirectTemplate template = literalPart template := by
  rw [parseRedirectTemplate.eq_def]
  split
  · rfl
  · next found => exact absurd (none.symm.trans found) nofun

theorem parseRedirectTemplate_of_some {template literal inner behind : List Char}
    (found : findInterpolation template = some (literal, inner, behind)) :
    parseRedirectTemplate template =
      literalPart literal ++ interpolationPart inner :: parseRedirectTemplate behind := by
  rw [parseRedirectTemplate.eq_def]
  split
  · next none => exact absurd (none.symm.trans found) nofun
  · next again =>
      obtain ⟨rfl, rfl, rfl⟩ : _ = _ ∧ _ = _ ∧ _ = _ := by
        simpa using Option.some.inj (again.symm.trans found)
      rfl

def isRelativePath (value : List Char) : Bool :=
  ['/'].isPrefixOf value && !(['/', '/'].isPrefixOf value) && decide (¬ "://".toList <:+: value)

theorem parseRedirectTemplate_slash {template : List Char}
    (relative : isRelativePath template = true) :
    ∃ text rest, parseRedirectTemplate template = .literal ('/' :: text) :: rest := by
  simp only [isRelativePath, Bool.and_eq_true, List.isPrefixOf_iff_prefix] at relative
  obtain ⟨⟨⟨rest, rfl⟩, _⟩, _⟩ := relative
  rw [List.singleton_append]
  cases found : findInterpolation ('/' :: rest) with
  | none =>
      rw [parseRedirectTemplate_of_none found]
      exact ⟨rest, [], rfl⟩
  | some parts =>
      obtain ⟨literal, inner, behind⟩ := parts
      rw [parseRedirectTemplate_of_some found]
      have before : literal = '/' :: rest.takeWhile (· ≠ openingBrace) := by
        unfold findInterpolation at found
        split at found
        · cases found
        · split at found
          · cases found
          · cases found
            exact List.takeWhile_cons_of_pos (by decide)
      rw [before]
      exact ⟨_, _, rfl⟩

end Houdini.Plugin
