import Mathlib.Data.List.DropRight
import Mathlib.Data.Option.Basic

/-! Texts that the URL parser resolves against a base: the origin that they end up with. How hosts
are parsed is a parameter. -/

set_option autoImplicit false

namespace Url

inductive Scheme where
  | http
  | https
  deriving DecidableEq, Repr

def Scheme.defaultPort : Scheme → Nat
  | .http => 80
  | .https => 443

structure Origin (Host : Type) where
  scheme : Scheme
  host : Host
  port : Option Nat
  deriving DecidableEq, Repr

/-- The origin of a parsed URL. A port that is the default one is left out. -/
structure Base (Host : Type) extends Origin Host where
  port_valid : ∀ number ∈ port, number < 65536 ∧ number ≠ scheme.defaultPort

def isTabOrNewline (char : Char) : Bool := char = '\t' || char = '\n' || char = '\r'

def isControlOrSpace (char : Char) : Bool := char.toNat ≤ 32

def clean (text : List Char) : List Char :=
  ((text.dropWhile isControlOrSpace).rdropWhile isControlOrSpace).filter (!isTabOrNewline ·)

def isSlash (char : Char) : Bool := char = '/' || char = '\\'

def endsAuthority (char : Char) : Bool := isSlash char || char = '?' || char = '#'

def behindLast (mark : Char) (text : List Char) : List Char := text.rtakeWhile (· ≠ mark)

def splitHost (inBrackets : Bool) : List Char → List Char × List Char
  | [] => ([], [])
  | char :: rest =>
      if char = ':' && !inBrackets then ([], rest)
      else
        let inside := if char = '[' then true else if char = ']' then false else inBrackets
        (char :: (splitHost inside rest).1, (splitHost inside rest).2)

def isDigit (char : Char) : Bool := '0' ≤ char && char ≤ '9'

def parsePort (scheme : Scheme) (text : List Char) : Option (Option Nat) :=
  if text.isEmpty then some none
  else if text.all isDigit then
    let number := text.foldl (fun number digit => number * 10 + (digit.toNat - '0'.toNat)) 0
    if number ≤ 65535 then some (if number = scheme.defaultPort then none else some number) else none
  else none

section Parsing

variable {Host : Type} (hostParser : List Char → Option Host)

/-- The origin of an authority: credentials, a host that has to be there, and a port. -/
def parseAuthority (scheme : Scheme) (text : List Char) : Option (Origin Host) :=
  let (hostText, portText) := splitHost false (behindLast '@' (text.takeWhile (!endsAuthority ·)))
  if hostText.isEmpty then none
  else do
    let host ← hostParser hostText
    let port ← parsePort scheme portText
    return { scheme, host, port }

/-- The origin of a text that starts with no scheme, by the states from `no scheme` on. Only an
authority can fail to parse; the states of paths, queries and fragments take every text. -/
def resolve (base : Base Host) (text : List Char) : Option (Origin Host) :=
  match clean text with
  | first :: second :: rest =>
      if isSlash first && isSlash second then
        parseAuthority hostParser base.scheme (rest.dropWhile isSlash)
      else some base.toOrigin
  | _ => some base.toOrigin

def StaysOnSite (text : List Char) : Prop :=
  ∀ base : Base Host, resolve hostParser base text = some base.toOrigin

def anyHost (text : List Char) : Option String := some (String.ofList text)

def BeginsAuthority (text : List Char) : Prop :=
  ∃ char ∈ (text.filter (!isTabOrNewline ·)).head?, isSlash char = true

theorem not_control_of_isSlash {char : Char} (slash : isSlash char = true) :
    isControlOrSpace char = false := by
  simp only [isSlash, Bool.or_eq_true, decide_eq_true_eq] at slash
  rcases slash with rfl | rfl <;> decide

theorem head?_filter_rdropWhile (text : List Char) {char : Char} (slash : isSlash char = true) :
    ((text.rdropWhile isControlOrSpace).filter (!isTabOrNewline ·)).head? = some char ↔
      (text.filter (!isTabOrNewline ·)).head? = some char := by
  have split : text.rdropWhile isControlOrSpace ++ text.rtakeWhile isControlOrSpace = text :=
    List.rdropWhile_append_rtakeWhile
  generalize text.rdropWhile isControlOrSpace = start at split ⊢
  rw [← split, List.filter_append]
  cases kept : start.filter (!isTabOrNewline ·) with
  | cons first rest => rfl
  | nil =>
      refine iff_of_false nofun fun found => ?_
      have member := (List.mem_filter.mp (List.mem_of_mem_head? found)).1
      have control := List.mem_rtakeWhile_imp member
      rw [not_control_of_isSlash slash] at control
      cases control

theorem clean_slash (rest : List Char) :
    clean ('/' :: rest) = '/' :: (rest.rdropWhile isControlOrSpace).filter (!isTabOrNewline ·) := by
  have start : ('/' :: rest).dropWhile isControlOrSpace = '/' :: rest :=
    List.dropWhile_cons_of_neg (by decide)
  have ending : ('/' :: rest).rdropWhile isControlOrSpace =
      '/' :: rest.rdropWhile isControlOrSpace := by
    unfold List.rdropWhile
    rw [List.reverse_cons, List.dropWhile_append]
    split
    · next empty =>
        rw [List.isEmpty_iff.mp empty]
        decide
    · rw [List.reverse_append]
      rfl
  unfold clean
  rw [start, ending, List.filter_cons_of_pos (by decide)]

theorem resolve_slash (base : Base Host) {rest : List Char} (none : ¬ BeginsAuthority rest) :
    resolve hostParser base ('/' :: rest) = some base.toOrigin := by
  unfold resolve
  rw [clean_slash]
  cases kept : (rest.rdropWhile isControlOrSpace).filter (!isTabOrNewline ·) with
  | nil => rfl
  | cons second others =>
      have single : (isSlash '/' && isSlash second) = false := by
        rw [Bool.and_eq_false_iff]
        refine Or.inr (Bool.eq_false_iff.mpr fun slash => none ⟨second, ?_, slash⟩)
        exact (head?_filter_rdropWhile rest slash).mp (by rw [kept]; rfl)
      simp only [single]
      rfl

theorem resolve_authority {rest : List Char} (begins : BeginsAuthority rest) :
    ∃ text, ∀ base : Base Host,
      resolve hostParser base ('/' :: rest) = parseAuthority hostParser base.scheme text := by
  obtain ⟨second, found, slash⟩ := begins
  have kept := (head?_filter_rdropWhile rest slash).mpr found
  obtain ⟨others, whole⟩ := List.head?_eq_some_iff.mp kept
  refine ⟨others.dropWhile isSlash, fun base => ?_⟩
  have both : (isSlash '/' && isSlash second) = true := by
    rw [slash]
    rfl
  unfold resolve
  rw [clean_slash, whole]
  simp only [both]
  rfl

theorem staysOnSite_slash_iff [Nonempty Host] (rest : List Char) :
    StaysOnSite hostParser ('/' :: rest) ↔ ¬ BeginsAuthority rest := by
  constructor
  · intro stays begins
    obtain ⟨text, resolved⟩ := resolve_authority hostParser begins
    obtain ⟨host⟩ := ‹Nonempty Host›
    let plain : Base Host := { scheme := .http, host, port := none, port_valid := nofun }
    let other : Base Host :=
      { scheme := .http, host, port := some 8080, port_valid := by rintro _ ⟨⟩; decide }
    have same : some plain.toOrigin = some other.toOrigin :=
      (stays plain).symm.trans ((resolved plain).trans ((resolved other).symm.trans (stays other)))
    exact absurd (congrArg Origin.port (Option.some.inj same)) nofun
  · intro none base
    exact resolve_slash hostParser base none

end Parsing

end Url
