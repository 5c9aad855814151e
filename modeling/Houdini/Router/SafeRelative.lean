import Houdini.Url.Resolution
import Mathlib.Data.List.Infix

/-! Where the redirects of logins and logouts lead. -/

set_option autoImplicit false

namespace Houdini.Router

def isSafeRelative (value : String) : Bool :=
  ['/'].isPrefixOf value.toList && !(['/', '/'].isPrefixOf value.toList) &&
    !value.toList.contains '\\' && decide (¬ "://".toList <:+: value.toList)

/-- A target that is no text, or that does not pass the checks, is the root. -/
def safeRelative (value : Option String) : String :=
  match value with
  | none => "/"
  | some text => if isSafeRelative text then text else "/"

variable {Host : Type} (hostParser : List Char → Option Host)

def HidesSlash (value : String) : Prop :=
  ∃ rest, value.toList = '/' :: rest ∧ (rest.filter (!Url.isTabOrNewline ·)).head? = some '/'

theorem isSafeRelative_slash {value : String} (safe : isSafeRelative value = true) :
    ∃ rest, value.toList = '/' :: rest ∧ '\\' ∉ rest := by
  simp only [isSafeRelative, Bool.and_eq_true, Bool.not_eq_true', List.isPrefixOf_iff_prefix] at safe
  obtain ⟨⟨⟨⟨rest, whole⟩, _⟩, unescaped⟩, _⟩ := safe
  refine ⟨rest, whole.symm, fun member => ?_⟩
  rw [← whole, List.contains_eq_mem] at unescaped
  simp [member] at unescaped

theorem beginsAuthority_iff {rest : List Char} (unescaped : '\\' ∉ rest) :
    Url.BeginsAuthority rest ↔ (rest.filter (!Url.isTabOrNewline ·)).head? = some '/' := by
  constructor
  · rintro ⟨char, found, slash⟩
    have member := (List.mem_filter.mp (List.mem_of_mem_head? found)).1
    simp only [Url.isSlash, Bool.or_eq_true, decide_eq_true_eq] at slash
    rcases slash with rfl | rfl
    · exact found
    · exact absurd member unescaped
  · intro found
    exact ⟨'/', found, rfl⟩

/-- The redirect stays on the site, unless the target passes the checks and hides a second slash
behind tabs and newlines. -/
theorem safeRelative_staysOnSite_iff [Nonempty Host] (value : Option String) :
    Url.StaysOnSite hostParser (safeRelative value).toList ↔
      ∀ text ∈ value, isSafeRelative text = true → ¬ HidesSlash text := by
  have root : Url.StaysOnSite hostParser "/".toList :=
    (Url.staysOnSite_slash_iff hostParser []).mpr (by rintro ⟨_, ⟨⟩, _⟩)
  cases value with
  | none => exact iff_of_true root nofun
  | some text =>
      have single : (∀ given ∈ some text, isSafeRelative given = true → ¬ HidesSlash given) ↔
          (isSafeRelative text = true → ¬ HidesSlash text) := by simp
      rw [single]
      by_cases safe : isSafeRelative text = true
      · obtain ⟨rest, whole, unescaped⟩ := isSafeRelative_slash safe
        have hides : HidesSlash text ↔ Url.BeginsAuthority rest := by
          rw [beginsAuthority_iff unescaped]
          constructor
          · rintro ⟨other, same, found⟩
            rw [whole] at same
            rwa [(List.cons.inj same).2]
          · exact fun found => ⟨rest, whole, found⟩
        have kept : safeRelative (some text) = text := if_pos safe
        rw [kept, whole, Url.staysOnSite_slash_iff, hides]
        exact ⟨fun none _ => none, fun none => none safe⟩
      · have dropped : safeRelative (some text) = "/" := if_neg safe
        rw [dropped]
        exact iff_of_true root fun safe' => absurd safe' safe

theorem safeRelative_staysOnSite_page :
    Url.StaysOnSite Url.anyHost (safeRelative (some "/users\t/1")).toList := by
  refine (safeRelative_staysOnSite_iff Url.anyHost (some "/users\t/1")).mpr ?_
  rintro text ⟨⟩ _ ⟨rest, whole, found⟩
  rw [← (List.cons.inj whole).2] at found
  exact absurd found (by decide)

/-- Behind a tab, the name of another site is left. -/
theorem safeRelative_tab_leaves :
    ¬ Url.StaysOnSite Url.anyHost (safeRelative (some "/\t/evil.example")).toList := by
  have kept : (safeRelative (some "/\t/evil.example")).toList =
      '/' :: "\t/evil.example".toList := by decide +kernel
  rw [kept, Url.staysOnSite_slash_iff]
  exact not_not.mpr ⟨'/', by decide +kernel, rfl⟩

end Houdini.Router
