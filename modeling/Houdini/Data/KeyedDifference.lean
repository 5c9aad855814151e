import Mathlib.Data.Finset.Card

/-! What is left of a list when each known key takes up one item that has it. -/

set_option autoImplicit false

universe u v

namespace Houdini

variable {Item : Type u} {Key : Type v} [DecidableEq Key] {key : Item → Key}

def unmatched (key : Item → Key) : Finset Key → List Item → List Item
  | _, [] => []
  | known, item :: rest =>
      if key item ∈ known then unmatched key (known.erase (key item)) rest
      else item :: unmatched key known rest

/-- The known keys of other items do not matter. -/
theorem unmatched_congr {known other : Finset Key} {items : List Item}
    (same : ∀ item ∈ items, key item ∈ known ↔ key item ∈ other) :
    unmatched key known items = unmatched key other items := by
  induction items generalizing known other with
  | nil => rfl
  | cons item rest ih =>
      have here := same item List.mem_cons_self
      have later : ∀ next ∈ rest, key next ∈ known ↔ key next ∈ other :=
        fun next member => same next (List.mem_cons_of_mem _ member)
      by_cases found : key item ∈ known
      · rw [unmatched, unmatched, if_pos found, if_pos (here.mp found)]
        refine ih fun next member => ?_
        rw [Finset.mem_erase, Finset.mem_erase, later next member]
      · have absent : key item ∉ other := fun isOther => found (here.mpr isOther)
        rw [unmatched, unmatched, if_neg found, if_neg absent, ih later]

theorem unmatched_filter (known : Finset Key) (items : List Item) (keep : Key → Bool) :
    (unmatched key known items).filter (fun item => keep (key item)) =
      unmatched key known (items.filter fun item => keep (key item)) := by
  induction items generalizing known with
  | nil => rfl
  | cons item rest ih =>
      cases kept : keep (key item) with
      | true =>
          rw [List.filter_cons_of_pos (by simpa using kept)]
          by_cases found : key item ∈ known
          · rw [unmatched, unmatched, if_pos found, if_pos found, ih]
          · rw [unmatched, unmatched, if_neg found, if_neg found,
              List.filter_cons_of_pos (by simpa using kept), ih]
      | false =>
          rw [List.filter_cons_of_neg (by simp [kept])]
          by_cases found : key item ∈ known
          · rw [unmatched, if_pos found, ih]
            refine unmatched_congr fun next member => ?_
            rw [Finset.mem_erase]
            refine and_iff_right fun same => ?_
            have passes := (List.mem_filter.mp member).2
            rw [same, kept] at passes
            exact absurd passes Bool.false_ne_true
          · rw [unmatched, if_neg found, List.filter_cons_of_neg (by simp [kept]), ih]

theorem unmatched_of_nodup {known : Finset Key} {items : List Item}
    (unique : (items.map key).Nodup) :
    unmatched key known items = items.filter fun item => key item ∉ known := by
  induction items generalizing known with
  | nil => rfl
  | cons item rest ih =>
      rw [List.map_cons, List.nodup_cons] at unique
      by_cases found : key item ∈ known
      · rw [unmatched, if_pos found, List.filter_cons_of_neg (by simpa using found),
          ← ih unique.2]
        refine unmatched_congr fun next member => ?_
        rw [Finset.mem_erase]
        refine and_iff_right fun same => unique.1 ?_
        rw [← same]
        exact List.mem_map_of_mem member
      · rw [unmatched, if_neg found, List.filter_cons_of_pos (by simpa using found), ih unique.2]

/-- Every item is left, or takes up a known key. -/
theorem length_unmatched (known : Finset Key) (items : List Item) :
    (unmatched key known items).length + (known.filter (· ∈ items.map key)).card =
      items.length := by
  induction items generalizing known with
  | nil => simp [unmatched]
  | cons item rest ih =>
      by_cases found : key item ∈ known
      · have taken : known.filter (· ∈ (item :: rest).map key) =
            insert (key item) ((known.erase (key item)).filter (· ∈ rest.map key)) := by
          ext candidate
          simp only [Finset.mem_filter, Finset.mem_insert, Finset.mem_erase, List.map_cons,
            List.mem_cons]
          by_cases same : candidate = key item
          · simp [same, found]
          · simp [same]
        rw [unmatched, if_pos found, taken, Finset.card_insert_of_notMem (by simp),
          List.length_cons, ← ih (known.erase (key item))]
        rfl
      · have same : known.filter (· ∈ (item :: rest).map key) =
            known.filter (· ∈ rest.map key) := by
          refine Finset.filter_congr fun candidate member => ?_
          rw [List.map_cons, List.mem_cons]
          refine or_iff_right fun equal => found ?_
          rw [← equal]
          exact member
        have count := ih known
        rw [unmatched, if_neg found, same]
        simp only [List.length_cons]
        omega

theorem unmatched_empty (items : List Item) : unmatched key ∅ items = items := by
  induction items with
  | nil => rfl
  | cons item rest ih => rw [unmatched, if_neg (Finset.notMem_empty _), ih]

end Houdini
