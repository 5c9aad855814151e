import Houdini.React.HrefSubstitution

/-! What a page captures of the url that a link to it resolves to. -/

set_option autoImplicit false

namespace Houdini.React

open Houdini.Runtime (decodeURIComponent_plain)

/-- Values that are captured where they were put. A rest takes as much as it can, so nothing behind
it may be read without its beginning. -/
def Fits (values : UrlText → UrlText) : List RouteSegment → Prop
  | [] => True
  | .fixed _ :: after => Fits values after
  | .param name :: after => '/' ∉ values name ∧ Fits values after
  | .optional name :: after => '/' ∉ values name ∧ Fits values after
  | .rest name :: after =>
      (∀ char ∈ values name, isLineTerminator char = false) ∧
      (∀ longer left, filledPath values after = longer ++ left → longer ≠ [] →
        (∀ char ∈ longer, isLineTerminator char = false) → ¬ Reads after left) ∧
      Fits values after

def givenValues (values : UrlText → UrlText) (segments : List RouteSegment) :
    List (Option UrlText) :=
  segments.filterMap fun segment => segment.param?.map fun param => some (values param.name)

theorem pairwise_splits (allowed : Char → Bool) (text : UrlText) :
    (splits allowed text).Pairwise fun shorter longer => shorter.1.length < longer.1.length := by
  induction text with
  | nil => exact List.pairwise_singleton _ _
  | cons char rest ih =>
      rw [splits]
      split
      · rw [List.pairwise_cons, List.pairwise_map]
        constructor
        · intro way member
          obtain ⟨_, _, rfl⟩ := List.mem_map.mp member
          exact Nat.succ_pos _
        · exact ih.imp fun shorter => Nat.succ_lt_succ shorter
      · exact List.pairwise_singleton _ _

theorem captureFirst_eq {next : UrlText → Option (List (Option UrlText))}
    {ways : List (UrlText × UrlText)} {value left : UrlText} {later : List (Option UrlText)}
    (member : (value, left) ∈ ways) (isLater : next left = some later)
    {before : UrlText × UrlText → UrlText × UrlText → Prop}
    (sorted : ways.Pairwise before)
    (fails : ∀ way ∈ ways, before way (value, left) → next way.2 = none) :
    captureFirst next ways = some (some value :: later) := by
  obtain ⟨front, back, rfl⟩ := List.append_of_mem member
  rw [List.pairwise_append] at sorted
  refine List.findSome?_eq_some_iff.mpr ⟨front, (value, left), back, rfl, by simp [isLater], ?_⟩
  intro way among
  have first := fails way (List.mem_append_left _ among)
    (sorted.2.2 way among _ List.mem_cons_self)
  rw [first]
  rfl

section

variable {values : UrlText → UrlText} {after segments : List RouteSegment}

theorem captureValue_eq {value : UrlText} {later : List (Option UrlText)}
    {ways : UrlText → List (UrlText × UrlText)}
    {before : UrlText × UrlText → UrlText × UrlText → Prop}
    (all : ∀ inner way, way ∈ ways inner ↔ way ∈ someSplits (· ≠ '/') inner)
    (sorted : ∀ inner, (ways inner).Pairwise before)
    (irrefl : ∀ way, ¬ before way way)
    (nonempty : value ≠ []) (plain : '/' ∉ value)
    (isLater : captureSegments after (filledPath values after) = some later) :
    captureBehindSlash (captureSegments after) ways
        ('/' :: (value ++ filledPath values after)) = some (some value :: later) := by
  rw [captureBehindSlash, if_pos rfl]
  have member : (value, filledPath values after) ∈ ways (value ++ filledPath values after) := by
    refine (all _ _).mpr (mem_someSplits.mpr ⟨rfl, fun char inside => ?_, nonempty⟩)
    exact decide_eq_true fun slash => plain (slash ▸ inside)
  refine captureFirst_eq member isLater (sorted _) fun way among earlier => ?_
  rw [← Option.not_isSome_iff_eq_none]
  intro reads
  obtain ⟨whole, clean, _⟩ := mem_someSplits.mp ((all _ _).mp among)
  have without : '/' ∉ way.1 := fun slash => absurd rfl (of_decide_eq_true (clean '/' slash))
  obtain ⟨first, second⟩ := atSlash_unique plain without (atSlash_filledPath after)
    (Reads.atSlash reads) whole
  refine irrefl way ?_
  have same : (value, filledPath values after) = way := Prod.ext first second
  rw [same] at earlier
  exact earlier

theorem captureSegments_filledPath
    (filled : ∀ segment ∈ segments, ∀ name, segment = .param name ∨ segment = .optional name →
      values name ≠ []) (fits : Fits values segments) :
    captureSegments segments (filledPath values segments) =
      some (givenValues values segments) := by
  induction segments with
  | nil => rfl
  | cons segment after ih =>
      rw [List.forall_mem_cons] at filled
      rw [filledPath_cons]
      cases segment with
      | fixed text =>
          have dropped : ('/' :: (text ++ filledPath values after)).dropPrefix? ('/' :: text) =
              some (filledPath values after) :=
            List.dropPrefix?_eq_some_iff.mpr ⟨'/' :: text, rfl, beq_self_eq_true _⟩
          rw [captureSegments, RouteSegment.filled, dropped]
          exact ih filled.2 fits
      | param name =>
          rw [captureSegments]
          exact captureValue_eq (fun _ _ => Iff.rfl)
            (fun inner => (pairwise_splits _ inner).filter _) (fun _ => Nat.lt_irrefl _)
            (filled.1 name (Or.inl rfl)) fits.1 (ih filled.2 fits.2)
      | optional name =>
          rw [captureSegments]
          have taken := @captureValue_eq _ _ _ _ (fun inner => (someSplits (· ≠ '/') inner).reverse) _
            (fun _ _ => List.mem_reverse)
            (fun inner => List.pairwise_reverse.mpr ((pairwise_splits _ inner).filter _))
            (fun _ => Nat.lt_irrefl _) (filled.1 name (Or.inr rfl)) fits.1 (ih filled.2 fits.2)
          rw [RouteSegment.filled, taken]
          rfl
      | rest name =>
          obtain ⟨oneLine, alone, later⟩ := fits
          rw [captureSegments, RouteSegment.filled, captureBehindSlash, if_pos rfl]
          have member : (values name, filledPath values after) ∈
              (splits (!isLineTerminator ·) (values name ++ filledPath values after)).reverse := by
            refine List.mem_reverse.mpr (mem_splits.mpr ⟨rfl, fun char inside => ?_⟩)
            rw [oneLine char inside]
            rfl
          have taken := captureFirst_eq member (ih filled.2 later)
            (List.pairwise_reverse.mpr (pairwise_splits _ _)) fun way among longer => by
              obtain ⟨whole, clean⟩ := mem_splits.mp (List.mem_reverse.mp among)
              rcases List.append_eq_append_iff.mp whole with
                  ⟨more, isMore, tail⟩ | ⟨more, isMore, tail⟩
              · rw [← Option.not_isSome_iff_eq_none]
                refine alone more way.2 tail ?_ fun char inside => ?_
                · rintro rfl
                  rw [List.append_nil] at isMore
                  rw [isMore] at longer
                  exact Nat.lt_irrefl _ longer
                · have allowed := clean char (isMore ▸ List.mem_append_right _ inside)
                  simpa using allowed
              · rw [isMore, List.length_append] at longer
                omega
          rw [taken]
          rfl

end

def routeNames (segments : List RouteSegment) : List UrlText :=
  (segments.filterMap RouteSegment.param?).map RouteParam.name

theorem quotedText_name {isPrint : Char → Bool} {name : UrlText}
    (word : ∀ char ∈ name, isNameChar char = true) : quotedText isPrint name = name := by
  have small {char : Char} (isName : isNameChar char = true) : char.toNat < 128 ∧ char.toNat ≠ 7 := by
    unfold isNameChar Char.isAlphanum Char.isAlpha Char.isUpper Char.isLower Char.isDigit at isName
    simp only [Bool.or_eq_true, Bool.and_eq_true, decide_eq_true_eq] at isName
    rcases isName with ((upper | lower) | digit) | underscore
    · have bound : char.toNat ≤ 90 := upper.2
      have least : 65 ≤ char.toNat := upper.1
      omega
    · have bound : char.toNat ≤ 122 := lower.2
      have least : 97 ≤ char.toNat := lower.1
      omega
    · have bound : char.toNat ≤ 57 := digit.2
      have least : 48 ≤ char.toNat := digit.1
      omega
    · rw [underscore]
      decide
  have each {char : Char} (isName : isNameChar char = true) : quotedChar isPrint char = [char] := by
    obtain ⟨bound, notBell⟩ := small isName
    have low : char.toNat < 65536 := by omega
    rw [quotedChar, if_neg notBell, if_pos low, ite_self]
  rw [quotedText]
  induction name with
  | nil => rfl
  | cons char rest ih =>
      rw [List.forall_mem_cons] at word
      rw [List.flatMap_cons, each word.1, ih word.2]
      rfl

theorem params_routerPage {isPrint : Char → Bool} {dir : RouteDir}
    (plain : ∀ segment ∈ dir.segments, segment.IsPlain) :
    (dir.page.routerPage isPrint).params = dir.segments.filterMap RouteSegment.param? := by
  have params : (parsePagePattern dir.page.url).2 = dir.segments.filterMap RouteSegment.param? := by
    unfold parsePagePattern
    split
    · next root =>
        rw [segments_eq_nil_of_root root]
        rfl
    · rfl
  rw [PageManifest.routerPage, params]
  refine (List.map_congr_left fun param member => ?_).trans (List.map_id _)
  obtain ⟨segment, among, isParam⟩ := List.mem_filterMap.mp member
  have named := plain segment among
  cases segment with
  | fixed text => cases isParam
  | param name => cases isParam; rw [quotedText_name named.2]; rfl
  | optional name => cases isParam; rw [quotedText_name named.2]; rfl
  | rest name => cases isParam; rw [quotedText_name named.2]; rfl

section

variable {values : UrlText → UrlText}

theorem exec_givenValues {segments : List RouteSegment}
    (plain : ∀ name ∈ routeNames segments, '%' ∉ values name)
    (proto : protoName ∉ routeNames segments) :
    ∃ matched, exec (givenValues values segments) (segments.filterMap RouteSegment.param?) =
        .ok matched ∧
      ∀ name, matched.get? name =
        if name ∈ routeNames segments then some (values name) else none := by
  have zipped : (givenValues values segments).zip (segments.filterMap RouteSegment.param?) =
      (segments.filterMap RouteSegment.param?).map fun param => (some (values param.name), param) := by
    have given : givenValues values segments =
        (segments.filterMap RouteSegment.param?).map fun param => some (values param.name) := by
      rw [givenValues, List.map_filterMap]
    rw [given]
    generalize segments.filterMap RouteSegment.param? = params
    induction params with
    | nil => rfl
    | cons param rest ih => exact congrArg _ ih
  rw [exec, zipped]
  unfold routeNames at plain proto ⊢
  generalize segments.filterMap RouteSegment.param? = params at plain proto ⊢
  have run : ∀ result : OrderedMap UrlText UrlText, ∃ matched,
      (params.map fun param => (some (values param.name), param)).foldlM record result =
        .ok matched ∧
      ∀ name, matched.get? name =
        if name ∈ params.map RouteParam.name then some (values name) else result.get? name := by
    induction params with
    | nil => exact fun result => ⟨result, rfl, fun name => rfl⟩
    | cons param rest ih =>
        intro result
        rw [List.map_cons, List.forall_mem_cons] at plain
        rw [List.map_cons, List.mem_cons, not_or] at proto
        obtain ⟨matched, went, reads⟩ := ih plain.2 proto.2 (result.set param.name (values param.name))
        refine ⟨matched, ?_, fun name => ?_⟩
        · have recorded : record result (some (values param.name), param) =
              .ok (result.set param.name (values param.name)) := by
            simp only [record, decodeURIComponent_plain plain.1, assign, if_neg (Ne.symm proto.1)]
          rw [List.map_cons, List.foldlM_cons, recorded]
          exact went
        · rw [reads, OrderedMap.get?_set, List.map_cons]
          by_cases later : name ∈ rest.map RouteParam.name
          · rw [if_pos later, if_pos (List.mem_cons_of_mem _ later)]
          · rw [if_neg later]
            by_cases same : name = param.name
            · rw [if_pos same, same, if_pos List.mem_cons_self]
            · rw [if_neg same, if_neg (by rw [List.mem_cons, not_or]; exact ⟨same, later⟩)]
  exact run ∅

end

end Houdini.React
