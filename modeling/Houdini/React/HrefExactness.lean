import Houdini.React.HrefRoundTrip
import Mathlib.Data.Bool.AllAny

/-! Texts that a link does not carry as they are do not come back. -/

set_option autoImplicit false

namespace Houdini.React

open Houdini.Runtime (hexValue escapedByte continuationBytes firstByte decodeEscaped decodeUpTo
  decodeURIComponent decodeURIComponent_plain)
open Url (parseForm parseForm_serializeForm)

def isSolid (char : Char) : Bool := char ≠ '/'

def solid (text : UrlText) : Nat := text.countP isSolid

theorem solid_append (left right : UrlText) : solid (left ++ right) = solid left + solid right :=
  List.countP_append

theorem solid_cons {char : Char} (other : char ≠ '/') (rest : UrlText) :
    solid (char :: rest) = solid rest + 1 :=
  List.countP_cons_of_pos (decide_eq_true other)

theorem solid_slash (rest : UrlText) : solid ('/' :: rest) = solid rest :=
  List.countP_cons_of_neg (by decide)

theorem solid_cons_le (char : Char) (rest : UrlText) : solid (char :: rest) ≤ solid rest + 1 := by
  by_cases slash : char = '/'
  · rw [slash, solid_slash]
    omega
  · rw [solid_cons slash]

theorem hexValue_slash : hexValue '/' = none := by decide

theorem solid_escapedByte {text rest : UrlText} {byte : Nat}
    (escaped : escapedByte text = some (byte, rest)) : solid text = solid rest + 3 := by
  unfold escapedByte at escaped
  split at escaped
  · next high low behind =>
      obtain ⟨first, isFirst, escaped⟩ := Option.bind_eq_some_iff.mp escaped
      obtain ⟨second, isSecond, escaped⟩ := Option.bind_eq_some_iff.mp escaped
      cases escaped
      have highSolid : high ≠ '/' := by
        rintro rfl
        rw [hexValue_slash] at isFirst
        cases isFirst
      have lowSolid : low ≠ '/' := by
        rintro rfl
        rw [hexValue_slash] at isSecond
        cases isSecond
      rw [solid_cons (by decide), solid_cons highSolid, solid_cons lowSolid]
  · cases escaped

theorem solid_continuationBytes {count value read : Nat} {text rest : UrlText}
    (went : continuationBytes count value text = some (read, rest)) : solid rest ≤ solid text := by
  induction count generalizing value text with
  | zero =>
      cases went
      exact le_refl _
  | succ count ih =>
      rw [continuationBytes] at went
      obtain ⟨⟨byte, behind⟩, escaped, further⟩ := Option.bind_eq_some_iff.mp went
      simp only at further
      split at further
      · have later := ih further
        have shorter := solid_escapedByte escaped
        omega
      · cases further

theorem solid_firstByte {byte least value : Nat} {text rest : UrlText}
    (went : firstByte byte text = some (least, value, rest)) : solid rest ≤ solid text := by
  have later {count start smallest : Nat}
      (same : (continuationBytes count start text).map (smallest, ·) = some (least, value, rest)) :
      solid rest ≤ solid text := by
    obtain ⟨⟨read, behind⟩, further, equal⟩ := Option.map_eq_some_iff.mp same
    cases equal
    exact solid_continuationBytes further
  unfold firstByte at went
  split at went
  · cases went
    exact le_refl _
  · split at went
    · cases went
    · split at went
      · exact later went
      · split at went
        · exact later went
        · split at went
          · exact later went
          · cases went

theorem solid_decodeEscaped {text rest : UrlText} {char : Char}
    (decoded : decodeEscaped text = some (char, rest)) : solid rest + 3 ≤ solid text := by
  unfold decodeEscaped at decoded
  obtain ⟨⟨byte, behind⟩, escaped, further⟩ := Option.bind_eq_some_iff.mp decoded
  obtain ⟨⟨least, value, left⟩, parsed, last⟩ := Option.bind_eq_some_iff.mp further
  have shorter := solid_escapedByte escaped
  have kept := solid_firstByte parsed
  simp only at last
  split at last
  · cases last
    omega
  · cases last

theorem solid_decodeUpTo {count : Nat} {text decoded : UrlText}
    (went : decodeUpTo count text = some decoded) :
    solid decoded ≤ solid text ∧ ('%' ∈ text → solid decoded < solid text) := by
  induction count generalizing text decoded with
  | zero =>
      cases text with
      | nil =>
          cases went
          exact ⟨le_refl _, nofun⟩
      | cons char rest => cases went
  | succ count ih =>
      cases text with
      | nil =>
          cases went
          exact ⟨le_refl _, nofun⟩
      | cons char rest =>
          rw [decodeUpTo] at went
          split at went
          · obtain ⟨⟨first, behind⟩, escaped, further⟩ := Option.bind_eq_some_iff.mp went
            obtain ⟨others, later, same⟩ := Option.map_eq_some_iff.mp further
            have shorter := solid_decodeEscaped escaped
            have kept := (ih later).1
            have bound := solid_cons_le first others
            rw [← same]
            exact ⟨by omega, fun _ => by omega⟩
          · next plain =>
              obtain ⟨others, later, same⟩ := Option.map_eq_some_iff.mp went
              obtain ⟨kept, strict⟩ := ih later
              rw [← same]
              have both : ∀ left right : UrlText, solid left ≤ solid right →
                  solid (char :: left) ≤ solid (char :: right) ∧
                    (solid left < solid right → solid (char :: left) < solid (char :: right)) := by
                intro left right smaller
                by_cases slash : char = '/'
                · rw [slash, solid_slash, solid_slash]
                  exact ⟨smaller, id⟩
                · rw [solid_cons slash, solid_cons slash]
                  exact ⟨by omega, fun less => by omega⟩
              obtain ⟨weak, strong⟩ := both others rest kept
              refine ⟨weak, fun member => strong (strict ?_)⟩
              rcases List.mem_cons.mp member with same | inside
              · exact absurd same.symm plain
              · exact inside

theorem eq_of_decodeURIComponent {text decoded : UrlText}
    (went : decodeURIComponent text = some decoded) :
    solid decoded ≤ solid text ∧ (solid text ≤ solid decoded → text = decoded ∧ '%' ∉ decoded) := by
  obtain ⟨kept, strict⟩ := solid_decodeUpTo went
  refine ⟨kept, fun whole => ?_⟩
  have plain : '%' ∉ text := fun member => absurd (strict member) (Nat.not_lt.mpr whole)
  rw [decodeURIComponent_plain plain] at went
  rw [← Option.some.inj went]
  exact ⟨rfl, plain⟩

theorem length_captureSegments {segments : List RouteSegment} {text : UrlText}
    {captured : List (Option UrlText)} (found : captureSegments segments text = some captured) :
    captured.length = (segments.filterMap RouteSegment.param?).length := by
  induction segments generalizing text captured with
  | nil =>
      rw [captureSegments] at found
      split at found
      · cases found
        rfl
      · cases found
  | cons segment after ih =>
      have skipped (went : ((captureSegments after text).map (Option.none :: ·)) = some captured) :
          captured.length = (after.filterMap RouteSegment.param?).length + 1 := by
        obtain ⟨later, isLater, rfl⟩ := Option.map_eq_some_iff.mp went
        rw [List.length_cons, ih isLater]
      cases segment with
      | fixed fixed =>
          rw [captureSegments] at found
          split at found
          · cases found
          · exact ih found
      | param name =>
          rw [captureSegments] at found
          obtain ⟨_, _, later, _, isLater, rfl⟩ := captureBehindSlash_eq_some
            (fun _ _ member => (mem_someSplits.mp member).1) found
          exact congrArg (· + 1) (ih isLater)
      | optional name =>
          rw [captureSegments, Option.or_eq_some_iff] at found
          rcases found with found | ⟨_, went⟩
          · obtain ⟨_, _, later, _, isLater, rfl⟩ := captureBehindSlash_eq_some
              (fun _ _ member => (mem_someSplits.mp (List.mem_reverse.mp member)).1) found
            exact congrArg (· + 1) (ih isLater)
          · exact skipped went
      | rest name =>
          rw [captureSegments, Option.or_eq_some_iff] at found
          rcases found with found | ⟨_, went⟩
          · obtain ⟨_, _, later, _, isLater, rfl⟩ := captureBehindSlash_eq_some
              (fun _ _ member => (mem_splits.mp (List.mem_reverse.mp member)).1) found
            exact congrArg (· + 1) (ih isLater)
          · exact skipped went

def Carried (matched : OrderedMap UrlText UrlText) :
    Option UrlText → RouteParam → Prop
  | none, param => matched.get? param.name = if param.rest then some [] else none
  | some text, param => ∃ decoded, decodeURIComponent text = some decoded ∧
      matched.get? param.name = some decoded

theorem Carried.congr {matched recorded : OrderedMap UrlText UrlText} {value : Option UrlText}
    {param : RouteParam} (carried : Carried recorded value param)
    (same : matched.get? param.name = recorded.get? param.name) : Carried matched value param := by
  cases value with
  | none => exact same.trans carried
  | some text =>
      obtain ⟨decoded, isDecoded, stored⟩ := carried
      exact ⟨decoded, isDecoded, same.trans stored⟩

theorem get?_assign_of_ne {result : OrderedMap UrlText UrlText} {name other : UrlText}
    (different : other ≠ name) (value : UrlText) :
    (assign result name value).get? other = result.get? other := by
  unfold assign
  split
  · rfl
  · exact OrderedMap.get?_set_of_ne _ _ different

theorem get?_record_of_ne {result recorded : OrderedMap UrlText UrlText}
    {capture : Option UrlText × RouteParam} (went : record result capture = .ok recorded)
    {name : UrlText} (different : name ≠ capture.2.name) :
    recorded.get? name = result.get? name := by
  unfold record at went
  split at went
  · cases went
    split
    · exact get?_assign_of_ne different _
    · rfl
  · split at went
    · cases went
    · cases went
      exact get?_assign_of_ne different _

theorem carried_record {result recorded : OrderedMap UrlText UrlText}
    {capture : Option UrlText × RouteParam} (went : record result capture = .ok recorded)
    (absent : result.get? capture.2.name = none) (notProto : capture.2.name ≠ protoName) :
    Carried recorded capture.1 capture.2 := by
  obtain ⟨value, param⟩ := capture
  have stored (text : UrlText) : (assign result param.name text).get? param.name = some text := by
    rw [assign, if_neg notProto, OrderedMap.get?_set_self]
  cases value with
  | none =>
      rw [record] at went
      cases went
      rw [Carried]
      split
      · exact stored []
      · exact absent
  | some text =>
      rw [record] at went
      simp only at went
      split at went
      · cases went
      · next decoded isDecoded =>
          cases went
          exact ⟨decoded, isDecoded, stored decoded⟩

theorem carried_foldlM {captures : List (Option UrlText × RouteParam)}
    {result matched : OrderedMap UrlText UrlText}
    (went : captures.foldlM record result = .ok matched)
    (unique : (captures.map fun capture => capture.2.name).Nodup)
    (proto : protoName ∉ captures.map fun capture => capture.2.name)
    (absent : ∀ capture ∈ captures, result.get? capture.2.name = none) :
    (∀ capture ∈ captures, Carried matched capture.1 capture.2) ∧
      ∀ name ∉ captures.map fun capture => capture.2.name, matched.get? name = result.get? name := by
  induction captures generalizing result with
  | nil =>
      cases went
      exact ⟨nofun, fun _ _ => rfl⟩
  | cons capture rest ih =>
      rw [List.map_cons, List.nodup_cons] at unique
      rw [List.map_cons, List.mem_cons, not_or] at proto
      rw [List.forall_mem_cons] at absent
      rw [List.foldlM_cons] at went
      cases step : record result capture with
      | error message =>
          rw [step] at went
          cases went
      | ok recorded =>
          rw [step] at went
          have others : ∀ other ∈ rest, recorded.get? other.2.name = none := by
            intro other member
            have different : other.2.name ≠ capture.2.name := by
              intro same
              exact unique.1 (same ▸ List.mem_map_of_mem (f := fun capture => capture.2.name) member)
            rw [get?_record_of_ne step different]
            exact absent.2 other member
          obtain ⟨carried, kept⟩ := ih went unique.2 proto.2 others
          refine ⟨?_, fun name other => ?_⟩
          · rw [List.forall_mem_cons]
            refine ⟨?_, carried⟩
            exact (carried_record step absent.1 (Ne.symm proto.1)).congr (kept _ unique.1)
          · rw [List.map_cons, List.mem_cons, not_or] at other
            rw [kept name other.2, get?_record_of_ne step other.1]

theorem get?_protoName_foldlM {captures : List (Option UrlText × RouteParam)}
    {result matched : OrderedMap UrlText UrlText}
    (went : captures.foldlM record result = .ok matched) :
    matched.get? protoName = result.get? protoName := by
  have assigned (result : OrderedMap UrlText UrlText) (name value : UrlText) :
      (assign result name value).get? protoName = result.get? protoName := by
    unfold assign
    split
    · rfl
    · next other => exact OrderedMap.get?_set_of_ne _ _ (Ne.symm other)
  induction captures generalizing result with
  | nil =>
      cases went
      rfl
  | cons capture rest ih =>
      rw [List.foldlM_cons] at went
      cases step : record result capture with
      | error message =>
          rw [step] at went
          cases went
      | ok recorded =>
          rw [step] at went
          rw [ih went]
          unfold record at step
          split at step
          · cases step
            split
            · exact assigned _ _ _
            · rfl
          · split at step
            · cases step
            · cases step
              exact assigned _ _ _

section

variable {values : UrlText → UrlText}

def Returned (values : UrlText → UrlText) : Option UrlText → RouteParam → Prop
  | none, param => param.rest = true ∧ values param.name = []
  | some text, param => decodeURIComponent text = some (values param.name)

def Exact (values : UrlText → UrlText) : Option UrlText → RouteParam → Prop
  | none, param => param.rest = true ∧ values param.name = []
  | some text, param => text = values param.name ∧ '%' ∉ values param.name

theorem exact_of_returned {captured : List (Option UrlText)} {params : List RouteParam}
    (returned : List.Forall₂ (Returned values) captured params) :
    (params.map fun param => solid (values param.name)).sum ≤ capturedCount isSolid captured ∧
      (capturedCount isSolid captured ≤ (params.map fun param => solid (values param.name)).sum →
        List.Forall₂ (Exact values) captured params) := by
  induction returned with
  | nil => exact ⟨le_refl _, fun _ => .nil⟩
  | @cons value param captured params own others ih =>
      obtain ⟨kept, exact⟩ := ih
      have total : capturedCount isSolid (value :: captured) =
          solid (value.getD []) + capturedCount isSolid captured := rfl
      rw [List.map_cons, List.sum_cons, total]
      cases value with
      | none =>
          have empty : solid (values param.name) = 0 := by
            rw [own.2]
            rfl
          have nothing : solid ((none : Option UrlText).getD []) = 0 := rfl
          rw [empty, nothing]
          exact ⟨by omega, fun whole => .cons own (exact (by omega))⟩
      | some text =>
          obtain ⟨shorter, same⟩ := eq_of_decodeURIComponent own
          rw [Option.getD_some]
          exact ⟨by omega, fun whole => .cons (same (by omega)) (exact (by omega))⟩

theorem captureBehindSlash_way {next : UrlText → Option (List (Option UrlText))}
    {ways : UrlText → List (UrlText × UrlText)} {text : UrlText}
    {captured : List (Option UrlText)}
    (found : captureBehindSlash next ways text = some captured) :
    ∃ inner value left later, text = '/' :: inner ∧ (value, left) ∈ ways inner ∧
      next left = some later ∧ captured = some value :: later := by
  cases text with
  | nil => cases found
  | cons char inner =>
      rw [captureBehindSlash] at found
      split at found
      · next slash =>
          obtain ⟨⟨value, left⟩, member, later, isLater, same⟩ := captureFirst_eq_some found
          exact ⟨inner, value, left, later, by rw [slash], member, isLater, same⟩
      · cases found

def skips (captured : List (Option UrlText)) : Nat := captured.countP Option.isNone

variable {after segments : List RouteSegment}

theorem rendered_of_exact {text : UrlText} {captured : List (Option UrlText)}
    (found : captureSegments segments text = some captured)
    (exact : List.Forall₂ (Exact values) captured (segments.filterMap RouteSegment.param?)) :
    ∃ rendered ending, text = rendered ++ ending ∧ (ending = [] ∨ ending = ['/']) ∧
      rendered.length + skips captured = (filledPath values segments).length ∧
      (skips captured = 0 → rendered = filledPath values segments) ∧ Reads segments rendered := by
  induction segments generalizing text captured with
  | nil =>
      rw [captureSegments] at found
      split at found
      · next ends =>
          cases found
          exact ⟨[], text, rfl, ends, rfl, fun _ => rfl, reads_nil.mpr (Or.inl rfl)⟩
      · cases found
  | cons segment after ih =>
      have taken {value left : UrlText} {later : List (Option UrlText)} (name : UrlText)
          (isName : segment.filled values = values name) (same : value = values name)
          (isLater : captureSegments after left = some later)
          (others : List.Forall₂ (Exact values) later (after.filterMap RouteSegment.param?)) :
          ∃ rendered ending, left = rendered ++ ending ∧ (ending = [] ∨ ending = ['/']) ∧
            ('/' :: (value ++ rendered)).length + skips (some value :: later) =
              (filledPath values (segment :: after)).length ∧
            (skips (some value :: later) = 0 →
              '/' :: (value ++ rendered) = filledPath values (segment :: after)) ∧
            Reads after rendered := by
        obtain ⟨rendered, ending, whole, ends, length, all, reads⟩ := ih isLater others
        have none : skips (some value :: later) = skips later :=
          List.countP_cons_of_neg Bool.false_ne_true
        refine ⟨rendered, ending, whole, ends, ?_, fun zero => ?_, reads⟩
        · rw [none, filledPath_cons, isName, same, List.length_cons, List.length_cons,
            List.length_append, List.length_append]
          omega
        · rw [none] at zero
          rw [filledPath_cons, isName, same, all zero]
      cases segment with
      | fixed fixed =>
          rw [captureSegments] at found
          split at found
          · cases found
          · next left dropped =>
              obtain ⟨_, whole, equal⟩ := List.dropPrefix?_eq_some_iff.mp dropped
              rw [beq_iff_eq] at equal
              subst equal
              obtain ⟨rendered, ending, same, ends, length, all, reads⟩ := ih found exact
              refine ⟨'/' :: (fixed ++ rendered), ending, ?_, ends, ?_, fun zero => ?_,
                reads_fixed.mpr ⟨rendered, rfl, reads⟩⟩
              · rw [whole, same, List.cons_append, List.cons_append, List.append_assoc]
              · rw [filledPath_cons, RouteSegment.filled, List.length_cons, List.length_cons,
                  List.length_append, List.length_append]
                omega
              · rw [filledPath_cons, RouteSegment.filled, all zero]
      | param name =>
          rw [captureSegments] at found
          obtain ⟨inner, value, left, later, rfl, member, isLater, rfl⟩ :=
            captureBehindSlash_way found
          obtain ⟨whole, clean, nonempty⟩ := mem_someSplits.mp member
          cases exact with
          | cons own others =>
          obtain ⟨rendered, ending, same, ends, length, all, reads⟩ :=
            taken name rfl own.1 isLater others
          refine ⟨_, ending, ?_, ends, length, all, reads_param.mpr ⟨value, rendered, rfl, nonempty,
            fun slash => absurd rfl (of_decide_eq_true (clean '/' slash)), reads⟩⟩
          rw [whole, same, List.cons_append, List.append_assoc]
      | optional name =>
          rw [captureSegments, Option.or_eq_some_iff] at found
          rcases found with found | ⟨_, went⟩
          · obtain ⟨inner, value, left, later, rfl, member, isLater, rfl⟩ :=
              captureBehindSlash_way found
            obtain ⟨whole, clean, nonempty⟩ := mem_someSplits.mp (List.mem_reverse.mp member)
            cases exact with
            | cons own others =>
            obtain ⟨rendered, ending, same, ends, length, all, reads⟩ :=
              taken name rfl own.1 isLater others
            refine ⟨_, ending, ?_, ends, length, all, reads_optional.mpr (Or.inl ⟨value, rendered,
              rfl, nonempty, fun slash => absurd rfl (of_decide_eq_true (clean '/' slash)), reads⟩)⟩
            rw [whole, same, List.cons_append, List.append_assoc]
          · obtain ⟨later, _, rfl⟩ := Option.map_eq_some_iff.mp went
            cases exact with
            | cons own others => cases own.1
      | rest name =>
          rw [captureSegments, Option.or_eq_some_iff] at found
          rcases found with found | ⟨_, went⟩
          · obtain ⟨inner, value, left, later, rfl, member, isLater, rfl⟩ :=
              captureBehindSlash_way found
            obtain ⟨whole, clean⟩ := mem_splits.mp (List.mem_reverse.mp member)
            cases exact with
            | cons own others =>
            obtain ⟨rendered, ending, same, ends, length, all, reads⟩ :=
              taken name rfl own.1 isLater others
            refine ⟨_, ending, ?_, ends, length, all, reads_rest.mpr (Or.inl ⟨value, rendered, rfl,
              fun char inside => by simpa using clean char inside, reads⟩)⟩
            rw [whole, same, List.cons_append, List.append_assoc]
          · obtain ⟨later, isLater, rfl⟩ := Option.map_eq_some_iff.mp went
            cases exact with
            | cons own others =>
            obtain ⟨rendered, ending, same, ends, length, all, reads⟩ := ih isLater others
            have more : skips (none :: later) = skips later + 1 := List.countP_cons_of_pos rfl
            refine ⟨rendered, ending, same, ends, ?_, fun zero => ?_,
              reads_rest.mpr (Or.inr reads)⟩
            · rw [more, filledPath_cons, RouteSegment.filled, own.2, List.length_cons,
                List.nil_append]
              omega
            · rw [more] at zero
              cases zero

theorem fits_of_captured {captured : List (Option UrlText)}
    (found : captureSegments segments (filledPath values segments) = some captured)
    (exact : List.Forall₂ (Exact values) captured (segments.filterMap RouteSegment.param?)) :
    Fits values segments := by
  induction segments generalizing captured with
  | nil => exact trivial
  | cons segment after ih =>
      rw [filledPath_cons] at found
      cases segment with
      | fixed text =>
          rw [captureSegments] at found
          split at found
          · cases found
          · next left dropped =>
              obtain ⟨_, whole, equal⟩ := List.dropPrefix?_eq_some_iff.mp dropped
              rw [beq_iff_eq] at equal
              subst equal
              have same : filledPath values after = left :=
                @List.append_cancel_left _ ('/' :: text) _ _ whole
              rw [← same] at found
              exact ih found exact
      | param name =>
          rw [captureSegments] at found
          obtain ⟨inner, value, left, later, text, member, isLater, rfl⟩ :=
            captureBehindSlash_way found
          obtain ⟨whole, clean, _⟩ := mem_someSplits.mp member
          cases exact with
          | cons own others =>
          rw [← (List.cons.inj text).2, RouteSegment.filled, ← own.1] at whole
          rw [← List.append_cancel_left whole] at isLater
          refine ⟨fun slash => ?_, ih isLater others⟩
          rw [← own.1] at slash
          exact absurd rfl (of_decide_eq_true (clean '/' slash))
      | optional name =>
          rw [captureSegments, Option.or_eq_some_iff] at found
          rcases found with found | ⟨_, went⟩
          · obtain ⟨inner, value, left, later, text, member, isLater, rfl⟩ :=
              captureBehindSlash_way found
            obtain ⟨whole, clean, _⟩ := mem_someSplits.mp (List.mem_reverse.mp member)
            cases exact with
            | cons own others =>
            rw [← (List.cons.inj text).2, RouteSegment.filled, ← own.1] at whole
            rw [← List.append_cancel_left whole] at isLater
            refine ⟨fun slash => ?_, ih isLater others⟩
            rw [← own.1] at slash
            exact absurd rfl (of_decide_eq_true (clean '/' slash))
          · obtain ⟨later, _, rfl⟩ := Option.map_eq_some_iff.mp went
            cases exact with
            | cons own others => cases own.1
      | rest name =>
          rw [captureSegments, captureBehindSlash, if_pos rfl, Option.or_eq_some_iff] at found
          rcases found with found | ⟨none, went⟩
          · obtain ⟨before, way, behind, split, went, earlier⟩ := List.findSome?_eq_some_iff.mp found
            obtain ⟨later, isLater, rfl⟩ := Option.map_eq_some_iff.mp went
            cases exact with
            | cons own others =>
            have sorted := List.pairwise_reverse.mpr (pairwise_splits (!isLineTerminator ·)
              (values name ++ filledPath values after))
            have member (way : UrlText × UrlText) :
                way ∈ before ++ way :: behind := List.mem_append_right _ List.mem_cons_self
            have isWay := member way
            rw [← split, RouteSegment.filled] at isWay
            obtain ⟨whole, clean⟩ := mem_splits.mp (List.mem_reverse.mp isWay)
            rw [own.1] at whole clean
            have left := List.append_cancel_left whole
            rw [← left] at isLater
            have oneLine : ∀ char ∈ values name, isLineTerminator char = false :=
              fun char inside => by simpa using clean char inside
            refine ⟨oneLine, fun longer rest same some plain reads => ?_, ih isLater others⟩
            have among : (values name ++ longer, rest) ∈
                (splits (!isLineTerminator ·) (values name ++ filledPath values after)).reverse := by
              refine List.mem_reverse.mpr (mem_splits.mpr ⟨by rw [same, List.append_assoc], ?_⟩)
              intro char inside
              rcases List.mem_append.mp inside with inside | inside
              · exact clean char inside
              · rw [plain char inside]
                rfl
            have positive := List.length_pos_iff.mpr some
            rw [RouteSegment.filled] at split
            rw [split] at sorted among
            rw [List.pairwise_append, List.pairwise_cons] at sorted
            rcases List.mem_append.mp among with first | last
            · have fails := Option.map_eq_none_iff.mp (earlier _ first)
              unfold Reads at reads
              rw [fails] at reads
              cases reads
            · rcases List.mem_cons.mp last with equal | last
              · have lengths := congrArg (fun way => way.1.length) equal
                simp only [List.length_append, own.1] at lengths
                omega
              · have shorter := sorted.2.1.1 _ last
                simp only [List.length_append, own.1] at shorter
                omega
          · -- A rest that is skipped leaves a slash too many for the segments behind it.
            obtain ⟨later, isLater, rfl⟩ := Option.map_eq_some_iff.mp went
            cases exact with
            | cons own others =>
            rw [RouteSegment.filled, own.2, List.nil_append] at none isLater
            obtain ⟨rendered, ending, whole, ends, length, all, reads⟩ :=
              rendered_of_exact isLater others
            have total := congrArg List.length whole
            rw [List.length_cons, List.length_append] at total
            have zero : skips later = 0 := by
              rcases ends with rfl | rfl
              · rw [List.length_nil] at total
                omega
              · rw [List.length_singleton] at total
                omega
            rw [all zero] at reads
            have taken : (captureFirst (captureSegments after)
                (splits (!isLineTerminator ·) (filledPath values after)).reverse).isSome := by
              refine captureFirst_isSome.mpr ⟨([], filledPath values after),
                List.mem_reverse.mpr (mem_splits.mpr ⟨rfl, List.forall_mem_nil _⟩), reads⟩
            rw [none] at taken
            cases taken

end

section

variable {numbers : Numbers} {matched : OrderedMap UrlText UrlText} {name text : UrlText}

theorem get?_foldl_parseVariable_ne_text {declarations : List (UrlText × ScalarType)}
    {vars : Variables numbers} (absent : matched.get? name = none)
    (start : vars.get? name ≠ some (.single (.text text))) :
    (declarations.foldl (parseVariable matched) vars).get? name ≠ some (.single (.text text)) := by
  induction declarations generalizing vars with
  | nil => exact start
  | cons declared rest ih =>
      rw [List.foldl_cons]
      refine ih ?_
      by_cases same : name = declared.1
      · subst same
        rw [parseVariable, absent]
        simp only
        split
        · rw [setVariable]
          split
          · exact start
          · rw [OrderedMap.get?_set_self]
            obtain ⟨_, type⟩ := declared
            cases type <;> (intro found; cases found)
        · exact start
      · rw [get?_parseVariable_of_ne same]
        exact start

theorem matched_of_parseVariables {documents : List (List (UrlText × ScalarType))}
    (proto : matched.get? protoName = none)
    (parsed : (@parseVariables numbers documents matched).get? name =
      some (.single (.text text))) : matched.get? name = some text := by
  have start : (matched.mapValues fun _ text => @Variable.single numbers (.text text)).get?
      name = (matched.get? name).map fun text => .single (.text text) :=
    OrderedMap.get?_mapValues _ _ _
  cases present : matched.get? name with
  | none =>
      rw [present] at start
      exact absurd parsed (get?_foldl_parseVariable_ne_text present (by rw [start]; exact nofun))
  | some own =>
      rw [parseVariables] at parsed
      cases own with
      | nil =>
          rw [get?_foldl_parseVariable_of_empty present, start, present] at parsed
          cases parsed
          rfl
      | cons char rest =>
          have notProto : name ≠ protoName := by
            rintro rfl
            rw [proto] at present
            cases present
          rw [get?_foldl_parseVariable notProto present, start, present] at parsed
          split at parsed
          · next type _ =>
              rw [parsedVariable] at parsed
              cases type with
              | boolean => cases parsed
              | id => cases parsed; rfl
              | string => cases parsed; rfl
              | int =>
                  rw [parseScalar] at parsed
                  cases number : numbers.parseInt (char :: rest) with
                  | none => rw [number] at parsed; cases parsed
                  | some value => rw [number] at parsed; cases parsed
              | float =>
                  rw [parseScalar] at parsed
                  cases number : numbers.parseFloat (char :: rest) with
                  | none => rw [number] at parsed; cases parsed
                  | some value => rw [number] at parsed; cases parsed
          · cases parsed
            rfl

end

theorem forall₂_exists {α β : Type*} {R : α → β → Prop} {left : List α} {right : List β}
    (related : List.Forall₂ R left right) {second : β} (member : second ∈ right) :
    ∃ first, R first second := by
  induction related with
  | nil => cases member
  | cons own others ih =>
      rcases List.mem_cons.mp member with rfl | later
      · exact ⟨_, own⟩
      · exact ih later

theorem solid_urlWith (values : UrlText → UrlText) (dir : RouteDir) :
    solid (dir.urlWith values) = (dir.segments.map (RouteSegment.fixedCount isSolid)).sum +
      ((dir.segments.filterMap RouteSegment.param?).map fun param => solid (values param.name)).sum := by
  have filled (segments : List RouteSegment) : solid (filledPath values segments) =
      (segments.map (RouteSegment.fixedCount isSolid)).sum +
        ((segments.filterMap RouteSegment.param?).map fun param => solid (values param.name)).sum := by
    induction segments with
    | nil => rfl
    | cons segment rest ih =>
        have value (name : UrlText) : solid (values name) +
            ((rest.map (RouteSegment.fixedCount isSolid)).sum + ((rest.filterMap
              RouteSegment.param?).map fun param => solid (values param.name)).sum) =
            0 + (rest.map (RouteSegment.fixedCount isSolid)).sum + (solid (values name) +
              ((rest.filterMap RouteSegment.param?).map fun param =>
                solid (values param.name)).sum) := by
          omega
        rw [filledPath_cons, solid_slash, solid_append, ih, List.map_cons, List.sum_cons]
        cases segment with
        | fixed text =>
            change solid text + _ = solid text + _ + _
            rw [List.filterMap_cons_none rfl]
            omega
        | param name =>
            exact value name
        | optional name =>
            exact value name
        | rest name =>
            exact value name
  rw [RouteDir.urlWith]
  split
  · next none =>
      rw [none]
      rfl
  · exact filled dir.segments

theorem solid_path_lt {url : UrlText} (question : '?' ∈ url) (search : UrlText) :
    solid ((url ++ search).takeWhile (· ≠ '?')) < solid url := by
  obtain ⟨before, behind, plain, rfl⟩ : ∃ before behind, '?' ∉ before ∧
      url = before ++ '?' :: behind := by
    obtain ⟨before, behind, whole, plain⟩ := List.eq_append_cons_of_mem question
    exact ⟨before, behind, plain, whole⟩
  have clean : ∀ char ∈ before, decide (char ≠ '?') = true := fun char member =>
    decide_eq_true fun same => plain (same ▸ member)
  rw [List.append_assoc, List.takeWhile_append_of_pos clean, List.cons_append,
    List.takeWhile_cons_of_neg (by decide), List.append_nil, solid_append,
    solid_cons (by decide)]
  omega

namespace Assignment

variable {numbers : Numbers} {route : LinkedRoute} {assignment : Assignment numbers route}
  {isPrint : Char → Bool} {malformed : ByteArray → UrlText}

/-- What the exact condition is known for: parameters of different names that are texts, no optional
or rest one with an opening bracket, and no variable with the name of an inherited property. -/
structure Ordinary (assignment : Assignment numbers route) : Prop where
  unique : route.names.Nodup
  texts : ∀ name ∈ route.names, ∃ text, assignment.params name = .text text
  brackets : ∀ segment ∈ route.dir.segments, BracketFree assignment.params segment
  own : ∀ name ∈ inheritedNames, name ∉ route.names →
    (∀ declared ∈ route.documents.flatten, declared.1 ≠ name) ∧
      ∀ param ∈ route.searchParams, param.name ≠ name

theorem match_of_findVariables {vars : Variables numbers} {current : UrlText}
    (went : findVariables isPrint malformed route.toLinkedPage current = .ok (some vars)) :
    ∃ captured matched,
      route.dir.pattern.captures (current.takeWhile (· ≠ '?')) = some captured ∧
      exec captured (route.dir.segments.filterMap RouteSegment.param?) = .ok matched ∧
      vars = if (current.dropWhile (· ≠ '?')).drop 1 = [] then
        parseVariables route.documents matched
      else route.searchParams.foldl
        (fillParam (parseForm malformed ((current.dropWhile (· ≠ '?')).drop 1)))
        (parseVariables route.documents matched) := by
  unfold findVariables at went
  cases result : findMatch [route.dir.page.routerPage isPrint] current with
  | error message =>
      rw [result] at went
      cases went
  | ok found =>
      rw [result] at went
      cases found with
      | none => cases went
      | some found =>
          obtain ⟨page, matched⟩ := found
          obtain ⟨before, behind, captured, same, own, _, ran⟩ := Routes.findMatch_eq_ok.mp result
          cases before with
          | cons first others =>
              have lengths := congrArg List.length same
              simp at lengths
          | nil =>
              obtain ⟨isPage, _⟩ := List.cons.inj same
              rw [← isPage] at own ran
              rw [params_routerPage route.plain] at ran
              refine ⟨captured, matched, own, ran, ?_⟩
              change (if _ then _ else _) = _ at went
              split at went
              · next none =>
                  cases went
                  rw [if_pos none]
              · next some =>
                  cases went
                  rw [if_neg some]

theorem get?_name {vars : Variables numbers} {entries : List (UrlText × UrlText)}
    {parsed : Variables numbers} {query : UrlText}
    (same : vars = if query = [] then parsed else
      route.searchParams.foldl (fillParam entries) parsed)
    {name : UrlText} (member : name ∈ route.names) : vars.get? name = parsed.get? name := by
  have apart : name ∉ route.searchParams.map SearchParam.name := by
    intro among
    obtain ⟨param, isParam, rfl⟩ := List.mem_map.mp among
    exact route.search_apart param isParam member
  rw [same]
  split
  · rfl
  · exact get?_foldl_fillParam_of_not_mem apart parsed

theorem returned_of_roundTrips {captured : List (Option UrlText)}
    {matched : OrderedMap UrlText UrlText} (unique : route.names.Nodup)
    (long : captured.length = (route.dir.segments.filterMap RouteSegment.param?).length)
    (ran : exec captured (route.dir.segments.filterMap RouteSegment.param?) = .ok matched)
    (reads : ∀ name ∈ route.names, matched.get? name = some (valueText assignment.params name)) :
    protoName ∉ route.names ∧ (∀ name ∉ route.names, matched.get? name = none) ∧
      List.Forall₂ (Returned (valueText assignment.params)) captured
        (route.dir.segments.filterMap RouteSegment.param?) := by
  have names : (captured.zip (route.dir.segments.filterMap RouteSegment.param?)).map
      (fun capture => capture.2.name) = route.names := by
    rw [LinkedRoute.names, routeNames, ← List.map_snd_zip (Nat.le_of_eq long.symm), List.map_map]
    rw [List.map_snd_zip (Nat.le_of_eq long.symm)]
    rfl
  have proto : protoName ∉ route.names := by
    intro member
    have nothing : matched.get? protoName = none := get?_protoName_foldlM ran
    rw [reads protoName member] at nothing
    cases nothing
  obtain ⟨carried, kept⟩ := carried_foldlM ran (names ▸ unique) (names ▸ proto) fun _ _ => rfl
  refine ⟨proto, fun name other => kept name (names ▸ other), ?_⟩
  refine List.forall₂_iff_zip.mpr ⟨long, fun {value param} member => ?_⟩
  have own := carried (value, param) member
  have isName : param.name ∈ route.names := by
    rw [← names]
    exact List.mem_map_of_mem (f := fun capture => capture.2.name) member
  have read := reads param.name isName
  cases value with
  | none =>
      have stored : matched.get? param.name = if param.rest then some [] else none := own
      rw [read] at stored
      split at stored
      · next rest => exact ⟨rest, Option.some.inj stored⟩
      · cases stored
  | some text =>
      obtain ⟨decoded, isDecoded, stored⟩ := own
      rw [read] at stored
      rw [← Option.some.inj stored] at isDecoded
      exact isDecoded

theorem RoundTrips.legible (roundTrips : assignment.RoundTrips isPrint malformed)
    (ordinary : assignment.Ordinary) : assignment.Legible := by
  obtain ⟨literal, vars, went, params, search⟩ := roundTrips
  obtain ⟨captured, matched, own, ran, same⟩ := match_of_findVariables went
  rw [href_eq ordinary.brackets] at own same
  have nothing : matched.get? protoName = none := get?_protoName_foldlM ran
  have reads : ∀ name ∈ route.names,
      matched.get? name = some (valueText assignment.params name) := by
    intro name member
    obtain ⟨text, isText⟩ := ordinary.texts name member
    have given := params name member
    rw [get?_name same member, isText] at given
    rw [matched_of_parseVariables nothing given, valueText, isText]
    rfl
  have long : captured.length = (route.dir.segments.filterMap RouteSegment.param?).length := by
    rw [pattern_eq] at own
    split at own
    · next root =>
        rw [PagePattern.captures] at own
        split at own
        · cases own
          rw [segments_eq_nil_of_root root]
          rfl
        · cases own
    · exact length_captureSegments own
  obtain ⟨proto, others, returned⟩ := returned_of_roundTrips ordinary.unique long ran reads
  obtain ⟨kept, exact⟩ := exact_of_returned returned
  have counted := @Routes.countP_captures isSolid (by decide) _ _ _ own
  have whole := solid_urlWith (valueText assignment.params) route.dir
  have plain : '?' ∉ route.dir.urlWith (valueText assignment.params) := by
    intro question
    have shorter := solid_path_lt question (serializeSearch assignment.search.entries)
    unfold solid at shorter whole
    rw [counted, whole] at shorter
    unfold solid at kept
    omega
  obtain ⟨path, query⟩ := path_append plain assignment.search.entries
  rw [path] at own counted
  have exactly := exact (by
    unfold solid at whole ⊢
    rw [counted] at whole
    exact Nat.le_of_eq (Nat.add_left_cancel whole))
  have inUrl : ∀ segment ∈ route.dir.segments,
      '?' ∉ segment.filled (valueText assignment.params) := by
    intro segment member question
    refine plain ?_
    rw [RouteDir.urlWith, if_neg (List.ne_nil_of_mem member)]
    exact List.mem_flatMap.mpr ⟨segment, member, List.mem_cons_of_mem _ question⟩
  refine ⟨fun text member => ⟨inUrl _ member, (isLiteral_iff _).mp literal text member⟩, proto,
    ordinary.own, fun name member => ⟨?_, ?_⟩, ordinary.brackets, ?_, fun name values given => ?_⟩
  · obtain ⟨param, isParam, rfl⟩ := List.mem_map.mp member
    obtain ⟨value, isExact⟩ := forall₂_exists exactly isParam
    cases value with
    | none =>
        rw [isExact.2]
        exact List.not_mem_nil
    | some text => exact isExact.2
  · obtain ⟨param, isParam, rfl⟩ := List.mem_map.mp member
    obtain ⟨segment, among, same⟩ := List.mem_filterMap.mp isParam
    have inside := inUrl segment among
    cases segment with
    | fixed text => cases same
    | param name => cases same; exact inside
    | optional name => cases same; exact inside
    | rest name => cases same; exact inside
  · rw [pattern_eq] at own
    split at own
    · next root =>
        rw [segments_eq_nil_of_root root]
        exact trivial
    · rw [PagePattern.captures, RouteDir.urlWith] at own
      split at own
      · next none =>
          rw [none]
          exact trivial
      · exact fits_of_captured own exactly
  · obtain ⟨param, among, isName, hasType⟩ := assignment.search_typed name _ given
    have apart : name ∉ route.names := isName ▸ route.search_apart param among
    have gives := search name apart
    rw [given] at gives
    obtain ⟨kept, read, rfl⟩ := gives
    refine ⟨?_, by simp⟩
    intro none
    rw [List.map_eq_nil_iff] at none
    subst none
    -- An empty list is not in the query, and nothing else fills the variable.
    have absent : (@parseVariables numbers route.documents matched).get? name = none := by
      have start : (matched.mapValues fun _ text =>
          @Variable.single numbers (.text text)).get? name =
            (matched.get? name).map fun text => .single (.text text) :=
        OrderedMap.get?_mapValues _ _ _
      rw [parseVariables, get?_foldl_parseVariable_of_absent (others name apart), start,
        others name apart]
      · rfl
      · exact fun declared inside equal inherited =>
          (ordinary.own name inherited apart).1 declared inside equal
    rw [query, parseForm_serializeForm] at same
    have unfilled : vars.get? name = none := by
      rw [same]
      split
      · exact absent
      · obtain ⟨before, reads, filled⟩ := @get?_foldl_fillParam _
          (searchEntries assignment.search.entries) _ _ route.search_nodup among
          (parseVariables route.documents matched)
        rw [isName] at reads filled
        rw [filled, fillParam, isName, getAll_searchEntries, given]
        split
        · exact reads.trans absent
        · exact reads.trans absent
    rw [unfilled] at read
    cases read

/-- Links with legible values round-trip, and of ordinary ones no others do. -/
theorem roundTrips_legible (assignment : Assignment numbers route) (isPrint : Char → Bool)
    (malformed : ByteArray → UrlText) :
    (assignment.Legible → assignment.RoundTrips isPrint malformed) ∧
      (assignment.Ordinary → (assignment.RoundTrips isPrint malformed ↔ assignment.Legible)) :=
  ⟨fun legible => legible.roundTrips isPrint malformed, fun ordinary =>
    ⟨fun roundTrips => roundTrips.legible ordinary,
      fun legible => legible.roundTrips isPrint malformed⟩⟩

def digits : Numbers where
  Number := Fin 10
  isInt _ := True
  print digit := [Nat.digitChar digit.val]
  parseInt text := (List.finRange 10).find? fun digit => [Nat.digitChar digit.val] = text
  parseFloat text := (List.finRange 10).find? fun digit => [Nat.digitChar digit.val] = text
  print_ne_nil _ := List.cons_ne_nil _ _
  print_symbol digit := by
    revert digit
    simp only [List.forall_mem_singleton]
    decide
  parseInt_print := fun digit _ => by revert digit; decide
  parseFloat_print := by decide

def userDir : RouteDir where
  path := [⟨['u', 's', 'e', 'r', 's'], by decide, by decide⟩,
    ⟨['[', 'i', 'd', ']'], by decide, by decide⟩]
  hasPage := true

theorem userDir_segments :
    userDir.segments = [.fixed ['u', 's', 'e', 'r', 's'], .param ['i', 'd']] := by
  decide +kernel

def userRoute : LinkedRoute where
  dir := userDir
  documents := [[(['i', 'd'], .id), (['t', 'a', 'b'], .string)]]
  searchParams := [⟨['t', 'a', 'b'], .string, false⟩]
  plain := by
    rw [userDir_segments]
    simp only [List.forall_mem_cons]
    exact ⟨⟨by decide, by decide⟩, ⟨by decide, List.all_iff_forall_prop.mp (by decide)⟩, nofun⟩
  search_nodup := by decide
  search_apart := by
    rw [userDir_segments]
    decide

theorem userRoute_segments :
    userRoute.dir.segments = [.fixed ['u', 's', 'e', 'r', 's'], .param ['i', 'd']] :=
  userDir_segments

theorem userRoute_names : userRoute.names = [['i', 'd']] := by
  rw [LinkedRoute.names, routeNames, userRoute_segments]
  rfl

def userAssignment (id : UrlText) (nonempty : id ≠ []) : Assignment digits userRoute where
  params _ := .text id
  search := .singleton ['t', 'a', 'b'] (.scalar (.text ['a', 'l', 'l']))
  params_typed := by
    rw [userRoute_names]
    simp only [List.forall_mem_cons]
    exact ⟨Or.inl (by decide), nofun⟩
  params_filled _ _ _ _ := nonempty
  search_typed := by
    intro name value given
    rw [OrderedMap.singleton, OrderedMap.get?_set] at given
    split at given
    · next same =>
        cases given
        exact ⟨_, List.mem_singleton_self _, same.symm, rfl, Or.inr rfl⟩
    · cases given

theorem userAssignment_lists {id : UrlText} {nonempty : id ≠ []} {name : UrlText}
    {values : List (Option (ScalarValue digits))} :
    (userAssignment id nonempty).search.get? name ≠ some (.list values) := by
  have read : (userAssignment id nonempty).search.get? name =
      if name = ['t', 'a', 'b'] then some (.scalar (.text ['a', 'l', 'l'])) else none :=
    OrderedMap.get?_set _ _ _ _
  rw [read]
  split <;> exact nofun

theorem roundTrips_seven :
    (userAssignment ['7'] (by decide)).RoundTrips (fun _ => true) fun _ => [] := by
  refine (roundTrips_legible _ _ _).1 ⟨?_, ?_, ?_, ?_, ?_, ?_, ?_⟩
  · intro text member
    rw [userRoute_segments, List.mem_cons, List.mem_singleton] at member
    rcases member with same | same
    · cases same
      exact ⟨by decide, List.all_iff_forall_prop.mp (by decide)⟩
    · cases same
  · rw [userRoute_names]
    decide
  · rw [userRoute_names]
    decide
  · rw [userRoute_names]
    simp only [List.forall_mem_cons]
    exact ⟨⟨by decide, by decide⟩, nofun⟩
  · rw [userRoute_segments]
    simp only [List.forall_mem_cons]
    exact ⟨trivial, trivial, nofun⟩
  · rw [userRoute_segments]
    exact ⟨by decide, trivial⟩
  · exact fun name values given => absurd given userAssignment_lists

/-- A percent sign throws when the path is decoded. -/
theorem percent_lost :
    ¬ (userAssignment ['5', '0', '%'] (by decide)).RoundTrips (fun _ => true) fun _ => [] := by
  intro roundTrips
  have legible := roundTrips.legible {
    unique := by
      rw [userRoute_names]
      decide
    texts := fun _ _ => ⟨_, rfl⟩
    brackets := by
      rw [userRoute_segments]
      simp only [List.forall_mem_cons]
      exact ⟨trivial, trivial, nofun⟩
    own := by
      rw [userRoute_names]
      decide }
  have plain := (legible.values ['i', 'd'] (by rw [userRoute_names]; decide)).1
  exact plain (by decide)

end Assignment

end Houdini.React
