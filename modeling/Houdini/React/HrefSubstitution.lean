import Houdini.React.Href
import Houdini.React.PagesReachable

/-! Filling a route: the three replacements put every value in its place, as long as no value has
brackets that a later one looks at. -/

set_option autoImplicit false

namespace Houdini.React

section

variable {opening closing text key left : UrlText}

theorem bracketed_eq_some (found : bracketed opening closing text = some (key, left)) :
    text = opening ++ (key ++ (closing ++ left)) ∧ key ≠ [] := by
  unfold bracketed at found
  obtain ⟨inner, isInner, further⟩ := Option.bind_eq_some_iff.mp found
  obtain ⟨same, whole, equal⟩ := List.dropPrefix?_eq_some_iff.mp isInner
  rw [beq_iff_eq] at equal
  subst equal
  simp only at further
  split at further
  · cases further
  · next nonempty =>
      obtain ⟨behind, isBehind, parts⟩ := Option.bind_eq_some_iff.mp further
      obtain ⟨last, tail, equal⟩ := List.dropPrefix?_eq_some_iff.mp isBehind
      rw [beq_iff_eq] at equal
      subst equal
      cases parts
      rw [← tail, List.takeWhile_append_dropWhile]
      exact ⟨whole, nonempty⟩

theorem bracketed_append (nonempty : key ≠ []) (plain : ']' ∉ key) (left : UrlText) :
    bracketed opening (']' :: closing) (opening ++ (key ++ (']' :: closing ++ left))) =
      some (key, left) := by
  have clean : ∀ char ∈ key, decide (char ≠ ']') = true := fun char member =>
    decide_eq_true fun same => plain (same ▸ member)
  have inner : (opening ++ (key ++ (']' :: closing ++ left))).dropPrefix? opening =
      some (key ++ (']' :: closing ++ left)) :=
    List.dropPrefix?_eq_some_iff.mpr ⟨opening, rfl, beq_self_eq_true _⟩
  have before : (key ++ (']' :: closing ++ left)).takeWhile (· ≠ ']') = key := by
    rw [List.takeWhile_append_of_pos clean, List.cons_append,
      List.takeWhile_cons_of_neg (by decide), List.append_nil]
  have behind : (key ++ (']' :: closing ++ left)).dropWhile (· ≠ ']') = ']' :: closing ++ left := by
    rw [List.dropWhile_append_of_pos clean, List.cons_append,
      List.dropWhile_cons_of_neg (by decide)]
  have last : (']' :: closing ++ left).dropPrefix? (']' :: closing) = some left :=
    List.dropPrefix?_eq_some_iff.mpr ⟨_, rfl, beq_self_eq_true _⟩
  rw [bracketed, inner, Option.bind_eq_bind, Option.bind_some, before, if_neg nonempty, behind,
    last]
  rfl

theorem bracketed_eq_none (other : ¬ opening <+: text) : bracketed opening closing text = none := by
  cases found : bracketed opening closing text with
  | none => rfl
  | some result =>
      obtain ⟨whole, _⟩ := bracketed_eq_some found
      exact absurd ⟨_, whole.symm⟩ other

variable {replacement : UrlText → UrlText}

theorem bracketed_length (found : bracketed opening closing text = some (key, left)) :
    left.length < text.length := by
  obtain ⟨whole, nonempty⟩ := bracketed_eq_some found
  have some := List.length_pos_iff.mpr nonempty
  rw [whole, List.length_append, List.length_append, List.length_append]
  omega

theorem replaceUpTo_eq {steps more : Nat} (enough : text.length ≤ steps)
    (alsoEnough : text.length ≤ more) :
    replaceUpTo opening closing replacement steps text =
      replaceUpTo opening closing replacement more text := by
  induction steps generalizing text more with
  | zero =>
      have none := List.eq_nil_of_length_eq_zero (Nat.le_zero.mp enough)
      subst none
      cases more <;> rfl
  | succ steps ih =>
      cases text with
      | nil => cases more <;> rfl
      | cons char rest =>
          rw [List.length_cons] at enough alsoEnough
          cases more with
          | zero => omega
          | succ more =>
              rw [replaceUpTo, replaceUpTo]
              cases found : bracketed opening closing (char :: rest) with
              | none => exact congrArg (char :: ·) (ih (by omega) (by omega))
              | some result =>
                  have shorter := bracketed_length found
                  rw [List.length_cons] at shorter
                  exact congrArg (replacement result.1 ++ ·) (ih (by omega) (by omega))

theorem replaceAll_cons {char : Char} {rest : UrlText}
    (other : ¬ opening <+: char :: rest) :
    replaceAll opening closing replacement (char :: rest) =
      char :: replaceAll opening closing replacement rest := by
  rw [replaceAll, List.length_cons, replaceUpTo, bracketed_eq_none other]
  rfl

theorem replaceAll_of_bracketed (found : bracketed opening closing text = some (key, left)) :
    replaceAll opening closing replacement text =
      replacement key ++ replaceAll opening closing replacement left := by
  have shorter := bracketed_length found
  cases text with
  | nil => exact absurd shorter (Nat.not_lt_zero _)
  | cons char rest =>
      rw [List.length_cons] at shorter
      rw [replaceAll, List.length_cons, replaceUpTo, found]
      exact congrArg (replacement key ++ ·) (replaceUpTo_eq (by omega) (le_refl _))

theorem replaceAll_bracketed (nonempty : key ≠ []) (plain : ']' ∉ key) (left : UrlText) :
    replaceAll opening (']' :: closing) replacement
        (opening ++ (key ++ (']' :: closing ++ left))) =
      replacement key ++ replaceAll opening (']' :: closing) replacement left :=
  replaceAll_of_bracketed (bracketed_append nonempty plain left)

theorem replaceAll_append {first : Char} {after before : UrlText} (isOpening : opening = first :: after)
    (clean : first ∉ before) (rest : UrlText) :
    replaceAll opening closing replacement (before ++ rest) =
      before ++ replaceAll opening closing replacement rest := by
  induction before with
  | nil => rfl
  | cons char others ih =>
      rw [List.mem_cons, not_or] at clean
      have other : ¬ opening <+: char :: (others ++ rest) := by
        rw [isOpening, List.cons_prefix_cons]
        exact fun both => clean.1 both.1
      rw [List.cons_append, replaceAll_cons other, ih clean.2]
      rfl

end

def isNameChar (char : Char) : Bool := char.isAlphanum || char = '_'

/-- The parts that routes are made of: names of parameters are words, and nothing else has
brackets. -/
def RouteSegment.IsPlain : RouteSegment → Prop
  | .fixed text => '[' ∉ text ∧ ']' ∉ text
  | .param name => name ≠ [] ∧ ∀ char ∈ name, isNameChar char = true
  | .optional name => name ≠ [] ∧ ∀ char ∈ name, isNameChar char = true
  | .rest name => name ≠ [] ∧ ∀ char ∈ name, isNameChar char = true

def RouteSegment.written : RouteSegment → UrlText
  | .fixed text => text
  | .param name => '[' :: (name ++ [']'])
  | .optional name => '[' :: '[' :: (name ++ [']', ']'])
  | .rest name => '[' :: '.' :: '.' :: '.' :: (name ++ [']'])

theorem wrapped_eq {opening closing segment inner : UrlText}
    (starts : opening.isPrefixOf segment = true) (ends : closing.isSuffixOf segment = true)
    (isInner : inner = (segment.drop opening.length).take
      ((segment.drop opening.length).length - closing.length)) (nonempty : inner ≠ []) :
    segment = opening ++ (inner ++ closing) := by
  obtain ⟨behind, rfl⟩ := List.isPrefixOf_iff_prefix.mp starts
  rw [List.drop_left] at isInner
  have within : closing <:+ behind := by
    refine List.suffix_of_suffix_length_le (List.isSuffixOf_iff_suffix.mp ends)
      (List.suffix_append _ _) ?_
    by_contra longer
    rw [Nat.sub_eq_zero_of_le (by omega), List.take_zero] at isInner
    exact nonempty isInner
  obtain ⟨before, rfl⟩ := within
  rw [List.length_append, Nat.add_sub_cancel, List.take_left] at isInner
  rw [isInner]

theorem written_of_parseSegment {segment : UrlText} {parsed : RouteSegment}
    (same : parseSegment segment = parsed) (plain : parsed.IsPlain) : segment = parsed.written := by
  unfold parseSegment at same
  split at same
  · next rest =>
      subst same
      rw [Bool.and_eq_true] at rest
      refine wrapped_eq rest.1 rest.2 ?_ plain.1
      rw [List.dropLast_eq_take]
      rfl
  · split at same
    · next optional =>
        subst same
        rw [Bool.and_eq_true] at optional
        refine wrapped_eq optional.1 optional.2 ?_ plain.1
        rw [List.dropLast_eq_take, List.dropLast_eq_take, List.take_take, List.length_take]
        change _ = List.take ((segment.drop 2).length - 2) (segment.drop 2)
        congr 1
        omega
    · split at same
      · next param =>
          subst same
          rw [Bool.and_eq_true] at param
          refine wrapped_eq param.1 param.2 ?_ plain.1
          rw [List.dropLast_eq_take]
          rfl
      · rw [← same]
        rfl

theorem stripRouteGroups_eq (url : UrlText) :
    stripRouteGroups url = '/' :: ['/'].intercalate (routeSegments url) := by
  rw [stripRouteGroups, routeSegments]
  split
  · next slash =>
      obtain ⟨inner, rfl⟩ := List.isPrefixOf_iff_prefix.mp slash
      rw [List.singleton_append, List.splitOn_cons_eq_if_modifyHead, if_pos (beq_self_eq_true _),
        List.filter_cons_of_neg (by decide)]
      rfl
  · rfl

theorem intercalate_slash {segments : List UrlText} (some : segments ≠ []) :
    '/' :: ['/'].intercalate segments = segments.flatMap ('/' :: ·) := by
  induction segments with
  | nil => exact absurd rfl some
  | cons first rest ih =>
      cases rest with
      | nil => simp
      | cons second others =>
          rw [List.intercalate_cons_cons, List.flatMap_cons, ← ih (List.cons_ne_nil _ _)]
          simp

theorem stripRouteGroups_page {dir : RouteDir} (plain : ∀ segment ∈ dir.segments, segment.IsPlain) :
    stripRouteGroups dir.page.url =
      if dir.segments = [] then ['/']
      else dir.segments.flatMap fun segment => '/' :: segment.written := by
  have written : routeSegments dir.page.url = dir.segments.map RouteSegment.written := by
    rw [RouteDir.segments, List.map_map]
    refine (List.map_id'' (fun _ => rfl) _).symm.trans (List.map_congr_left fun segment member => ?_)
    exact written_of_parseSegment rfl (plain _ (List.mem_map_of_mem member))
  rw [stripRouteGroups_eq]
  split
  · next none =>
      rw [written, none]
      rfl
  · next some =>
      rw [written, intercalate_slash (fun none => some (List.map_eq_nil_iff.mp none)),
        List.flatMap_map]

section

variable {numbers : Numbers} {params : UrlText → ScalarValue numbers}

def valueText (params : UrlText → ScalarValue numbers) (name : UrlText) : UrlText :=
  marshalValue (params name)

theorem replaceAll_flatMap {opening closing : UrlText} {replacement : UrlText → UrlText}
    {before after : RouteSegment → UrlText} {segments : List RouteSegment}
    (each : ∀ segment ∈ segments, ∀ rest, replaceAll opening closing replacement
      (before segment ++ rest) = after segment ++ replaceAll opening closing replacement rest) :
    replaceAll opening closing replacement (segments.flatMap before) = segments.flatMap after := by
  induction segments with
  | nil => rfl
  | cons segment rest ih =>
      rw [List.forall_mem_cons] at each
      rw [List.flatMap_cons, List.flatMap_cons, each.1, ih each.2]

def optionalFilled (params : UrlText → ScalarValue numbers) : RouteSegment → UrlText
  | .optional name => valueText params name
  | segment => segment.written

def restFilled (params : UrlText → ScalarValue numbers) : RouteSegment → UrlText
  | .optional name => valueText params name
  | .rest name => valueText params name
  | segment => segment.written

theorem not_mem_of_isNameChar {char : Char} (other : isNameChar char = false) {name : UrlText}
    (word : ∀ char ∈ name, isNameChar char = true) : char ∉ name := by
  intro member
  rw [word char member] at other
  cases other

theorem name_cons {name : UrlText} (nonempty : name ≠ [])
    (word : ∀ char ∈ name, isNameChar char = true) :
    ∃ first others, name = first :: others ∧ first ≠ '[' ∧ first ≠ '.' := by
  cases name with
  | nil => exact absurd rfl nonempty
  | cons first others =>
      refine ⟨first, others, rfl, ?_, ?_⟩
      · rintro rfl
        exact not_mem_of_isNameChar (by decide) word List.mem_cons_self
      · rintro rfl
        exact not_mem_of_isNameChar (by decide) word List.mem_cons_self

theorem replaceOptional_skip {replacement : UrlText → UrlText} {text : UrlText}
    (other : ∀ rest, ¬ ['[', '['] <+: text ++ rest) (clean : '/' ∉ text) (rest : UrlText) :
    replaceAll ['/', '[', '['] [']', ']'] replacement ('/' :: text ++ rest) =
      '/' :: text ++ replaceAll ['/', '[', '['] [']', ']'] replacement rest := by
  have opening : ¬ ['/', '[', '['] <+: '/' :: (text ++ rest) := by
    intro begins
    exact other rest (List.cons_prefix_cons.mp begins).2
  rw [List.cons_append, replaceAll_cons opening, replaceAll_append rfl clean]
  rfl

theorem replaceOptional {replacement : UrlText → UrlText}
    (replaces : ∀ name, replacement name = '/' :: valueText params name) {segment : RouteSegment}
    (plain : segment.IsPlain) (filled : ∀ text, segment = .fixed text → text ≠ [] ∧ '/' ∉ text)
    (rest : UrlText) :
    replaceAll ['/', '[', '['] [']', ']'] replacement ('/' :: segment.written ++ rest) =
      '/' :: optionalFilled params segment ++
        replaceAll ['/', '[', '['] [']', ']'] replacement rest := by
  cases segment with
  | fixed text =>
      refine replaceOptional_skip (fun rest begins => ?_) (filled text rfl).2 rest
      cases text with
      | nil => exact (filled [] rfl).1 rfl
      | cons first others =>
          have same : '[' = first := (List.cons_prefix_cons.mp begins).1
          exact plain.1 (same ▸ List.mem_cons_self)
  | param name =>
      obtain ⟨first, others, same, notBracket, _⟩ := name_cons plain.1 plain.2
      have slash := @not_mem_of_isNameChar '/' (by decide) _ plain.2
      refine replaceOptional_skip (fun rest begins => ?_) ?_ rest
      · rw [RouteSegment.written, same] at begins
        have second := (List.cons_prefix_cons.mp begins).2
        exact notBracket (List.cons_prefix_cons.mp second).1.symm
      · simp [RouteSegment.written, slash]
  | optional name =>
      have closing := @not_mem_of_isNameChar ']' (by decide) _ plain.2
      have found := @replaceAll_bracketed ['/', '[', '['] [']'] _
        replacement plain.1 closing rest
      rw [replaces] at found
      have text : '/' :: (RouteSegment.optional name).written ++ rest =
          ['/', '[', '['] ++ (name ++ ([']', ']'] ++ rest)) := by
        simp [RouteSegment.written]
      rw [text]
      exact found
  | rest name =>
      have slash := @not_mem_of_isNameChar '/' (by decide) _ plain.2
      refine replaceOptional_skip (fun rest begins => ?_) ?_ rest
      · have second := (List.cons_prefix_cons.mp begins).2
        exact absurd (List.cons_prefix_cons.mp second).1 (by decide)
      · simp [RouteSegment.written, slash]

def BracketFree (params : UrlText → ScalarValue numbers) : RouteSegment → Prop
  | .fixed _ => True
  | .param _ => True
  | .optional name => '[' ∉ valueText params name
  | .rest name => '[' ∉ valueText params name

theorem replaceRest {replacement : UrlText → UrlText}
    (replaces : ∀ name, replacement name = valueText params name) {segment : RouteSegment}
    (plain : segment.IsPlain) (free : BracketFree params segment) (rest : UrlText) :
    replaceAll ['[', '.', '.', '.'] [']'] replacement
        ('/' :: optionalFilled params segment ++ rest) =
      '/' :: restFilled params segment ++
        replaceAll ['[', '.', '.', '.'] [']'] replacement rest := by
  cases segment with
  | fixed text => exact replaceAll_append rfl (by simp [optionalFilled, RouteSegment.written, plain.1]) rest
  | param name =>
      obtain ⟨first, others, same, _, notDot⟩ := name_cons plain.1 plain.2
      have bracket := @not_mem_of_isNameChar '[' (by decide) _ plain.2
      have opening : ¬ ['[', '.', '.', '.'] <+: '[' :: (name ++ [']'] ++ rest) := by
        intro begins
        rw [same] at begins
        have second := (List.cons_prefix_cons.mp begins).2
        exact notDot (List.cons_prefix_cons.mp second).1.symm
      have slash : ¬ ['[', '.', '.', '.'] <+: '/' :: ('[' :: (name ++ [']'] ++ rest)) := by
        intro begins
        exact absurd (List.cons_prefix_cons.mp begins).1 (by decide)
      have clean : '[' ∉ name ++ [']'] := by simp [bracket]
      change replaceAll _ _ _ ('/' :: ('[' :: (name ++ [']'] ++ rest))) = _
      rw [replaceAll_cons slash, replaceAll_cons opening, replaceAll_append rfl clean]
      rfl
  | optional name => exact replaceAll_append rfl (by simpa [optionalFilled, BracketFree] using free) rest
  | rest name =>
      have closing := @not_mem_of_isNameChar ']' (by decide) _ plain.2
      have slash : ¬ ['[', '.', '.', '.'] <+:
          '/' :: (['[', '.', '.', '.'] ++ (name ++ ([']'] ++ rest))) := by
        intro begins
        exact absurd (List.cons_prefix_cons.mp begins).1 (by decide)
      have found := @replaceAll_bracketed ['[', '.', '.', '.'] [] _
        replacement plain.1 closing rest
      rw [replaces] at found
      have text : '/' :: optionalFilled params (.rest name) ++ rest =
          '/' :: (['[', '.', '.', '.'] ++ (name ++ ([']'] ++ rest))) := by
        simp [optionalFilled, RouteSegment.written]
      rw [text, replaceAll_cons slash]
      exact congrArg ('/' :: ·) found

theorem replaceParam {replacement : UrlText → UrlText}
    (replaces : ∀ name, replacement name = valueText params name) {segment : RouteSegment}
    (plain : segment.IsPlain) (free : BracketFree params segment) (rest : UrlText) :
    replaceAll ['['] [']'] replacement ('/' :: restFilled params segment ++ rest) =
      '/' :: segment.filled (valueText params) ++
        replaceAll ['['] [']'] replacement rest := by
  cases segment with
  | fixed text => exact replaceAll_append rfl (by simp [restFilled, RouteSegment.written, plain.1]) rest
  | param name =>
      have closing := @not_mem_of_isNameChar ']' (by decide) _ plain.2
      have slash : ¬ ['['] <+: '/' :: (['['] ++ (name ++ ([']'] ++ rest))) := by
        intro begins
        exact absurd (List.cons_prefix_cons.mp begins).1 (by decide)
      have found := @replaceAll_bracketed ['['] [] _ replacement plain.1 closing rest
      rw [replaces] at found
      have text : '/' :: restFilled params (.param name) ++ rest =
          '/' :: (['['] ++ (name ++ ([']'] ++ rest))) := by
        simp [restFilled, RouteSegment.written]
      rw [text, replaceAll_cons slash]
      exact congrArg ('/' :: ·) found
  | optional name => exact replaceAll_append rfl (by simpa [restFilled, BracketFree] using free) rest
  | rest name => exact replaceAll_append rfl (by simpa [restFilled, BracketFree] using free) rest

theorem resolveHref_page {dir : RouteDir} (plain : ∀ segment ∈ dir.segments, segment.IsPlain)
    (free : ∀ segment ∈ dir.segments, BracketFree params segment) :
    resolveHref (stripRouteGroups dir.page.url) (fun name => some (params name)) =
      dir.urlWith (valueText params) := by
  rw [stripRouteGroups_page plain, RouteDir.urlWith, resolveHref]
  split
  · rfl
  · have first := @replaceAll_flatMap _ _ _ _ _ dir.segments
      fun segment member => @replaceOptional _ params
        (fun key => (((some (params key)).map marshalValue).map ('/' :: ·)).getD []) (fun _ => rfl) _ (plain segment member) fun text same => fixed_mem_segments (same ▸ member)
    have second := @replaceAll_flatMap _ _ _ _ _ dir.segments
      fun segment member => @replaceRest _ params
        (fun key => ((some (params key)).map marshalValue).getD [])
        (fun _ => rfl) _ (plain segment member) (free segment member)
    have third := @replaceAll_flatMap _ _ _ _ _ dir.segments
      fun segment member => @replaceParam _ params
        (fun key => ((some (params key)).map marshalValue).getD key)
        (fun _ => rfl) _ (plain segment member) (free segment member)
    dsimp only
    rw [first, second, third]
    rfl

end

end Houdini.React
