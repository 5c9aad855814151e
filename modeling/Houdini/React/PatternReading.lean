import Houdini.React.PagePattern

/-! Which paths a pattern reads, and which urls of pages those are. -/

set_option autoImplicit false

namespace Houdini.React

theorem mem_splits {allowed : Char → Bool} {text before behind : UrlText} :
    (before, behind) ∈ splits allowed text ↔
      text = before ++ behind ∧ ∀ char ∈ before, allowed char = true := by
  induction text generalizing before with
  | nil =>
      rw [splits, List.mem_singleton, Prod.mk.injEq]
      constructor
      · rintro ⟨rfl, rfl⟩
        exact ⟨rfl, nofun⟩
      · rintro ⟨whole, _⟩
        exact List.append_eq_nil_iff.mp whole.symm
  | cons char rest ih =>
      rw [splits, List.mem_cons, Prod.mk.injEq]
      constructor
      · rintro (⟨rfl, rfl⟩ | later)
        · exact ⟨rfl, nofun⟩
        · split at later
          · next passes =>
              obtain ⟨⟨first, second⟩, member, same⟩ := List.mem_map.mp later
              cases same
              obtain ⟨whole, all⟩ := ih.mp member
              refine ⟨by rw [whole]; rfl, ?_⟩
              rw [List.forall_mem_cons]
              exact ⟨passes, all⟩
          · cases later
      · rintro ⟨whole, all⟩
        cases before with
        | nil => exact Or.inl ⟨rfl, whole.symm⟩
        | cons first others =>
            obtain ⟨rfl, further⟩ := List.cons.inj whole
            rw [List.forall_mem_cons] at all
            refine Or.inr ?_
            rw [if_pos all.1]
            exact List.mem_map.mpr ⟨(others, behind), ih.mpr ⟨further, all.2⟩, rfl⟩

theorem mem_someSplits {allowed : Char → Bool} {text before behind : UrlText} :
    (before, behind) ∈ someSplits allowed text ↔
      text = before ++ behind ∧ (∀ char ∈ before, allowed char = true) ∧ before ≠ [] := by
  rw [someSplits, List.mem_filter, mem_splits, and_assoc]
  simp

theorem captureFirst_isSome {next : UrlText → Option (List (Option UrlText))}
    {ways : List (UrlText × UrlText)} :
    (captureFirst next ways).isSome ↔ ∃ way ∈ ways, (next way.2).isSome := by
  rw [captureFirst, List.findSome?_isSome_iff]
  simp

def Reads (segments : List RouteSegment) (text : UrlText) : Prop :=
  (captureSegments segments text).isSome

theorem reads_nil {text : UrlText} : Reads [] text ↔ text = [] ∨ text = ['/'] := by
  unfold Reads
  rw [captureSegments]
  split
  · next ends => simp [ends]
  · next ends => simp [ends]

section

variable {after : List RouteSegment} {text : UrlText}

theorem reads_fixed {segment : UrlText} :
    Reads (.fixed segment :: after) text ↔
      ∃ left, text = '/' :: (segment ++ left) ∧ Reads after left := by
  unfold Reads
  rw [captureSegments]
  cases dropped : text.dropPrefix? ('/' :: segment) with
  | none =>
      constructor
      · intro isSome
        cases isSome
      · rintro ⟨left, whole, _⟩
        have found : text.dropPrefix? ('/' :: segment) = some left :=
          
          List.dropPrefix?_eq_some_iff.mpr ⟨'/' :: segment, whole, beq_self_eq_true _⟩
        rw [dropped] at found
        cases found
  | some left =>
      obtain ⟨same, whole, equal⟩ := List.dropPrefix?_eq_some_iff.mp dropped
      rw [beq_iff_eq] at equal
      subst equal
      constructor
      · intro isSome
        exact ⟨left, whole, isSome⟩
      · rintro ⟨other, alternative, isSome⟩
        rw [whole] at alternative
        have same : left = other := @List.append_cancel_left _ ('/' :: segment) _ _ alternative
        rw [same]
        exact isSome

theorem captureBehindSlash_isSome {next : UrlText → Option (List (Option UrlText))}
    {ways : UrlText → List (UrlText × UrlText)} :
    (captureBehindSlash next ways text).isSome ↔
      ∃ inner, text = '/' :: inner ∧ ∃ way ∈ ways inner, (next way.2).isSome := by
  cases text with
  | nil =>
      constructor
      · intro isSome
        cases isSome
      · rintro ⟨inner, whole, _⟩
        cases whole
  | cons char inner =>
      rw [captureBehindSlash]
      split
      · next slash =>
          rw [captureFirst_isSome, slash]
          constructor
          · exact fun found => ⟨inner, rfl, found⟩
          · rintro ⟨other, same, found⟩
            cases same
            exact found
      · next other =>
          constructor
          · intro isSome
            cases isSome
          · rintro ⟨inner, whole, _⟩
            exact absurd (List.cons.inj whole).1 other

theorem captureValue_isSome {ways : UrlText → List (UrlText × UrlText)}
    (all : ∀ inner way, way ∈ ways inner ↔ way ∈ someSplits (· ≠ '/') inner) :
    (captureBehindSlash (captureSegments after) ways text).isSome ↔
      ∃ value left, text = '/' :: (value ++ left) ∧ value ≠ [] ∧ '/' ∉ value ∧
        Reads after left := by
  rw [captureBehindSlash_isSome]
  constructor
  · rintro ⟨inner, rfl, ⟨value, left⟩, member, isSome⟩
    obtain ⟨whole, plain, nonempty⟩ := mem_someSplits.mp ((all _ _).mp member)
    refine ⟨value, left, by rw [whole], nonempty, fun slash => ?_, isSome⟩
    exact absurd rfl (of_decide_eq_true (plain '/' slash))
  · rintro ⟨value, left, rfl, nonempty, plain, isSome⟩
    refine ⟨_, rfl, (value, left), (all _ _).mpr (mem_someSplits.mpr
      ⟨rfl, fun char member => ?_, nonempty⟩), isSome⟩
    refine decide_eq_true fun slash => plain ?_
    rw [← slash]
    exact member

theorem reads_param {name : UrlText} :
    Reads (.param name :: after) text ↔
      ∃ value left, text = '/' :: (value ++ left) ∧ value ≠ [] ∧ '/' ∉ value ∧
        Reads after left := by
  unfold Reads
  rw [captureSegments]
  exact captureValue_isSome fun _ _ => Iff.rfl

theorem isSome_or_skipped {first : Option (List (Option UrlText))} :
    (first.or ((captureSegments after text).map (none :: ·))).isSome ↔
      first.isSome ∨ Reads after text := by
  unfold Reads
  rw [Option.isSome_or, Bool.or_eq_true, Option.isSome_map]

theorem reads_optional {name : UrlText} :
    Reads (.optional name :: after) text ↔
      (∃ value left, text = '/' :: (value ++ left) ∧ value ≠ [] ∧ '/' ∉ value ∧
        Reads after left) ∨ Reads after text := by
  rw [Reads, captureSegments, isSome_or_skipped]
  exact or_congr_left (captureValue_isSome fun _ _ => List.mem_reverse)

theorem reads_rest {name : UrlText} :
    Reads (.rest name :: after) text ↔
      (∃ value left, text = '/' :: (value ++ left) ∧
        (∀ char ∈ value, isLineTerminator char = false) ∧ Reads after left) ∨
      Reads after text := by
  rw [Reads, captureSegments, isSome_or_skipped]
  refine or_congr_left ?_
  rw [captureBehindSlash_isSome]
  constructor
  · rintro ⟨inner, rfl, ⟨value, left⟩, member, isSome⟩
    obtain ⟨whole, plain⟩ := mem_splits.mp (List.mem_reverse.mp member)
    exact ⟨value, left, by rw [whole], fun char inside => by simpa using plain char inside, isSome⟩
  · rintro ⟨value, left, rfl, plain, isSome⟩
    refine ⟨_, rfl, (value, left), List.mem_reverse.mpr (mem_splits.mpr
      ⟨rfl, fun char inside => ?_⟩), isSome⟩
    rw [plain char inside]
    rfl

end

def AtSlash (text : UrlText) : Prop := text = [] ∨ ∃ rest, text = '/' :: rest

theorem Reads.atSlash {segments : List RouteSegment} {text : UrlText}
    (reads : Reads segments text) : AtSlash text := by
  induction segments with
  | nil =>
      obtain rfl | rfl := reads_nil.mp reads
      · exact Or.inl rfl
      · exact Or.inr ⟨[], rfl⟩
  | cons segment after ih =>
      cases segment with
      | fixed fixed =>
          obtain ⟨left, whole, _⟩ := reads_fixed.mp reads
          exact Or.inr ⟨_, whole⟩
      | param name =>
          obtain ⟨value, left, whole, _⟩ := reads_param.mp reads
          exact Or.inr ⟨_, whole⟩
      | optional name =>
          obtain ⟨value, left, whole, _⟩ | skipped := reads_optional.mp reads
          · exact Or.inr ⟨_, whole⟩
          · exact ih skipped
      | rest name =>
          obtain ⟨value, left, whole, _⟩ | skipped := reads_rest.mp reads
          · exact Or.inr ⟨_, whole⟩
          · exact ih skipped

theorem atSlash_unique {value token left rest : UrlText} (plain : '/' ∉ value)
    (tokenPlain : '/' ∉ token) (atLeft : AtSlash left) (atRest : AtSlash rest)
    (same : value ++ left = token ++ rest) : value = token ∧ left = rest := by
  rcases List.append_eq_append_iff.mp same with ⟨between, longer, tails⟩ | ⟨between, longer, tails⟩
  · cases between with
    | nil => exact ⟨by rw [longer, List.append_nil], tails⟩
    | cons char others =>
        rcases atLeft with none | ⟨further, slash⟩
        · rw [none] at tails
          cases tails
        · rw [slash] at tails
          refine absurd ?_ tokenPlain
          rw [longer, ← (List.cons.inj tails).1]
          exact List.mem_append_right _ List.mem_cons_self
  · cases between with
    | nil => exact ⟨by rw [longer, List.append_nil], tails.symm⟩
    | cons char others =>
        rcases atRest with none | ⟨further, slash⟩
        · rw [none] at tails
          cases tails
        · rw [slash] at tails
          refine absurd ?_ plain
          rw [longer, ← (List.cons.inj tails).1]
          exact List.mem_append_right _ List.mem_cons_self

inductive UrlToken where
  | text (segment : UrlText)
  | value
  deriving DecidableEq

def RouteSegment.token : RouteSegment → UrlToken
  | .fixed text => .text text
  | .param _ => .value
  | .optional _ => .value
  | .rest _ => .value

def covers : List RouteSegment → List UrlToken → Bool
  | [], tokens => tokens.isEmpty
  | .fixed text :: after, tokens =>
      tokens.head? == some (.text text) && covers after tokens.tail
  | .param _ :: after, tokens => !tokens.isEmpty && covers after tokens.tail
  | .optional _ :: after, tokens =>
      (!tokens.isEmpty && covers after tokens.tail) || covers after tokens
  | .rest _ :: after, tokens => tokens.tails.any (covers after)

def RouteSegment.filled (values : UrlText → UrlText) : RouteSegment → UrlText
  | .fixed text => text
  | .param name => values name
  | .optional name => values name
  | .rest name => values name

def filledPath (values : UrlText → UrlText) (segments : List RouteSegment) : UrlText :=
  segments.flatMap fun segment => '/' :: segment.filled values

/-- What a segment may be filled with. -/
structure IsProper (text : UrlText) : Prop where
  nonempty : text ≠ []
  plain : '/' ∉ text
  oneLine : ∀ char ∈ text, isLineTerminator char = false

section

variable {values : UrlText → UrlText} {after segments : List RouteSegment}

theorem atSlash_filledPath (segments : List RouteSegment) : AtSlash (filledPath values segments) := by
  cases segments with
  | nil => exact Or.inl rfl
  | cons segment rest => exact Or.inr ⟨_, rfl⟩

theorem filledPath_cons (segment : RouteSegment) (rest : List RouteSegment) :
    filledPath values (segment :: rest) =
      '/' :: (segment.filled values ++ filledPath values rest) := rfl

theorem suffix_filledPath (proper : ∀ segment ∈ segments, '/' ∉ segment.filled values)
    {left : UrlText} (suffix : left <:+ filledPath values segments) (atSlash : AtSlash left) :
    ∃ last, last <:+ segments ∧ left = filledPath values last := by
  induction segments with
  | nil => exact ⟨[], List.suffix_refl _, List.suffix_nil.mp suffix⟩
  | cons segment rest ih =>
      rw [List.forall_mem_cons] at proper
      rw [filledPath_cons] at suffix
      rcases List.suffix_cons_iff.mp suffix with whole | ⟨before, same⟩
      · exact ⟨_, List.suffix_refl _, whole⟩
      · rcases List.append_eq_append_iff.mp same with
            ⟨between, inside, tails⟩ | ⟨between, _, tails⟩
        · rcases atSlash with none | ⟨further, slash⟩
          · rw [none]
            exact ⟨[], List.nil_suffix, rfl⟩
          · cases between with
            | nil =>
                exact ⟨rest, List.suffix_cons _ _, tails⟩
            | cons char others =>
                rw [slash] at tails
                refine absurd ?_ proper.1
                rw [inside, ← (List.cons.inj tails).1]
                exact List.mem_append_right _ List.mem_cons_self
        · obtain ⟨last, within, equal⟩ := ih proper.2 ⟨between, tails.symm⟩
          exact ⟨last, within.trans (List.suffix_cons _ _), equal⟩

theorem readsValue_iff (proper : ∀ segment ∈ segments, IsProper (segment.filled values))
    {ending : UrlText} (ends : ending = [] ∨ ending = ['/'] ∧ segments = []) :
    (∃ value left, filledPath values segments ++ ending = '/' :: (value ++ left) ∧ value ≠ [] ∧
        '/' ∉ value ∧ Reads after left) ↔
      ∃ segment rest, segments = segment :: rest ∧ Reads after (filledPath values rest) := by
  cases segments with
  | nil =>
      constructor
      · rintro ⟨value, left, whole, nonempty, _⟩
        rcases ends with rfl | ⟨rfl, _⟩
        · cases whole
        · have none := (List.cons.inj whole).2
          exact absurd (List.append_eq_nil_iff.mp none.symm).1 nonempty
      · rintro ⟨segment, rest, same, _⟩
        cases same
  | cons segment rest =>
      have none : ending = [] := by
        rcases ends with none | ⟨_, same⟩
        · exact none
        · cases same
      rw [none, List.append_nil, filledPath_cons]
      have first := proper segment List.mem_cons_self
      constructor
      · rintro ⟨value, left, whole, nonempty, plain, reads⟩
        obtain ⟨_, same⟩ := atSlash_unique first.plain plain (atSlash_filledPath rest)
          reads.atSlash (List.cons.inj whole).2
        rw [← same] at reads
        exact ⟨segment, rest, rfl, reads⟩
      · rintro ⟨other, others, same, reads⟩
        cases same
        exact ⟨_, _, rfl, first.nonempty, first.plain, reads⟩

theorem readsRest_iff (proper : ∀ segment ∈ segments, IsProper (segment.filled values)) :
    ((∃ value left, filledPath values segments = '/' :: (value ++ left) ∧
        (∀ char ∈ value, isLineTerminator char = false) ∧ Reads after left) ∨
      Reads after (filledPath values segments)) ↔
    ∃ last, last <:+ segments ∧ Reads after (filledPath values last) := by
  have oneLine : ∀ char ∈ filledPath values segments, isLineTerminator char = false := by
    intro char member
    obtain ⟨segment, among, inside⟩ := List.mem_flatMap.mp member
    rcases List.mem_cons.mp inside with rfl | inside
    · decide
    · exact (proper segment among).oneLine char inside
  constructor
  · rintro (⟨value, left, whole, _, reads⟩ | reads)
    · have suffix : left <:+ filledPath values segments := by
        rw [whole]
        exact (List.suffix_append _ _).trans (List.suffix_cons _ _)
      obtain ⟨last, within, same⟩ := suffix_filledPath
        (fun segment among => (proper segment among).plain) suffix reads.atSlash
      rw [same] at reads
      exact ⟨last, within, reads⟩
    · exact ⟨segments, List.suffix_refl _, reads⟩
  · rintro ⟨last, ⟨first, rfl⟩, reads⟩
    cases first with
    | nil => exact Or.inr reads
    | cons segment others =>
        refine Or.inl ⟨segment.filled values ++ filledPath values others, filledPath values last,
          ?_, fun char member => ?_, reads⟩
        · rw [List.cons_append, filledPath_cons, filledPath, List.flatMap_append,
            List.append_assoc]
          rfl
        · refine oneLine char ?_
          rw [List.cons_append, filledPath_cons, filledPath, List.flatMap_append]
          refine List.mem_cons_of_mem _ ?_
          rcases List.mem_append.mp member with inside | inside
          · exact List.mem_append_left _ inside
          · exact List.mem_append_right _ (List.mem_append_left _ inside)

theorem readsFixed_iff {text : UrlText}
    (proper : ∀ segment ∈ segments, IsProper (segment.filled values))
    (clean : text ≠ [] ∧ '/' ∉ text)
    (fresh : ∀ segment ∈ segments, segment.filled values = text → segment = .fixed text)
    {ending : UrlText} (ends : ending = [] ∨ ending = ['/'] ∧ segments = [])
    (later : ∀ {last : List RouteSegment}, last <:+ segments →
      (Reads after (filledPath values last) ↔
        covers after (last.map RouteSegment.token) = true)) :
    (∃ left, filledPath values segments ++ ending = '/' :: (text ++ left) ∧ Reads after left) ↔
      (segments.map RouteSegment.token).head? = some (.text text) ∧
        covers after (segments.map RouteSegment.token).tail = true := by
  cases segments with
  | nil =>
      constructor
      · rintro ⟨left, whole, _⟩
        rcases ends with rfl | ⟨rfl, _⟩
        · cases whole
        · have none := (List.cons.inj whole).2
          exact absurd (List.append_eq_nil_iff.mp none.symm).1 clean.1
      · rintro ⟨none, _⟩
        cases none
  | cons segment rest =>
      have none : ending = [] := by
        rcases ends with none | ⟨_, same⟩
        · exact none
        · cases same
      rw [none, List.append_nil, filledPath_cons, List.map_cons, List.head?_cons, List.tail_cons,
        ← later (List.suffix_cons _ _), Option.some.injEq]
      constructor
      · rintro ⟨left, whole, reads⟩
        obtain ⟨filled, same⟩ := atSlash_unique (proper segment List.mem_cons_self).plain clean.2
          (atSlash_filledPath rest) reads.atSlash (List.cons.inj whole).2
        rw [← same] at reads
        rw [fresh segment List.mem_cons_self filled]
        exact ⟨rfl, reads⟩
      · rintro ⟨token, reads⟩
        have filled : segment.filled values = text := by
          cases segment with
          | fixed other => exact UrlToken.text.inj token
          | param name => cases token
          | optional name => cases token
          | rest name => cases token
        exact ⟨_, by rw [filled], reads⟩

/-- Segments read the urls that they cover, whatever the values, as long as no value is like one of
their texts. -/
theorem reads_filledPath_iff {reader : List RouteSegment}
    (proper : ∀ segment ∈ segments, IsProper (segment.filled values))
    (texts : ∀ text, .fixed text ∈ reader → text ≠ [] ∧ '/' ∉ text)
    (fresh : ∀ text, .fixed text ∈ reader → ∀ segment ∈ segments, segment.filled values = text →
      segment = .fixed text)
    {ending : UrlText} (ends : ending = [] ∨ ending = ['/'] ∧ segments = []) :
    Reads reader (filledPath values segments ++ ending) ↔
      covers reader (segments.map RouteSegment.token) = true := by
  induction reader generalizing segments ending with
  | nil =>
      rw [reads_nil, covers, List.isEmpty_iff, List.map_eq_nil_iff]
      cases segments with
      | nil => rcases ends with rfl | ⟨rfl, _⟩ <;> simp [filledPath]
      | cons segment rest =>
          have nonempty := (proper segment List.mem_cons_self).nonempty
          simp [filledPath_cons, nonempty]
  | cons first after ih =>
      have laterTexts := fun text among => texts text (List.mem_cons_of_mem _ among)
      have laterFresh := fun text among => fresh text (List.mem_cons_of_mem _ among)
      have later {last : List RouteSegment} (within : last <:+ segments) :
          Reads after (filledPath values last) ↔
            covers after (last.map RouteSegment.token) = true := by
        have reads := ih (fun other among => proper other (within.subset among)) laterTexts
          (fun text among other inside => laterFresh text among other (within.subset inside))
          (Or.inl rfl)
        rw [List.append_nil] at reads
        exact reads
      have tail : (∃ segment rest, segments = segment :: rest ∧
          Reads after (filledPath values rest)) ↔
            (!(segments.map RouteSegment.token).isEmpty &&
              covers after (segments.map RouteSegment.token).tail) = true := by
        constructor
        · rintro ⟨segment, rest, rfl, reads⟩
          exact (later (List.suffix_cons _ _)).mp reads
        · intro covered
          cases segments with
          | nil => cases covered
          | cons segment rest =>
              exact ⟨segment, rest, rfl, (later (List.suffix_cons _ _)).mpr covered⟩
      have whole := ih proper laterTexts laterFresh ends
      cases first with
      | fixed text =>
          rw [reads_fixed, covers, Bool.and_eq_true, beq_iff_eq]
          exact readsFixed_iff proper (texts text List.mem_cons_self)
            (fresh text List.mem_cons_self) ends fun within => later within
      | param name => rw [reads_param, covers, readsValue_iff proper ends, tail]
      | optional name =>
          rw [reads_optional, covers, readsValue_iff proper ends, tail, whole, Bool.or_eq_true]
      | rest name =>
          rw [reads_rest, covers, List.any_eq_true]
          rcases ends with rfl | ⟨rfl, rfl⟩
          · rw [List.append_nil, readsRest_iff proper]
            constructor
            · rintro ⟨last, within, reads⟩
              exact ⟨_, (List.mem_tails _ _).mpr (within.map _), (later within).mp reads⟩
            · rintro ⟨tokens, within, covered⟩
              obtain ⟨last, suffix, rfl⟩ := List.suffix_map_iff.mp ((List.mem_tails _ _).mp within)
              exact ⟨last, suffix, (later suffix).mpr covered⟩
          · rw [whole]
            constructor
            · rintro (⟨value, left, same, _, reads⟩ | covered)
              · have none := (List.append_eq_nil_iff.mp (List.cons.inj same).2.symm).2
                rw [none] at reads
                exact ⟨[], List.mem_singleton_self _, (later List.nil_suffix).mp reads⟩
              · exact ⟨[], List.mem_singleton_self _, covered⟩
            · rintro ⟨tokens, within, covered⟩
              rw [List.mem_singleton.mp within] at covered
              exact Or.inr covered

end

end Houdini.React
