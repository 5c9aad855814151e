import Houdini.Plugin.Artifacts.PathBuilder

/-! Which of the recorded paths are those of the response. Below an inline fragment the path builder
lacks the fields that nobody pushed. -/

set_option autoImplicit false

namespace Houdini.Plugin.Artifacts

/-- A field on the way from the root: its key in the response, the inline fragments between it and
the field above it, and whether the walk stops there. -/
structure Step where
  key : String
  fragments : Nat
  isUncounted : Bool
  deriving DecidableEq, Repr

structure Occurrence where
  above : List Step
  own : Step
  field : Field
  named : field.aliasName = own.key

namespace Occurrence

def steps (occurrence : Occurrence) : List Step := occurrence.above ++ [occurrence.own]

def responsePath (occurrence : Occurrence) : List String := occurrence.steps.map Step.key

end Occurrence

mutual

/-- All fields of a selection in their order, with those that lie around it. -/
def occurrences (above : List Step) (fragments : Nat) : List Selection → List Occurrence
  | [] => []
  | .field field :: rest =>
      fieldOccurrences above fragments field ++ occurrences above fragments rest
  | .fragment _ :: rest => occurrences above fragments rest
  | .inlineFragment _ children :: rest =>
      occurrences above (fragments + 1) children ++ occurrences above fragments rest

def fieldOccurrences (above : List Step) (fragments : Nat) : Field → List Occurrence
  | .mk aliasName fieldType list directives children =>
      let field := Field.mk aliasName fieldType list directives children
      let own : Step := ⟨aliasName, fragments, field.isUncounted⟩
      ⟨above, own, field, rfl⟩ :: occurrences (above ++ [own]) 0 children

end

/-- A field is selected at a path of the response, through whatever inline fragments. -/
inductive SelectedAt : List Selection → List String → Field → Prop where
  | here {selections : List Selection} {field : Field} (member : .field field ∈ selections) :
      SelectedAt selections [field.aliasName] field
  | inside {selections : List Selection} {parent field : Field} {path : List String}
      (member : .field parent ∈ selections) (within : SelectedAt parent.children path field) :
      SelectedAt selections (parent.aliasName :: path) field
  | throughFragment {selections children : List Selection} {fieldName : String} {field : Field}
      {path : List String} (member : .inlineFragment fieldName children ∈ selections)
      (within : SelectedAt children path field) : SelectedAt selections path field

theorem SelectedAt.mono {selections others : List Selection} {path : List String} {field : Field}
    (selected : SelectedAt selections path field) (subset : selections ⊆ others) :
    SelectedAt others path field := by
  cases selected with
  | here member => exact .here (subset member)
  | inside member within => exact .inside (subset member) within
  | throughFragment member within => exact .throughFragment (subset member) within

theorem steps_of_mem {above : List Step} {fragments : Nat} {selections : List Selection}
    {occurrence : Occurrence} (member : occurrence ∈ occurrences above fragments selections) :
    ∃ step more, occurrence.steps = above ++ step :: more ∧ fragments ≤ step.fragments ∧
      SelectedAt selections ((step :: more).map Step.key) occurrence.field := by
  cases selections with
  | nil => exact absurd member (by simp [occurrences])
  | cons selection rest =>
      have later {path : List String} {field : Field} (selected : SelectedAt rest path field) :
          SelectedAt (selection :: rest) path field :=
        selected.mono (List.subset_cons_self selection rest)
      cases selection with
      | field field =>
          rw [occurrences, List.mem_append] at member
          cases member with
          | inl own =>
              cases field with
              | mk aliasName fieldType list directives children =>
                  rw [fieldOccurrences, List.mem_cons] at own
                  cases own with
                  | inl same =>
                      subst same
                      exact ⟨_, [], rfl, Nat.le_refl _, .here List.mem_cons_self⟩
                  | inr inside =>
                      obtain ⟨step, more, steps, _, selected⟩ := steps_of_mem inside
                      have within : SelectedAt
                          (Field.mk aliasName fieldType list directives children).children
                          ((step :: more).map Step.key) occurrence.field := selected
                      exact ⟨_, step :: more, by rw [steps, List.append_assoc]; rfl,
                        Nat.le_refl _, .inside List.mem_cons_self within⟩
          | inr other =>
              obtain ⟨step, more, steps, counted, selected⟩ := steps_of_mem other
              exact ⟨step, more, steps, counted, later selected⟩
      | fragment fieldName =>
          rw [occurrences] at member
          obtain ⟨step, more, steps, counted, selected⟩ := steps_of_mem member
          exact ⟨step, more, steps, counted, later selected⟩
      | inlineFragment fieldName children =>
          rw [occurrences, List.mem_append] at member
          cases member with
          | inl inside =>
              obtain ⟨step, more, steps, counted, selected⟩ := steps_of_mem inside
              exact ⟨step, more, steps, Nat.le_of_succ_le counted,
                .throughFragment List.mem_cons_self selected⟩
          | inr other =>
              obtain ⟨step, more, steps, counted, selected⟩ := steps_of_mem other
              exact ⟨step, more, steps, counted, later selected⟩

namespace Occurrence

def isVisited (occurrence : Occurrence) : Bool :=
  occurrence.steps.all (·.fragments ≤ 1) && occurrence.above.all (!·.isUncounted)

end Occurrence

def built (steps : List Step) : PathBuilder :=
  ⟨(steps.filter fun step => step.fragments = 0).map Step.key⟩

namespace Occurrence

def recordedPath (occurrence : Occurrence) : List String :=
  (built occurrence.steps).fieldPath occurrence.field

end Occurrence

def recordOccurrence (flags : ArtifactFlags) (occurrence : Occurrence) : ArtifactFlags :=
  flags.record occurrence.field occurrence.recordedPath

def recordAll (flags : ArtifactFlags) (fields : List Occurrence) : ArtifactFlags :=
  (fields.filter Occurrence.isVisited).foldl recordOccurrence flags

theorem recordAll_append (flags : ArtifactFlags) (fields others : List Occurrence) :
    recordAll flags (fields ++ others) = recordAll (recordAll flags fields) others := by
  simp [recordAll, List.foldl_append]

theorem recordAll_cons {occurrence : Occurrence} (visited : occurrence.isVisited = true)
    (flags : ArtifactFlags) (fields : List Occurrence) :
    recordAll flags (occurrence :: fields) =
      recordAll (recordOccurrence flags occurrence) fields := by
  rw [recordAll, List.filter_cons_of_pos visited, List.foldl_cons, recordAll]

def Passed (above : List Step) : Prop :=
  ∀ step ∈ above, step.fragments ≤ 1 ∧ step.isUncounted = false

theorem recordAll_of_deep {above : List Step} {fragments : Nat} (deep : 1 < fragments)
    (selections : List Selection) (flags : ArtifactFlags) :
    recordAll flags (occurrences above fragments selections) = flags := by
  have missed : (occurrences above fragments selections).filter Occurrence.isVisited = [] := by
    refine List.filter_eq_nil_iff.mpr fun occurrence member visited => ?_
    obtain ⟨step, more, steps, counted, _⟩ := steps_of_mem member
    rw [Occurrence.isVisited, Bool.and_eq_true, List.all_eq_true] at visited
    have shallow := visited.1 step (by rw [steps]; simp)
    rw [decide_eq_true_eq] at shallow
    omega
  rw [recordAll, missed, List.foldl_nil]

theorem recordAll_of_uncounted {above : List Step} {own : Step} (uncounted : own.isUncounted = true)
    (fragments : Nat) (selections : List Selection) (flags : ArtifactFlags) :
    recordAll flags (occurrences (above ++ [own]) fragments selections) = flags := by
  have missed : (occurrences (above ++ [own]) fragments selections).filter
      Occurrence.isVisited = [] := by
    refine List.filter_eq_nil_iff.mpr fun occurrence member visited => ?_
    obtain ⟨step, more, steps, _, _⟩ := steps_of_mem member
    have parent : occurrence.above = above ++ own :: (step :: more).dropLast := by
      have shorter := congrArg List.dropLast steps
      rw [Occurrence.steps, List.dropLast_concat, List.dropLast_append_of_ne_nil (by simp),
        List.append_assoc] at shorter
      exact shorter
    rw [Occurrence.isVisited, Bool.and_eq_true, List.all_eq_true, List.all_eq_true] at visited
    have counted := visited.2 own (by rw [parent]; simp)
    rw [uncounted] at counted
    cases counted
  rw [recordAll, missed, List.foldl_nil]

theorem built_of_inlined {above : List Step} {own : Step} (inlined : own.fragments ≠ 0) :
    built (above ++ [own]) = built above := by
  simp [built, inlined]

theorem built_of_pushed {above : List Step} {own : Step} (pushed : own.fragments = 0) :
    built (above ++ [own]) = (built above).push own.key := by
  simp [built, pushed, PathBuilder.push]

theorem pop_push (builder : PathBuilder) (key : String) : (builder.push key).pop = builder := by
  simp [PathBuilder.push, PathBuilder.pop]

theorem Passed.append {above : List Step} {own : Step} (passed : Passed above)
    (shallow : own.fragments ≤ 1) (counted : own.isUncounted = false) :
    Passed (above ++ [own]) := by
  intro step member
  rw [List.mem_append, List.mem_singleton] at member
  cases member with
  | inl before => exact passed step before
  | inr same =>
      subst same
      exact ⟨shallow, counted⟩

theorem Passed.isVisited {above : List Step} {own : Step} (passed : Passed above)
    (shallow : own.fragments ≤ 1) {field : Field} (named : field.aliasName = own.key) :
    (Occurrence.mk above own field named).isVisited = true := by
  rw [Occurrence.isVisited, Bool.and_eq_true, List.all_eq_true, List.all_eq_true]
  constructor
  · intro step member
    rw [Occurrence.steps, List.mem_append, List.mem_singleton] at member
    cases member with
    | inl before => exact decide_eq_true (passed step before).1
    | inr same =>
        subst same
        exact decide_eq_true shallow
  · intro step member
    rw [(passed step member).2]
    rfl

mutual

theorem stringifySelection_eq {above : List Step} (passed : Passed above)
    (selections : List Selection) (flags : ArtifactFlags) :
    stringifySelection selections ⟨built above, flags⟩ =
      ⟨built above, recordAll flags (occurrences above 0 selections)⟩ := by
  match selections with
  | [] => rfl
  | .field field :: rest =>
      have pushed := stringifyFieldSelection_eq passed (Nat.zero_le 1) field flags
      rw [built_of_pushed rfl] at pushed
      rw [stringifySelection, Walk.push, pushed, Walk.pop, pop_push, stringifySelection_eq passed,
        occurrences, recordAll_append]
  | .fragment fieldName :: rest =>
      rw [stringifySelection, stringifySelection_eq passed, occurrences]
  | .inlineFragment fieldName children :: rest =>
      rw [stringifySelection, stringifyInlineFragment_eq passed, stringifySelection_eq passed,
        occurrences, recordAll_append]

theorem stringifyInlineFragment_eq {above : List Step} (passed : Passed above)
    (selections : List Selection) (flags : ArtifactFlags) :
    stringifyInlineFragment selections ⟨built above, flags⟩ =
      ⟨built above, recordAll flags (occurrences above 1 selections)⟩ := by
  match selections with
  | [] => rfl
  | .field field :: rest =>
      have inlined := stringifyFieldSelection_eq passed (Nat.le_refl 1) field flags
      rw [built_of_inlined Nat.one_ne_zero] at inlined
      rw [stringifyInlineFragment, inlined, stringifyInlineFragment_eq passed, occurrences,
        recordAll_append]
  | .fragment fieldName :: rest =>
      rw [stringifyInlineFragment, stringifyInlineFragment_eq passed, occurrences]
  | .inlineFragment fieldName children :: rest =>
      rw [stringifyInlineFragment, stringifyInlineFragment_eq passed, occurrences,
        recordAll_append, recordAll_of_deep Nat.one_lt_two]

theorem stringifyFieldSelection_eq {above : List Step} (passed : Passed above) {fragments : Nat}
    (shallow : fragments ≤ 1) (field : Field) (flags : ArtifactFlags) :
    stringifyFieldSelection field
        ⟨built (above ++ [⟨field.aliasName, fragments, field.isUncounted⟩]), flags⟩ =
      ⟨built (above ++ [⟨field.aliasName, fragments, field.isUncounted⟩]),
        recordAll flags (fieldOccurrences above fragments field)⟩ := by
  match field with
  | .mk aliasName fieldType list directives children =>
      have visited : (Occurrence.mk above ⟨aliasName, fragments,
          (Field.mk aliasName fieldType list directives children).isUncounted⟩
          (.mk aliasName fieldType list directives children) rfl).isVisited = true :=
        passed.isVisited shallow rfl
      rw [stringifyFieldSelection, fieldOccurrences]
      dsimp only [Walk.record]
      rw [recordAll_cons visited]
      cases counted : (Field.mk aliasName fieldType list directives children).isUncounted with
      | true =>
          rw [if_pos rfl, recordAll_of_uncounted rfl]
          rfl
      | false =>
          rw [if_neg Bool.false_ne_true, stringifySelection_eq (passed.append shallow rfl)]
          rfl

end

theorem map_path_foldl (fields : List Occurrence) (flags : ArtifactFlags) :
    (fields.foldl recordOccurrence flags).rootOperations.map RootOperation.path =
      flags.rootOperations.map RootOperation.path ++
        (fields.filter (·.field.isRefetched)).map Occurrence.recordedPath := by
  induction fields generalizing flags with
  | nil => simp
  | cons occurrence rest ih =>
      rw [List.foldl_cons, ih, recordOccurrence, ArtifactFlags.record]
      cases refetched : occurrence.field.isRefetched <;> simp [refetched]

/-- Of the fields that hold lists, the one that refetches are for: the last one with pages, else the
first one. -/
def preferred (best : Option Occurrence) (occurrence : Occurrence) : Option Occurrence :=
  match occurrence.field.list with
  | some list => if best.isNone || list.paginated then some occurrence else best
  | none => best

theorem refetch_foldl (fields : List Occurrence) {flags : ArtifactFlags} {best : Option Occurrence}
    (agree : flags.refetch.map RefetchSpec.path = best.map Occurrence.recordedPath) :
    (fields.foldl recordOccurrence flags).refetch.map RefetchSpec.path =
      (fields.foldl preferred best).map Occurrence.recordedPath := by
  induction fields generalizing flags best with
  | nil => exact agree
  | cons occurrence rest ih =>
      rw [List.foldl_cons, List.foldl_cons]
      refine ih ?_
      have same : flags.refetch.isNone = best.isNone := by
        simpa using congrArg Option.isNone agree
      rw [recordOccurrence, ArtifactFlags.record, preferred]
      cases occurrence.field.list with
      | none => exact agree
      | some list =>
          dsimp only
          rw [same]
          split
          · rfl
          · exact agree

namespace Occurrence

/-- No field around it is a direct child of an inline fragment. The field itself may be one unless
its key is that of the field around it. -/
def IsPlain (occurrence : Occurrence) : Prop :=
  (∀ step ∈ occurrence.above, step.fragments = 0) ∧
    (occurrence.own.fragments ≠ 0 →
      occurrence.above.getLast?.map Step.key ≠ some occurrence.own.key)

end Occurrence

theorem built_eq_map_iff {above : List Step} :
    (built above).path = above.map Step.key ↔ ∀ step ∈ above, step.fragments = 0 := by
  constructor
  · intro same
    have whole : (above.filter fun step => step.fragments = 0).length = above.length := by
      simpa [built] using congrArg List.length same
    simpa using List.length_filter_eq_length_iff.mp whole
  · intro pushed
    have whole : (above.filter fun step => step.fragments = 0) = above := by
      simpa using pushed
    rw [built, whole]

theorem length_built (above : List Step) : (built above).path.length ≤ above.length := by
  simpa [built] using List.length_filter_le (fun step : Step => decide (step.fragments = 0)) above

theorem recordedPath_eq_iff (occurrence : Occurrence) :
    occurrence.recordedPath = occurrence.responsePath ↔ occurrence.IsPlain := by
  obtain ⟨above, own, field, named⟩ := occurrence
  rw [Occurrence.recordedPath, Occurrence.responsePath, Occurrence.steps, List.map_append,
    List.map_singleton, PathBuilder.fieldPath, named]
  by_cases pushed : own.fragments = 0
  · have last : ((built (above ++ [own])).path).getLast? = some own.key := by
      rw [built_of_pushed pushed, PathBuilder.push, List.getLast?_concat]
    rw [if_pos last, built_of_pushed pushed, PathBuilder.push, List.append_cancel_right_eq,
      built_eq_map_iff]
    constructor
    · exact fun above => ⟨above, fun inlined => absurd pushed inlined⟩
    · exact fun plain => plain.1
  · rw [built_of_inlined pushed]
    constructor
    · intro same
      split at same
      · have shorter := length_built above
        rw [same, List.length_append, List.length_map, List.length_singleton] at shorter
        exact absurd shorter (Nat.not_succ_le_self _)
      · next other =>
          have path := List.append_cancel_right same
          rw [path, List.getLast?_map] at other
          exact ⟨built_eq_map_iff.mp path, fun _ => other⟩
    · intro plain
      have path := built_eq_map_iff.mpr plain.1
      have other := plain.2 pushed
      rw [← List.getLast?_map, ← path] at other
      rw [if_neg other, path]

theorem recordedPath_sublist (occurrence : Occurrence) :
    occurrence.recordedPath.Sublist occurrence.responsePath := by
  have fewer (steps : List Step) : (built steps).path.Sublist (steps.map Step.key) :=
    List.Sublist.map Step.key List.filter_sublist
  rw [Occurrence.recordedPath, PathBuilder.fieldPath]
  split
  · exact fewer occurrence.steps
  · next other =>
      have inlined : occurrence.own.fragments ≠ 0 := by
        intro pushed
        rw [Occurrence.steps, built_of_pushed pushed, PathBuilder.push, List.getLast?_concat,
          occurrence.named] at other
        exact other rfl
      rw [Occurrence.responsePath, Occurrence.steps, built_of_inlined inlined, List.map_append,
        List.map_singleton, occurrence.named]
      exact (fewer occurrence.above).append_right _

theorem recordedPath_ne_nil (occurrence : Occurrence) : occurrence.recordedPath ≠ [] := by
  rw [Occurrence.recordedPath, PathBuilder.fieldPath]
  split
  · next last =>
      intro empty
      rw [empty] at last
      cases last
  · simp

namespace Document

variable (document : Document)

def fields : List Occurrence := occurrences [] 0 document.selections

def refetched : List Occurrence := document.fields.filter (·.field.isRefetched)

def listed : Option Occurrence :=
  (document.fields.filter Occurrence.isVisited).foldl preferred none

/-- Every recorded path is that of the response, from the root of the document or from that of the
fragment whose pages it finds. -/
structure PathsRecorded : Prop where
  operations : document.operationPaths = document.refetched.map Occurrence.responsePath
  refetch : document.refetchPath = document.listed.map fun occurrence =>
    if document.findsFragment then occurrence.responsePath.drop 1 else occurrence.responsePath

theorem flags_eq : document.flags = recordAll {} document.fields := by
  have passed : Passed [] := fun _ member => absurd member List.not_mem_nil
  exact congrArg Walk.flags (stringifySelection_eq passed document.selections {})

theorem operationPaths_eq : document.operationPaths =
    (document.refetched.filter Occurrence.isVisited).map Occurrence.recordedPath := by
  rw [operationPaths, flags_eq, recordAll, map_path_foldl, List.map_nil, List.nil_append,
    refetched, List.filter_comm]

theorem refetchPath_eq : document.refetchPath = document.listed.map fun occurrence =>
    if isPaginationQuery document.name then occurrence.recordedPath.drop 1
    else occurrence.recordedPath := by
  have start : ({} : ArtifactFlags).refetch.map RefetchSpec.path =
      (none : Option Occurrence).map Occurrence.recordedPath := rfl
  have path := refetch_foldl (document.fields.filter Occurrence.isVisited) start
  rw [← listed, ← recordAll, ← flags_eq] at path
  have stripped := congrArg (Option.map fun path : List String =>
    if isPaginationQuery document.name then path.drop 1 else path) path
  rw [Option.map_map, Option.map_map] at stripped
  exact stripped

theorem operations_iff : document.operationPaths =
      document.refetched.map Occurrence.responsePath ↔
    ∀ occurrence ∈ document.refetched, occurrence.isVisited = true ∧ occurrence.IsPlain := by
  rw [operationPaths_eq]
  constructor
  · intro same
    have count : (document.refetched.filter Occurrence.isVisited).length =
        document.refetched.length := by simpa using congrArg List.length same
    have visited := List.length_filter_eq_length_iff.mp count
    rw [List.filter_eq_self.mpr visited, List.map_inj_left] at same
    exact fun occurrence member =>
      ⟨visited occurrence member, (recordedPath_eq_iff occurrence).mp (same occurrence member)⟩
  · intro plain
    rw [List.filter_eq_self.mpr fun occurrence member => (plain occurrence member).1]
    exact List.map_congr_left fun occurrence member =>
      (recordedPath_eq_iff occurrence).mpr (plain occurrence member).2

theorem stripped_iff (occurrence : Occurrence) :
    (if isPaginationQuery document.name then occurrence.recordedPath.drop 1
        else occurrence.recordedPath) =
      (if document.findsFragment then occurrence.responsePath.drop 1
        else occurrence.responsePath) ↔
    occurrence.IsPlain ∧
      (isPaginationQuery document.name = true → document.findsFragment = true) := by
  have sub := recordedPath_sublist occurrence
  have filled := List.length_pos_of_ne_nil (recordedPath_ne_nil occurrence)
  have fewer := sub.length_le
  rw [← recordedPath_eq_iff]
  cases finds : document.findsFragment with
  | true =>
      have query := document.generated finds
      simp only [query, if_true, implies_true, and_true]
      constructor
      · intro same
        have count := congrArg List.length same
        rw [List.length_drop, List.length_drop] at count
        exact sub.eq_of_length (by omega)
      · exact fun same => congrArg (List.drop 1) same
  | false =>
      cases query : isPaginationQuery document.name with
      | true =>
          constructor
          · intro same
            have count := congrArg List.length same
            simp only [if_true, Bool.false_eq_true, if_false, List.length_drop] at count
            omega
          · exact fun both => absurd (both.2 rfl) Bool.false_ne_true
      | false => simp

theorem refetch_iff : (document.refetchPath = document.listed.map fun occurrence =>
      if document.findsFragment then occurrence.responsePath.drop 1
      else occurrence.responsePath) ↔
    ∀ occurrence ∈ document.listed, occurrence.IsPlain ∧
      (isPaginationQuery document.name = true → document.findsFragment = true) := by
  rw [refetchPath_eq]
  cases document.listed with
  | none => simp
  | some occurrence =>
      rw [Option.map_some, Option.map_some, Option.some.injEq, document.stripped_iff]
      simp

/-- The paths that are recorded are those of the response just if every field that is recorded, and
every field with `@refetch`, is plain, and a query with the name of one for the pages of a fragment
finds its fragment by a field. -/
theorem pathsRecorded_iff : document.PathsRecorded ↔
    (∀ occurrence ∈ document.refetched,
      occurrence.isVisited = true ∧ occurrence.IsPlain) ∧
    ∀ occurrence ∈ document.listed, occurrence.IsPlain ∧
      (isPaginationQuery document.name = true → document.findsFragment = true) := by
  rw [← operations_iff, ← refetch_iff]
  exact ⟨fun recorded => ⟨recorded.operations, recorded.refetch⟩,
    fun both => ⟨both.1, both.2⟩⟩

end Document

def friendDocument : Document where
  name := "Befriend"
  selections := [.field (.mk "node" "Node" none [] [.inlineFragment "User"
    [.field (.mk "friend" "User" none []
      [.field (.mk "best" "User" none [⟨"refetch", []⟩] [])])]])]
  generated := by decide

theorem friendDocument_not_recorded : ¬ friendDocument.PathsRecorded := by
  intro recorded
  have operations : friendDocument.operationPaths = [["node", "best"]] := by decide
  have response : friendDocument.refetched.map Occurrence.responsePath =
      [["node", "friend", "best"]] := by decide
  rw [← recorded.operations, operations] at response
  exact absurd response (by decide)

end Houdini.Plugin.Artifacts
