import Houdini.React.ScriptText

/-! The scripts that `load_query` streams to the page while a query is loading. -/

set_option autoImplicit false

namespace Houdini.React

open Houdini.Runtime (Json JsonNumber stringify)

def templateText (lines : List (Nat × String)) : List Char :=
  ['\n'].intercalate (lines.map fun line => List.replicate line.1 '\t' ++ line.2.toList)

theorem not_mem_templateText {char : Char} {lines : List (Nat × String)} (tab : char ≠ '\t')
    (newline : char ≠ '\n') (none : ∀ line ∈ lines, char ∉ line.2.toList) :
    char ∉ templateText lines := by
  unfold templateText
  induction lines with
  | nil => exact List.not_mem_nil
  | cons line rest ih =>
      have first : char ∉ List.replicate line.1 '\t' ++ line.2.toList := by
        rw [List.mem_append]
        rintro (indent | inside)
        · exact tab (List.eq_of_mem_replicate indent)
        · exact none line List.mem_cons_self inside
      have others := ih fun line among => none line (List.mem_cons_of_mem _ among)
      cases rest with
      | nil => simpa using first
      | cons next rest =>
          rw [List.map_cons, List.map_cons, List.intercalate_cons_cons, List.mem_append,
            List.mem_append, List.mem_singleton]
          rintro ((inside | between) | after)
          · exact first inside
          · exact newline between
          · exact others after

theorem plain_line {char : Char} {tabs : Nat} {text : String} {chars : List Char}
    {lines : List (Nat × String)} (same : text = String.ofList chars) (none : char ∉ chars)
    (others : ∀ line ∈ lines, char ∉ line.2.toList) :
    ∀ line ∈ (tabs, text) :: lines, char ∉ line.2.toList := by
  rw [List.forall_mem_cons, same, String.toList_ofList]
  exact ⟨none, others⟩

def errorOpening : List Char := templateText
  [(0, ""),
    (4, "<script>")]

def beforeErrorName : List Char := templateText
  [(0, ""),
    (4, "\x7b"),
    (5, "const artifactName = ")]

def beforeErrors : List Char := templateText
  [(0, ""),
    (5, "const errors = ")]

def beforeErrorVariables : List Char := templateText
  [(0, ""),
    (5, "const variables = ")]

def beforeErrorArtifact : List Char := templateText
  [(0, ""),
    (5, "const artifact = ")]

def behindErrorArtifact : List Char := templateText
  [(0, ""),
    (0, ""),
    (5, "// build a document store that already carries the errors so useQueryResult"),
    (5, "// throws to the nearest boundary the moment it reads the store"),
    (5, "const __houdini__error_store__ = (knownArtifact) => \x7b"),
    (6, "const store = window.__houdini__client__.observe(\x7b"),
    (7, "artifact: knownArtifact ?? artifact,"),
    (7, "cache: window.__houdini__cache__,"),
    (7, "initialVariables: variables,"),
    (6, "\x7d)"),
    (6, "store.update((state) => (\x7b ...state, fetching: false, errors \x7d))"),
    (6, "return store"),
    (5, "\x7d"),
    (0, ""),
    (5, "// if the client has already hydrated (a client-side navigation to an @loading"),
    (5, "// route) push the error store straight into the live caches and release the signal"),
    (5, "if (window.__houdini__nav_caches__) \x7b"),
    (6, "const caches = window.__houdini__nav_caches__"),
    (6, "caches.data_cache.set("),
    (7, "artifactName,"),
    (7, "__houdini__error_store__(caches.artifact_cache.get(artifactName))"),
    (6, ")"),
    (6, "if (caches.ssr_signals.has(artifactName)) \x7b"),
    (7, "caches.ssr_signals.get(artifactName).resolve()"),
    (7, "caches.ssr_signals.delete(artifactName)"),
    (6, "\x7d"),
    (5, "\x7d else \x7b"),
    (6, "// otherwise the page module hasn't run yet (the common @loading case): stash the"),
    (6, "// error so hydrate_page can build the error store when it sets up the caches"),
    (6, "const pendingArtifacts = (window.__houdini__pending_artifacts__ ="),
    (7, "window.__houdini__pending_artifacts__ || \x7b\x7d)"),
    (6, "pendingArtifacts[artifactName] = artifact"),
    (6, "const pendingVariables = (window.__houdini__pending_variables__ ="),
    (7, "window.__houdini__pending_variables__ || \x7b\x7d)"),
    (6, "pendingVariables[artifactName] = variables"),
    (6, "const pendingErrors = (window.__houdini__pending_errors__ ="),
    (7, "window.__houdini__pending_errors__ || \x7b\x7d)"),
    (6, "pendingErrors[artifactName] = errors"),
    (5, "\x7d"),
    (4, "\x7d"),
    (4, "")]

def errorClosing : List Char := templateText
  [(0, "</script>"),
    (3, "")]

structure StreamedErrors where
  artifactName : String
  errors : Json
  «variables» : Option Json
  artifact : Json

def StreamedErrors.body (streamed : StreamedErrors) : List Char :=
  errorOpening ++ (beforeErrorName ++
    (escapeScriptTag (Json.string streamed.artifactName).stringify ++ (beforeErrors ++
      (escapeScriptTag streamed.errors.stringify ++ (beforeErrorVariables ++
        (escapeScriptTag (stringify streamed.variables) ++ (beforeErrorArtifact ++
          (escapeScriptTag streamed.artifact.stringify ++ behindErrorArtifact))))))))

def StreamedErrors.chunk (streamed : StreamedErrors) : List Char := streamed.body ++ errorClosing

def dataOpening : List Char := templateText
  [(0, ""),
    (6, "<script>")]

def beforeSnapshot : List Char := templateText
  [(0, ""),
    (6, "\x7b"),
    (8, "// the resolved cache snapshot for this streamed query. when the bootstrap"),
    (8, "// module has already run (data arrived after hydration) we hydrate the live"),
    (8, "// cache directly; otherwise the module is still deferred (an @loading query"),
    (8, "// streams its data while the document is open) so we queue the snapshot for"),
    (8, "// hydrate_page to apply once it creates the cache. without this the snapshot"),
    (8, "// would be dropped and the query would hydrate with null data."),
    (8, "const __houdini__snapshot__ = ")]

def beforeName : List Char := templateText
  [(0, ""),
    (8, "if (window.__houdini__cache__) \x7b"),
    (9, "// hydrate into a fresh layer and merge it down, rather than clobbering the"),
    (9, "// shared hydration layer (which would drop everything hydrated before it)"),
    (9, "const __houdini__layer__ = window.__houdini__cache__.hydrate(__houdini__snapshot__)"),
    (9, "if (__houdini__layer__) \x7b"),
    (10, "window.__houdini__cache__._internal_unstable.storage.resolveLayer(__houdini__layer__.id)"),
    (9, "\x7d"),
    (8, "\x7d else \x7b"),
    (9, "(window.__houdini__pending_cache__ = window.__houdini__pending_cache__ || []).push(__houdini__snapshot__)"),
    (8, "\x7d"),
    (0, ""),
    (8, "const artifactName = \"")]

def beforeValue : List Char := templateText
  [(0, "\""),
    (8, "const value = ")]

def beforeInput : List Char := templateText
  [(0, ""),
    (0, ""),
    (8, "// if the data is pending, we need to resolve it"),
    (8, "if (window.__houdini__nav_caches__?.data_cache.has(artifactName)) \x7b"),
    (9, "// before we resolve the pending signals,"),
    (9, "// fill the data cache with values we got on the server"),
    (9, "const new_store = window.__houdini__client__.observe(\x7b"),
    (10, "artifact: window.__houdini__nav_caches__.artifact_cache.get(artifactName),"),
    (10, "cache: window.__houdini__cache__,"),
    (9, "\x7d)"),
    (0, ""),
    (9, "// we're pushing this store onto the client, it should be initialized"),
    (9, "window.__houdini__nav_caches__.data_cache.get(artifactName).send(\x7b"),
    (10, "setup: true,"),
    (10, "variables: ")]

def beforeVariables : List Char := templateText
  [(0, ""),
    (9, "\x7d).then(() => \x7b"),
    (10, "window.__houdini__nav_caches__?.data_cache.set(artifactName, new_store)"),
    (9, "\x7d)"),
    (0, ""),
    (8, "\x7d"),
    (0, ""),
    (0, ""),
    (8, "// if there are no data caches available we need to populate the pending one instead"),
    (8, "if (!window.__houdini__nav_caches__) \x7b"),
    (9, "if (!window.__houdini__pending_data__) \x7b"),
    (10, "window.__houdini__pending_data__ = \x7b\x7d"),
    (9, "\x7d"),
    (0, ""),
    (9, "if (!window.__houdini__pending_variables__) \x7b"),
    (10, "window.__houdini__pending_variables__ = \x7b\x7d"),
    (9, "\x7d"),
    (0, ""),
    (9, "if (!window.__houdini__pending_artifacts__) \x7b"),
    (10, "window.__houdini__pending_artifacts__ = \x7b\x7d"),
    (9, "\x7d"),
    (8, "\x7d"),
    (0, ""),
    (8, "window.__houdini__pending_variables__[artifactName] = ")]

def beforeArtifact : List Char := templateText
  [(0, ""),
    (8, "window.__houdini__pending_data__[artifactName] = value"),
    (8, "window.__houdini__pending_artifacts__[artifactName] = ")]

def beforeSetup : List Char := templateText
  [(0, ""),
    (0, ""),
    (8, "// if this payload finishes off an ssr request, we need to resolve the signal"),
    (8, "if (window.__houdini__nav_caches__?.ssr_signals.has(artifactName)) \x7b"),
    (0, ""),
    (9, "// if the data showed up on the client before"),
    (9, "if (window.__houdini__nav_caches__.data_cache.has(artifactName)) \x7b"),
    (10, "// we're pushing this store onto the client, it should be initialized"),
    (10, "window.__houdini__nav_caches__.data_cache.get(artifactName).send(\x7b"),
    (11, "setup: true,"),
    (11, "variables: ")]

def behindSetup : List Char := templateText
  [(0, ""),
    (10, "\x7d)"),
    (9, "\x7d"),
    (0, ""),
    (0, ""),
    (9, "// trigger the signal"),
    (9, "window.__houdini__nav_caches__.ssr_signals.get(artifactName).resolve()"),
    (9, "window.__houdini__nav_caches__.ssr_signals.delete(artifactName)"),
    (8, "\x7d"),
    (7, "\x7d"),
    (6, "")]

def dataClosing : List Char := templateText
  [(0, "</script>"),
    (5, "")]

/-- The top layer of a cache. A field that holds a function has no value. -/
structure StoredLayer where
  rank : JsonNumber
  fields : List (String × List (String × Option Json))
  links : List (String × Json)

/-- `serialize`, before it is written as a text. -/
def StoredLayer.snapshot (layer : StoredLayer) : Json :=
  .object
    [("rank", .number layer.rank),
      ("fields", .object (layer.fields.map fun record => (record.1, .object
        (record.2.filterMap fun field => field.2.map fun value => (field.1, value))))),
      ("links", .object layer.links)]

/-- What `load_query` streams of a result: the cache, the marshaled data and inputs, the variables
of the store and the artifact. -/
structure StreamedResult where
  layer : StoredLayer
  artifactName : String
  value : Option Json
  input : Option Json
  «variables» : Option Json
  artifact : Json

def StreamedResult.body (streamed : StreamedResult) : List Char :=
  dataOpening ++ (beforeSnapshot ++
    (streamed.layer.snapshot.stringify ++ (beforeName ++
      (streamed.artifactName.toList ++ (beforeValue ++
        (stringify streamed.value ++ (beforeInput ++
          (stringify streamed.input ++ (beforeVariables ++
            (stringify streamed.variables ++ (beforeArtifact ++
              (streamed.artifact.stringify ++ (beforeSetup ++
                (stringify streamed.input ++ behindSetup))))))))))))))

def StreamedResult.chunk (streamed : StreamedResult) : List Char := streamed.body ++ dataClosing

theorem stops_of_head {piece : List Char} {char : Char} (first : piece.head? = some char)
    (outside : char.toLower ∉ "/script!-".toList) (rest : List Char) : Stops (piece ++ rest) := by
  obtain ⟨others, rfl⟩ := List.head?_eq_some_iff.mp first
  exact stops_cons outside _

theorem breaks_closing_iff {closing : List Char} (stops : Stops closing)
    (own : breaks closing = [closing]) (body : List Char) :
    breaks (body ++ closing) = [closing] ↔ breaks body = [] := by
  rw [breaks_append stops, own]
  constructor
  · intro same
    have none : (breaks body).map (· ++ closing) = [] := by
      have lengths := congrArg List.length same
      rw [List.length_append, List.length_singleton] at lengths
      exact List.length_eq_zero_iff.mp (by omega)
    exact List.map_eq_nil_iff.mp none
  · intro none
    rw [none]
    rfl

theorem breaks_piece_iff {piece : List Char} (none : '<' ∉ piece) (before rest : List Char)
    {char : Char} (first : piece.head? = some char)
    (outside : char.toLower ∉ "/script!-".toList) :
    breaks (before ++ (piece ++ rest)) = [] ↔ breaks before = [] ∧ breaks rest = [] := by
  rw [breaks_append_eq_nil_iff (stops_of_head first outside rest),
    breaks_append_of_not_mem none]

theorem breaks_last_iff {piece : List Char} (none : '<' ∉ piece) (before : List Char)
    {char : Char} (first : piece.head? = some char)
    (outside : char.toLower ∉ "/script!-".toList) :
    breaks (before ++ piece) = [] ↔ breaks before = [] := by
  have whole := breaks_piece_iff none before [] first outside
  rw [List.append_nil] at whole
  exact whole.trans (and_iff_left rfl)

theorem breaks_errorClosing_iff (body : List Char) :
    breaks (body ++ errorClosing) = [errorClosing] ↔ breaks body = [] := by
  have stops : Stops errorClosing := stops_cons (by decide) _
  exact breaks_closing_iff stops (by decide +kernel) body

theorem breaks_dataClosing_iff (body : List Char) :
    breaks (body ++ dataClosing) = [dataClosing] ↔ breaks body = [] := by
  have stops : Stops dataClosing := stops_cons (by decide) _
  exact breaks_closing_iff stops (by decide +kernel) body

theorem breaks_escaped (json : List Char) : breaks (escapeScriptTag json) = [] :=
  breaks_of_not_mem (not_mem_escapeScriptTag json)

theorem plain_errorPieces {piece : List Char} (among : piece ∈ [beforeErrorName, beforeErrors,
    beforeErrorVariables, beforeErrorArtifact, behindErrorArtifact]) : '<' ∉ piece := by
  simp only [List.mem_cons, List.not_mem_nil, or_false] at among
  rcases among with rfl | rfl | rfl | rfl | rfl
  all_goals
    refine not_mem_templateText (by decide) (by decide) ?_
    repeat refine plain_line rfl (by decide +kernel) ?_
    exact List.forall_mem_nil _

theorem plain_dataPieces {piece : List Char} (among : piece ∈ [beforeSnapshot, beforeName,
    beforeValue, beforeInput, beforeVariables, beforeArtifact, beforeSetup, behindSetup]) :
    '<' ∉ piece := by
  simp only [List.mem_cons, List.not_mem_nil, or_false] at among
  rcases among with rfl | rfl | rfl | rfl | rfl | rfl | rfl | rfl
  all_goals
    refine not_mem_templateText (by decide) (by decide) ?_
    repeat refine plain_line rfl (by decide +kernel) ?_
    exact List.forall_mem_nil _

theorem StreamedErrors.breaks_body (streamed : StreamedErrors) : breaks streamed.body = [] := by
  have newline : '\n'.toLower ∉ "/script!-".toList := by decide
  unfold StreamedErrors.body
  refine (breaks_piece_iff (plain_errorPieces (by simp)) errorOpening _ rfl newline).mpr
    ⟨by decide +kernel, ?_⟩
  refine (breaks_piece_iff (plain_errorPieces (by simp)) _ _ rfl newline).mpr ⟨breaks_escaped _, ?_⟩
  refine (breaks_piece_iff (plain_errorPieces (by simp)) _ _ rfl newline).mpr ⟨breaks_escaped _, ?_⟩
  refine (breaks_piece_iff (plain_errorPieces (by simp)) _ _ rfl newline).mpr ⟨breaks_escaped _, ?_⟩
  exact (breaks_last_iff (plain_errorPieces (by simp)) _ rfl newline).mpr (breaks_escaped _)

/-- No text that is written into the script of a result breaks it. -/
structure StreamedResult.Unbroken (streamed : StreamedResult) : Prop where
  snapshot : IsUnbroken streamed.layer.snapshot
  artifactName : breaks streamed.artifactName.toList = []
  value : ∀ json ∈ streamed.value, IsUnbroken json
  input : ∀ json ∈ streamed.input, IsUnbroken json
  «variables» : ∀ json ∈ streamed.variables, IsUnbroken json
  artifact : IsUnbroken streamed.artifact

theorem StreamedResult.breaks_body_iff (streamed : StreamedResult) :
    breaks streamed.body = [] ↔ streamed.Unbroken := by
  have newline : '\n'.toLower ∉ "/script!-".toList := by decide
  have quote : '"'.toLower ∉ "/script!-".toList := by decide
  have opening : breaks dataOpening = [] := by decide +kernel
  unfold StreamedResult.body
  rw [breaks_piece_iff (plain_dataPieces (by simp)) dataOpening _ rfl newline,
    breaks_piece_iff (plain_dataPieces (by simp)) _ _ rfl newline,
    breaks_piece_iff (plain_dataPieces (by simp)) _ _ rfl quote,
    breaks_piece_iff (plain_dataPieces (by simp)) _ _ rfl newline,
    breaks_piece_iff (plain_dataPieces (by simp)) _ _ rfl newline,
    breaks_piece_iff (plain_dataPieces (by simp)) _ _ rfl newline,
    breaks_piece_iff (plain_dataPieces (by simp)) _ _ rfl newline,
    breaks_last_iff (plain_dataPieces (by simp)) _ rfl newline, breaks_stringify_iff,
    breaks_stringify_iff, breaks_stringify?_iff, breaks_stringify?_iff, breaks_stringify?_iff]
  constructor
  · rintro ⟨_, snapshot, name, value, input, «variables», artifact, _⟩
    exact ⟨snapshot, name, value, input, «variables», artifact⟩
  · intro unbroken
    exact ⟨opening, unbroken.snapshot, unbroken.artifactName, unbroken.value, unbroken.input,
      unbroken.variables, unbroken.artifact, unbroken.input⟩

/-- The scripts of errors always end where their templates end them. Those of results do exactly if
no text that is written into them ends a script or begins a comment. -/
theorem chunks_end_iff (errors : StreamedErrors) (result : StreamedResult) :
    breaks errors.chunk = [errorClosing] ∧
      (breaks result.chunk = [dataClosing] ↔ result.Unbroken) := by
  constructor
  · exact (breaks_errorClosing_iff errors.body).mpr errors.breaks_body
  · exact (breaks_dataClosing_iff result.body).trans result.breaks_body_iff

def streamedComment (text : String) : StreamedResult where
  layer := { rank := ⟨"1", List.all_iff_forall_prop.mp (by decide)⟩, fields := [], links := [] }
  artifactName := "Comment"
  value := some (.object [("comment", .string text)])
  input := none
  «variables» := none
  artifact := .object []

/-- The page leaves the script where the comment does. -/
theorem chunk_comment_breaks :
    breaks (streamedComment "</SCRIPT><script>alert(1)").chunk ≠ [dataClosing] := by
  intro ends
  have unbroken : (streamedComment "</SCRIPT><script>alert(1)").Unbroken := by
    rw [← StreamedResult.breaks_body_iff, ← breaks_dataClosing_iff]
    exact ends
  have comment : breaks "</SCRIPT><script>alert(1)".toList = [] := (unbroken.value _ rfl).2.1
  exact absurd comment (by decide +kernel)

end Houdini.React
