import Houdini.Data.SplitText
import Houdini.Runtime.MultipartClones

/-! When the variables that are received are those that were sent. -/

set_option autoImplicit false

namespace Houdini.Runtime.Multipart

universe u

variable {File : Type u} [DecidableEq File]

def addAll (files : FileMap File) (path : List Text) (found : List (List Text × File)) :
    FileMap File :=
  found.foldl (fun files entry => files.add entry.2 (dotted (path ++ entry.1))) files

theorem addAll_append (files : FileMap File) (path : List Text)
    (found others : List (List Text × File)) :
    addAll files path (found ++ others) = addAll (addAll files path found) path others :=
  List.foldl_append

theorem addAll_map_cons (files : FileMap File) (path : List Text) (label : Text)
    (found : List (List Text × File)) :
    addAll files path (found.map fun entry => (label :: entry.1, entry.2)) =
      addAll files (path ++ [label]) found := by
  simp [addAll, List.foldl_map]

mutual

theorem extractFiles_files (value : Value File) (path : List Text) (files : FileMap File) :
    (extractFiles value path files).2 = addAll files path (filesOf value) := by
  match value with
  | .file file => simp [extractFiles, filesOf, addAll]
  | .primitive json => rfl
  | .builtin json => rfl
  | .list items => exact extractItems_files 0 items path files
  | .object isPlain fields => exact extractFields_files fields path files

theorem extractItems_files (index : Nat) (items : List (Value File)) (path : List Text)
    (files : FileMap File) :
    (extractItems index items path files).2 = addAll files path (filesOfItems index items) := by
  match items with
  | [] => rfl
  | item :: rest =>
      rw [extractItems, extractItems_files, extractFiles_files, filesOfItems, addAll_append,
        addAll_map_cons]

theorem extractFields_files (fields : List (Text × Value File)) (path : List Text)
    (files : FileMap File) :
    (extractFields fields path files).2 = addAll files path (filesOfFields fields) := by
  match fields with
  | [] => rfl
  | (key, value) :: rest =>
      rw [extractFields, extractFields_files, extractFiles_files, filesOfFields, addAll_append,
        addAll_map_cons]

end

mutual

theorem render_extractFiles (put : List Text → File → Json File) (value : Value File)
    (path : List Text) (files : FileMap File) :
    render put (extractFiles value path files).1 =
      render (fun _ _ => .leaf (.scalar .null)) (cloned value) := by
  match value with
  | .file file => rfl
  | .primitive json => rfl
  | .builtin json => rfl
  | .list items =>
      rw [extractFiles, render, cloned, render, renderItems_extractItems put]
  | .object isPlain fields =>
      rw [extractFiles, render, cloned, render, renderFields_extractFields put]

theorem renderItems_extractItems (put : List Text → File → Json File) (index : Nat)
    (items : List (Value File)) (path : List Text) (files : FileMap File) :
    renderItems put index (extractItems index items path files).1 =
      renderItems (fun _ _ => .leaf (.scalar .null)) index (clonedItems items) := by
  match items with
  | [] => rfl
  | item :: rest =>
      rw [extractItems, renderItems, renderItems_extractItems put, render_extractFiles,
        clonedItems, renderItems]

theorem renderFields_extractFields (put : List Text → File → Json File)
    (fields : List (Text × Value File)) (path : List Text) (files : FileMap File) :
    renderFields put (extractFields fields path files).1 =
      renderFields (fun _ _ => .leaf (.scalar .null)) (clonedFields fields) := by
  match fields with
  | [] => rfl
  | (key, value) :: rest =>
      have later := renderFields_extractFields put rest path
        (extractFiles value (path ++ [key]) files).2
      rw [extractFields, clonedFields]
      dsimp only
      split
      · exact later
      · rw [renderFields, renderFields, render_extractFiles, later]

end

theorem prefixed {path : List Text} (filled : dotted path ≠ []) (label : Text) :
    pathPrefix (dotted path) ++ label = dotted (path ++ [label]) := by
  have named : path ≠ [] := by
    intro empty
    rw [empty] at filled
    exact filled rfl
  rw [pathPrefix, if_neg filled, dotted_append_singleton named, List.append_assoc,
    List.singleton_append]

theorem dotted_append_ne_nil {path : List Text} (filled : dotted path ≠ []) (label : Text) :
    dotted (path ++ [label]) ≠ [] := by
  rw [← prefixed filled, pathPrefix, if_neg filled]
  simp

mutual

theorem recurse_eq {path : List Text} (filled : dotted path ≠ []) (value : Value File)
    (files : FileMap File) :
    recurse value (dotted path) files = addAll files path (plainFilesOf value) := by
  match value with
  | .file file => simp [recurse, plainFilesOf, addAll]
  | .primitive json => rfl
  | .builtin json => rfl
  | .list items => exact recurseItems_eq filled 0 items files
  | .object isPlain fields =>
      rw [recurse, plainFilesOf]
      split
      · exact recurseFields_eq filled fields files
      · rfl

theorem recurseItems_eq {path : List Text} (filled : dotted path ≠ []) (index : Nat)
    (items : List (Value File)) (files : FileMap File) :
    recurseItems index items (dotted path) files =
      addAll files path (plainFilesOfItems index items) := by
  match items with
  | [] => rfl
  | item :: rest =>
      rw [recurseItems, recurseItems_eq filled, prefixed filled,
        recurse_eq (dotted_append_ne_nil filled _), plainFilesOfItems, addAll_append,
        addAll_map_cons]

theorem recurseFields_eq {path : List Text} (filled : dotted path ≠ [])
    (fields : List (Text × Value File)) (files : FileMap File) :
    recurseFields fields (dotted path) files =
      addAll files path (plainFilesOfFields fields) := by
  match fields with
  | [] => rfl
  | (key, value) :: rest =>
      rw [recurseFields, recurseFields_eq filled, prefixed filled,
        recurse_eq (dotted_append_ne_nil filled _), plainFilesOfFields, addAll_append,
        addAll_map_cons]

end

def pairsOf (files : FileMap File) : List (Text × File) :=
  files.flatMap fun entry => entry.2.map fun path => (path, entry.1)

omit [DecidableEq File] in
theorem mem_pairsOf_cons {entry : File × List Text} {files : FileMap File} {pair : Text × File} :
    pair ∈ pairsOf (entry :: files) ↔
      (pair.1 ∈ entry.2 ∧ pair.2 = entry.1) ∨ pair ∈ pairsOf files := by
  rw [pairsOf, List.flatMap_cons, List.mem_append, ← pairsOf, List.mem_map]
  constructor
  · intro either
    cases either with
    | inl own =>
        obtain ⟨path, member, same⟩ := own
        rw [← same]
        exact .inl ⟨member, rfl⟩
    | inr later => exact .inr later
  · intro either
    cases either with
    | inl own => exact .inl ⟨pair.1, own.1, Prod.ext rfl own.2.symm⟩
    | inr later => exact .inr later

theorem mem_pairsOf_add {files : FileMap File} {file : File} {path : Text} {pair : Text × File} :
    pair ∈ pairsOf (files.add file path) ↔ pair ∈ pairsOf files ∨ pair = (path, file) := by
  induction files with
  | nil =>
      rw [FileMap.add, mem_pairsOf_cons, List.mem_singleton, Prod.ext_iff]
      exact or_comm
  | cons entry rest ih =>
      obtain ⟨other, paths⟩ := entry
      rw [FileMap.add]
      split
      · next same =>
          rw [mem_pairsOf_cons, mem_pairsOf_cons, List.mem_append, List.mem_singleton,
            Prod.ext_iff, same]
          tauto
      · rw [mem_pairsOf_cons, mem_pairsOf_cons, ih, or_assoc]

theorem mem_pairsOf_addAll {path : List Text} {pair : Text × File}
    (found : List (List Text × File)) (files : FileMap File) :
    pair ∈ pairsOf (addAll files path found) ↔
      pair ∈ pairsOf files ∨
        ∃ entry ∈ found, pair = (dotted (path ++ entry.1), entry.2) := by
  induction found generalizing files with
  | nil => simp [addAll]
  | cons entry rest ih =>
      rw [addAll, List.foldl_cons, ← addAll, ih, mem_pairsOf_add]
      simp [or_assoc]

theorem addAll_eq_nil_iff {path : List Text} {found : List (List Text × File)} :
    addAll [] path found = [] ↔ found = [] := by
  constructor
  · intro empty
    cases found with
    | nil => rfl
    | cons entry rest =>
        have among : (dotted (path ++ entry.1), entry.2) ∈
            pairsOf (addAll [] path (entry :: rest)) :=
          (mem_pairsOf_addAll _ []).mpr (.inr ⟨entry, List.mem_cons_self, rfl⟩)
        rw [empty] at among
        cases among
  · intro empty
    rw [empty]
    rfl

def replaceAll (pairs : List (Text × File)) (tree : Json File) : Option (Json File) :=
  pairs.foldlM (fun tree pair => tree.replace? (.file pair.2) (pair.1.splitOn '.')) tree

omit [DecidableEq File] in
theorem lookup_parts {files : FileMap File} {entry : File × List Text} {start index : Nat}
    (member : (entry, index) ∈ files.zipIdx start) :
    ((files.zipIdx start).map fun entry => (indexText (entry.2 + 1), entry.1.1)).lookup
      (indexText (index + 1)) = some entry.1 := by
  induction files generalizing start with
  | nil => cases member
  | cons first rest ih =>
      rw [List.zipIdx_cons, List.mem_cons] at member
      rw [List.zipIdx_cons, List.map_cons]
      cases member with
      | inl same =>
          obtain ⟨rfl, rfl⟩ := Prod.mk.inj same
          simp
      | inr later =>
          have above := (List.mem_zipIdx later).1
          have different : indexText (index + 1) ≠ indexText (start + 1) := fun equal =>
            absurd (indexText_injective equal) (by omega)
          rw [List.lookup_cons, beq_eq_false_iff_ne.mpr different]
          exact ih later

omit [DecidableEq File] in
theorem foldlM_resolve {parts : List (Text × File)} (files : FileMap File) (start : Nat)
    (listed : ∀ entry ∈ files.zipIdx start,
      parts.lookup (indexText (entry.2 + 1)) = some entry.1.1) (tree : Json File) :
    ((files.zipIdx start).map fun entry => (indexText (entry.2 + 1), entry.1.2)).foldlM
      (resolve parts) tree = replaceAll (pairsOf files) tree := by
  induction files generalizing start tree with
  | nil => rfl
  | cons first rest ih =>
      have own := listed (first, start) (by simp)
      have later := ih (start + 1) fun entry member => listed entry (by simp [member])
      have here : resolve parts tree (indexText (start + 1), first.2) =
          replaceAll (first.2.map fun path => (path, first.1)) tree := by
        rw [resolve, own, replaceAll, List.foldlM_map]
        rfl
      have parted : replaceAll (pairsOf (first :: rest)) tree =
          (replaceAll (first.2.map fun path => (path, first.1)) tree).bind
            (replaceAll (pairsOf rest)) := by
        rw [replaceAll, pairsOf, List.flatMap_cons, List.foldlM_append]
        rfl
      rw [List.zipIdx_cons, List.map_cons, List.foldlM_cons, here, parted]
      exact congrArg _ (funext later)

omit [DecidableEq File] in
theorem received_formOf (operations : Option (Json File)) (files : FileMap File) :
    (formOf operations files).received = operations.bind fun tree =>
      (replaceAll (pairsOf files) tree).bind (LabelledTree.at? [variablesKey]) := by
  rw [formOf, Body.received]
  refine congrArg (Option.bind operations) (funext fun tree => ?_)
  rw [foldlM_resolve files 0 fun entry member => lookup_parts member]
  rfl

section Operation

variable {others : List (Text × Text)} {value : Value File}

omit [DecidableEq File] in
theorem filesOf_operation : filesOf (operation others value) =
    (filesOf value).map fun found => (variablesKey :: found.1, found.2) := by
  rw [operation, filesOf]
  induction others with
  | nil => simp [filesOfFields]
  | cons other rest ih => simpa [filesOfFields, filesOf] using ih

omit [DecidableEq File] in
theorem distinct_operation (named : (others.map Prod.fst).Nodup)
    (hidden : variablesKey ∉ others.map Prod.fst) (distinct : Distinct value) :
    Distinct (operation others value) := by
  have keys : ((others.map fun other : Text × Text =>
      (other.1, (.primitive (some (.string other.2)) : Value File))) ++
        [(variablesKey, value)]).map Prod.fst = others.map Prod.fst ++ [variablesKey] := by
    simp [Function.comp_def]
  rw [operation, Distinct, keys]
  refine ⟨?_, ?_⟩
  · refine List.nodup_append.mpr ⟨named, by simp, fun key member own single => ?_⟩
    rw [List.mem_singleton] at single
    intro same
    exact hidden (single ▸ same ▸ member)
  · clear named hidden keys
    induction others with
    | nil => exact ⟨distinct, trivial⟩
    | cons other rest ih => exact ⟨trivial, ih⟩

omit [DecidableEq File] in
theorem at?_operation (hidden : variablesKey ∉ others.map Prod.fst) (value : Value File)
    (put : List Text → File → Json File) :
    ∃ json, render put (operation others value) = some json ∧
      json.at? [variablesKey] = render (fun path => put (variablesKey :: path)) value := by
  refine ⟨_, rfl, ?_⟩
  rw [LabelledTree.at?]
  induction others with
  | nil =>
      rw [List.map_nil, List.nil_append, renderFields]
      cases render (fun path => put (variablesKey :: path)) value with
      | none => rfl
      | some json => simp [LabelledTree.child?, LabelledTree.at?]
  | cons other rest ih =>
      rw [List.map_cons, List.mem_cons, not_or] at hidden
      rw [List.map_cons, List.cons_append, renderFields]
      simp only [render, Option.map_some]
      rw [LabelledTree.child?, if_neg (Ne.symm hidden.1)]
      exact ih hidden.2

end Operation

section Reception

variable {others : List (Text × Text)} {value : Value File}
  {listed : List (List Text × File)} {held : Json File}

def Undotted (path : List Text) : Prop := ∀ label ∈ path, '.' ∉ label

theorem mem_pairs {pair : Text × File} :
    pair ∈ pairsOf (addAll [] [variablesKey] listed) ↔
      ∃ entry ∈ listed, pair = (dotted (variablesKey :: entry.1), entry.2) := by
  rw [mem_pairsOf_addAll]
  simp [pairsOf]

theorem splitOn_pair {path : List Text} (undotted : Undotted path) :
    (dotted (variablesKey :: path)).splitOn '.' = variablesKey :: path := by
  refine splitOn_dotted (List.cons_ne_nil _ _) fun label member => ?_
  rw [List.mem_cons] at member
  cases member with
  | inl same =>
      rw [same]
      decide
  | inr inside => exact undotted label inside

theorem replaceAll_operation (named : (others.map Prod.fst).Nodup)
    (hidden : variablesKey ∉ others.map Prod.fst) (distinct : Distinct value)
    (among : ∀ found ∈ listed, found ∈ filesOf value)
    (undotted : ∀ found ∈ listed, Undotted found.1) :
    (render (fun _ _ => held) (operation others value)).bind (fun tree =>
        (replaceAll (pairsOf (addAll [] [variablesKey] listed)) tree).bind
          (LabelledTree.at? [variablesKey])) =
      render (filling held listed) value := by
  have start : (fun _ _ => held) = filling held ([] : List (List Text × File)) := by
    funext path file
    simp [filling]
  let todo := (pairsOf (addAll [] [variablesKey] listed)).map fun pair =>
    (pair.1.splitOn '.', pair.2)
  have mem_todo (found : List Text × File) :
      found ∈ todo ↔ ∃ entry ∈ listed, found = (variablesKey :: entry.1, entry.2) := by
    rw [List.mem_map]
    constructor
    · intro listedPair
      obtain ⟨pair, member, same⟩ := listedPair
      obtain ⟨entry, own, rfl⟩ := mem_pairs.mp member
      exact ⟨entry, own, by rw [← same, splitOn_pair (undotted entry own)]⟩
    · intro entryOf
      obtain ⟨entry, own, same⟩ := entryOf
      exact ⟨_, mem_pairs.mpr ⟨entry, own, rfl⟩,
        by rw [same, splitOn_pair (undotted entry own)]⟩
  have inside : ∀ found ∈ todo, found ∈ filesOf (operation others value) := by
    intro found member
    obtain ⟨entry, own, same⟩ := (mem_todo found).mp member
    rw [filesOf_operation, List.mem_map]
    exact ⟨entry, among entry own, same.symm⟩
  obtain ⟨tree, rendered, _⟩ := at?_operation hidden value (filling held [])
  obtain ⟨full, filled, inner⟩ := at?_operation hidden value (filling held todo)
  have replaced := foldlM_replace? (distinct_operation named hidden distinct) held inside rendered
  rw [List.nil_append, filled] at replaced
  have all : replaceAll (pairsOf (addAll [] [variablesKey] listed)) tree = some full := by
    rw [← replaced, List.foldlM_map]
    rfl
  rw [start, rendered, Option.bind_some, all, Option.bind_some, inner, render_eq_iff]
  intro found _
  have same : (variablesKey :: found.1, found.2) ∈ todo ↔ found ∈ listed := by
    rw [mem_todo]
    constructor
    · intro entryOf
      obtain ⟨entry, own, equal⟩ := entryOf
      obtain ⟨path, file⟩ := Prod.mk.inj equal
      have whole : found = entry := Prod.ext (List.cons.inj path).2 file
      exact whole ▸ own
    · exact fun own => ⟨found, own, rfl⟩
  simp [filling, same]

omit [DecidableEq File] in
theorem at?_replaceAll {pairs : List (Text × File)} {tree result : Json File}
    (replaced : replaceAll pairs tree = some result) {path : List Text}
    (apart : ¬ Undotted path) {file : File}
    (absent : tree.at? path ≠ some (.leaf (.file file))) :
    result.at? path ≠ some (.leaf (.file file)) := by
  induction pairs generalizing tree with
  | nil => exact Option.some.inj replaced ▸ absent
  | cons pair rest ih =>
      rw [replaceAll, List.foldlM_cons] at replaced
      obtain ⟨next, first, later⟩ := Option.bind_eq_some_iff.mp replaced
      refine ih later (LabelledTree.at?_ne_leaf_of_replace? first ?_ absent)
      intro same
      exact apart fun label member => not_mem_of_mem_splitOn (same ▸ member)

omit [DecidableEq File] in
theorem at?_replaceAll_eq_none {pairs : List (Text × File)} {tree result : Json File}
    (replaced : replaceAll pairs tree = some result) {path : List Text}
    (missing : tree.at? path = none) : result.at? path = none := by
  induction pairs generalizing tree with
  | nil => exact Option.some.inj replaced ▸ missing
  | cons pair rest ih =>
      rw [replaceAll, List.foldlM_cons] at replaced
      obtain ⟨next, first, later⟩ := Option.bind_eq_some_iff.mp replaced
      exact ih later (LabelledTree.at?_eq_none_of_replace? first missing)

omit [DecidableEq File] in
theorem at?_cons (label : Text) (path : List Text) (tree : Json File) :
    tree.at? (label :: path) = (tree.at? [label]).bind (LabelledTree.at? path) := by
  cases tree with
  | leaf value => rfl
  | node kind children =>
      rw [LabelledTree.at?, LabelledTree.at?, Option.bind_assoc]
      rfl

omit [DecidableEq File] in
theorem undotted_of_received {result tree : Json File} (distinct : Distinct value)
    {pairs : List (Text × File)} (replaced : replaceAll pairs tree = some result)
    (received : result.at? [variablesKey] = described value)
    {path : List Text} {file : File} (member : (path, file) ∈ filesOf value)
    (absent : tree.at? (variablesKey :: path) ≠ some (.leaf (.file file))) :
    Undotted path := by
  by_contra apart
  have apartAll : ¬ Undotted (variablesKey :: path) := fun all =>
    apart fun label inside => all label (List.mem_cons_of_mem _ inside)
  have there : result.at? (variablesKey :: path) = some (.leaf (.file file)) := by
    rw [at?_cons, received]
    exact at?_render _ value distinct member
  exact at?_replaceAll replaced apartAll absent there

end Reception

/-- Both ways to send variables give them to the receiver as they are, and they agree on the format
of the body. -/
structure SentAlike (name query : Text) (value : Value File) : Prop where
  handler : (buildGraphQLBody query value).received = described value
  client : (fetchBody name query value).received = described value
  format : (buildGraphQLBody query value).isForm = (fetchBody name query value).isForm

/-- Every file stands in lists and plain objects only, no name on its path has a dot, and the clone
loses nothing. -/
structure Sendable (value : Value File) : Prop where
  plain : ∀ found ∈ filesOf value, found ∈ plainFilesOf value
  undotted : ∀ found ∈ filesOf value, Undotted found.1
  cloneable : Cloneable value

section Requests

variable {name query : Text} {value : Value File}

theorem buildGraphQLBody_of_nil (empty : filesOf value = []) : buildGraphQLBody query value =
    .json (stringify (operation [("query".toList, query)] value)) := by
  rw [buildGraphQLBody, extractFiles_files, empty]
  rfl

theorem buildGraphQLBody_of_ne_nil (filled : filesOf value ≠ []) : buildGraphQLBody query value =
    formOf (stringify (operation [("query".toList, query)]
      (extractFiles value [variablesKey] []).1)) (addAll [] [variablesKey] (filesOf value)) := by
  rw [buildGraphQLBody, extractFiles_files]
  exact if_neg (mt addAll_eq_nil_iff.mp filled)

theorem recurse_root : recurse (.object true [(variablesKey, value)]) [] [] =
    addAll [] [variablesKey] (plainFilesOf value) := by
  have key : dotted [variablesKey] = variablesKey := by simp [dotted, List.intercalate]
  have filled : dotted [variablesKey] ≠ [] := by
    rw [key]
    decide
  have walked := recurse_eq filled value []
  rw [key] at walked
  simpa [recurse, recurseFields, pathPrefix] using walked

theorem fetchBody_eq : fetchBody name query value =
    if plainFilesOf value = [] then
      .json (stringify (operation [("operationName".toList, name), ("query".toList, query)] value))
    else formOf
      (stringify (operation [("operationName".toList, name), ("query".toList, query)] value))
      (addAll [] [variablesKey] (plainFilesOf value)) := by
  rw [fetchBody, recurse_root]
  by_cases empty : plainFilesOf value = []
  · rw [if_pos empty, if_pos (addAll_eq_nil_iff.mpr empty)]
  · rw [if_neg empty, if_neg (mt addAll_eq_nil_iff.mp empty)]

omit [DecidableEq File] in
theorem stringify_eq (value : Value File) :
    stringify value = render (fun _ _ => .node .object []) value := rfl

theorem keys_query : [("query".toList, query)].map Prod.fst = ["query".toList] := rfl

theorem keys_operation : [("operationName".toList, name), ("query".toList, query)].map Prod.fst =
    ["operationName".toList, "query".toList] := rfl

theorem hidden_query : variablesKey ∉ [("query".toList, query)].map Prod.fst := by
  rw [keys_query]
  decide

theorem hidden_operation : variablesKey ∉
    [("operationName".toList, name), ("query".toList, query)].map Prod.fst := by
  rw [keys_operation]
  decide

theorem nodup_query : ([("query".toList, query)].map Prod.fst).Nodup := by
  rw [keys_query]
  decide

theorem nodup_operation :
    ([("operationName".toList, name), ("query".toList, query)].map Prod.fst).Nodup := by
  rw [keys_operation]
  decide

omit [DecidableEq File] in
theorem received_json {others : List (Text × Text)}
    (hidden : variablesKey ∉ others.map Prod.fst) (empty : filesOf value = []) :
    (Body.json (stringify (operation others value))).received = described value := by
  obtain ⟨json, rendered, inner⟩ := at?_operation hidden value
    (fun _ _ => .node .object [])
  rw [Body.received, stringify_eq, rendered, Option.bind_some, inner, described, render_eq_iff]
  intro found member
  rw [empty] at member
  cases member

theorem received_fetchBody (distinct : Distinct value) (filled : plainFilesOf value ≠ [])
    (undotted : ∀ found ∈ plainFilesOf value, Undotted found.1) :
    (fetchBody name query value).received =
      render (filling (.node .object []) (plainFilesOf value)) value := by
  rw [fetchBody_eq, if_neg filled, received_formOf, stringify_eq]
  exact replaceAll_operation nodup_operation hidden_operation distinct
    (fun found member => (plainFilesOf_sublist value).subset member) undotted

theorem stringify_extracted {others : List (Text × Text)} :
    stringify (operation others (extractFiles value [variablesKey] []).1) =
      render (fun _ _ => .leaf (.scalar .null)) (operation others (cloned value)) := by
  have clone := render_extractFiles (fun _ _ => .node .object []) value [variablesKey] []
  rw [stringify_eq, operation, operation, render, render]
  congr 2
  induction others with
  | nil =>
      simp only [List.map_nil, List.nil_append, renderFields]
      rw [clone]
  | cons other rest ih =>
      simp only [List.map_cons, List.cons_append, renderFields, render, Option.map_some]
      rw [ih]

theorem received_buildGraphQLBody (distinct : Distinct value) (filled : filesOf value ≠ [])
    (undotted : ∀ found ∈ filesOf value, Undotted found.1)
    (kept : ∀ found ∈ filesOf value, found ∈ filesOf (cloned value)) :
    (buildGraphQLBody query value).received = described (cloned value) := by
  rw [buildGraphQLBody_of_ne_nil filled, received_formOf, stringify_extracted]
  rw [replaceAll_operation nodup_query hidden_query (distinct_cloned value distinct) kept undotted,
    described, render_eq_iff]
  intro found member
  have listed := (filesOf_cloned_sublist value).subset member
  simp [filling, listed]

omit [DecidableEq File] in
theorem received_formOf_cases {operations : Option (Json File)} {files : FileMap File}
    (defined : described value ≠ none)
    (received : (formOf operations files).received = described value) :
    ∃ tree result, operations = some tree ∧ replaceAll (pairsOf files) tree = some result ∧
      result.at? [variablesKey] = described value := by
  rw [received_formOf] at received
  cases operations with
  | none => exact absurd received.symm defined
  | some tree =>
      rw [Option.bind_some] at received
      cases replaced : replaceAll (pairsOf files) tree with
      | none =>
          rw [replaced] at received
          exact absurd received.symm defined
      | some result =>
          rw [replaced] at received
          exact ⟨tree, result, rfl, replaced, received⟩

omit [DecidableEq File] in
theorem at?_operation_cons {others : List (Text × Text)} {put : List Text → File → Json File}
    (hidden : variablesKey ∉ others.map Prod.fst) {tree : Json File}
    (rendered : render put (operation others value) = some tree) (path : List Text) :
    tree.at? (variablesKey :: path) =
      (render (fun path => put (variablesKey :: path)) value).bind (LabelledTree.at? path) := by
  obtain ⟨json, same, inner⟩ := at?_operation hidden value put
  obtain rfl := Option.some.inj (rendered.symm.trans same)
  rw [at?_cons, inner]

theorem plain_of_client (distinct : Distinct value) (filled : plainFilesOf value ≠ [])
    (defined : described value ≠ none)
    (received : (fetchBody name query value).received = described value) :
    (∀ found ∈ filesOf value, found ∈ plainFilesOf value) ∧
      ∀ found ∈ plainFilesOf value, Undotted found.1 := by
  have listed := (plainFilesOf_sublist value).subset
  have undotted : ∀ found ∈ plainFilesOf value, Undotted found.1 := by
    intro found member
    have form := received
    rw [fetchBody_eq, if_neg filled] at form
    obtain ⟨tree, result, rendered, replaced, inner⟩ := received_formOf_cases defined form
    refine undotted_of_received distinct replaced inner (listed member) ?_
    rw [at?_operation_cons hidden_operation rendered, at?_render _ value distinct (listed member)]
    intro same
    cases Option.some.inj same
  refine ⟨fun found member => ?_, undotted⟩
  rw [received_fetchBody distinct filled undotted, described, render_eq_iff] at received
  have put := received found member
  rw [filling] at put
  split at put
  · next own => exact own
  · cases put

theorem cloneable_of_handler (distinct : Distinct value) (filled : filesOf value ≠ [])
    (defined : described value ≠ none) (undotted : ∀ found ∈ filesOf value, Undotted found.1)
    (received : (buildGraphQLBody query value).received = described value) :
    Cloneable value := by
  have kept : ∀ found ∈ filesOf value, found ∈ filesOf (cloned value) := by
    intro found member
    by_contra lost
    have form := received
    rw [buildGraphQLBody_of_ne_nil filled, stringify_extracted] at form
    obtain ⟨tree, result, rendered, replaced, inner⟩ := received_formOf_cases defined form
    have missing : tree.at? (variablesKey :: found.1) = none := by
      rw [at?_operation_cons hidden_query rendered]
      exact at?_cloned _ value distinct member lost
    have there : result.at? (variablesKey :: found.1) = some (.leaf (.file found.2)) := by
      rw [at?_cons, inner]
      exact at?_render _ value distinct member
    rw [at?_replaceAll_eq_none replaced missing] at there
    cases there
  rw [received_buildGraphQLBody distinct filled undotted kept] at received
  exact (described_cloned_iff value).mp received

/-- Variables are sent alike just if there is no file in them, or each file stands in lists and
plain objects only, with no dot in the names around it, and the clone loses nothing. -/
theorem sentAlike_iff {fields : List (Text × Value File)}
    (distinct : Distinct (.object true fields)) (name query : Text) :
    SentAlike name query (.object true fields) ↔
      filesOf (.object true fields) = [] ∨ Sendable (.object true fields) := by
  have defined : described (.object true fields) ≠ none := Option.some_ne_none _
  have listed := (plainFilesOf_sublist (.object true fields)).subset
  by_cases empty : filesOf (.object true fields) = []
  · have plain : plainFilesOf (.object true fields) = [] := by
      rw [empty] at listed
      exact List.subset_nil.mp listed
    refine ⟨fun _ => .inl empty, fun _ => ⟨?_, ?_, ?_⟩⟩
    · rw [buildGraphQLBody_of_nil empty, received_json hidden_query empty]
    · rw [fetchBody_eq, if_pos plain, received_json hidden_operation empty]
    · rw [buildGraphQLBody_of_nil empty, fetchBody_eq, if_pos plain]
      rfl
  · constructor
    · intro alike
      have filled : plainFilesOf (.object true fields) ≠ [] := by
        intro plain
        have format := alike.format
        rw [buildGraphQLBody_of_ne_nil empty, fetchBody_eq, if_pos plain] at format
        cases format
      obtain ⟨plain, undotted⟩ := plain_of_client distinct filled defined alike.client
      have all : ∀ found ∈ filesOf (.object true fields), Undotted found.1 :=
        fun found member => undotted found (plain found member)
      exact .inr ⟨plain, all, cloneable_of_handler distinct empty defined all alike.handler⟩
    · intro either
      have sendable := either.resolve_left empty
      have filled : plainFilesOf (.object true fields) ≠ [] := by
        intro plain
        obtain ⟨found, member⟩ := List.exists_mem_of_ne_nil _ empty
        have own := sendable.plain found member
        rw [plain] at own
        cases own
      have same := (described_cloned_iff (.object true fields)).mpr sendable.cloneable
      refine ⟨?_, ?_, ?_⟩
      · rw [received_buildGraphQLBody distinct empty sendable.undotted, same]
        intro found member
        by_contra lost
        have missing := at?_cloned (fun _ file => .leaf (.file file)) _ distinct member lost
        rw [← described, same] at missing
        rw [described, at?_render _ _ distinct member] at missing
        cases missing
      · rw [received_fetchBody distinct filled fun found member =>
          sendable.undotted found (listed member), described, render_eq_iff]
        intro found member
        simp [filling, sendable.plain found member]
      · rw [buildGraphQLBody_of_ne_nil empty, fetchBody_eq, if_neg filled]
        rfl

end Requests

def photoFields : List (Text × Value Nat) :=
  [("taken".toList, .builtin (some (.string "2024-05-01".toList))), ("photo".toList, .file 1)]

/-- The clone has no date. -/
theorem photoFields_not_sent :
    ¬ SentAlike "Upload".toList "mutation".toList (.object true photoFields) := by
  intro alike
  have received : (buildGraphQLBody "mutation".toList (.object true photoFields)).received =
      some (.node .object [("taken".toList, .node .object []),
        ("photo".toList, .leaf (.file 1))]) := rfl
  have sent : described (.object true photoFields) =
      some (.node .object [("taken".toList, .leaf (.scalar (.string "2024-05-01".toList))),
        ("photo".toList, .leaf (.file 1))]) := rfl
  have handler := alike.handler
  rw [received, sent] at handler
  injection handler with same
  injection same with _ fields
  injection fields with first _
  injection first with _ value
  cases value

def galleryFields : List (Text × Value Nat) :=
  [("cover".toList, .file 1), ("images".toList, .list [.file 2, .file 1])]

theorem galleryFields_sent :
    SentAlike "Upload".toList "mutation".toList (.object true galleryFields) := by
  have distinct : Distinct (.object true galleryFields) :=
    ⟨by decide, trivial, ⟨trivial, trivial, trivial⟩, trivial⟩
  have files : filesOf (.object true galleryFields) = [(["cover".toList], 1),
      (["images".toList, ['0']], 2), (["images".toList, ['1']], 1)] := by decide
  refine (sentAlike_iff distinct _ _).mpr (.inr ⟨?_, ?_, ?_⟩)
  · decide
  · rw [files]
    unfold Undotted
    decide
  · have cover : "cover".toList ≠ protoKey := by decide
    have images : "images".toList ≠ protoKey := by decide
    rw [galleryFields, Cloneable, CloneableFields, CloneableFields, if_neg cover, if_neg images]
    exact ⟨trivial, ⟨trivial, trivial, trivial⟩, trivial⟩

end Houdini.Runtime.Multipart
