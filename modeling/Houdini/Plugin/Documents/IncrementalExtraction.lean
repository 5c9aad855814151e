import Houdini.Plugin.Documents.DocumentPositions
import Houdini.Plugin.Documents.ExtractedRows

/-! An extraction of the files that changed, against a full walk into an empty database. -/

set_option autoImplicit false

namespace Houdini.Plugin.Extraction

def ofPath (path : Text) (docs : List DiscoveredDocument) : List DiscoveredDocument :=
  docs.filter fun doc => doc.key.1 = path

def atPath (path : Text) (entries : List Entry) : List Entry :=
  entries.filter fun entry => entry.1.1 = path

theorem perm_iff_atPath {entries others : List Entry} :
    entries.Perm others ↔ ∀ path, (atPath path entries).Perm (atPath path others) := by
  constructor
  · intro perm path
    exact perm.filter _
  · intro perms
    rw [List.perm_iff_count]
    intro entry
    have counts := (perms entry.1.1).count_eq entry
    rw [atPath, atPath, List.count_filter (by simp), List.count_filter (by simp)] at counts
    exact counts

theorem atPath_map_entry (path : Text) (docs : List DiscoveredDocument) :
    atPath path (docs.map DiscoveredDocument.entry) =
      (ofPath path docs).map DiscoveredDocument.entry := by
  rw [atPath, List.filter_map]
  rfl

theorem nodup_keys_processFile (path content : Text) :
    ((processFile path content).map DiscoveredDocument.key).Nodup := by
  refine List.Nodup.of_map (fun key : Key => (key.2.row, key.2.column)) ?_
  rw [List.map_map]
  exact nodup_processFile path content

theorem ofPath_processFile (path other content : Text) :
    ofPath path (processFile other content) =
      if other = path then processFile other content else [] := by
  split
  · next same =>
      refine List.filter_eq_self.mpr fun doc member => ?_
      exact decide_eq_true ((filePath_of_mem_processFile member).trans same)
  · next other =>
      refine List.filter_eq_nil_iff.mpr fun doc member same => other ?_
      exact (filePath_of_mem_processFile member).symm.trans (of_decide_eq_true same)

theorem map_key_ofPath (path : Text) (docs : List DiscoveredDocument) :
    (ofPath path docs).map DiscoveredDocument.key =
      (docs.map DiscoveredDocument.key).filter fun key => key.1 = path := by
  rw [List.filter_map]
  rfl

namespace FileTree

variable (tree : FileTree) (path : Text)

theorem documents_eq :
    tree.documents path = (tree.content? path).elim [] (processFile path) := by
  rw [documents]
  cases tree.content? path <;> rfl

theorem nodup_documents : ((tree.documents path).map DiscoveredDocument.key).Nodup := by
  rw [documents_eq]
  cases tree.content? path with
  | none => exact List.nodup_nil
  | some content => exact nodup_keys_processFile _ _

theorem ofPath_documents (other : Text) :
    ofPath path (tree.documents other) = if other = path then tree.documents path else [] := by
  by_cases same : other = path
  · subst same
    rw [if_pos rfl, documents_eq]
    cases tree.content? other with
    | none => rfl
    | some content => exact (ofPath_processFile other other content).trans (if_pos rfl)
  · rw [if_neg same, documents_eq]
    cases tree.content? other with
    | none => rfl
    | some content => exact (ofPath_processFile path other content).trans (if_neg same)

theorem filter_files :
    tree.files.filter (fun file => file.1 = path) =
      ((tree.content? path).map fun content => (path, content)).toList := by
  rw [content?]
  obtain ⟨files, unique⟩ := tree
  dsimp only
  induction files with
  | nil => rfl
  | cons file rest ih =>
      rw [List.map_cons, List.nodup_cons] at unique
      by_cases same : file.1 = path
      · rw [List.filter_cons_of_pos (by simpa using same),
          List.find?_cons_of_pos (by simpa using same), List.filter_eq_nil_iff.mpr]
        · rw [← same]
          rfl
        · intro other member samePath
          refine unique.1 ?_
          rw [same, ← of_decide_eq_true samePath]
          exact List.mem_map_of_mem member
      · rw [List.filter_cons_of_neg (by simpa using same),
          List.find?_cons_of_neg (by simpa using same), ih unique.2]

def walked (patterns : Patterns) : List DiscoveredDocument :=
  (tree.files.filter fun file => patterns.walks file.1).flatMap fun file =>
    processFile file.1 file.2

theorem ofPath_flatMap (files : List (Text × Text)) :
    ofPath path (files.flatMap fun file => processFile file.1 file.2) =
      (files.filter fun file => file.1 = path).flatMap fun file => processFile file.1 file.2 := by
  induction files with
  | nil => rfl
  | cons file rest ih =>
      rw [List.flatMap_cons, ofPath, List.filter_append, ← ofPath, ← ofPath, ih,
        ofPath_processFile]
      by_cases same : file.1 = path
      · rw [if_pos same, List.filter_cons_of_pos (by simpa using same), List.flatMap_cons]
      · rw [if_neg same, List.filter_cons_of_neg (by simpa using same), List.nil_append]

theorem ofPath_walked (patterns : Patterns) :
    ofPath path (tree.walked patterns) =
      if patterns.walks path then tree.documents path else [] := by
  rw [walked, ofPath_flatMap, List.filter_filter]
  simp only [Bool.and_comm (decide _)]
  rw [← List.filter_filter, filter_files, documents_eq]
  cases tree.content? path with
  | none => split <;> rfl
  | some content =>
      cases walks : patterns.walks path <;>
        simp [walks]

theorem nodup_walked (patterns : Patterns) :
    ((tree.walked patterns).map DiscoveredDocument.key).Nodup := by
  rw [List.nodup_iff_count_le_one]
  intro key
  have count := List.count_filter (p := fun other : Key => other.1 = key.1)
    (l := (tree.walked patterns).map DiscoveredDocument.key) (a := key) (by simp)
  rw [← map_key_ofPath, ofPath_walked] at count
  rw [← count]
  split
  · exact List.nodup_iff_count_le_one.mp (tree.nodup_documents key.1) key
  · exact Nat.zero_le _

theorem mem_walked_iff (patterns : Patterns) (key : Key) :
    key ∈ (tree.walked patterns).map DiscoveredDocument.key ↔
      patterns.walks key.1 = true ∧ key ∈ (tree.documents key.1).map DiscoveredDocument.key := by
  have same : key ∈ (tree.walked patterns).map DiscoveredDocument.key ↔
      key ∈ (ofPath key.1 (tree.walked patterns)).map DiscoveredDocument.key := by
    rw [map_key_ofPath, List.mem_filter]
    simp
  rw [same, ofPath_walked]
  cases patterns.walks key.1 <;> simp

end FileTree

theorem sound_empty : Database.Sound {} where
  ids := List.nodup_nil
  rows := by simp
  fields := by simp
  keys := List.nodup_nil

theorem mem_keys_iff {db : Database} {key : Key} :
    key ∈ db.keys ↔ ∃ entry ∈ db.entries, entry.1 = key := by
  rw [Database.keys, List.mem_map]

/-- A walk that sees every file records what it finds, and nothing else. -/
theorem sound_of_full {db : Database} (sound : db.Sound) {docs : List DiscoveredDocument}
    (unique : (docs.map DiscoveredDocument.key).Nodup) :
    (extractDocuments db docs fun _ => true).Sound ∧
      ∀ key, key ∈ (extractDocuments db docs fun _ => true).keys ↔
        key ∈ docs.map DiscoveredDocument.key := by
  obtain ⟨numbered, entries⟩ := extractDocuments_spec sound docs fun _ => true
  have keys : (extractDocuments db docs fun _ => true).keys =
      db.keys.filter (fun key => key ∈ docs.map DiscoveredDocument.key) ++
        (docs.map DiscoveredDocument.key).filter fun key => key ∉ db.keys := by
    rw [Database.keys, entries, unmatched_of_nodup unique, List.map_append, List.map_map]
    congr 1
    · rw [Database.keys, List.filter_map]
      refine congrArg (List.map _) (List.filter_congr fun entry _ => ?_)
      rw [Bool.not_true, Bool.or_false]
      rfl
    · rw [List.filter_map]
      refine congrArg (List.map _) (List.filter_congr fun doc _ => ?_)
      simp
  constructor
  · refine ⟨numbered, ?_⟩
    rw [← Database.keys_eq, keys, List.nodup_append]
    have known : db.keys.Nodup := db.keys_eq ▸ sound.keys
    refine ⟨known.filter _, unique.filter _, fun key old other new same => ?_⟩
    have isOld := (List.mem_filter.mp old).1
    rw [same] at isOld
    exact of_decide_eq_true (List.mem_filter.mp new).2 isOld
  · intro key
    rw [keys, List.mem_append, List.mem_filter, List.mem_filter, decide_eq_true_iff,
      decide_eq_true_iff]
    by_cases known : key ∈ db.keys <;> simp [known]

inductive Walked (patterns : Patterns) : FileTree → Database → Prop
  | first (tree : FileTree) : Walked patterns tree (walk patterns tree {})
  | again {old : FileTree} {db : Database} (walked : Walked patterns old db) (tree : FileTree) :
      Walked patterns tree (walk patterns tree db)

theorem Walked.sound {patterns : Patterns} {tree : FileTree} {db : Database}
    (walked : Walked patterns tree db) :
    db.Sound ∧ ∀ key, key ∈ db.keys ↔
      patterns.walks key.1 = true ∧ key ∈ (tree.documents key.1).map DiscoveredDocument.key := by
  induction walked with
  | first tree =>
      obtain ⟨sound, keys⟩ := sound_of_full sound_empty (tree.nodup_walked patterns)
      exact ⟨sound, fun key => (keys key).trans (tree.mem_walked_iff patterns key)⟩
  | again _ tree ih =>
      obtain ⟨sound, keys⟩ := sound_of_full ih.1 (tree.nodup_walked patterns)
      exact ⟨sound, fun key => (keys key).trans (tree.mem_walked_iff patterns key)⟩

theorem atPath_extract {db : Database} (sound : db.Sound) (docs : List DiscoveredDocument)
    (stale : Text → Bool) (path : Text) :
    atPath path (extractDocuments db docs stale).entries =
      (atPath path db.entries).filter (fun entry =>
          entry.1 ∈ (ofPath path docs).map DiscoveredDocument.key || !stale path) ++
        (unmatched DiscoveredDocument.key db.keys.toFinset (ofPath path docs)).map
          DiscoveredDocument.entry := by
  rw [(extractDocuments_spec sound docs stale).2, atPath, List.filter_append]
  congr 1
  · rw [atPath, List.filter_comm]
    refine List.filter_congr fun entry member => ?_
    have isPath := of_decide_eq_true (List.mem_filter.mp member).2
    rw [map_key_ofPath, isPath]
    congr 1
    rw [decide_eq_decide, List.mem_filter]
    simp [isPath]
  · rw [← atPath, atPath_map_entry, ofPath,
      unmatched_filter db.keys.toFinset docs fun key => decide (key.1 = path)]
    rfl

/-- What is there of a path that was looked at: an entry for each of the documents. -/
theorem length_atPath_extract {db : Database} (sound : db.Sound) (docs : List DiscoveredDocument)
    {stale : Text → Bool} {path : Text} (isStale : stale path = true) :
    (atPath path (extractDocuments db docs stale).entries).length = (ofPath path docs).length := by
  rw [atPath_extract sound, isStale, List.length_append, List.length_map,
    ← length_unmatched db.keys.toFinset (ofPath path docs), Nat.add_comm]
  congr 1
  have unique : ((atPath path db.entries).filter fun entry =>
      entry.1 ∈ (ofPath path docs).map DiscoveredDocument.key || !true).map Prod.fst |>.Nodup := by
    have known : db.keys.Nodup := db.keys_eq ▸ sound.keys
    exact known.sublist ((List.filter_sublist.trans List.filter_sublist).map _)
  rw [← List.length_map (f := Prod.fst), ← List.toFinset_card_of_nodup unique]
  congr 1
  ext key
  simp only [List.mem_toFinset, Finset.mem_filter, List.mem_map, List.mem_filter, mem_keys_iff,
    atPath]
  constructor
  · intro found
    obtain ⟨entry, parts, rfl⟩ := found
    refine ⟨⟨entry, parts.1.1, rfl⟩, ?_⟩
    simpa using parts.2
  · intro found
    obtain ⟨⟨entry, member, rfl⟩, isDoc⟩ := found
    have ofDoc : entry.1 ∈ (ofPath path docs).map DiscoveredDocument.key := List.mem_map.mpr isDoc
    have samePath : entry.1.1 = path := by
      rw [map_key_ofPath, List.mem_filter] at ofDoc
      exact of_decide_eq_true ofDoc.2
    refine ⟨entry, ⟨⟨member, decide_eq_true samePath⟩, ?_⟩, rfl⟩
    rw [decide_eq_true isDoc, Bool.true_or]

theorem perm_of_keys {entries others : List Entry} (unique : (entries.map Prod.fst).Nodup)
    (among : entries ⊆ others) (many : others.length ≤ entries.length) :
    entries.Perm others :=
  ((List.subperm_of_subset (List.Nodup.of_map _ unique) among).perm_of_length_le many)

/-- A path is looked at as often as it is listed. -/
theorem ofPath_listed (tree : FileTree) (path : Text) (paths : List Text) :
    ofPath path (paths.flatMap tree.documents) =
      (List.replicate (paths.count path) (tree.documents path)).flatten := by
  induction paths with
  | nil => rfl
  | cons other rest ih =>
      rw [List.flatMap_cons, ofPath, List.filter_append, ← ofPath, ← ofPath, ih,
        tree.ofPath_documents]
      by_cases same : other = path
      · rw [if_pos same, same, List.count_cons_self, List.replicate_succ, List.flatten_cons]
      · rw [if_neg same, List.count_cons_of_ne same, List.nil_append]

theorem atPath_fresh (patterns : Patterns) (tree : FileTree) (path : Text) :
    atPath path (walk patterns tree {}).entries =
      if patterns.walks path then (tree.documents path).map DiscoveredDocument.entry else [] := by
  have spec := atPath_extract sound_empty (tree.walked patterns) (fun _ => true) path
  have nothing : Database.keys {} = [] := rfl
  rw [nothing, List.toFinset_nil, unmatched_empty, tree.ofPath_walked] at spec
  refine spec.trans ?_
  cases patterns.walks path <;> rfl

def existing (tree : FileTree) (db : Database) : List Entry :=
  db.entries.filter fun entry => (tree.content? entry.1.1).isSome

def Agrees (patterns : Patterns) (tree : FileTree) (files : List Text) (db : Database) : Prop :=
  (existing tree (extractFromFilepaths patterns tree files db)).Perm
    (existing tree (walk patterns tree {}))

/-- A file with documents is listed once, unless a full walk does not come to it or the patterns do
not match it, and what was recorded of its documents is what they are. -/
structure FaithfulAt (patterns : Patterns) (old new : FileTree) (files : List Text) (db : Database)
    (path : Text) : Prop where
  once : path ∈ files → patterns.matches' path = true → patterns.walks path = true →
    new.documents path ≠ [] → files.count path = 1
  visited : path ∈ files → patterns.matches' path = true → patterns.walks path = false →
    new.documents path = []
  matched : path ∈ files → patterns.matches' path = false → patterns.walks path = true →
    ∀ key, key ∈ (old.documents path).map DiscoveredDocument.key ↔
      key ∈ (new.documents path).map DiscoveredDocument.key
  recorded : patterns.walks path = true → ∀ entry ∈ db.entries,
    entry.1 ∈ (new.documents path).map DiscoveredDocument.key →
      entry ∈ (new.documents path).map DiscoveredDocument.entry

theorem agrees_iff_atPath {patterns : Patterns} {tree : FileTree} {files : List Text}
    {db : Database} :
    Agrees patterns tree files db ↔ ∀ path, (tree.content? path).isSome →
      (atPath path (extractFromFilepaths patterns tree files db).entries).Perm
        (atPath path (walk patterns tree {}).entries) := by
  have parts : ∀ (other : Database) path, atPath path (existing tree other) =
      if (tree.content? path).isSome then atPath path other.entries else [] := by
    intro other path
    rw [atPath, existing, List.filter_comm, ← atPath]
    split
    · next isThere =>
        refine List.filter_eq_self.mpr fun entry member => ?_
        rw [of_decide_eq_true (List.mem_filter.mp member).2]
        exact isThere
    · next missing =>
        refine List.filter_eq_nil_iff.mpr fun entry member => ?_
        rw [of_decide_eq_true (List.mem_filter.mp member).2]
        exact missing
  rw [Agrees, perm_iff_atPath]
  refine forall_congr' fun path => ?_
  rw [parts, parts]
  cases (tree.content? path).isSome <;> simp

section

variable {patterns : Patterns} {old new : FileTree} {files : List Text} {db : Database}
  {path : Text}

theorem path_of_mem_keys {key : Key} {tree : FileTree}
    (member : key ∈ (tree.documents path).map DiscoveredDocument.key) : key.1 = path := by
  obtain ⟨doc, ofTree, rfl⟩ := List.mem_map.mp member
  have own := tree.ofPath_documents path path
  rw [if_pos rfl] at own
  rw [← own] at ofTree
  exact of_decide_eq_true (List.mem_filter.mp ofTree).2

theorem keys_map_entry (docs : List DiscoveredDocument) :
    (docs.map DiscoveredDocument.entry).map Prod.fst = docs.map DiscoveredDocument.key :=
  List.map_map

theorem nodup_atPath (sound : db.Sound) : ((atPath path db.entries).map Prod.fst).Nodup := by
  have known : db.keys.Nodup := db.keys_eq ▸ sound.keys
  exact known.sublist (List.filter_sublist.map _)

/-- What was recorded of a path that is not looked at. -/
theorem perm_of_unlisted (walked : Walked patterns old db)
    (walks : patterns.walks path = true) :
    (atPath path db.entries).Perm ((new.documents path).map DiscoveredDocument.entry) ↔
      (∀ key, key ∈ (old.documents path).map DiscoveredDocument.key ↔
        key ∈ (new.documents path).map DiscoveredDocument.key) ∧
      ∀ entry ∈ db.entries, entry.1 ∈ (new.documents path).map DiscoveredDocument.key →
        entry ∈ (new.documents path).map DiscoveredDocument.entry := by
  obtain ⟨sound, keys⟩ := walked.sound
  have known : ∀ key, key ∈ (atPath path db.entries).map Prod.fst ↔
      key ∈ (old.documents path).map DiscoveredDocument.key := by
    intro key
    constructor
    · intro found
      obtain ⟨entry, member, rfl⟩ := List.mem_map.mp found
      obtain ⟨present, samePath⟩ := List.mem_filter.mp member
      have ofOld := ((keys entry.1).mp (mem_keys_iff.mpr ⟨entry, present, rfl⟩)).2
      rw [of_decide_eq_true samePath] at ofOld
      exact ofOld
    · intro found
      have samePath := path_of_mem_keys found
      obtain ⟨entry, member, rfl⟩ := mem_keys_iff.mp
        ((keys key).mpr ⟨by rw [samePath]; exact walks, by rw [samePath]; exact found⟩)
      exact List.mem_map_of_mem (List.mem_filter.mpr ⟨member, decide_eq_true samePath⟩)
  constructor
  · intro perm
    refine ⟨fun key => ?_, fun entry member isKey => ?_⟩
    · rw [← known, (perm.map Prod.fst).mem_iff, keys_map_entry]
    · refine perm.mem_iff.mp (List.mem_filter.mpr ⟨member, ?_⟩)
      exact decide_eq_true (path_of_mem_keys isKey)
  · intro parts
    refine perm_of_keys (nodup_atPath sound) (fun entry member => ?_) ?_
    · refine parts.2 entry (List.mem_of_mem_filter member) ?_
      exact (parts.1 _).mp ((known _).mp (List.mem_map_of_mem member))
    · have among : (new.documents path).map DiscoveredDocument.key ⊆
          (atPath path db.entries).map Prod.fst :=
        fun key isKey => (known key).mpr ((parts.1 key).mpr isKey)
      have many := (new.nodup_documents path).length_le_of_subset among
      rw [List.length_map, List.length_map] at many
      rw [List.length_map]
      exact many

/-- What is there of a path that was looked at once. -/
theorem perm_of_listed {docs : List DiscoveredDocument} {stale : Text → Bool} (sound : db.Sound)
    (isStale : stale path = true) (own : ofPath path docs = new.documents path)
    (recorded : ∀ entry ∈ db.entries, entry.1 ∈ (new.documents path).map DiscoveredDocument.key →
      entry ∈ (new.documents path).map DiscoveredDocument.entry) :
    (atPath path (extractDocuments db docs stale).entries).Perm
      ((new.documents path).map DiscoveredDocument.entry) := by
  have length := length_atPath_extract sound docs isStale
  have spec := atPath_extract sound docs stale path
  rw [own] at length spec
  rw [isStale] at spec
  refine perm_of_keys ?_ ?_ (by rw [length, List.length_map])
  · rw [spec, List.map_append, keys_map_entry, unmatched_of_nodup (new.nodup_documents path),
      List.nodup_append]
    refine ⟨(nodup_atPath sound).sublist (List.filter_sublist.map _),
      (new.nodup_documents path).sublist (List.filter_sublist.map _),
      fun key older other newer same => ?_⟩
    obtain ⟨entry, member, rfl⟩ := List.mem_map.mp older
    obtain ⟨doc, isNew, rfl⟩ := List.mem_map.mp newer
    have fresh := of_decide_eq_true (List.mem_filter.mp isNew).2
    rw [← same, List.mem_toFinset] at fresh
    refine fresh (mem_keys_iff.mpr ⟨entry, ?_, rfl⟩)
    exact List.mem_of_mem_filter (List.mem_of_mem_filter member)
  · intro entry member
    rw [spec] at member
    rcases List.mem_append.mp member with older | newer
    · obtain ⟨present, isKey⟩ := List.mem_filter.mp older
      exact recorded entry (List.mem_of_mem_filter present) (by simpa using isKey)
    · rw [unmatched_of_nodup (new.nodup_documents path)] at newer
      exact List.map_subset _ List.filter_sublist.subset newer

theorem agrees_at_iff (walked : Walked patterns old db)
    (unchanged : path ∉ files → old.content? path = new.content? path) :
    (atPath path (extractFromFilepaths patterns new files db).entries).Perm
        (atPath path (walk patterns new {}).entries) ↔
      FaithfulAt patterns old new files db path := by
  obtain ⟨sound, keys⟩ := walked.sound
  have own := ofPath_listed new path (files.filter patterns.matches')
  have looked : (files.filter patterns.matches').contains path = true ↔
      path ∈ files ∧ patterns.matches' path = true := by
    rw [List.contains_iff_mem, List.mem_filter]
  rw [atPath_fresh]
  by_cases listed : path ∈ files ∧ patterns.matches' path = true
  · have isStale := looked.mpr listed
    have count : (files.filter patterns.matches').count path = files.count path :=
      List.count_filter listed.2
    have length : (atPath path (extractFromFilepaths patterns new files db).entries).length =
        files.count path * (new.documents path).length := by
      refine (length_atPath_extract sound _ isStale).trans ?_
      rw [own, List.length_flatten, List.map_replicate, List.sum_replicate_nat, count]
    have positive : 0 < files.count path := List.count_pos_iff.mpr listed.1
    cases walks : patterns.walks path with
    | false =>
        rw [if_neg Bool.false_ne_true]
        constructor
        · intro perm
          rw [List.perm_nil.mp perm, List.length_nil] at length
          have empty : new.documents path = [] := by
            refine List.length_eq_zero_iff.mp ?_
            exact (Nat.mul_eq_zero.mp length.symm).resolve_left (Nat.ne_of_gt positive)
          exact ⟨by simp [walks], fun _ _ _ => empty, by simp [walks], by simp [walks]⟩
        · intro faithful
          rw [faithful.visited listed.1 listed.2 walks, List.length_nil, Nat.mul_zero] at length
          rw [List.length_eq_zero_iff.mp length]
    | true =>
        rw [if_pos rfl]
        constructor
        · intro perm
          refine ⟨fun _ _ _ some => ?_, by simp [walks], by simp [listed.2],
            fun _ entry member isKey => perm.mem_iff.mp ?_⟩
          · rw [perm.length_eq, List.length_map] at length
            have many := List.length_pos_iff.mpr some
            exact (Nat.eq_of_mul_eq_mul_right many ((Nat.one_mul _).trans length)).symm
          · rw [extractFromFilepaths, atPath_extract sound]
            have here : entry ∈ atPath path db.entries :=
              List.mem_filter.mpr ⟨member, decide_eq_true (path_of_mem_keys isKey)⟩
            refine List.mem_append_left _ (List.mem_filter.mpr ⟨here, ?_⟩)
            rw [own, count, Bool.or_eq_true, decide_eq_true_iff]
            obtain ⟨doc, isDoc, same⟩ := List.mem_map.mp isKey
            refine .inl (List.mem_map.mpr ⟨doc, ?_, same⟩)
            exact List.mem_flatten.mpr
              ⟨_, List.mem_replicate.mpr ⟨Nat.ne_of_gt positive, rfl⟩, isDoc⟩
        · intro faithful
          by_cases empty : new.documents path = []
          · rw [empty, List.length_nil, Nat.mul_zero] at length
            rw [List.length_eq_zero_iff.mp length, empty]
            exact List.Perm.refl _
          · refine perm_of_listed sound isStale ?_ (faithful.recorded walks)
            rw [own, count, faithful.once listed.1 listed.2 walks empty]
            simp
  · have notStale : (files.filter patterns.matches').contains path = false := by
      exact Bool.eq_false_iff.mpr fun isStale => listed (looked.mp isStale)
    have none : (files.filter patterns.matches').count path = 0 := by
      rw [List.count_eq_zero, ← List.contains_iff_mem, notStale]
      exact Bool.false_ne_true
    have kept : atPath path (extractFromFilepaths patterns new files db).entries =
        atPath path db.entries := by
      rw [extractFromFilepaths, atPath_extract sound, own, none, notStale]
      simp [unmatched]
    rw [kept]
    cases walks : patterns.walks path with
    | false =>
        have nothing : atPath path db.entries = [] := by
          refine List.filter_eq_nil_iff.mpr fun entry member samePath => ?_
          have walked := ((keys entry.1).mp (mem_keys_iff.mpr ⟨entry, member, rfl⟩)).1
          rw [of_decide_eq_true samePath, walks] at walked
          exact Bool.false_ne_true walked
        rw [if_neg Bool.false_ne_true, nothing]
        refine iff_of_true (List.Perm.refl _)
          ⟨by simp [walks], ?_, by simp [walks], by simp [walks]⟩
        exact fun isListed matched => absurd ⟨isListed, matched⟩ listed
    | true =>
        rw [if_pos rfl, perm_of_unlisted walked walks]
        constructor
        · intro parts
          exact ⟨fun isListed matched => absurd ⟨isListed, matched⟩ listed,
            fun isListed matched => absurd ⟨isListed, matched⟩ listed,
            fun _ _ _ => parts.1, fun _ => parts.2⟩
        · intro faithful
          refine ⟨?_, faithful.recorded walks⟩
          by_cases isListed : path ∈ files
          · refine faithful.matched isListed ?_ walks
            simpa using fun matched => listed ⟨isListed, matched⟩
          · rw [FileTree.documents_eq, FileTree.documents_eq, unchanged isListed]
            exact fun _ => Iff.rfl

end

/-- After full walks, an extraction that is told of every file that was created or changed leaves
what a full walk into an empty database finds, if and only if it is faithful for every file. -/
theorem agrees_iff {patterns : Patterns} {old new : FileTree} {files : List Text} {db : Database}
    (walked : Walked patterns old db)
    (told : ∀ path, (new.content? path).isSome → old.content? path ≠ new.content? path →
      path ∈ files) :
    Agrees patterns new files db ↔
      ∀ path, (new.content? path).isSome → FaithfulAt patterns old new files db path := by
  rw [agrees_iff_atPath]
  refine forall_congr' fun path => forall_congr' fun isThere => ?_
  refine agrees_at_iff walked fun unlisted => ?_
  by_contra changed
  exact unlisted (told path isThere changed)

section Unchanged

variable {patterns : Patterns} {tree : FileTree} {db : Database}

theorem entries_of_found (sound : db.Sound) {docs : List DiscoveredDocument} {stale : Text → Bool}
    (unique : (docs.map DiscoveredDocument.key).Nodup)
    (known : ∀ doc ∈ docs, doc.key ∈ db.keys)
    (found : ∀ key ∈ db.keys, stale key.1 = true → key ∈ docs.map DiscoveredDocument.key) :
    (extractDocuments db docs stale).Sound ∧
      (extractDocuments db docs stale).entries = db.entries := by
  obtain ⟨numbered, entries⟩ := extractDocuments_spec sound docs stale
  have nothing : docs.filter (fun doc => doc.key ∉ db.keys.toFinset) = [] :=
    List.filter_eq_nil_iff.mpr fun doc member => by simp [known doc member]
  have same : (extractDocuments db docs stale).entries = db.entries := by
    rw [entries, unmatched_of_nodup unique, nothing, List.map_nil, List.append_nil,
      List.filter_eq_self]
    intro entry member
    have isKey := mem_keys_iff.mpr ⟨entry, member, rfl⟩
    cases looked : stale entry.1.1 with
    | false => simp
    | true => simp [found entry.1 isKey looked]
  refine ⟨⟨numbered, ?_⟩, same⟩
  have known := sound.keys
  rw [← Database.keys_eq] at known ⊢
  rw [Database.keys, same]
  exact known

/-- A full walk, or an extraction from some paths. -/
def revisit (patterns : Patterns) (tree : FileTree) (db : Database) :
    Option (List Text) → Database
  | none => walk patterns tree db
  | some files => extractFromFilepaths patterns tree files db

theorem nodup_listed {files : List Text} (once : files.Nodup) :
    ((files.flatMap tree.documents).map DiscoveredDocument.key).Nodup := by
  rw [List.map_flatMap, List.nodup_flatMap]
  refine ⟨fun path _ => tree.nodup_documents path, once.imp fun apart key first second => ?_⟩
  exact apart ((path_of_mem_keys first).symm.trans (path_of_mem_keys second))

theorem entries_revisit (sound : db.Sound)
    (keys : ∀ key, key ∈ db.keys ↔ patterns.walks key.1 = true ∧
      key ∈ (tree.documents key.1).map DiscoveredDocument.key) (visit : Option (List Text))
    (once : ∀ files ∈ visit, files.Nodup ∧ ∀ path ∈ files, patterns.walks path = true) :
    (revisit patterns tree db visit).Sound ∧
      (revisit patterns tree db visit).entries = db.entries := by
  cases visit with
  | none =>
      have known : ∀ doc ∈ tree.walked patterns, doc.key ∈ db.keys := fun doc member =>
        (keys _).mpr ((tree.mem_walked_iff patterns _).mp (List.mem_map_of_mem member))
      rw [revisit, walk]
      exact entries_of_found sound (tree.nodup_walked patterns) known
        fun key member _ => (tree.mem_walked_iff patterns key).mpr ((keys key).mp member)
  | some files =>
      obtain ⟨distinct, walks⟩ := once files rfl
      refine entries_of_found sound (nodup_listed (distinct.filter _)) (fun doc member => ?_)
        fun key member looked => ?_
      · obtain ⟨path, listed, ofPath⟩ := List.mem_flatMap.mp member
        have isKey := List.mem_map_of_mem (f := DiscoveredDocument.key) ofPath
        have same := path_of_mem_keys isKey
        rw [keys, same]
        exact ⟨walks path (List.mem_of_mem_filter listed), isKey⟩
      · obtain ⟨doc, ofPath, same⟩ := List.mem_map.mp ((keys key).mp member).2
        exact List.mem_map.mpr ⟨doc, List.mem_flatMap.mpr
          ⟨key.1, List.contains_iff_mem.mp looked, ofPath⟩, same⟩

/-- Nothing changes while the files do not, however often they are looked at. -/
theorem Walked.entries_visited (walked : Walked patterns tree db) {visits : List (Option (List Text))}
    (once : ∀ files, some files ∈ visits →
      files.Nodup ∧ ∀ path ∈ files, patterns.walks path = true) :
    (visits.foldl (revisit patterns tree) db).entries = db.entries := by
  obtain ⟨sound, keys⟩ := walked.sound
  clear walked
  induction visits generalizing db with
  | nil => rfl
  | cons visit rest ih =>
      obtain ⟨still, same⟩ := entries_revisit sound keys visit fun files listed =>
        once files (listed ▸ List.mem_cons_self)
      refine (ih (fun files member => once files (List.mem_cons_of_mem _ member)) still ?_).trans
        same
      rw [Database.keys, same]
      exact keys

end Unchanged

def everything : Patterns := ⟨fun _ => true, fun _ => true⟩

def FileTree.single (path content : Text) : FileTree := ⟨[(path, content)], by simp⟩

theorem FileTree.content?_single {path content other : Text}
    (isThere : ((FileTree.single path content).content? other).isSome) : other = path := by
  by_contra apart
  have nothing : (FileTree.single path content).content? other = none := by
    simp [content?, single, Ne.symm apart]
  rw [nothing] at isThere
  exact absurd isThere Bool.false_ne_true

theorem entries_visited_saved :
    ([some ["a.gql".toList], none].foldl (revisit everything (.single "a.gql".toList "{a}".toList))
      (walk everything (.single "a.gql".toList "{a}".toList) {})).entries =
    (walk everything (.single "a.gql".toList "{a}".toList) {}).entries := by
  refine (Walked.first _).entries_visited fun files listed => ?_
  obtain rfl : files = ["a.gql".toList] := by simpa using listed
  decide

/-- A query in a file of its own is edited. -/
theorem agrees_of_edited :
    Agrees everything (.single "a.gql".toList "{b}".toList) ["a.gql".toList]
      (walk everything (.single "a.gql".toList "{a}".toList) {}) := by
  refine (agrees_iff (.first _) fun path isThere _ => ?_).mpr fun path isThere => ?_
  · rw [FileTree.content?_single isThere]
    exact List.mem_cons_self
  · obtain rfl := FileTree.content?_single isThere
    exact ⟨by decide, by decide, fun _ other => absurd other (by decide), by decide⟩

def userFile (prop : String) : FileTree :=
  .single "U.tsx".toList (prop ++ ":GraphQL<`fragment A on B{c}`>").toList

/-- The property of a component field is renamed. The document stays where it is. -/
theorem renamed_disagrees :
    Walked everything (userFile "user") (walk everything (userFile "user") {}) ∧
      (∀ path, ((userFile "item").content? path).isSome →
        (userFile "user").content? path ≠ (userFile "item").content? path →
          path ∈ ["U.tsx".toList]) ∧
      (∀ path ∈ ["U.tsx".toList], ((userFile "item").content? path).isSome) ∧
      ¬ Agrees everything (userFile "item") ["U.tsx".toList]
        (walk everything (userFile "user") {}) := by
  refine ⟨.first _, fun path isThere _ => ?_, by decide, fun agrees => ?_⟩
  · rw [FileTree.content?_single isThere]
    exact List.mem_cons_self
  · have member : (("U.tsx".toList, ⟨"fragment A on B{c}".toList, 0, 14⟩), some "item".toList) ∈
        existing (userFile "item") (walk everything (userFile "item") {}) := by
      decide
    exact absurd (agrees.mem_iff.mpr member) (by decide)

end Houdini.Plugin.Extraction
