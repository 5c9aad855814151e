import Houdini.Data.KeyedDifference
import Houdini.Plugin.Documents.Walk

/-! What one extraction leaves in the database. -/

set_option autoImplicit false

namespace Houdini.Plugin.Extraction

abbrev Key := Text × KnownDoc

def RawDocument.key (row : RawDocument) : Key := (row.filepath, row.known)

def DiscoveredDocument.key (doc : DiscoveredDocument) : Key := (doc.filePath, doc.known)

abbrev Entry := Key × Option Text

def DiscoveredDocument.entry (doc : DiscoveredDocument) : Entry :=
  (doc.key, if doc.prop = [] then none else some doc.prop)

namespace Database

def propOf (db : Database) (id : Nat) : Option Text :=
  (db.componentFields.find? fun field => field.document = id).map ComponentField.prop

def entryOf (db : Database) (row : RawDocument) : Entry := (row.key, db.propOf row.id)

def entries (db : Database) : List Entry := db.rawDocuments.map db.entryOf

structure Numbered (db : Database) : Prop where
  ids : (db.rawDocuments.map RawDocument.id).Nodup
  rows : ∀ row ∈ db.rawDocuments, row.id ≤ db.lastRow
  fields : ∀ field ∈ db.componentFields, field.document ≤ db.lastRow

theorem propOf_insert_of_le (db : Database) (doc : DiscoveredDocument) {id : Nat}
    (given : id ≤ db.lastRow) : (db.insert doc).propOf id = db.propOf id := by
  rw [propOf, propOf, insert]
  dsimp only
  split
  · have other : db.lastRow + 1 ≠ id := by omega
    rw [List.find?_append]
    simp [other]
  · rfl

theorem Numbered.propOf_insert {db : Database} (numbered : db.Numbered)
    (doc : DiscoveredDocument) :
    (db.insert doc).propOf (db.lastRow + 1) = if doc.prop = [] then none else some doc.prop := by
  have unknown :
      db.componentFields.find? (fun field => field.document = db.lastRow + 1) = none := by
    rw [List.find?_eq_none]
    intro field member same
    have bound := numbered.fields field member
    rw [decide_eq_true_eq] at same
    omega
  rw [propOf, insert]
  by_cases empty : doc.prop = []
  · simp [empty, unknown]
  · simp [empty, unknown, List.find?_append]

theorem Numbered.insert {db : Database} (numbered : db.Numbered) (doc : DiscoveredDocument) :
    (db.insert doc).Numbered where
  ids := by
    rw [Database.insert, List.map_append, List.nodup_append]
    refine ⟨numbered.ids, List.nodup_singleton _, fun id known other new same => ?_⟩
    obtain ⟨row, member, rfl⟩ := List.mem_map.mp known
    have bound := numbered.rows row member
    have last : other = db.lastRow + 1 := by simpa using new
    omega
  rows := by
    intro row member
    rw [Database.insert, List.mem_append, List.mem_singleton] at member
    cases member with
    | inl old => exact Nat.le_succ_of_le (numbered.rows row old)
    | inr new =>
        rw [new]
        exact Nat.le_refl _
  fields := by
    intro field member
    rw [Database.insert] at member
    dsimp only at member
    split at member
    · rw [List.mem_append, List.mem_singleton] at member
      cases member with
      | inl old => exact Nat.le_succ_of_le (numbered.fields field old)
      | inr new =>
          rw [new]
          exact Nat.le_refl _
    · exact Nat.le_succ_of_le (numbered.fields field member)

end Database

def Holds (unknown : Unknown) (rows : List RawDocument) : Prop :=
  ∀ path known id, unknown.getIn? path known = some id ↔
    ∃ row ∈ rows, row.key = (path, known) ∧ row.id = id

theorem holds_unknown {db : Database} (keys : (db.rawDocuments.map RawDocument.key).Nodup) :
    Holds db.unknown db.rawDocuments := by
  intro path known id
  have listed : ∀ other,
      (path, known, other) ∈
          db.rawDocuments.map (fun row => (row.filepath, row.known, row.id)) ↔
        ∃ row ∈ db.rawDocuments, row.key = (path, known) ∧ row.id = other := by
    intro other
    simp [RawDocument.key, and_assoc]
  constructor
  · intro found
    by_contra absent
    have nowhere : ∀ other, (path, known, other) ∉
        db.rawDocuments.map fun row => (row.filepath, row.known, row.id) := by
      intro other member
      have written : db.unknown.getIn? path known = some other := by
        refine OrderedMap.getIn?_setAllIn_of_mem member fun another anotherMember => ?_
        obtain ⟨row, present, key, rfl⟩ := (listed other).mp member
        obtain ⟨second, secondPresent, secondKey, rfl⟩ := (listed another).mp anotherMember
        have same := List.inj_on_of_nodup_map keys present secondPresent (key.trans secondKey.symm)
        rw [same]
      rw [written] at found
      cases found
      exact absent ((listed id).mp member)
    have unwritten : db.unknown.getIn? path known = none :=
      OrderedMap.getIn?_setAllIn_of_not_mem nowhere
    rw [unwritten] at found
    cases found
  · intro present
    refine OrderedMap.getIn?_setAllIn_of_mem ((listed id).mpr present) ?_
    intro other member
    obtain ⟨row, rowMember, key, rfl⟩ := present
    obtain ⟨second, secondMember, secondKey, rfl⟩ := (listed other).mp member
    have same := List.inj_on_of_nodup_map keys secondMember rowMember (secondKey.trans key.symm)
    rw [same]

theorem Writer.consume_cases (writer : Writer) (doc : DiscoveredDocument) :
    (∃ id, writer.unknown.getIn? doc.filePath doc.known = some id ∧
      (writer.consume doc).db = writer.db ∧
      ∀ path known, (writer.consume doc).unknown.getIn? path known =
        if (path, known) = doc.key then none else writer.unknown.getIn? path known) ∨
    (writer.unknown.getIn? doc.filePath doc.known = none ∧
      writer.consume doc = { writer with db := writer.db.insert doc }) := by
  cases found : writer.unknown.get? doc.filePath with
  | none => exact .inr ⟨by rw [OrderedMap.getIn?, found]; rfl, by rw [consume, found]⟩
  | some inner =>
      cases of : inner.get? doc.known with
      | none =>
          refine .inr ⟨by rw [OrderedMap.getIn?, found]; exact of, ?_⟩
          rw [consume, found]
          simp only [of]
      | some id =>
          refine .inl ⟨id, by rw [OrderedMap.getIn?, found]; exact of, ?_, fun path known => ?_⟩
          · rw [consume, found]
            simp only [of]
          · have consumed : (writer.consume doc).unknown =
                writer.unknown.set doc.filePath (inner.erase doc.known) := by
              rw [consume, found]
              simp only [of]
            rw [consumed, OrderedMap.getIn?, OrderedMap.get?_set, DiscoveredDocument.key]
            by_cases samePath : path = doc.filePath
            · subst samePath
              rw [if_pos rfl, Option.bind_some, OrderedMap.get?_erase, OrderedMap.getIn?, found]
              by_cases sameDoc : known = doc.known <;> simp [sameDoc]
            · rw [if_neg samePath, if_neg fun same => samePath (Prod.mk.inj same).1]
              rfl

/-- What consuming documents makes of the database, and which rows are unknown then. -/
structure Consumed (before after : Database) (rows : List RawDocument) (unknown : Unknown)
    (docs : List DiscoveredDocument) : Prop where
  numbered : after.Numbered
  last : before.lastRow ≤ after.lastRow
  props : ∀ id ≤ before.lastRow, after.propOf id = before.propOf id
  holds : Holds unknown (rows.filter fun row => row.key ∉ docs.map DiscoveredDocument.key)
  rows : ∃ new, after.rawDocuments = before.rawDocuments ++ new ∧
    (∀ row ∈ new, before.lastRow < row.id) ∧
    new.map after.entryOf =
      (unmatched DiscoveredDocument.key (rows.map RawDocument.key).toFinset docs).map
        DiscoveredDocument.entry

theorem Writer.consume_all (docs : List DiscoveredDocument) (writer : Writer)
    (numbered : writer.db.Numbered) (rows : List RawDocument) (holds : Holds writer.unknown rows) :
    Consumed writer.db (docs.foldl Writer.consume writer).db rows
      (docs.foldl Writer.consume writer).unknown docs := by
  induction docs generalizing writer rows with
  | nil => exact ⟨numbered, Nat.le_refl _, fun _ _ => rfl, by simpa using holds, [], by simp,
      by simp, rfl⟩
  | cons doc rest ih =>
      rw [List.foldl_cons]
      obtain ⟨id, found, same, erased⟩ | ⟨absent, inserted⟩ := writer.consume_cases doc
      · have present : doc.key ∈ rows.map RawDocument.key := by
          obtain ⟨row, member, key, _⟩ := (holds _ _ _).mp found
          exact List.mem_map.mpr ⟨row, member, key⟩
        have stillHolds : Holds (writer.consume doc).unknown
            (rows.filter fun row => row.key ≠ doc.key) := by
          intro path known other
          rw [erased]
          by_cases taken : (path, known) = doc.key
          · rw [if_pos taken]
            refine iff_of_false (by simp) fun listed => ?_
            obtain ⟨row, member, key, _⟩ := listed
            have other := (List.mem_filter.mp member).2
            rw [key, taken] at other
            exact absurd other (by simp)
          · rw [if_neg taken, holds]
            constructor
            · intro listed
              obtain ⟨row, member, key, number⟩ := listed
              refine ⟨row, List.mem_filter.mpr ⟨member, ?_⟩, key, number⟩
              rw [key]
              simpa using taken
            · intro listed
              obtain ⟨row, member, key, number⟩ := listed
              exact ⟨row, List.mem_of_mem_filter member, key, number⟩
        have later := ih (writer.consume doc) (same ▸ numbered) _ stillHolds
        rw [same] at later
        obtain ⟨stillNumbered, last, props, rowsLeft, new, whole, fresh, entries⟩ := later
        refine ⟨stillNumbered, last, props, ?_, new, whole, fresh, ?_⟩
        · rw [List.filter_filter] at rowsLeft
          refine (congrArg (Holds _) (List.filter_congr fun row _ => ?_)).mp rowsLeft
          simp only [List.map_cons, List.mem_cons, not_or, Bool.decide_and, decide_not,
            ne_eq]
          exact Bool.and_comm _ _
        · rw [entries, unmatched, if_pos (List.mem_toFinset.mpr present)]
          refine congrArg (List.map _) (unmatched_congr fun next _ => ?_)
          rw [Finset.mem_erase, List.mem_toFinset, List.mem_toFinset, List.mem_map, List.mem_map]
          constructor
          · intro listed
            obtain ⟨row, member, key⟩ := listed
            obtain ⟨isRow, other⟩ := List.mem_filter.mp member
            rw [← key]
            exact ⟨by simpa using other, row, isRow, rfl⟩
          · intro listed
            obtain ⟨other, row, member, key⟩ := listed
            refine ⟨row, List.mem_filter.mpr ⟨member, ?_⟩, key⟩
            rw [key]
            simpa using other
      · rw [inserted]
        have missing : doc.key ∉ rows.map RawDocument.key := by
          intro present
          obtain ⟨row, member, key⟩ := List.mem_map.mp present
          rw [(holds _ _ row.id).mpr ⟨row, member, key, rfl⟩] at absent
          cases absent
        have later := ih { writer with db := writer.db.insert doc } (numbered.insert doc) rows holds
        obtain ⟨stillNumbered, last, props, rowsLeft, new, whole, fresh, entries⟩ := later
        have grown : (writer.db.insert doc).lastRow = writer.db.lastRow + 1 := rfl
        rw [grown] at last
        refine ⟨stillNumbered, by omega, fun number given => ?_, ?_,
          ⟨writer.db.lastRow + 1, doc.filePath, doc.content, doc.offsetRow, doc.offsetColumn⟩ :: new,
          ?_, ?_, ?_⟩
        · rw [props number (by rw [grown]; omega), Database.propOf_insert_of_le _ _ given]
        · refine (congrArg (Holds _) (List.filter_congr fun row member => ?_)).mp rowsLeft
          have other : row.key ≠ doc.key := by
            intro same
            exact missing (List.mem_map.mpr ⟨row, member, same⟩)
          simp [other]
        · rw [whole, Database.insert, List.append_assoc]
          rfl
        · intro row member
          rcases List.mem_cons.mp member with rfl | later
          · exact Nat.lt_succ_self _
          · have above := fresh row later
            rw [grown] at above
            omega
        · rw [List.map_cons, entries, unmatched,
            if_neg fun present => missing (List.mem_toFinset.mp present), List.map_cons]
          congr 1
          exact congrArg (Prod.mk doc.key)
            ((props _ (Nat.le_refl _)).trans (numbered.propOf_insert doc))

theorem Database.delete_all (gone : List (Text × KnownDoc × Nat)) (db : Database) :
    (gone.foldl (fun db entry => db.delete entry.2.2) db).rawDocuments =
        db.rawDocuments.filter (fun row => row.id ∉ gone.map (·.2.2)) ∧
      (gone.foldl (fun db entry => db.delete entry.2.2) db).componentFields = db.componentFields ∧
      (gone.foldl (fun db entry => db.delete entry.2.2) db).lastRow = db.lastRow := by
  induction gone generalizing db with
  | nil => exact ⟨(List.filter_eq_self.mpr (by simp)).symm, rfl, rfl⟩
  | cons entry rest ih =>
      obtain ⟨rows, fields, last⟩ := ih (db.delete entry.2.2)
      refine ⟨?_, fields, last⟩
      rw [List.foldl_cons, rows, Database.delete, List.filter_filter]
      refine List.filter_congr fun row _ => ?_
      simp only [List.map_cons, List.mem_cons, not_or, Bool.decide_and, decide_not, ne_eq]
      exact Bool.and_comm _ _

/-- The documents were recorded once each, under row numbers that were given once each. -/
structure Database.Sound (db : Database) : Prop extends db.Numbered where
  keys : (db.rawDocuments.map RawDocument.key).Nodup

def Database.keys (db : Database) : List Key := db.entries.map Prod.fst

theorem Database.keys_eq (db : Database) : db.keys = db.rawDocuments.map RawDocument.key := by
  rw [keys, entries, List.map_map]
  rfl

/-- Of the entries that were there, those stay that were found again or whose file was not looked
at. Documents that take up none of them are added. -/
theorem extractDocuments_spec {db : Database} (sound : db.Sound) (docs : List DiscoveredDocument)
    (stale : Text → Bool) :
    (extractDocuments db docs stale).Numbered ∧
      (extractDocuments db docs stale).entries =
        db.entries.filter (fun entry =>
            entry.1 ∈ docs.map DiscoveredDocument.key || !stale entry.1.1) ++
          (unmatched DiscoveredDocument.key db.keys.toFinset docs).map DiscoveredDocument.entry := by
  obtain ⟨numbered, last, props, holds, new, whole, fresh, entries⟩ :=
    Writer.consume_all docs ⟨db.unknown, db⟩ sound.toNumbered db.rawDocuments
      (holds_unknown sound.keys)
  obtain ⟨rows, fields, lastRow⟩ := Database.delete_all
    ((docs.foldl Writer.consume ⟨db.unknown, db⟩).unknown.entriesIn.filter fun entry =>
      stale entry.1) (docs.foldl Writer.consume ⟨db.unknown, db⟩).db
  have propOf : (extractDocuments db docs stale).propOf =
      (docs.foldl Writer.consume ⟨db.unknown, db⟩).db.propOf := by
    funext id
    rw [Database.propOf, extractDocuments, Writer.finish, fields]
    rfl
  have gone : ∀ id, id ∈ ((docs.foldl Writer.consume
        ⟨db.unknown, db⟩).unknown.entriesIn.filter fun entry => stale entry.1).map (·.2.2) ↔
      ∃ row ∈ db.rawDocuments, row.id = id ∧ row.key ∉ docs.map DiscoveredDocument.key ∧
        stale row.filepath = true := by
    intro id
    rw [List.mem_map]
    constructor
    · intro listed
      obtain ⟨⟨path, known, number⟩, member, same⟩ := listed
      obtain ⟨remaining, isStale⟩ := List.mem_filter.mp member
      obtain ⟨row, kept, key, isId⟩ := (holds _ _ _).mp (OrderedMap.mem_entriesIn.mp remaining)
      obtain ⟨isRow, unmatched⟩ := List.mem_filter.mp kept
      refine ⟨row, isRow, isId.trans same, by simpa using unmatched, ?_⟩
      rw [← congrArg Prod.fst key] at isStale
      exact isStale
    · intro listed
      obtain ⟨row, isRow, isId, unmatched, isStale⟩ := listed
      refine ⟨(row.filepath, row.known, row.id), List.mem_filter.mpr ⟨?_, isStale⟩, isId⟩
      rw [OrderedMap.mem_entriesIn, holds]
      exact ⟨row, List.mem_filter.mpr ⟨isRow, by simpa using unmatched⟩, rfl, rfl⟩
  constructor
  · constructor
    · rw [extractDocuments, Writer.finish, rows]
      exact numbered.ids.sublist (List.filter_sublist.map _)
    · intro row member
      rw [extractDocuments, Writer.finish, rows] at member
      rw [extractDocuments, Writer.finish, lastRow]
      exact numbered.rows row (List.mem_of_mem_filter member)
    · intro field member
      rw [extractDocuments, Writer.finish, fields] at member
      rw [extractDocuments, Writer.finish, lastRow]
      exact numbered.fields field member
  · have entryOf : (extractDocuments db docs stale).entryOf =
        (docs.foldl Writer.consume ⟨db.unknown, db⟩).db.entryOf := by
      funext row
      rw [Database.entryOf, Database.entryOf, propOf]
    rw [Database.entries, entryOf, Database.keys_eq, ← entries, Database.entries,
      extractDocuments, Writer.finish, rows, whole, List.filter_append, List.map_append]
    congr 1
    · rw [List.filter_map]
      have same : ∀ row ∈ db.rawDocuments,
          (docs.foldl Writer.consume ⟨db.unknown, db⟩).db.entryOf row = db.entryOf row := by
        intro row member
        rw [Database.entryOf, Database.entryOf, props row.id (sound.rows row member)]
      have kept : db.rawDocuments.filter (fun row => row.id ∉ ((docs.foldl Writer.consume
            ⟨db.unknown, db⟩).unknown.entriesIn.filter fun entry => stale entry.1).map (·.2.2)) =
          db.rawDocuments.filter ((fun entry : Entry =>
            entry.1 ∈ docs.map DiscoveredDocument.key || !stale entry.1.1) ∘ db.entryOf) := by
        refine List.filter_congr fun row member => ?_
        have own : row.id ∈ ((docs.foldl Writer.consume
              ⟨db.unknown, db⟩).unknown.entriesIn.filter fun entry => stale entry.1).map (·.2.2) ↔
            row.key ∉ docs.map DiscoveredDocument.key ∧ stale row.filepath = true := by
          rw [gone]
          constructor
          · intro listed
            obtain ⟨other, isRow, sameId, parts⟩ := listed
            obtain rfl := List.inj_on_of_nodup_map sound.ids isRow member sameId
            exact parts
          · intro parts
            exact ⟨row, member, rfl, parts⟩
        rw [Bool.eq_iff_iff, decide_eq_true_iff, own]
        show _ ↔ (decide (row.key ∈ docs.map DiscoveredDocument.key) ||
          !stale row.filepath) = true
        by_cases found : row.key ∈ docs.map DiscoveredDocument.key
        · simp [found]
        · simp [found]
      rw [kept]
      exact List.map_congr_left fun row member => same row (List.mem_of_mem_filter member)
    · rw [List.filter_eq_self.mpr]
      intro row member
      refine decide_eq_true fun listed => ?_
      obtain ⟨old, isRow, same, _⟩ := (gone row.id).mp listed
      have below := sound.rows old isRow
      have above := fresh row member
      rw [same] at below
      exact absurd above (Nat.not_lt.mpr below)

end Houdini.Plugin.Extraction
