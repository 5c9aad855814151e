import Houdini.Runtime.Cache.ReadCompleteness

/-! When a read reports the stale fields that it has visited. -/

set_option autoImplicit false

namespace Houdini.Runtime.Cache

theorem directEntry_subset (entry : GraphQLValue) : directEntry entry ⊆ entryRecords entry := by
  cases entry with
  | array items => exact List.nil_subset _
  | _ => exact List.Subset.refl _

theorem directRecords_subset (value : GraphQLValue) : directRecords value ⊆ linkedRecords value := by
  cases value with
  | array items =>
      simp only [directRecords, linkedRecords]
      induction items with
      | nil => exact List.nil_subset _
      | cons entry rest ih =>
          rw [List.flatMap_cons, listedRecords]
          exact List.append_subset.mpr
            ⟨List.subset_append_of_subset_left _ (directEntry_subset entry),
              List.subset_append_of_subset_right _ ih⟩
  | _ => exact List.Subset.refl _

namespace Visit

section Stored

variable (context : ReadContext) (storage : InMemoryStorage)

def StaleWithin (root : Visit) : Prop :=
  ∃ visit, Relation.ReflTransGen (Follows context storage) root visit ∧
    ∃ field ∈ visit.fields context storage, visit.Stale context field

variable {context storage}

theorem TellsStale.staleWithin {root : Visit} (tells : TellsStale context storage root) :
    StaleWithin context storage root := by
  induction tells with
  | here member stale _ => exact ⟨_, .refl, _, member, stale⟩
  | link member nested linked _ _ ih =>
      obtain ⟨visit, reached, stale⟩ := ih
      have follows : Follows context storage _ _ :=
        .link member nested (directRecords_subset _ linked)
      exact ⟨visit, reached.head follows, stale⟩

end Stored

end Visit

open Visit

variable {context : ReadContext} {storage next : InMemoryStorage}
  {selection : SubscriptionSelection} {parent : String} {result : ReadResult}

/-- A full read that answers data reports whether it has visited a stale field, exactly
when no visited field is stale, or one of them is reached, not inside of an inner list,
through records that all hold something, or there is no data to answer. -/
theorem read_stale_iff (full : context.fullCheck = true) (distinct : storage.DistinctLayers)
    (apart : ComponentsApart context storage ⟨none, selection, parent⟩)
    (success : read context selection parent none storage = .ok result next) :
    (result.data ≠ .null →
        (result.stale = true ↔ StaleWithin context storage ⟨none, selection, parent⟩)) ↔
      (¬ StaleWithin context storage ⟨none, selection, parent⟩ ∨
        TellsStale context storage ⟨none, selection, parent⟩ ∨
        Nulled context storage ⟨none, selection, parent⟩ ∨
        ¬ Holds context storage ⟨none, selection, parent⟩) := by
  obtain ⟨notNull, _, stale⟩ := read_answers full distinct apart success
  have sound (tells : TellsStale context storage ⟨none, selection, parent⟩) :=
    tells.staleWithin
  rw [notNull, stale]
  tauto

private def pieceSelection : SubscriptionSelection where
  fields := [("name", { type := "String", keyRaw := "name", visible := true })]

private def boardField : SelectionField where
  type := "Piece"
  keyRaw := "board"
  visible := true
  selection := some pieceSelection

/-- `{ turn board { name } }` -/
private def gameSelection : SubscriptionSelection where
  fields := [
    ("turn", { type := "String", keyRaw := "turn", visible := true }),
    ("board", boardField)]

private def gameStorage (board : GraphQLValue) : InMemoryStorage where
  data := [{
    id := 1
    fields := OrderedMap.ofList [(rootID, OrderedMap.ofList [("turn", .string "white")]),
      ("Piece:1", OrderedMap.ofList [("name", .string "pawn")])]
    links := OrderedMap.ofList [(rootID, OrderedMap.ofList [("board", board)])] }]
  idCount := 2

private def gameContext : ReadContext where
  fullCheck := true
  staleManager := StaleManager.markFieldStale {} "Piece:1" "name"

private theorem gameSelection_apart (context : ReadContext) (storage : InMemoryStorage) :
    ComponentsApart context storage ⟨none, gameSelection, rootID⟩ := by
  refine @ComponentsApart.of_closed _ _ _
    (fun selection => selection = gameSelection ∨ selection = pieceSelection) (.inl rfl) ?_ ?_
  · intro selection same
    obtain rfl | rfl := same <;> rfl
  · intro selection same
    obtain rfl | rfl := same
    · simp [gameSelection, boardField]
    · simp [pieceSelection]

private theorem gameStorage_distinct (board : GraphQLValue) :
    (gameStorage board).DistinctLayers where
  nodup := by simp [gameStorage]
  fresh := by simp [gameStorage]

private theorem gameStorage_follows {board : GraphQLValue}
    (linked : linkedRecords board = ["Piece:1"])
    (shown : shown gameContext (gameStorage board) rootID boardField = board) :
    Follows gameContext (gameStorage board) ⟨none, gameSelection, rootID⟩
      ⟨nextStep boardField none, pieceSelection, "Piece:1"⟩ :=
  .link (.tail _ (.head _)) rfl (by rw [shown, linked]; exact List.mem_cons_self)

/-- In a row of pieces, the stale one is reported. -/
theorem read_stale_iff_row :
    let storage := gameStorage (.array [.string "Piece:1"])
    let root : Visit := ⟨none, gameSelection, rootID⟩
    (GraphQLValue.object [("turn", .string "white"),
        ("board", .array [.object [("name", .string "pawn")]])] ≠ .null →
        (true = true ↔ StaleWithin gameContext storage root)) ↔
      (¬ StaleWithin gameContext storage root ∨ TellsStale gameContext storage root ∨
        Nulled gameContext storage root ∨ ¬ Holds gameContext storage root) :=
  @read_stale_iff gameContext _ _ gameSelection rootID
    { data := .object [("turn", .string "white"),
        ("board", .array [.object [("name", .string "pawn")]])]
      isPartial := false, stale := true } rfl (gameStorage_distinct _)
    (gameSelection_apart _ _) rfl

/-- In a board of rows, the stale piece is served as if it were fresh. -/
theorem read_fresh_boardOfRows :
    ∃ storage context result next, context.fullCheck = true ∧ storage.DistinctLayers ∧
      ComponentsApart context storage ⟨none, gameSelection, rootID⟩ ∧
      read context gameSelection rootID none storage = .ok result next ∧
      result.data = .object [("turn", .string "white"),
        ("board", .array [.array [.object [("name", .string "pawn")]]])] ∧
      result.stale = false ∧ StaleWithin context storage ⟨none, gameSelection, rootID⟩ := by
  refine ⟨gameStorage (.array [.array [.string "Piece:1"]]), gameContext, _, _, rfl,
    gameStorage_distinct _, gameSelection_apart _ _, rfl, rfl, rfl, ?_⟩
  exact ⟨_, .single (gameStorage_follows rfl rfl), _, .head _, rfl⟩

end Houdini.Runtime.Cache
