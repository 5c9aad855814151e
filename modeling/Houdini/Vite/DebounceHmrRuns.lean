import Houdini.Vite.DebounceHmr

/-! Runs of the queue whose batches say one thing of a file: what each batch then says is the last
event, and no event is lost. -/

set_option autoImplicit false

namespace Houdini.Vite

variable {ReadFn : Type}

def FileEvent.filed : FileEvent ReadFn → Option (ReadFnOrContent ReadFn) × Bool
  | .updated entry => (some entry, false)
  | .deleted => (none, true)

theorem FileEvent.filed_ne (event : FileEvent ReadFn) : event.filed ≠ (none, false) := by
  cases event <;> simp [filed]

namespace Batch

theorem mem_foldl_addToSet (files : List Filepath) (set : List Filepath) (file : Filepath) :
    file ∈ files.foldl (fun set file => addToSet file set) set ↔ file ∈ set ∨ file ∈ files := by
  induction files generalizing set with
  | nil => simp
  | cons first rest ih =>
      rw [List.foldl_cons, ih, mem_addToSet, List.mem_cons]
      tauto

variable (rootPrefix file : Filepath)

theorem about_merge_of_fresh {pending newer : Batch ReadFn}
    (fresh : newer.about rootPrefix file = (none, false)) :
    (pending.merge newer).about rootPrefix file = pending.about rootPrefix file := by
  obtain ⟨absent, kept⟩ := Prod.mk.inj fresh
  have outside : relativePath rootPrefix file ∉ newer.deletedFiles := of_decide_eq_false kept
  simp only [about, merge, OrderedMap.get?_setAll_entries, absent, mem_foldl_addToSet, outside,
    or_false]
  rfl

theorem about_merge_of_filed {pending newer : Batch ReadFn} {event : FileEvent ReadFn}
    (filed : newer.about rootPrefix file = event.filed)
    (deletes : relativePath rootPrefix file ∈ newer.deletedFiles →
      pending.files.get? file = none)
    (updates : newer.files.get? file ≠ none →
      relativePath rootPrefix file ∉ pending.deletedFiles) :
    (pending.merge newer).about rootPrefix file = event.filed := by
  cases event with
  | updated entry =>
      obtain ⟨found, kept⟩ := Prod.mk.inj filed
      have outside : relativePath rootPrefix file ∉ newer.deletedFiles := of_decide_eq_false kept
      have older := updates (by rw [found]; exact Option.some_ne_none entry)
      simp [about, merge, OrderedMap.get?_setAll_entries, found, mem_foldl_addToSet, outside,
        older, FileEvent.filed]
  | deleted =>
      obtain ⟨found, gone⟩ := Prod.mk.inj filed
      have inside : relativePath rootPrefix file ∈ newer.deletedFiles := of_decide_eq_true gone
      have older := deletes inside
      simp [about, merge, OrderedMap.get?_setAll_entries, found, mem_foldl_addToSet, inside,
        older, FileEvent.filed]

end Batch

namespace History

variable {rootPrefix file : Filepath} {event : FileEvent ReadFn} {history : History ReadFn}

theorem lastEvent_cons_of_none {shown : Observation ReadFn} (other : shown.event? file = none) :
    lastEvent file (shown :: history) = lastEvent file history := by
  simp [lastEvent, other]

theorem lastEvent_cons_of_some {shown : Observation ReadFn} (same : shown.event? file = some event) :
    lastEvent file (shown :: history) = some event := by
  simp [lastEvent, same]

theorem mem_sinceEvent_cons {shown seen : Observation ReadFn} (other : shown.event? file = none)
    (member : seen ∈ sinceEvent file history) : seen ∈ sinceEvent file (shown :: history) := by
  rw [sinceEvent, List.takeWhile_cons, other]
  exact List.mem_cons_of_mem shown member

end History

theorem Call.Reflects.cons {rootPrefix file : Filepath} {history : History ReadFn} {call : Call}
    {event : FileEvent ReadFn} {shown : Observation ReadFn}
    (reflects : call.Reflects rootPrefix file history event)
    (other : shown.event? file = none) :
    call.Reflects rootPrefix file (shown :: history) event := by
  match event, reflects with
  | .deleted, reflects => exact reflects
  | .updated (.content _), reflects => exact reflects
  | .updated (.read _), ⟨text, about, member⟩ =>
      exact ⟨text, about, History.mem_sinceEvent_cons other member⟩

theorem Call.Reflects.mentions {rootPrefix file : Filepath} {history : History ReadFn}
    {call : Call} {event : FileEvent ReadFn}
    (reflects : call.Reflects rootPrefix file history event) : call.Mentions rootPrefix file := by
  match event, reflects with
  | .deleted, reflects => simp [Call.Mentions, show call.about _ _ = _ from reflects]
  | .updated (.content _), reflects =>
      simp [Call.Mentions, show call.about _ _ = _ from reflects]
  | .updated (.read _), ⟨_, about, _⟩ => simp [Call.Mentions, about]

theorem History.Reflected.cons {rootPrefix file : Filepath} {history : History ReadFn}
    {event : FileEvent ReadFn} {shown : Observation ReadFn}
    (reflected : history.Reflected rootPrefix file event) (other : shown.event? file = none)
    (silent : shown.call? rootPrefix file = none) :
    Reflected rootPrefix file event (shown :: history) := by
  obtain ⟨later, call, earlier, rfl, quiet, last, reflects⟩ := reflected
  refine ⟨shown :: later, call, earlier, rfl, ?_, last, reflects⟩
  intro seen member
  rcases List.mem_cons.mp member with rfl | member
  · exact ⟨other, silent⟩
  · exact quiet seen member

theorem History.Reflected.covered {rootPrefix file : Filepath} {history later earlier : History ReadFn}
    {event seen : FileEvent ReadFn} {shown : Observation ReadFn}
    (reflected : history.Reflected rootPrefix file event)
    (split : history = later ++ shown :: earlier) (about : shown.event? file = some seen) :
    Covered rootPrefix file later := by
  obtain ⟨after, call, before, equal, quiet, _, reflects⟩ := reflected
  rw [split] at equal
  rcases List.append_eq_append_iff.mp equal with ⟨middle, reached, rest⟩ | ⟨middle, reached, rest⟩
  · -- the event would come after the callback
    cases middle with
    | nil =>
        obtain ⟨same, _⟩ := List.cons.inj rest
        rw [same] at about
        cases about
    | cons first middle =>
        obtain ⟨same, _⟩ := List.cons.inj rest
        have silent := (quiet shown (by rw [reached, same]; simp)).1
        rw [about] at silent
        cases silent
  · cases middle with
    | nil =>
        obtain ⟨same, _⟩ := List.cons.inj rest
        rw [← same] at about
        cases about
    | cons first middle =>
        obtain ⟨same, _⟩ := List.cons.inj rest
        exact ⟨call, by rw [reached, same]; simp, reflects.mentions⟩

def Task.Agrees (rootPrefix file : Filepath) (history : History ReadFn) (event : FileEvent ReadFn) :
    Task ReadFn → Prop
  | .reading unread call =>
      (unread.get? file = none ∧ call.Reflects rootPrefix file history event) ∨
        ∃ readFn, event = .updated (.read readFn) ∧ unread.get? file = some readFn ∧
          call.about rootPrefix file = (none, false)
  | .running _ => False

theorem Task.Agrees.cons {rootPrefix file : Filepath} {history : History ReadFn}
    {event : FileEvent ReadFn} {task : Task ReadFn} {shown : Observation ReadFn}
    (agrees : task.Agrees rootPrefix file history event) (other : shown.event? file = none) :
    task.Agrees rootPrefix file (shown :: history) event := by
  cases task with
  | reading unread call =>
      rcases agrees with ⟨read, reflects⟩ | unread
      · exact Or.inl ⟨read, reflects.cons other⟩
      · exact Or.inr unread
  | running call => exact agrees

theorem Call.Reflects.congr {rootPrefix file : Filepath} {history : History ReadFn}
    {event : FileEvent ReadFn} {call other : Call}
    (reflects : call.Reflects rootPrefix file history event)
    (same : other.about rootPrefix file = call.about rootPrefix file) :
    other.Reflects rootPrefix file history event := by
  match event, reflects with
  | .deleted, reflects => exact same.trans reflects
  | .updated (.content _), reflects => exact same.trans reflects
  | .updated (.read _), ⟨text, about, member⟩ => exact ⟨text, same.trans about, member⟩

theorem Batch.begin_agrees {rootPrefix file : Filepath} {batch : Batch ReadFn}
    {event : FileEvent ReadFn} (filed : batch.about rootPrefix file = event.filed)
    (history : History ReadFn) : batch.begin.Agrees rootPrefix file history event := by
  obtain ⟨found, gone⟩ := Prod.mk.inj filed
  match event, found, gone with
  | .deleted, found, gone =>
      refine Or.inl ⟨?_, Prod.ext ?_ gone⟩
      · rw [OrderedMap.get?_filterMapValues, found]
        rfl
      · show OrderedMap.get? _ file = none
        rw [OrderedMap.get?_filterMapValues, found]
        rfl
  | .updated (.content text), found, gone =>
      refine Or.inl ⟨?_, Prod.ext ?_ gone⟩
      · rw [OrderedMap.get?_filterMapValues, found]
        rfl
      · show OrderedMap.get? _ file = some text
        rw [OrderedMap.get?_filterMapValues, found]
        rfl
  | .updated (.read readFn), found, gone =>
      refine Or.inr ⟨readFn, rfl, ?_, Prod.ext ?_ gone⟩
      · rw [OrderedMap.get?_filterMapValues, found]
        rfl
      · show OrderedMap.get? _ file = none
        rw [OrderedMap.get?_filterMapValues, found]
        rfl

theorem Batch.begin_free {rootPrefix file : Filepath} {batch : Batch ReadFn}
    (fresh : batch.about rootPrefix file = (none, false)) :
    ¬ batch.begin.Holds rootPrefix file := by
  obtain ⟨found, gone⟩ := Prod.mk.inj fresh
  rintro (unread | mentions)
  · rw [OrderedMap.get?_filterMapValues, found] at unread
    exact unread rfl
  · refine mentions (Prod.ext ?_ gone)
    show OrderedMap.get? _ file = none
    rw [OrderedMap.get?_filterMapValues, found]
    rfl

/-- The newest place that has a file has its last event. -/
inductive Stage (rootPrefix : Filepath) (hmr : DebounceHmr ReadFn) (history : History ReadFn)
    (file : Filepath) (event : FileEvent ReadFn) : Prop where
  | queued (filed : hmr.queued.about rootPrefix file = event.filed)
  | pending (fresh : hmr.queued.about rootPrefix file = (none, false)) {batch : Batch ReadFn}
      (waits : hmr.pendingBatch = some batch) (filed : batch.about rootPrefix file = event.filed)
  | reading (fresh : hmr.queued.about rootPrefix file = (none, false))
      (apart : ∀ batch, hmr.pendingBatch = some batch →
        batch.about rootPrefix file = (none, false))
      {task : Task ReadFn} (taken : hmr.tasks = [task])
      (agrees : task.Agrees rootPrefix file history event)
  | reflected (fresh : hmr.queued.about rootPrefix file = (none, false))
      (apart : ∀ batch, hmr.pendingBatch = some batch →
        batch.about rootPrefix file = (none, false))
      (free : ∀ task ∈ hmr.tasks, ¬ task.Holds rootPrefix file)
      (reflected : history.Reflected rootPrefix file event)

namespace Stage

variable {rootPrefix file : Filepath} {hmr next : DebounceHmr ReadFn} {history : History ReadFn}
  {event : FileEvent ReadFn}

theorem cons (stage : Stage rootPrefix hmr history file event) {shown : Observation ReadFn}
    (queued : next.queued.about rootPrefix file = hmr.queued.about rootPrefix file)
    (pending : next.pendingBatch = hmr.pendingBatch) (tasks : next.tasks = hmr.tasks)
    (other : shown.event? file = none) (silent : shown.call? rootPrefix file = none) :
    Stage rootPrefix next (shown :: history) file event := by
  cases stage with
  | queued filed => exact .queued (queued.trans filed)
  | pending fresh waits filed => exact .pending (queued.trans fresh) (pending.trans waits) filed
  | reading fresh apart taken agrees =>
      exact .reading (queued.trans fresh) (pending ▸ apart) (tasks.trans taken)
        (agrees.cons other)
  | reflected fresh apart free reflected =>
      exact .reflected (queued.trans fresh) (pending ▸ apart) (tasks ▸ free)
        (reflected.cons other silent)

theorem waits_or_reflected (stage : Stage rootPrefix hmr history file event) :
    hmr.Waits rootPrefix file ∨ history.Reflected rootPrefix file event := by
  cases stage with
  | queued filed => exact Or.inl (Or.inl (filed ▸ event.filed_ne))
  | pending _ waits filed => exact Or.inl (Or.inr (Or.inl ⟨_, waits, filed ▸ event.filed_ne⟩))
  | @reading _ _ task taken agrees =>
      refine Or.inl (Or.inr (Or.inr ⟨task, by rw [taken]; exact List.mem_singleton_self task, ?_⟩))
      cases task with
      | reading unread call =>
          rcases agrees with ⟨_, reflects⟩ | ⟨readFn, _, found, _⟩
          · exact Or.inr reflects.mentions
          · exact Or.inl (by rw [found]; exact Option.some_ne_none readFn)
      | running call => exact agrees
  | reflected _ _ _ reflected => exact Or.inr reflected

end Stage

def DebounceHmr.Single (hmr : DebounceHmr ReadFn) : Prop :=
  (hmr.isProcessing = false ∧ hmr.tasks = [] ∧ hmr.pendingBatch = none) ∨
    (hmr.isProcessing = true ∧ ∃ task, hmr.tasks = [task])

def History.Apart (rootPrefix : Filepath) (history : History ReadFn) (file : Filepath) : Prop :=
  ∀ other, history.lastEvent other ≠ none →
    relativePath rootPrefix other = relativePath rootPrefix file → other = file

/-- What is queued, or flushed into a batch that waits, says one thing of each file, and a file
that cannot be read has a later event that waits. -/
def Action.Orderly (rootPrefix : Filepath) (hmr : DebounceHmr ReadFn) (history : History ReadFn) :
    Action ReadFn → Prop
  | .queueUpdate file entry =>
      (∀ kept, hmr.updateQueue.get? file = some kept → kept = entry) ∧
        relativePath rootPrefix file ∉ hmr.deleteQueue ∧ history.Apart rootPrefix file
  | .queueDelete file => hmr.updateQueue.get? file = none ∧ history.Apart rootPrefix file
  | .expires => ∀ pending, hmr.pendingBatch = some pending → ∀ file,
      (pending.files.get? file ≠ none → relativePath rootPrefix file ∉ hmr.deleteQueue) ∧
        (hmr.updateQueue.get? file ≠ none → relativePath rootPrefix file ∉ pending.deletedFiles)
  | .readSettles _ file outcome => outcome = none →
      hmr.queued.about rootPrefix file ≠ (none, false) ∨
        ∃ pending, hmr.pendingBatch = some pending ∧
          pending.about rootPrefix file ≠ (none, false)
  | .callbackStarts _ => True
  | .callbackSettles _ _ => True

section Steps

variable {rootPrefix file : Filepath} {hmr : DebounceHmr ReadFn} {history : History ReadFn}
  {event : FileEvent ReadFn}

theorem taken_of_single {task found : Task ReadFn} {index : Nat} (taken : hmr.tasks = [task])
    (selected : hmr.tasks[index]? = some found) : index = 0 ∧ found = task := by
  rw [taken] at selected
  cases index with
  | zero => exact ⟨rfl, (Option.some.inj selected).symm⟩
  | succ index => cases selected

theorem selected_of_single {found : Task ReadFn} {index : Nat} (single : hmr.Single)
    (selected : hmr.tasks[index]? = some found) :
    index = 0 ∧ hmr.tasks = [found] ∧ hmr.isProcessing = true := by
  rcases single with ⟨_, empty, _⟩ | ⟨busy, task, taken⟩
  · rw [empty] at selected
    cases selected
  · obtain ⟨first, rfl⟩ := taken_of_single taken selected
    exact ⟨first, taken, busy⟩

theorem get?_updateQueue_queueUpdate (hmr : DebounceHmr ReadFn) (file other : Filepath)
    (entry : ReadFnOrContent ReadFn) :
    (hmr.queueUpdate file entry).updateQueue.get? other =
      if file = other then some ((hmr.updateQueue.get? file).getD entry)
      else hmr.updateQueue.get? other := by
  unfold DebounceHmr.queueUpdate DebounceHmr.scheduleFlush
  cases found : hmr.updateQueue.get? file with
  | none =>
      simp only [OrderedMap.contains, found, Option.isSome_none, Bool.false_eq_true, if_false,
        OrderedMap.get?_set, Option.getD_none]
      congr 1
      exact propext eq_comm
  | some kept =>
      simp only [OrderedMap.contains, found, Option.isSome_some, if_true, Option.getD_some]
      split
      · next same => rw [← same, found]
      · rfl

theorem rest_queueUpdate (hmr : DebounceHmr ReadFn) (file : Filepath)
    (entry : ReadFnOrContent ReadFn) :
    (hmr.queueUpdate file entry).deleteQueue = hmr.deleteQueue ∧
      (hmr.queueUpdate file entry).pendingBatch = hmr.pendingBatch ∧
      (hmr.queueUpdate file entry).tasks = hmr.tasks ∧
      (hmr.queueUpdate file entry).isProcessing = hmr.isProcessing := by
  unfold DebounceHmr.queueUpdate DebounceHmr.scheduleFlush
  split <;> exact ⟨rfl, rfl, rfl, rfl⟩

theorem Stage.queueUpdate_self {entry : ReadFnOrContent ReadFn}
    (orderly : (Action.queueUpdate file entry).Orderly rootPrefix hmr history)
    (history : History ReadFn) :
    Stage rootPrefix (hmr.queueUpdate file entry) history file (.updated entry) := by
  obtain ⟨same, kept, _⟩ := orderly
  refine .queued (Prod.ext ?_ (decide_eq_false ?_))
  · show OrderedMap.get? (hmr.queueUpdate file entry).updateQueue file = some entry
    rw [get?_updateQueue_queueUpdate, if_pos rfl]
    cases found : hmr.updateQueue.get? file with
    | none => rfl
    | some older => exact congrArg some (same older found)
  · show _ ∉ (hmr.queueUpdate file entry).deleteQueue
    rw [(rest_queueUpdate hmr file entry).1]
    exact kept

theorem Stage.queueUpdate_other {other : Filepath} {entry : ReadFnOrContent ReadFn}
    (different : file ≠ other) (stage : Stage rootPrefix hmr history other event) :
    Stage rootPrefix (hmr.queueUpdate file entry) (.updated file entry :: history) other event := by
  obtain ⟨deletes, pending, tasks, _⟩ := rest_queueUpdate hmr file entry
  refine stage.cons (Prod.ext ?_ ?_) pending tasks (if_neg different) rfl
  · show OrderedMap.get? (hmr.queueUpdate file entry).updateQueue other = _
    rw [get?_updateQueue_queueUpdate, if_neg different]
    rfl
  · show decide (_ ∈ (hmr.queueUpdate file entry).deleteQueue) = _
    rw [deletes]
    rfl

theorem Stage.queueDelete_self
    (orderly : (Action.queueDelete file).Orderly rootPrefix hmr history)
    (history : History ReadFn) :
    Stage rootPrefix (hmr.queueDelete (relativePath rootPrefix file)) history file .deleted :=
  .queued (Prod.ext orderly.1 (decide_eq_true (mem_addToSet.mpr (Or.inl rfl))))

theorem Stage.queueDelete_other {other : Filepath} (different : file ≠ other)
    (apart : history.Apart rootPrefix file) (seen : history.lastEvent other = some event)
    (stage : Stage rootPrefix hmr history other event) :
    Stage rootPrefix (hmr.queueDelete (relativePath rootPrefix file)) (.deleted file :: history)
      other event := by
  have unequal : relativePath rootPrefix other ≠ relativePath rootPrefix file := fun same =>
    different (apart other (by rw [seen]; exact Option.some_ne_none event) same).symm
  refine stage.cons (Prod.ext rfl (decide_eq_decide.mpr ?_)) rfl rfl (if_neg different) rfl
  show _ ∈ addToSet _ _ ↔ _
  rw [mem_addToSet, or_iff_right unequal]
  rfl

theorem Stage.flush (single : hmr.Single)
    (orderly : Action.expires.Orderly rootPrefix hmr history)
    (stage : Stage rootPrefix hmr history file event) :
    Stage rootPrefix hmr.flush history file event := by
  rcases single with ⟨idle, noTasks, nonePending⟩ | ⟨busy, running, taken⟩
  · have flushed : hmr.flush = { hmr with
        updateQueue := ∅, deleteQueue := [], updateTimer := false, batchId := hmr.batchId + 1,
        isProcessing := true, tasks := [hmr.queued.begin] } := by
      simp [DebounceHmr.flush, idle, noTasks]
    have fresh : hmr.flush.queued.about rootPrefix file = (none, false) := by
      rw [flushed]
      rfl
    have apart : ∀ batch, hmr.flush.pendingBatch = some batch →
        batch.about rootPrefix file = (none, false) := by
      rw [flushed]
      intro batch waits
      rw [show hmr.pendingBatch = some batch from waits] at nonePending
      cases nonePending
    have tasks : hmr.flush.tasks = [hmr.queued.begin] := by rw [flushed]
    cases stage with
    | queued filed => exact .reading fresh apart tasks (Batch.begin_agrees filed history)
    | pending _ waits _ =>
        rw [nonePending] at waits
        cases waits
    | reading _ _ taken _ =>
        rw [noTasks] at taken
        cases taken
    | reflected before _ _ reflected =>
        refine .reflected fresh apart ?_ reflected
        rw [tasks]
        intro task member
        rw [List.mem_singleton.mp member]
        exact Batch.begin_free before
  · have merged : ∃ batch, hmr.flush = { hmr with
        updateQueue := ∅, deleteQueue := [], updateTimer := false, batchId := hmr.batchId + 1,
        pendingBatch := some batch } ∧
        (batch = hmr.queued ∧ hmr.pendingBatch = none ∨
          ∃ older, hmr.pendingBatch = some older ∧ batch = older.merge hmr.queued) := by
      cases waiting : hmr.pendingBatch with
      | none => exact ⟨hmr.queued, by simp [DebounceHmr.flush, busy, waiting], Or.inl ⟨rfl, rfl⟩⟩
      | some older =>
          exact ⟨older.merge hmr.queued, by simp [DebounceHmr.flush, busy, waiting],
            Or.inr ⟨older, rfl, rfl⟩⟩
    obtain ⟨batch, flushed, origin⟩ := merged
    have fresh : hmr.flush.queued.about rootPrefix file = (none, false) := by
      rw [flushed]
      rfl
    have waits : hmr.flush.pendingBatch = some batch := by rw [flushed]
    have tasks : hmr.flush.tasks = hmr.tasks := by rw [flushed]
    -- what the file is in the batch that waits now, from what it was in the queues before
    have apartOf : hmr.queued.about rootPrefix file = (none, false) →
        (∀ batch, hmr.pendingBatch = some batch → batch.about rootPrefix file = (none, false)) →
        ∀ batch, hmr.flush.pendingBatch = some batch →
          batch.about rootPrefix file = (none, false) := by
      intro before apart candidate found
      cases waits.symm.trans found
      rcases origin with ⟨rfl, _⟩ | ⟨older, had, rfl⟩
      · exact before
      · rw [Batch.about_merge_of_fresh rootPrefix file before]
        exact apart older had
    cases stage with
    | queued filed =>
        refine .pending fresh waits ?_
        rcases origin with ⟨rfl, _⟩ | ⟨older, had, rfl⟩
        · exact filed
        · refine Batch.about_merge_of_filed rootPrefix file filed ?_ (orderly older had file).2
          intro gone
          by_contra present
          exact (orderly older had file).1 present gone
    | pending before had filed =>
        refine .pending fresh waits ?_
        rcases origin with ⟨_, nothing⟩ | ⟨older, same, rfl⟩
        · rw [nothing] at had
          cases had
        · cases had.symm.trans same
          rw [Batch.about_merge_of_fresh rootPrefix file before]
          exact filed
    | reading before apart taken agrees =>
        exact .reading fresh (apartOf before apart) (tasks.trans taken) agrees
    | reflected before apart free reflected =>
        exact .reflected fresh (apartOf before apart) (tasks ▸ free) reflected

theorem readSettles_cases {task : Nat} {outcome : Option String} {next : DebounceHmr ReadFn}
    {shown : Observation ReadFn} (settled : hmr.readSettles task file outcome = some (next, shown)) :
    ∃ unread call readFn, hmr.tasks[task]? = some (.reading unread call) ∧
      unread.get? file = some readFn ∧ shown = .read file readFn outcome ∧
      next = { hmr with
        tasks := hmr.tasks.set task
          (.reading (unread.erase file) (call.withContent file outcome)) } := by
  unfold DebounceHmr.readSettles at settled
  split at settled
  · next unread call selected =>
      split at settled
      · next readFn found =>
          cases settled
          exact ⟨unread, call, readFn, selected, found, rfl, rfl⟩
      · cases settled
  · cases settled

theorem about_withContent_of_ne {call : Call} {other : Filepath} (outcome : Option String)
    (different : other ≠ file) :
    (call.withContent file outcome).about rootPrefix other = call.about rootPrefix other := by
  cases outcome with
  | none => rfl
  | some text => exact Prod.ext (OrderedMap.get?_set_of_ne _ _ different) rfl

theorem event?_read {other : Filepath} {readFn : ReadFn} {outcome : Option String} :
    (Observation.read file readFn outcome).event? other = none := rfl

theorem Task.Agrees.readSettles {other : Filepath} {unread : OrderedMap Filepath ReadFn}
    {call : Call} {readFn : ReadFn} {outcome : Option String}
    (agrees : (Task.reading unread call).Agrees rootPrefix other history event)
    (found : unread.get? file = some readFn) (kept : other = file → outcome ≠ none) :
    (Task.reading (unread.erase file) (call.withContent file outcome)).Agrees rootPrefix other
      (.read file readFn outcome :: history) event := by
  by_cases same : other = file
  · subst same
    rcases agrees with ⟨absent, _⟩ | ⟨readFn, rfl, expected, before⟩
    · rw [found] at absent
      cases absent
    · cases found.symm.trans expected
      obtain ⟨text, rfl⟩ := Option.ne_none_iff_exists'.mp (kept rfl)
      obtain ⟨_, gone⟩ := Prod.mk.inj before
      refine Or.inl ⟨OrderedMap.get?_erase_self _ _, text,
        Prod.ext (OrderedMap.get?_set_self _ _ _) gone, ?_⟩
      rw [History.sinceEvent, List.takeWhile_cons]
      exact List.mem_cons_self
  · have unreadSame : (unread.erase file).get? other = unread.get? other :=
      OrderedMap.get?_erase_of_ne unread same
    rcases agrees with ⟨absent, reflects⟩ | ⟨readFn, rfl, expected, before⟩
    · exact Or.inl ⟨unreadSame.trans absent,
        (reflects.congr (about_withContent_of_ne outcome same)).cons event?_read⟩
    · exact Or.inr ⟨readFn, rfl, unreadSame.trans expected,
        (about_withContent_of_ne outcome same).trans before⟩

theorem Task.not_holds_readSettles {other : Filepath} {unread : OrderedMap Filepath ReadFn}
    {call : Call} {readFn : ReadFn} {outcome : Option String}
    (free : ¬ (Task.reading unread call).Holds rootPrefix other)
    (found : unread.get? file = some readFn) :
    ¬ (Task.reading (unread.erase file) (call.withContent file outcome)).Holds
      rootPrefix other := by
  obtain ⟨absent, silent⟩ := not_or.mp free
  have different : other ≠ file := by
    rintro rfl
    rw [found] at absent
    exact absent (Option.some_ne_none readFn)
  rintro (unread | mentions)
  · rw [OrderedMap.get?_erase_of_ne _ different] at unread
    exact absent unread
  · refine silent fun before => mentions ?_
    rw [about_withContent_of_ne outcome different]
    exact before

theorem Stage.readSettles {other : Filepath} {task : Nat} {outcome : Option String}
    {next : DebounceHmr ReadFn} {shown : Observation ReadFn} (single : hmr.Single)
    (settled : hmr.readSettles task file outcome = some (next, shown))
    (orderly : (Action.readSettles task file outcome).Orderly rootPrefix hmr history)
    (stage : Stage rootPrefix hmr history other event) :
    Stage rootPrefix next (shown :: history) other event := by
  obtain ⟨unread, call, readFn, selected, found, rfl, rfl⟩ := readSettles_cases settled
  obtain ⟨rfl, tasks, _⟩ := selected_of_single single selected
  rw [tasks]
  cases stage with
  | queued filed => exact .queued filed
  | pending fresh waits filed => exact .pending fresh waits filed
  | reading fresh apart taken agrees =>
      cases tasks.symm.trans taken
      refine .reading fresh apart rfl (agrees.readSettles found ?_)
      rintro rfl failed
      rcases orderly failed with queued | ⟨batch, waits, filed⟩
      · exact queued fresh
      · exact filed (apart batch waits)
  | reflected fresh apart free reflected =>
      refine .reflected fresh apart ?_ (reflected.cons event?_read rfl)
      intro task member
      rw [List.mem_singleton.mp member]
      refine Task.not_holds_readSettles (free _ ?_) found
      rw [tasks]
      exact List.mem_singleton_self _

theorem callbackStarts_cases {task : Nat} {next : DebounceHmr ReadFn} {shown : Observation ReadFn}
    (started : hmr.callbackStarts task = some (next, shown)) :
    ∃ unread call, hmr.tasks[task]? = some (.reading unread call) ∧ unread.isEmpty = true ∧
      shown = .started call ∧
      next = { hmr with tasks := hmr.tasks.set task (.running call) } := by
  unfold DebounceHmr.callbackStarts at started
  split at started
  · next unread call selected =>
      split at started
      · next empty =>
          cases started
          exact ⟨unread, call, selected, empty, rfl, rfl⟩
      · cases started
  · cases started

theorem get?_of_isEmpty {unread : OrderedMap Filepath ReadFn} (empty : unread.isEmpty = true)
    (file : Filepath) : unread.get? file = none := by
  rw [OrderedMap.get?, List.isEmpty_iff.mp empty]
  rfl

theorem Stage.callbackStarts {task : Nat} {next : DebounceHmr ReadFn} {shown : Observation ReadFn}
    (single : hmr.Single) (started : hmr.callbackStarts task = some (next, shown))
    (seen : history.lastEvent file = some event)
    (stage : Stage rootPrefix hmr history file event) :
    Stage rootPrefix next (shown :: history) file event := by
  obtain ⟨unread, call, selected, empty, rfl, rfl⟩ := callbackStarts_cases started
  obtain ⟨rfl, tasks, _⟩ := selected_of_single single selected
  rw [tasks]
  have running : ∀ task ∈ [@Task.running ReadFn call], ¬ task.Holds rootPrefix file := by
    intro task member
    rw [List.mem_singleton.mp member]
    exact id
  cases stage with
  | queued filed => exact .queued filed
  | pending fresh waits filed => exact .pending fresh waits filed
  | reading fresh apart taken agrees =>
      cases tasks.symm.trans taken
      refine .reflected fresh apart running ?_
      rcases agrees with ⟨_, reflects⟩ | ⟨readFn, _, found, _⟩
      · exact ⟨[], call, history, rfl, fun _ member => absurd member List.not_mem_nil,
          seen, reflects⟩
      · rw [get?_of_isEmpty empty] at found
        cases found
  | reflected fresh apart free reflected =>
      refine .reflected fresh apart running (reflected.cons rfl ?_)
      have held : Task.reading unread call ∈ hmr.tasks := by
        rw [tasks]
        exact List.mem_singleton_self _
      exact if_neg fun mentions => free _ held (Or.inr mentions)

theorem callbackSettles_cases {task : Nat} {failed : Bool} {next : DebounceHmr ReadFn}
    {shown : Observation ReadFn}
    (settled : hmr.callbackSettles task failed = some (next, shown)) :
    ∃ call, hmr.tasks[task]? = some (.running call) ∧ shown = .settled call failed ∧
      next = hmr.drain task := by
  unfold DebounceHmr.callbackSettles at settled
  split at settled
  · next call selected =>
      cases settled
      exact ⟨call, selected, rfl, rfl⟩
  · cases settled

theorem Stage.callbackSettles {task : Nat} {failed : Bool} {next : DebounceHmr ReadFn}
    {shown : Observation ReadFn} (single : hmr.Single)
    (settled : hmr.callbackSettles task failed = some (next, shown))
    (stage : Stage rootPrefix hmr history file event) :
    Stage rootPrefix next (shown :: history) file event := by
  obtain ⟨call, selected, rfl, rfl⟩ := callbackSettles_cases settled
  obtain ⟨rfl, tasks, _⟩ := selected_of_single single selected
  unfold DebounceHmr.drain
  rw [tasks]
  have nothing : ∀ other, (none : Option (Batch ReadFn)) = some other →
      other.about rootPrefix file = (none, false) := fun _ absent => nomatch absent
  cases waiting : hmr.pendingBatch with
  | none =>
      cases stage with
      | queued filed => exact .queued filed
      | pending _ waits _ =>
          rw [waiting] at waits
          cases waits
      | reading _ _ taken agrees =>
          cases tasks.symm.trans taken
          exact agrees.elim
      | reflected fresh _ _ reflected =>
          refine .reflected fresh nothing ?_ (reflected.cons rfl rfl)
          exact fun _ member => absurd member List.not_mem_nil
  | some batch =>
      cases stage with
      | queued filed => exact .queued filed
      | pending fresh waits filed =>
          cases waiting.symm.trans waits
          exact .reading fresh nothing rfl (Batch.begin_agrees filed _)
      | reading _ _ taken agrees =>
          cases tasks.symm.trans taken
          exact agrees.elim
      | reflected fresh apart _ reflected =>
          refine .reflected fresh nothing ?_ (reflected.cons rfl rfl)
          intro task member
          rw [List.mem_singleton.mp member]
          exact Batch.begin_free (apart batch waiting)

end Steps

end Houdini.Vite
