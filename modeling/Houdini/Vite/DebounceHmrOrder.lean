import Houdini.Vite.DebounceHmrRuns
import Mathlib.Algebra.Ring.Nat

/-! Any interleaving: callbacks are called one after the other, the queue comes to rest when the
watcher does, and as long as batches say one thing of a file they keep every event. -/

set_option autoImplicit false

namespace Houdini.Vite

variable {ReadFn : Type} {rootPrefix : Filepath} {hmr next : DebounceHmr ReadFn}

/-- One run of the timer's function at most, and a timer for what is queued. -/
structure DebounceHmr.Steady (rootPrefix : Filepath) (hmr : DebounceHmr ReadFn) : Prop where
  single : hmr.Single
  armed : hmr.updateTimer = false → ∀ file, hmr.queued.about rootPrefix file = (none, false)

theorem steady_initial : (@DebounceHmr.initial ReadFn).Steady rootPrefix where
  single := Or.inl ⟨rfl, rfl, rfl⟩
  armed := fun _ _ => rfl

theorem updateTimer_queueUpdate (hmr : DebounceHmr ReadFn) (file : Filepath)
    (entry : ReadFnOrContent ReadFn) : (hmr.queueUpdate file entry).updateTimer = true := by
  unfold DebounceHmr.queueUpdate DebounceHmr.scheduleFlush
  rfl

theorem DebounceHmr.Steady.flush (steady : hmr.Steady rootPrefix) :
    hmr.flush.Steady rootPrefix := by
  rcases steady.single with ⟨idle, noTasks, _⟩ | ⟨busy, task, taken⟩
  · simp only [DebounceHmr.flush, idle, noTasks]
    exact ⟨Or.inr ⟨rfl, _, rfl⟩, fun _ _ => rfl⟩
  · cases waiting : hmr.pendingBatch with
    | none =>
        simp only [DebounceHmr.flush, busy, waiting, if_true]
        exact ⟨Or.inr ⟨rfl, task, taken⟩, fun _ _ => rfl⟩
    | some pending =>
        simp only [DebounceHmr.flush, busy, waiting, if_true]
        exact ⟨Or.inr ⟨rfl, task, taken⟩, fun _ _ => rfl⟩

theorem DebounceHmr.Steady.step (steady : hmr.Steady rootPrefix) {action : Action ReadFn}
    {shown : Option (Observation ReadFn)}
    (stepped : hmr.step rootPrefix action = some (next, shown)) : next.Steady rootPrefix := by
  cases action with
  | queueUpdate file entry =>
      cases stepped
      obtain ⟨_, pending, tasks, processing⟩ := rest_queueUpdate hmr file entry
      refine ⟨?_, fun off => ?_⟩
      · unfold DebounceHmr.Single
        rw [pending, tasks, processing]
        exact steady.single
      · rw [updateTimer_queueUpdate] at off
        cases off
  | queueDelete file =>
      cases stepped
      exact ⟨steady.single, fun off => nomatch off⟩
  | expires =>
      simp only [DebounceHmr.step] at stepped
      split at stepped
      · cases stepped
        exact steady.flush
      · cases stepped
  | readSettles task file outcome =>
      obtain ⟨⟨following, seen⟩, settled, same⟩ := Option.map_eq_some_iff.mp stepped
      cases same
      obtain ⟨unread, call, readFn, selected, _, _, rfl⟩ := readSettles_cases settled
      obtain ⟨rfl, tasks, busy⟩ := selected_of_single steady.single selected
      exact ⟨Or.inr ⟨busy, _, by rw [tasks]; rfl⟩, steady.armed⟩
  | callbackStarts task =>
      obtain ⟨⟨following, seen⟩, started, same⟩ := Option.map_eq_some_iff.mp stepped
      cases same
      obtain ⟨unread, call, selected, _, _, rfl⟩ := callbackStarts_cases started
      obtain ⟨rfl, tasks, busy⟩ := selected_of_single steady.single selected
      exact ⟨Or.inr ⟨busy, _, by rw [tasks]; rfl⟩, steady.armed⟩
  | callbackSettles task failed =>
      obtain ⟨⟨following, seen⟩, settled, same⟩ := Option.map_eq_some_iff.mp stepped
      cases same
      obtain ⟨call, selected, _, rfl⟩ := callbackSettles_cases settled
      obtain ⟨rfl, tasks, busy⟩ := selected_of_single steady.single selected
      unfold DebounceHmr.drain
      rw [tasks]
      cases waiting : hmr.pendingBatch with
      | none => exact ⟨Or.inl ⟨rfl, rfl, rfl⟩, steady.armed⟩
      | some pending => exact ⟨Or.inr ⟨busy, _, rfl⟩, steady.armed⟩

theorem DebounceHmr.Steady.running_le (steady : hmr.Steady rootPrefix) :
    hmr.running.length ≤ 1 := by
  rcases steady.single with ⟨_, tasks, _⟩ | ⟨_, task, tasks⟩
  · rw [DebounceHmr.running, tasks]
    exact Nat.zero_le 1
  · rw [DebounceHmr.running, tasks]
    exact List.length_filterMap_le _ _

theorem DebounceHmr.Steady.rest (steady : hmr.Steady rootPrefix)
    (still : ∀ action : Action ReadFn, action.internal = true →
      hmr.step rootPrefix action = none) (file : Filepath) : ¬ hmr.Waits rootPrefix file := by
  have off : hmr.updateTimer = false := by
    by_contra set
    have expired := still .expires rfl
    rw [DebounceHmr.step, if_pos (by simpa using set)] at expired
    cases expired
  have idle : hmr.tasks = [] ∧ hmr.pendingBatch = none := by
    rcases steady.single with ⟨_, tasks, nothing⟩ | ⟨_, task, tasks⟩
    · exact ⟨tasks, nothing⟩
    · cases task with
      | running call =>
          have settled := still (.callbackSettles 0 false) rfl
          simp [DebounceHmr.step, DebounceHmr.callbackSettles, tasks] at settled
      | reading unread call =>
          cases waiting : unread.entries with
          | nil =>
              have started := still (.callbackStarts 0) rfl
              simp [DebounceHmr.step, DebounceHmr.callbackStarts, tasks, OrderedMap.isEmpty,
                waiting] at started
          | cons entry rest =>
              obtain ⟨path, readFn⟩ := entry
              have found : unread.get? path = some readFn :=
                OrderedMap.mem_entries_iff.mp (by rw [waiting]; exact List.mem_cons_self)
              have settled := still (.readSettles 0 path none) rfl
              simp [DebounceHmr.step, DebounceHmr.readSettles, tasks, found] at settled
  rintro (queued | ⟨pending, waits, _⟩ | ⟨task, member, _⟩)
  · exact queued (steady.armed off file)
  · rw [idle.2] at waits
    cases waits
  · rw [idle.1] at member
    exact absurd member List.not_mem_nil

def Task.work : Task ReadFn → Nat
  | .reading unread _ => unread.entries.length + 2
  | .running _ => 1

def DebounceHmr.work (hmr : DebounceHmr ReadFn) : Nat :=
  (if hmr.updateTimer then hmr.updateQueue.entries.length + 3 else 0) +
    (hmr.pendingBatch.elim 0 fun pending => pending.files.entries.length + 2) +
    (hmr.tasks.map Task.work).sum

theorem Batch.work_begin_le (batch : Batch ReadFn) :
    batch.begin.work ≤ batch.files.entries.length + 2 :=
  Nat.add_le_add_right (List.length_filterMap_le _ _) 2

theorem DebounceHmr.work_flush_lt (hmr : DebounceHmr ReadFn) (set : hmr.updateTimer = true) :
    hmr.flush.work < hmr.work := by
  cases busy : hmr.isProcessing with
  | false =>
      have begun := Batch.work_begin_le hmr.queued
      have files : hmr.queued.files = hmr.updateQueue := rfl
      rw [files] at begun
      simp only [DebounceHmr.flush, DebounceHmr.work, busy, set, Bool.false_eq_true, if_false,
        if_true, List.map_append, List.map_cons, List.map_nil, List.sum_append, List.sum_cons,
        List.sum_nil]
      omega
  | true =>
      cases waiting : hmr.pendingBatch with
      | none =>
          simp [DebounceHmr.flush, DebounceHmr.work, busy, set, waiting, DebounceHmr.queued]
      | some pending =>
          have merged := OrderedMap.length_setAll_le hmr.updateQueue.entries pending.files
          simp only [DebounceHmr.flush, DebounceHmr.work, busy, set, waiting, if_true,
            Option.elim_some, Batch.merge, DebounceHmr.queued, Bool.false_eq_true, if_false]
          omega

theorem DebounceHmr.Steady.work_lt (steady : hmr.Steady rootPrefix) {action : Action ReadFn}
    {shown : Option (Observation ReadFn)} (inside : action.internal = true)
    (stepped : hmr.step rootPrefix action = some (next, shown)) : next.work < hmr.work := by
  cases action with
  | queueUpdate file entry => cases inside
  | queueDelete file => cases inside
  | expires =>
      simp only [DebounceHmr.step] at stepped
      split at stepped
      · next set =>
          cases stepped
          exact hmr.work_flush_lt set
      · cases stepped
  | readSettles task file outcome =>
      obtain ⟨⟨following, seen⟩, settled, same⟩ := Option.map_eq_some_iff.mp stepped
      cases same
      obtain ⟨unread, call, readFn, selected, found, _, rfl⟩ := readSettles_cases settled
      obtain ⟨rfl, tasks, _⟩ := selected_of_single steady.single selected
      have shorter := OrderedMap.length_erase found
      simp only [DebounceHmr.work, tasks, List.set_cons_zero, List.map_cons, List.map_nil,
        List.sum_cons, List.sum_nil, Task.work]
      omega
  | callbackStarts task =>
      obtain ⟨⟨following, seen⟩, started, same⟩ := Option.map_eq_some_iff.mp stepped
      cases same
      obtain ⟨unread, call, selected, _, _, rfl⟩ := callbackStarts_cases started
      obtain ⟨rfl, tasks, _⟩ := selected_of_single steady.single selected
      simp only [DebounceHmr.work, tasks, List.set_cons_zero, List.map_cons, List.map_nil,
        List.sum_cons, List.sum_nil, Task.work]
      omega
  | callbackSettles task failed =>
      obtain ⟨⟨following, seen⟩, settled, same⟩ := Option.map_eq_some_iff.mp stepped
      cases same
      obtain ⟨call, selected, _, rfl⟩ := callbackSettles_cases settled
      obtain ⟨rfl, tasks, _⟩ := selected_of_single steady.single selected
      cases waiting : hmr.pendingBatch with
      | none => simp [DebounceHmr.drain, DebounceHmr.work, tasks, waiting, Task.work]
      | some pending =>
          have begun := pending.work_begin_le
          have drained : (hmr.drain 0).work =
              (if hmr.updateTimer then hmr.updateQueue.entries.length + 3 else 0) +
                pending.begin.work := by
            simp [DebounceHmr.drain, DebounceHmr.work, tasks, waiting]
          have before : hmr.work =
              (if hmr.updateTimer then hmr.updateQueue.entries.length + 3 else 0) +
                (pending.files.entries.length + 2) + 1 := by
            simp [DebounceHmr.work, tasks, waiting, Task.work]
          rw [drained, before]
          omega

theorem DebounceHmr.Steady.steps (actions : List (Action ReadFn))
    (steady : hmr.Steady rootPrefix) (inside : ∀ action ∈ actions, action.internal = true)
    (stepped : hmr.steps rootPrefix actions = some next) :
    next.Steady rootPrefix ∧ actions.length ≤ hmr.work := by
  induction actions generalizing hmr with
  | nil =>
      cases stepped
      exact ⟨steady, Nat.zero_le _⟩
  | cons action rest ih =>
      obtain ⟨⟨following, shown⟩, first, others⟩ := Option.bind_eq_some_iff.mp stepped
      have less := steady.work_lt (inside action List.mem_cons_self) first
      obtain ⟨still, bound⟩ := ih (steady.step first)
        (fun other member => inside other (List.mem_cons_of_mem _ member)) others
      exact ⟨still, by rw [List.length_cons]; omega⟩

/-- A run in which what is queued, and what waits, says one thing of each file, and in which a file
that cannot be read has a later event that waits. -/
inductive OrderlyRun (ReadFn : Type) (rootPrefix : Filepath) :
    DebounceHmr ReadFn → History ReadFn → Prop where
  | initial : OrderlyRun ReadFn rootPrefix .initial []
  | step {hmr next : DebounceHmr ReadFn} {history : History ReadFn} {action : Action ReadFn}
      {shown : Option (Observation ReadFn)} (earlier : OrderlyRun ReadFn rootPrefix hmr history)
      (orderly : action.Orderly rootPrefix hmr history)
      (stepped : hmr.step rootPrefix action = some (next, shown)) :
      OrderlyRun ReadFn rootPrefix next (shown.toList ++ history)

/-- Every file's last event is where the newest batch with the file is. -/
structure Kept (rootPrefix : Filepath) (hmr : DebounceHmr ReadFn) (history : History ReadFn) :
    Prop where
  steady : hmr.Steady rootPrefix
  stage : ∀ file event, history.lastEvent file = some event →
    Stage rootPrefix hmr history file event

theorem Kept.step {history : History ReadFn} (kept : Kept rootPrefix hmr history)
    {action : Action ReadFn} {shown : Option (Observation ReadFn)}
    (orderly : action.Orderly rootPrefix hmr history)
    (stepped : hmr.step rootPrefix action = some (next, shown)) :
    Kept rootPrefix next (shown.toList ++ history) := by
  refine ⟨kept.steady.step stepped, ?_⟩
  intro file event last
  have single := kept.steady.single
  cases action with
  | queueUpdate changed entry =>
      cases stepped
      by_cases same : changed = file
      · subst same
        have seen : History.lastEvent changed (.updated changed entry :: history) =
            some (.updated entry) := History.lastEvent_cons_of_some (if_pos rfl)
        cases seen.symm.trans last
        exact Stage.queueUpdate_self orderly _
      · have silent : (Observation.updated changed entry).event? file = none := if_neg same
        have before := (History.lastEvent_cons_of_none silent).symm.trans last
        exact (kept.stage file event before).queueUpdate_other same
  | queueDelete changed =>
      cases stepped
      by_cases same : changed = file
      · subst same
        have seen : History.lastEvent changed (.deleted changed :: history) = some .deleted :=
          History.lastEvent_cons_of_some (if_pos rfl)
        cases seen.symm.trans last
        exact Stage.queueDelete_self orderly _
      · have silent : (@Observation.deleted ReadFn changed).event? file = none :=
          if_neg same
        have before := (History.lastEvent_cons_of_none silent).symm.trans last
        exact (kept.stage file event before).queueDelete_other same orderly.2 before
  | expires =>
      simp only [DebounceHmr.step] at stepped
      split at stepped
      · cases stepped
        exact (kept.stage file event last).flush single orderly
      · cases stepped
  | readSettles task changed outcome =>
      obtain ⟨⟨following, seen⟩, settled, same⟩ := Option.map_eq_some_iff.mp stepped
      cases same
      obtain ⟨_, _, _, _, _, rfl, _⟩ := readSettles_cases settled
      exact (kept.stage file event last).readSettles single settled orderly
  | callbackStarts task =>
      obtain ⟨⟨following, seen⟩, started, same⟩ := Option.map_eq_some_iff.mp stepped
      cases same
      obtain ⟨_, _, _, _, rfl, _⟩ := callbackStarts_cases started
      exact (kept.stage file event last).callbackStarts single started last
  | callbackSettles task failed =>
      obtain ⟨⟨following, seen⟩, settled, same⟩ := Option.map_eq_some_iff.mp stepped
      cases same
      obtain ⟨_, _, rfl, _⟩ := callbackSettles_cases settled
      exact (kept.stage file event last).callbackSettles single settled

theorem OrderlyRun.kept {history : History ReadFn} (run : OrderlyRun ReadFn rootPrefix hmr history) :
    Kept rootPrefix hmr history := by
  induction run with
  | initial => exact ⟨steady_initial, fun _ _ absent => nomatch absent⟩
  | step _ orderly stepped ih => exact ih.step orderly stepped

theorem lastEvent_of_mem {file : Filepath} {history later earlier : History ReadFn}
    {shown : Observation ReadFn} {event : FileEvent ReadFn}
    (split : history = later ++ shown :: earlier) (about : shown.event? file = some event) :
    ∃ last, history.lastEvent file = some last := by
  refine Option.isSome_iff_exists.mp ?_
  rw [split, History.lastEvent, List.findSome?_isSome_iff]
  exact ⟨shown, by simp, by rw [about]; rfl⟩

/-- One callback runs at a time. The last event of each file waits, or the last callback that
mentions the file started later and reflects it; every event waits, or a callback that started
later mentions its file. Once the watcher is silent only finitely much happens, and then no file
waits. -/
theorem OrderlyRun.keeps_events {history : History ReadFn}
    (run : OrderlyRun ReadFn rootPrefix hmr history) :
    hmr.running.length ≤ 1 ∧
      (∀ file event, history.lastEvent file = some event →
        hmr.Waits rootPrefix file ∨ history.Reflected rootPrefix file event) ∧
      (∀ later shown earlier file event, history = later ++ shown :: earlier →
        shown.event? file = some event →
        hmr.Waits rootPrefix file ∨ History.Covered rootPrefix file later) ∧
      ∀ actions next, (∀ action ∈ actions, action.internal = true) →
        hmr.steps rootPrefix actions = some next →
        actions.length ≤ hmr.work ∧
          ((∀ action : Action ReadFn, action.internal = true →
            next.step rootPrefix action = none) → ∀ file, ¬ next.Waits rootPrefix file) := by
  have kept := run.kept
  refine ⟨kept.steady.running_le, ?_, ?_, ?_⟩
  · intro file event last
    exact (kept.stage file event last).waits_or_reflected
  · intro later shown earlier file event split about
    obtain ⟨last, found⟩ := lastEvent_of_mem split about
    rcases (kept.stage file last found).waits_or_reflected with waits | reflected
    · exact Or.inl waits
    · exact Or.inr (reflected.covered split about)
  · intro actions next inside stepped
    obtain ⟨steady, bound⟩ := kept.steady.steps actions inside stepped
    exact ⟨bound, fun still file => steady.rest still file⟩

/-- A file below the root `/a/` is read, and deleted while the callback runs. -/
theorem OrderlyRun.keeps_deleted :
    ∃ (hmr : DebounceHmr Unit) (history : History Unit),
      OrderlyRun Unit [47, 97, 47] hmr history ∧
        history.lastEvent [47, 97, 47, 98] = some .deleted ∧
        (hmr.Waits [47, 97, 47] [47, 97, 47, 98] ∨
          history.Reflected [47, 97, 47] [47, 97, 47, 98] .deleted) := by
  have queued := @OrderlyRun.step Unit [47, 97, 47] _ _ _
    (.queueUpdate [47, 97, 47, 98] (.read ())) _ .initial
    ⟨fun _ absent => (nomatch absent), List.not_mem_nil, fun _ absent => absurd rfl absent⟩ rfl
  have flushed := @OrderlyRun.step Unit [47, 97, 47] _ _ _ .expires _ queued
    (fun _ absent => nomatch absent) rfl
  have read := @OrderlyRun.step Unit [47, 97, 47] _ _ _
    (.readSettles 0 [47, 97, 47, 98] (some "query")) _ flushed (fun absent => nomatch absent) rfl
  have started := @OrderlyRun.step Unit [47, 97, 47] _ _ _ (.callbackStarts 0) _ read trivial rfl
  have deleted := @OrderlyRun.step Unit [47, 97, 47] _ _ _ (.queueDelete [47, 97, 47, 98]) _
    started ⟨rfl, by
      intro other seen _
      by_contra different
      exact seen (by simp [History.lastEvent, Observation.event?, Ne.symm different])⟩ rfl
  exact ⟨_, _, deleted, rfl, deleted.keeps_events.2.1 _ _ rfl⟩

/-- A file is saved twice while it is queued: the callback gets the first content. -/
theorem second_content_lost :
    ¬ ∀ (hmr : DebounceHmr Unit) (history : History Unit), Run Unit [47, 97, 47] hmr history →
      ∀ file event, history.lastEvent file = some event →
        hmr.Waits [47, 97, 47] file ∨ history.Reflected [47, 97, 47] file event := by
  intro reflects
  have first := @Run.step Unit [47, 97, 47] _ _ _
    (.queueUpdate [47, 97, 47, 98] (.content "first")) _ .initial rfl
  have second := @Run.step Unit [47, 97, 47] _ _ _
    (.queueUpdate [47, 97, 47, 98] (.content "second")) _ first rfl
  have flushed := @Run.step Unit [47, 97, 47] _ _ _ .expires _ second rfl
  have started := @Run.step Unit [47, 97, 47] _ _ _ (.callbackStarts 0) _ flushed rfl
  rcases reflects _ _ started [47, 97, 47, 98] (.updated (.content "second")) rfl with
    (queued | ⟨_, waits, _⟩ | ⟨task, member, holds⟩) | ⟨later, call, earlier, split, _, _, same⟩
  · exact queued rfl
  · cases waits
  · cases List.mem_singleton.mp member
    exact holds
  · have shown : Observation.started call ∈ later ++ .started call :: earlier := by simp
    rw [← split] at shown
    simp at shown
    subst shown
    have second : Call.about [47, 97, 47] [47, 97, 47, 98] _ = (some "second", false) := same
    revert second
    decide

end Houdini.Vite
