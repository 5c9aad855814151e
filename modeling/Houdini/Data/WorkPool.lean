import Mathlib.Algebra.Order.BigOperators.Group.List
import Mathlib.Algebra.Order.Group.Multiset
import Mathlib.Algebra.Order.Ring.Nat
import Mathlib.Tactic.Abel

/-! Workers that take tasks from a bounded queue. A task is a list of items, and to look at an item
either emits outputs or spawns a task. -/

set_option autoImplicit false

namespace Houdini

inductive Look (Item Output : Type) where
  | emit (outputs : List Output)
  | spawn (items : List Item)

/-- Items, and what all there is to be done about one: what is emitted in the end, how many tasks
are spawned and a measure that bounds the steps. -/
structure Workload (Item Output : Type) where
  look : Item → Look Item Output
  outputs : Item → List Output
  tasks : Item → Nat
  size : Item → Nat
  outputs_emit : ∀ {item emitted}, look item = .emit emitted → outputs item = emitted
  outputs_spawn : ∀ {item items}, look item = .spawn items → outputs item = items.flatMap outputs
  tasks_spawn : ∀ {item items}, look item = .spawn items →
    tasks item = (items.map tasks).sum + 1
  size_pos : ∀ item, 0 < size item
  size_spawn : ∀ {item items}, look item = .spawn items → (items.map size).sum + 3 ≤ size item

/-- A worker is idle or has the rest of a task. -/
structure WorkPool (Item Output : Type) where
  queue : List (List Item)
  workers : List (Option (List Item))
  emitted : List Output

namespace WorkPool

variable {Item Output : Type} (load : Workload Item Output) (capacity : Nat)

def start (workers : Nat) (task : List Item) : WorkPool Item Output where
  queue := [task]
  workers := List.replicate workers none
  emitted := []

/-- What a worker does next, unless it has to wait: for a task, or for room in the queue. -/
def step (pool : WorkPool Item Output) (worker : Nat) : Option (WorkPool Item Output) :=
  match pool.workers[worker]? with
  | none => none
  | some none =>
      match pool.queue with
      | [] => none
      | task :: queue =>
          some { pool with queue, workers := pool.workers.set worker (some task) }
  | some (some []) => some { pool with workers := pool.workers.set worker none }
  | some (some (item :: rest)) =>
      let workers := pool.workers.set worker (some rest)
      match load.look item with
      | .emit outputs => some { pool with workers, emitted := pool.emitted ++ outputs }
      | .spawn task =>
          if pool.queue.length < capacity then
            some { pool with workers, queue := pool.queue ++ [task] }
          else none

def run (pool : WorkPool Item Output) (schedule : List Nat) : Option (WorkPool Item Output) :=
  schedule.foldlM (fun pool worker => pool.step load capacity worker) pool

def Stuck (pool : WorkPool Item Output) : Prop :=
  ∀ worker, pool.step load capacity worker = none

def Finished (pool : WorkPool Item Output) : Prop :=
  pool.queue = [] ∧ ∀ worker ∈ pool.workers, worker = none

theorem step_cases {pool next : WorkPool Item Output} {worker : Nat}
    (stepped : pool.step load capacity worker = some next) :
    ∃ before held after, pool.workers = before ++ held :: after ∧
      ((∃ task queue, held = none ∧ pool.queue = task :: queue ∧
          next = { pool with queue, workers := before ++ some task :: after }) ∨
        (held = some [] ∧ next = { pool with workers := before ++ none :: after }) ∨
        (∃ item rest outputs, held = some (item :: rest) ∧ load.look item = .emit outputs ∧
          next = { pool with
            workers := before ++ some rest :: after
            emitted := pool.emitted ++ outputs }) ∨
        ∃ item rest task, held = some (item :: rest) ∧ load.look item = .spawn task ∧
          pool.queue.length < capacity ∧
          next = { pool with
            workers := before ++ some rest :: after
            queue := pool.queue ++ [task] }) := by
  have split {held : Option (List Item)} (found : pool.workers[worker]? = some held) :
      ∃ before after, pool.workers = before ++ held :: after ∧
        ∀ other, pool.workers.set worker other = before ++ other :: after := by
    obtain ⟨inside, same⟩ := List.getElem?_eq_some_iff.mp found
    refine ⟨pool.workers.take worker, pool.workers.drop (worker + 1), ?_, fun other => ?_⟩
    · rw [← same, ← List.drop_eq_getElem_cons inside, List.take_append_drop]
    · rw [List.set_eq_take_append_cons_drop, if_pos inside]
  unfold step at stepped
  cases found : pool.workers[worker]? with
  | none => rw [found] at stepped; cases stepped
  | some held =>
      obtain ⟨before, after, whole, replaced⟩ := split found
      refine ⟨before, held, after, whole, ?_⟩
      rw [found] at stepped
      cases held with
      | none =>
          cases queued : pool.queue with
          | nil => simp [queued] at stepped
          | cons task queue =>
              simp only [queued, Option.some.injEq] at stepped
              exact Or.inl ⟨task, queue, rfl, rfl, by rw [← stepped, replaced]⟩
      | some task =>
          cases task with
          | nil =>
              simp only [Option.some.injEq] at stepped
              exact Or.inr (Or.inl ⟨rfl, by rw [← stepped, replaced]⟩)
          | cons item rest =>
              cases looked : load.look item with
              | emit outputs =>
                  simp only [looked, Option.some.injEq] at stepped
                  exact Or.inr (Or.inr (Or.inl ⟨item, rest, outputs, rfl, looked,
                    by rw [← stepped, replaced]⟩))
              | spawn spawned =>
                  simp only [looked] at stepped
                  split at stepped
                  · next room =>
                      simp only [Option.some.injEq] at stepped
                      exact Or.inr (Or.inr (Or.inr ⟨item, rest, spawned, rfl, looked, room,
                        by rw [← stepped, replaced]⟩))
                  · cases stepped

def account (pool : WorkPool Item Output) : Multiset Output :=
  ↑pool.emitted + (↑(pool.queue.flatMap fun task => task.flatMap load.outputs) +
    ↑(pool.workers.flatMap fun held => (held.getD []).flatMap load.outputs))

theorem step_account {pool next : WorkPool Item Output} {worker : Nat}
    (stepped : pool.step load capacity worker = some next) :
    next.account load = pool.account load := by
  obtain ⟨before, held, after, whole, cases⟩ := step_cases load capacity stepped
  unfold account
  rw [whole]
  obtain ⟨task, queue, rfl, queued, rfl⟩ | ⟨rfl, rfl⟩ |
    ⟨item, rest, outputs, rfl, looked, rfl⟩ | ⟨item, rest, task, rfl, looked, _, rfl⟩ := cases
  · simp only [queued, List.flatMap_cons, List.flatMap_append, Option.getD_some, Option.getD_none,
      List.flatMap_nil, List.nil_append, ← Multiset.coe_add]
    abel
  · simp only [List.flatMap_cons, List.flatMap_append, Option.getD_some, Option.getD_none]
  · simp only [List.flatMap_cons, List.flatMap_append, Option.getD_some, load.outputs_emit looked,
      ← Multiset.coe_add]
    abel
  · simp only [List.flatMap_cons, List.flatMap_append, Option.getD_some, load.outputs_spawn looked,
      List.flatMap_nil, List.append_nil, ← Multiset.coe_add]
    abel

def remaining (pool : WorkPool Item Output) : Nat :=
  (pool.queue.map fun task => (task.map load.size).sum + 2).sum +
    (pool.workers.map fun held => held.elim 0 fun task => (task.map load.size).sum + 1).sum

theorem step_remaining {pool next : WorkPool Item Output} {worker : Nat}
    (stepped : pool.step load capacity worker = some next) :
    next.remaining load < pool.remaining load := by
  obtain ⟨before, held, after, whole, cases⟩ := step_cases load capacity stepped
  unfold remaining
  rw [whole]
  obtain ⟨task, queue, rfl, queued, rfl⟩ | ⟨rfl, rfl⟩ |
    ⟨item, rest, outputs, rfl, looked, rfl⟩ | ⟨item, rest, task, rfl, looked, _, rfl⟩ := cases
  · simp only [queued, List.map_cons, List.map_append, List.sum_cons, List.sum_append,
      Option.elim_some, Option.elim_none]
    omega
  · simp only [List.map_cons, List.map_append, List.sum_cons, List.sum_append, List.map_nil,
      List.sum_nil, Option.elim_some, Option.elim_none]
    omega
  · have positive := load.size_pos item
    simp only [List.map_cons, List.map_append, List.sum_cons, List.sum_append, Option.elim_some]
    omega
  · have spawned := load.size_spawn looked
    simp only [List.map_cons, List.map_append, List.sum_cons, List.sum_append, List.map_nil,
      List.sum_nil, Option.elim_some]
    omega

def openTasks (pool : WorkPool Item Output) : Nat :=
  (pool.queue.map fun task => (task.map load.tasks).sum + 1).sum +
    (pool.workers.map fun held => held.elim 0 fun task => (task.map load.tasks).sum + 1).sum

theorem step_openTasks {pool next : WorkPool Item Output} {worker : Nat}
    (stepped : pool.step load capacity worker = some next) :
    next.openTasks load ≤ pool.openTasks load := by
  obtain ⟨before, held, after, whole, cases⟩ := step_cases load capacity stepped
  unfold openTasks
  rw [whole]
  obtain ⟨task, queue, rfl, queued, rfl⟩ | ⟨rfl, rfl⟩ |
    ⟨item, rest, outputs, rfl, looked, rfl⟩ | ⟨item, rest, task, rfl, looked, _, rfl⟩ := cases
  · simp only [queued, List.map_cons, List.map_append, List.sum_cons, List.sum_append,
      Option.elim_some, Option.elim_none]
    omega
  · simp only [List.map_cons, List.map_append, List.sum_cons, List.sum_append, List.map_nil,
      List.sum_nil, Option.elim_some, Option.elim_none]
    omega
  · simp only [List.map_cons, List.map_append, List.sum_cons, List.sum_append, Option.elim_some]
    omega
  · have spawned := load.tasks_spawn looked
    simp only [List.map_cons, List.map_append, List.sum_cons, List.sum_append, List.map_nil,
      List.sum_nil, Option.elim_some]
    omega

theorem step_workers {pool next : WorkPool Item Output} {worker : Nat}
    (stepped : pool.step load capacity worker = some next) :
    next.workers.length = pool.workers.length := by
  obtain ⟨before, held, after, whole, cases⟩ := step_cases load capacity stepped
  rw [whole]
  obtain ⟨_, _, _, _, rfl⟩ | ⟨_, rfl⟩ | ⟨_, _, _, _, _, rfl⟩ | ⟨_, _, _, _, _, _, rfl⟩ := cases
  all_goals simp only [List.length_append, List.length_cons]

theorem run_cons {pool next final : WorkPool Item Output} {worker : Nat} {schedule : List Nat}
    (stepped : pool.step load capacity worker = some next)
    (ran : next.run load capacity schedule = some final) :
    pool.run load capacity (worker :: schedule) = some final :=
  Option.bind_eq_some_iff.mpr ⟨next, stepped, ran⟩

theorem run_induction (holds : List Nat → WorkPool Item Output → Prop)
    (keeps : ∀ {pool next : WorkPool Item Output} {worker : Nat} {rest : List Nat},
      pool.step load capacity worker = some next → holds rest next → holds (worker :: rest) pool)
    {schedule : List Nat} {pool final : WorkPool Item Output}
    (ran : pool.run load capacity schedule = some final) (last : holds [] final) :
    holds schedule pool := by
  induction schedule generalizing pool with
  | nil =>
      cases ran
      exact last
  | cons worker rest ih =>
      obtain ⟨next, stepped, ranOn⟩ := Option.bind_eq_some_iff.mp ran
      exact keeps stepped (ih ranOn)

theorem run_account {pool final : WorkPool Item Output} {schedule : List Nat}
    (ran : pool.run load capacity schedule = some final) :
    final.account load = pool.account load :=
  run_induction load capacity (fun _ pool => final.account load = pool.account load)
    (fun stepped same => same.trans (step_account load capacity stepped)) ran rfl

theorem run_openTasks {pool final : WorkPool Item Output} {schedule : List Nat}
    (ran : pool.run load capacity schedule = some final) :
    final.openTasks load ≤ pool.openTasks load :=
  run_induction load capacity (fun _ pool => final.openTasks load ≤ pool.openTasks load)
    (fun stepped bound => bound.trans (step_openTasks load capacity stepped)) ran le_rfl

theorem run_workers {pool final : WorkPool Item Output} {schedule : List Nat}
    (ran : pool.run load capacity schedule = some final) :
    final.workers.length = pool.workers.length :=
  run_induction load capacity (fun _ pool => final.workers.length = pool.workers.length)
    (fun stepped same => same.trans (step_workers load capacity stepped)) ran rfl

theorem exists_stuck (pool : WorkPool Item Output) :
    ∃ schedule final, pool.run load capacity schedule = some final ∧
      final.Stuck load capacity := by
  induction left : pool.remaining load using Nat.strongRecOn generalizing pool with
  | ind bound ih =>
      by_cases stuck : pool.Stuck load capacity
      · exact ⟨[], pool, rfl, stuck⟩
      · obtain ⟨worker, able⟩ := not_forall.mp stuck
        obtain ⟨next, stepped⟩ := Option.ne_none_iff_exists'.mp able
        obtain ⟨schedule, final, ran, isStuck⟩ :=
          ih _ (left ▸ step_remaining load capacity stepped) next rfl
        exact ⟨worker :: schedule, final, run_cons load capacity stepped ran, isStuck⟩

theorem Finished.emitted {pool : WorkPool Item Output} (finished : pool.Finished) :
    pool.account load = ↑pool.emitted := by
  have idle : pool.workers.flatMap (fun held => (held.getD []).flatMap load.outputs) = [] := by
    refine List.flatMap_eq_nil_iff.mpr fun held member => ?_
    rw [finished.2 held member]
    rfl
  rw [account, finished.1, idle]
  simp

theorem step_eq_none_iff {pool : WorkPool Item Output} {worker : Nat}
    {held : Option (List Item)} (found : pool.workers[worker]? = some held) :
    pool.step load capacity worker = none ↔
      (held = none ∧ pool.queue = []) ∨
        ∃ item rest task, held = some (item :: rest) ∧ load.look item = .spawn task ∧
          capacity ≤ pool.queue.length := by
  unfold step
  rw [found]
  cases held with
  | none => cases queued : pool.queue <;> simp
  | some task =>
      cases task with
      | nil => simp
      | cons item rest =>
          cases looked : load.look item with
          | emit outputs => simp [looked]
          | spawn spawned => simp [looked]

theorem Stuck.finished {pool : WorkPool Item Output} (stuck : pool.Stuck load capacity)
    (room : 0 < capacity) (worked : pool.workers ≠ [])
    (fits : pool.openTasks load < capacity + 2 * pool.workers.length) : pool.Finished := by
  by_cases queued : pool.queue = []
  · refine ⟨queued, fun held member => ?_⟩
    obtain ⟨worker, found⟩ := List.mem_iff_getElem?.mp member
    obtain ⟨idle, _⟩ | ⟨_, _, _, _, _, full⟩ :=
      (step_eq_none_iff load capacity found).mp (stuck worker)
    · exact idle
    · rw [queued, List.length_nil] at full
      omega
  · have waiting : ∀ held ∈ pool.workers, capacity ≤ pool.queue.length ∧
        2 ≤ held.elim 0 fun task => (task.map load.tasks).sum + 1 := by
      intro held member
      obtain ⟨worker, found⟩ := List.mem_iff_getElem?.mp member
      obtain ⟨_, empty⟩ | ⟨item, rest, task, rfl, looked, full⟩ :=
        (step_eq_none_iff load capacity found).mp (stuck worker)
      · exact absurd empty queued
      · have spawned := load.tasks_spawn looked
        simp only [Option.elim_some, List.map_cons, List.sum_cons]
        exact ⟨full, by omega⟩
    obtain ⟨held, member⟩ := List.exists_mem_of_ne_nil _ worked
    have full := (waiting held member).1
    have tasks := List.card_nsmul_le_sum
      (pool.queue.map fun task => (task.map load.tasks).sum + 1) 1 (by
        intro count counted
        obtain ⟨task, _, rfl⟩ := List.mem_map.mp counted
        omega)
    have workers := List.card_nsmul_le_sum
      (pool.workers.map fun held => held.elim 0 fun task => (task.map load.tasks).sum + 1) 2 (by
        intro count counted
        obtain ⟨other, among, rfl⟩ := List.mem_map.mp counted
        exact (waiting other among).2)
    rw [List.length_map, Nat.nsmul_eq_mul] at tasks workers
    unfold openTasks at fits
    omega

end WorkPool

end Houdini
