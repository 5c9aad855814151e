import Houdini.Glob.Walker

/-! A walk finds the files that are matched and that no excluded directory hides. -/

set_option autoImplicit false

namespace Houdini.Glob

variable {Program : Type} (regexp : Regexp Program) (walker : Walker Program)

def Walker.hidesBelow (dir : List FileName) : List FileName → Bool
  | [] => false
  | name :: rest =>
      (!rest.isEmpty && walker.excludes regexp (dir ++ [name])) ||
        Walker.hidesBelow (dir ++ [name]) rest

theorem hidesBelow_iff (dir path : List FileName) :
    walker.hidesBelow regexp dir path = true ↔
      ∃ lower, lower ≠ [] ∧ lower <+: path ∧ lower ≠ path ∧
        walker.excludes regexp (dir ++ lower) = true := by
  induction path generalizing dir with
  | nil =>
      constructor
      · intro hidden
        cases hidden
      · rintro ⟨lower, nonempty, within, _⟩
        exact absurd (List.prefix_nil.mp within) nonempty
  | cons name rest ih =>
      rw [Walker.hidesBelow, Bool.or_eq_true, Bool.and_eq_true, ih, Bool.not_eq_true',
        List.isEmpty_eq_false_iff]
      constructor
      · rintro (⟨deeper, excluded⟩ | ⟨lower, nonempty, within, proper, excluded⟩)
        · refine ⟨[name], List.cons_ne_nil _ _, ⟨rest, rfl⟩, fun same => deeper ?_, excluded⟩
          exact (List.cons.inj same).2.symm
        · refine ⟨name :: lower, List.cons_ne_nil _ _,
            List.cons_prefix_cons.mpr ⟨rfl, within⟩, fun same => proper (List.cons.inj same).2, ?_⟩
          rw [← List.append_cons] at excluded
          exact excluded
      · rintro ⟨lower, nonempty, within, proper, excluded⟩
        cases lower with
        | nil => exact absurd rfl nonempty
        | cons first lower =>
            obtain ⟨rfl, below⟩ := List.cons_prefix_cons.mp within
            cases lower with
            | nil =>
                refine Or.inl ⟨?_, excluded⟩
                rintro rfl
                exact proper rfl
            | cons second lower =>
                refine Or.inr ⟨second :: lower, List.cons_ne_nil _ _, below, ?_, ?_⟩
                · rintro rfl
                  exact proper rfl
                · rw [← List.append_cons]
                  exact excluded

theorem hides_iff (path : List FileName) :
    walker.Hides regexp path ↔ walker.hidesBelow regexp [] path = true :=
  (hidesBelow_iff regexp walker [] path).symm

def Walker.finds (dir path : List FileName) : Bool :=
  walker.accepts regexp (slashPath (dir ++ path)) && !walker.hidesBelow regexp dir path

theorem finds_cons {dir rest : List FileName} {name : FileName}
    (walked : walker.excludes regexp (dir ++ [name]) = false) :
    walker.finds regexp dir (name :: rest) = walker.finds regexp (dir ++ [name]) rest := by
  rw [Walker.finds, Walker.finds, Walker.hidesBelow, walked, Bool.and_false, Bool.false_or,
    ← List.append_cons]

mutual

theorem walked_eq (dir : List FileName) (entry : FileTree) :
    walker.walked regexp dir entry =
      (entry.files.filter (walker.finds regexp dir)).map fun path => slashPath (dir ++ path) :=
  match entry with
  | .file name => by
      have visible : walker.finds regexp dir [name] =
          walker.accepts regexp (slashPath (dir ++ [name])) := by
        simp [Walker.finds, Walker.hidesBelow]
      rw [Walker.walked, FileTree.files, List.filter_singleton, visible]
      cases walker.accepts regexp (slashPath (dir ++ [name])) <;> rfl
  | .dir name entries => by
      rw [Walker.walked, FileTree.files, List.filter_map, List.map_map]
      cases excluded : walker.excludes regexp (dir ++ [name]) with
      | true =>
          have none : (filesIn entries).filter
              (walker.finds regexp dir ∘ fun path => name :: path) = [] := by
            refine List.filter_eq_nil_iff.mpr fun path member => ?_
            have nonempty : path ≠ [] := by
              rw [filesIn_eq_flatMap] at member
              obtain ⟨entry, _, inside⟩ := List.mem_flatMap.mp member
              exact FileTree.files_ne_nil inside
            simp [Walker.finds, Walker.hidesBelow, excluded, nonempty]
          rw [if_pos rfl, none]
          rfl
      | false =>
          have same : (walker.finds regexp dir ∘ fun path => name :: path) =
              walker.finds regexp (dir ++ [name]) :=
            funext fun path => finds_cons regexp walker excluded
          rw [if_neg Bool.false_ne_true, same, walkedIn_eq (dir ++ [name]) entries]
          refine List.map_congr_left fun path _ => ?_
          rw [Function.comp_apply, ← List.append_cons]

theorem walkedIn_eq (dir : List FileName) (entries : List FileTree) :
    walker.walkedIn regexp dir entries =
      ((filesIn entries).filter (walker.finds regexp dir)).map fun path =>
        slashPath (dir ++ path) :=
  match entries with
  | [] => rfl
  | entry :: rest => by
      rw [Walker.walkedIn, walked_eq dir entry, walkedIn_eq dir rest, filesIn,
        List.filter_append, List.map_append]

end

theorem walked_account (workers : Nat) (entries : List FileTree) :
    (walkStart workers entries).account (walker.load regexp) =
      ↑(walker.walkedIn regexp [] entries) := by
  have idle : (List.replicate workers (none : Option (List (List FileName × FileTree)))).flatMap
      (fun held => (held.getD []).flatMap (walker.load regexp).outputs) = [] := by
    refine List.flatMap_eq_nil_iff.mpr fun held member => ?_
    rw [List.eq_of_mem_replicate member]
    rfl
  rw [walkStart, WorkPool.start, WorkPool.account, idle, walkedIn_eq_flatMap]
  simp [Walker.load]

theorem walk_openTasks (workers : Nat) (entries : List FileTree) :
    (walkStart workers entries).openTasks (walker.load regexp) =
      walker.directoriesIn regexp [] entries + 1 := by
  rw [walkStart, WorkPool.start, WorkPool.openTasks, directoriesIn_eq_sum]
  simp [Walker.load]

theorem walkedIn_root (entries : List FileTree) :
    walker.walkedIn regexp [] entries =
      (((filesIn entries).filter (walker.accepts regexp ∘ slashPath)).filter fun path =>
        !walker.hidesBelow regexp [] path).map slashPath := by
  rw [List.filter_filter, walkedIn_eq]
  refine congrArg (List.map slashPath) (List.filter_congr fun path _ => ?_)
  exact Bool.and_comm _ _

theorem Walker.WalksMatching.visible {workers : Nat} {entries : List FileTree}
    (matching : walker.WalksMatching regexp workers entries) {path : List FileName}
    (isFile : path ∈ filesIn entries) (accepted : walker.accepts regexp (slashPath path) = true) :
    ¬ walker.Hides regexp path := by
  intro hides
  obtain ⟨schedule, pool, ran, stuck⟩ := WorkPool.exists_stuck (walker.load regexp)
    channelCapacity (walkStart workers entries)
  obtain ⟨finished, called⟩ := matching schedule pool ran stuck
  have account := WorkPool.run_account (walker.load regexp) channelCapacity ran
  rw [finished.emitted, walked_account] at account
  have same := ((Multiset.coe_eq_coe.mp account).symm.trans called).length_eq
  rw [walkedIn_root, List.filter_map, List.length_map, List.length_map,
    List.length_filter_eq_length_iff] at same
  have visible := same path (List.mem_filter.mpr ⟨isFile, accepted⟩)
  rw [(hides_iff regexp walker path).mp hides] at visible
  cases visible

theorem walksMatching_of_visible {workers : Nat} (processors : 0 < workers)
    {entries : List FileTree}
    (fits : walker.directoriesIn regexp [] entries + 1 < channelCapacity + 2 * workers)
    (visible : ∀ path ∈ filesIn entries, walker.accepts regexp (slashPath path) = true →
      ¬ walker.Hides regexp path) : walker.WalksMatching regexp workers entries := by
  intro schedule pool ran stuck
  have workersKept := WorkPool.run_workers (walker.load regexp) channelCapacity ran
  rw [walkStart, WorkPool.start, List.length_replicate] at workersKept
  have opened := WorkPool.run_openTasks (walker.load regexp) channelCapacity ran
  rw [walk_openTasks] at opened
  have finished := stuck.finished (walker.load regexp) channelCapacity (by decide)
    (List.ne_nil_of_length_pos (workersKept ▸ processors)) (by omega)
  refine ⟨finished, ?_⟩
  have account := WorkPool.run_account (walker.load regexp) channelCapacity ran
  rw [finished.emitted, walked_account] at account
  refine (Multiset.coe_eq_coe.mp account).trans (List.Perm.of_eq ?_)
  rw [walkedIn_root, List.filter_map, List.filter_eq_self.mpr]
  intro path member
  obtain ⟨isFile, accepted⟩ := List.mem_filter.mp member
  have shown := visible path isFile accepted
  rw [hides_iff, Bool.not_eq_true] at shown
  rw [shown]
  rfl

/-- A walk whose directories fit into the channel calls `onFile` for the files whose paths are
matched, once for each, exactly if no excluded directory hides one of them. -/
theorem walksMatching_iff {workers : Nat} (processors : 0 < workers) (entries : List FileTree)
    (fits : walker.directoriesIn regexp [] entries + 1 < channelCapacity + 2 * workers) :
    walker.WalksMatching regexp workers entries ↔
      ∀ path ∈ filesIn entries, walker.accepts regexp (slashPath path) = true →
        ¬ walker.Hides regexp path := by
  constructor
  · exact fun matching path isFile accepted => matching.visible regexp walker isFile accepted
  · exact walksMatching_of_visible regexp walker processors fits

/-- Whichever order the workers take turns in, the walk ends, and `onFile` was called once for each
file that is matched and that no excluded directory hides. -/
theorem walk_finds {workers : Nat} (processors : 0 < workers) {entries : List FileTree}
    (fits : walker.directoriesIn regexp [] entries + 1 < channelCapacity + 2 * workers)
    {schedule : List Nat} {pool : WorkPool (List FileName × FileTree) (List Char)}
    (ran : (walkStart workers entries).run (walker.load regexp) channelCapacity schedule =
      some pool)
    (stuck : pool.Stuck (walker.load regexp) channelCapacity) :
    pool.Finished ∧
      pool.emitted.Perm (((filesIn entries).filter (walker.finds regexp [])).map slashPath) := by
  have workersKept := WorkPool.run_workers (walker.load regexp) channelCapacity ran
  rw [walkStart, WorkPool.start, List.length_replicate] at workersKept
  have opened := WorkPool.run_openTasks (walker.load regexp) channelCapacity ran
  rw [walk_openTasks] at opened
  have finished := stuck.finished (walker.load regexp) channelCapacity (by decide)
    (List.ne_nil_of_length_pos (workersKept ▸ processors)) (by omega)
  have account := WorkPool.run_account (walker.load regexp) channelCapacity ran
  rw [finished.emitted, walked_account, walkedIn_eq] at account
  exact ⟨finished, Multiset.coe_eq_coe.mp account⟩

def plainRegexp : Regexp Unit where
  compile _ := .error "no regular expressions"
  matchString _ _ := false

def generatedWalker : Walker Unit :=
  ((Walker.new.addInclude plainRegexp "src/**".toList).1.addExclude plainRegexp
    "src/generated".toList).1

def srcName : FileName := ⟨"src".toList, by decide⟩

def generatedName : FileName := ⟨"generated".toList, by decide⟩

def routesName : FileName := ⟨"routes".toList, by decide⟩

def pageName : FileName := ⟨"page.ts".toList, by decide⟩

def pageTree (dir : FileName) : List FileTree := [.dir srcName [.dir dir [.file pageName]]]

theorem walksMatching_routes :
    generatedWalker.directoriesIn plainRegexp [] (pageTree routesName) + 1 <
        channelCapacity + 2 * 4 ∧
      (generatedWalker.WalksMatching plainRegexp 4 (pageTree routesName) ↔
        ∀ path ∈ filesIn (pageTree routesName),
          generatedWalker.accepts plainRegexp (slashPath path) = true →
            ¬ generatedWalker.Hides plainRegexp path) := by
  have fits : generatedWalker.directoriesIn plainRegexp [] (pageTree routesName) + 1 <
      channelCapacity + 2 * 4 := by decide +kernel
  exact ⟨fits, walksMatching_iff plainRegexp generatedWalker (by decide) _ fits⟩

theorem walk_finds_routes : ∃ schedule pool,
    (walkStart 4 (pageTree routesName)).run (generatedWalker.load plainRegexp) channelCapacity
        schedule = some pool ∧
      pool.Finished ∧ pool.emitted = ["src/routes/page.ts".toList] := by
  obtain ⟨schedule, pool, ran, stuck⟩ := WorkPool.exists_stuck
    (generatedWalker.load plainRegexp) channelCapacity (walkStart 4 (pageTree routesName))
  have fits : generatedWalker.directoriesIn plainRegexp [] (pageTree routesName) + 1 <
      channelCapacity + 2 * 4 := by decide +kernel
  have found : ((filesIn (pageTree routesName)).filter
      (generatedWalker.finds plainRegexp [])).map slashPath = ["src/routes/page.ts".toList] := by
    decide +kernel
  obtain ⟨finished, emitted⟩ := walk_finds plainRegexp generatedWalker (by decide) fits ran stuck
  rw [found] at emitted
  exact ⟨schedule, pool, ran, finished, List.perm_singleton.mp emitted⟩

/-- `Matches` is true of the page in `src/generated`, but no walk gets there. -/
theorem walk_misses_generated :
    ¬ generatedWalker.WalksMatching plainRegexp 4 (pageTree generatedName) := by
  intro matching
  have accepted : generatedWalker.accepts plainRegexp
      (slashPath [srcName, generatedName, pageName]) = true := by decide +kernel
  have excluded : generatedWalker.excludes plainRegexp [srcName, generatedName] = true := by
    decide +kernel
  refine matching.visible plainRegexp generatedWalker (List.mem_singleton_self _)
    accepted ⟨[srcName, generatedName], List.cons_ne_nil _ _, ⟨[pageName], rfl⟩, ?_, excluded⟩
  intro same
  cases (List.cons.inj (List.cons.inj same).2).2

end Houdini.Glob
