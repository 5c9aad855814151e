import Houdini.Data.WorkPool
import Houdini.Glob.Pattern

/-! Which files a walker finds: those it walks to, and those whose paths it matches. -/

set_option autoImplicit false

namespace Houdini.Glob

structure Walker (Program : Type) where
  includeTree : PatternTree Program
  excludeTree : PatternTree Program

namespace Walker

variable {Program : Type} (regexp : Regexp Program)

def new : Walker Program where
  includeTree := newPatternTree
  excludeTree := newPatternTree

def addInclude (walker : Walker Program) (pattern : List Char) :
    Walker Program × Option GlobError :=
  let (includeTree, failure) := addPatterns regexp (expandBraces pattern) walker.includeTree
  ({ walker with includeTree }, failure)

def addExclude (walker : Walker Program) (pattern : List Char) :
    Walker Program × Option GlobError :=
  let (excludeTree, failure) := addPatterns regexp (expandBraces pattern) walker.excludeTree
  ({ walker with excludeTree }, failure)

/-- `Matches`: whether the path of a file is included and not excluded. -/
def accepts (walker : Walker Program) (path : List Char) : Bool :=
  let target := path.splitOn '/'
  matchHelper regexp walker.includeTree target && !matchHelper regexp walker.excludeTree target

end Walker

structure FileName where
  text : List Char
  plain : '/' ∉ text

inductive FileTree where
  | file (name : FileName)
  | dir (name : FileName) (entries : List FileTree)

def slashPath (path : List FileName) : List Char :=
  ['/'].intercalate (path.map FileName.text)

mutual

def FileTree.files : FileTree → List (List FileName)
  | .file name => [[name]]
  | .dir name entries => (filesIn entries).map (name :: ·)

def filesIn : List FileTree → List (List FileName)
  | [] => []
  | entry :: rest => entry.files ++ filesIn rest

end

theorem filesIn_eq_flatMap (entries : List FileTree) :
    filesIn entries = entries.flatMap FileTree.files := by
  induction entries with
  | nil => rfl
  | cons entry rest ih => rw [filesIn, ih, List.flatMap_cons]

theorem FileTree.files_ne_nil {entry : FileTree} {path : List FileName}
    (member : path ∈ entry.files) : path ≠ [] := by
  cases entry with
  | file name =>
      rw [files, List.mem_singleton] at member
      rw [member]
      exact List.cons_ne_nil _ _
  | dir name entries =>
      rw [files] at member
      obtain ⟨rest, _, rfl⟩ := List.mem_map.mp member
      exact List.cons_ne_nil _ _

section Walking

variable {Program : Type} (regexp : Regexp Program) (walker : Walker Program)

def Walker.excludes (path : List FileName) : Bool :=
  matchHelper regexp walker.excludeTree ((slashPath path).splitOn '/')

/-- What a worker does about an entry: a directory that is excluded is skipped, a file is handed to
`onFile` if it is included and not excluded. -/
def Walker.look (item : List FileName × FileTree) : Look (List FileName × FileTree) (List Char) :=
  match item.2 with
  | .dir name entries =>
      if walker.excludes regexp (item.1 ++ [name]) then .emit []
      else .spawn (entries.map fun entry => (item.1 ++ [name], entry))
  | .file name =>
      let path := slashPath (item.1 ++ [name])
      let tokens := path.splitOn '/'
      if matchHelper regexp walker.excludeTree tokens then .emit []
      else if matchHelper regexp walker.includeTree tokens then .emit [path]
      else .emit []

mutual

def Walker.walked (dir : List FileName) : FileTree → List (List Char)
  | .file name =>
      if walker.accepts regexp (slashPath (dir ++ [name])) then [slashPath (dir ++ [name])] else []
  | .dir name entries =>
      if walker.excludes regexp (dir ++ [name]) then []
      else Walker.walkedIn (dir ++ [name]) entries

def Walker.walkedIn (dir : List FileName) : List FileTree → List (List Char)
  | [] => []
  | entry :: rest => Walker.walked dir entry ++ Walker.walkedIn dir rest

end

mutual

def Walker.directories (dir : List FileName) : FileTree → Nat
  | .file _ => 0
  | .dir name entries =>
      if walker.excludes regexp (dir ++ [name]) then 0
      else Walker.directoriesIn (dir ++ [name]) entries + 1

def Walker.directoriesIn (dir : List FileName) : List FileTree → Nat
  | [] => 0
  | entry :: rest => Walker.directories dir entry + Walker.directoriesIn dir rest

end

end Walking

mutual

def FileTree.size : FileTree → Nat
  | .file _ => 1
  | .dir _ entries => sizeIn entries + 3

def sizeIn : List FileTree → Nat
  | [] => 0
  | entry :: rest => entry.size + sizeIn rest

end

section Load

variable {Program : Type} (regexp : Regexp Program) (walker : Walker Program)

theorem walkedIn_eq_flatMap (dir : List FileName) (entries : List FileTree) :
    walker.walkedIn regexp dir entries =
      (entries.map fun entry => (dir, entry)).flatMap fun item =>
        walker.walked regexp item.1 item.2 := by
  induction entries with
  | nil => rfl
  | cons entry rest ih => rw [Walker.walkedIn, ih, List.map_cons, List.flatMap_cons]

theorem directoriesIn_eq_sum (dir : List FileName) (entries : List FileTree) :
    walker.directoriesIn regexp dir entries =
      ((entries.map fun entry => (dir, entry)).map fun item =>
        walker.directories regexp item.1 item.2).sum := by
  induction entries with
  | nil => rfl
  | cons entry rest ih =>
      rw [Walker.directoriesIn, ih, List.map_cons, List.map_cons, List.sum_cons]

theorem sizeIn_eq_sum (dir : List FileName) (entries : List FileTree) :
    sizeIn entries =
      ((entries.map fun entry => (dir, entry)).map fun item => item.2.size).sum := by
  induction entries with
  | nil => rfl
  | cons entry rest ih => rw [sizeIn, ih, List.map_cons, List.map_cons, List.sum_cons]

variable {walker} in
theorem look_spawn {item : List FileName × FileTree} {items : List (List FileName × FileTree)}
    (looked : walker.look regexp item = .spawn items) :
    ∃ name entries, item.2 = .dir name entries ∧
      walker.excludes regexp (item.1 ++ [name]) = false ∧
      items = entries.map fun entry => (item.1 ++ [name], entry) := by
  obtain ⟨dir, entry⟩ := item
  cases entry with
  | file name =>
      simp only [Walker.look] at looked
      split at looked
      · cases looked
      · split at looked <;> cases looked
  | dir name entries =>
      simp only [Walker.look] at looked
      split at looked
      · cases looked
      · next walked =>
          cases looked
          exact ⟨name, entries, rfl, Bool.eq_false_iff.mpr walked, rfl⟩

variable {walker} in
theorem look_emit {item : List FileName × FileTree} {paths : List (List Char)}
    (looked : walker.look regexp item = .emit paths) :
    walker.walked regexp item.1 item.2 = paths := by
  obtain ⟨dir, entry⟩ := item
  cases entry with
  | file name =>
      simp only [Walker.look] at looked
      rw [Walker.walked, Walker.accepts]
      split at looked
      · next excluded =>
          cases looked
          rw [if_neg]
          simp [excluded]
      · next kept =>
          split at looked
          · next included =>
              cases looked
              rw [if_pos]
              simp [kept, included]
          · next absent =>
              cases looked
              rw [if_neg]
              simp [absent]
  | dir name entries =>
      simp only [Walker.look] at looked
      rw [Walker.walked]
      split at looked
      · next excluded =>
          cases looked
          exact if_pos excluded
      · cases looked

/-- Directories are the tasks of a walk, and their entries are its items. -/
def Walker.load : Workload (List FileName × FileTree) (List Char) where
  look := walker.look regexp
  outputs item := walker.walked regexp item.1 item.2
  tasks item := walker.directories regexp item.1 item.2
  size item := item.2.size
  outputs_emit := look_emit regexp
  outputs_spawn := by
    intro item items looked
    obtain ⟨name, entries, isDir, walked, rfl⟩ := look_spawn regexp looked
    rw [isDir, Walker.walked, if_neg (Bool.eq_false_iff.mp walked), walkedIn_eq_flatMap]
  tasks_spawn := by
    intro item items looked
    obtain ⟨name, entries, isDir, walked, rfl⟩ := look_spawn regexp looked
    rw [isDir, Walker.directories, if_neg (Bool.eq_false_iff.mp walked), directoriesIn_eq_sum]
  size_pos := by
    rintro ⟨dir, entry⟩
    cases entry with
    | file name => exact Nat.one_pos
    | dir name entries => exact Nat.succ_pos _
  size_spawn := by
    intro item items looked
    obtain ⟨name, entries, isDir, _, rfl⟩ := look_spawn regexp looked
    rw [isDir, FileTree.size, sizeIn_eq_sum (item.1 ++ [name])]

def channelCapacity : Nat := 100000

/-- `Walk` begins with the entries of the root in the channel, and with a worker for each
processor. -/
def walkStart (workers : Nat) (entries : List FileTree) :
    WorkPool (List FileName × FileTree) (List Char) :=
  .start workers (entries.map fun entry => ([], entry))

/-- However the workers take turns, the walk ends, and `onFile` was then called once for each file
whose path is matched. -/
def Walker.WalksMatching (workers : Nat) (entries : List FileTree) : Prop :=
  ∀ schedule pool,
    (walkStart workers entries).run (walker.load regexp) channelCapacity schedule = some pool →
      pool.Stuck (walker.load regexp) channelCapacity → pool.Finished ∧
        pool.emitted.Perm (((filesIn entries).map slashPath).filter (walker.accepts regexp))

def Walker.Hides (path : List FileName) : Prop :=
  ∃ dir, dir ≠ [] ∧ dir <+: path ∧ dir ≠ path ∧ walker.excludes regexp dir = true

end Load

end Houdini.Glob
