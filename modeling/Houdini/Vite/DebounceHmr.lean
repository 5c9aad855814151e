import Houdini.Data.OrderedMap

/-! The queue between the file watcher and the compiler: events are collected for a while, then a
batch callback is run with them, and what is flushed while a callback runs waits for it. -/

set_option autoImplicit false

namespace Houdini.Vite

abbrev Filepath := List UInt16

/-- Deletions are queued under the path below the root of the project. -/
def relativePath (rootPrefix file : Filepath) : Filepath := file.drop rootPrefix.length

def addToSet {Value : Type} [DecidableEq Value] (value : Value) (set : List Value) : List Value :=
  if value ∈ set then set else set ++ [value]

@[simp] theorem mem_addToSet {Value : Type} [DecidableEq Value] {value candidate : Value}
    {set : List Value} : candidate ∈ addToSet value set ↔ candidate = value ∨ candidate ∈ set := by
  unfold addToSet
  split
  · next present =>
      constructor
      · exact Or.inr
      · rintro (rfl | member)
        · exact present
        · exact member
  · simp [or_comm]

/-- What an update brings: a text, or a function that reads one. Two functions that read the same
thing have one name. -/
inductive ReadFnOrContent (ReadFn : Type) where
  | content (text : String)
  | read (readFn : ReadFn)
  deriving DecidableEq

namespace ReadFnOrContent

variable {ReadFn : Type}

def content? : ReadFnOrContent ReadFn → Option String
  | .content text => some text
  | .read _ => none

def readFn? : ReadFnOrContent ReadFn → Option ReadFn
  | .content _ => none
  | .read readFn => some readFn

end ReadFnOrContent

/-- What a timer takes from the queues. -/
structure Batch (ReadFn : Type) where
  files : OrderedMap Filepath (ReadFnOrContent ReadFn)
  deletedFiles : List Filepath
  batchId : Nat
  deriving DecidableEq

structure Call where
  filesWithContent : OrderedMap Filepath String
  deletedFiles : List Filepath
  batchId : String
  deriving DecidableEq

/-- Where a run of the timer's asynchronous function is: it waits for the files of a batch to be
read, or for the callback. -/
inductive Task (ReadFn : Type) where
  | reading (unread : OrderedMap Filepath ReadFn) (call : Call)
  | running (call : Call)
  deriving DecidableEq

structure DebounceHmr (ReadFn : Type) where
  updateQueue : OrderedMap Filepath (ReadFnOrContent ReadFn)
  deleteQueue : List Filepath
  updateTimer : Bool
  batchId : Nat
  isProcessing : Bool
  pendingBatch : Option (Batch ReadFn)
  tasks : List (Task ReadFn)
  deriving DecidableEq

/-- What can happen: the watcher reports a file, the timer expires, a file was read or could not
be, a callback is called, a callback's promise is fulfilled or rejected. -/
inductive Action (ReadFn : Type) where
  | queueUpdate (file : Filepath) (entry : ReadFnOrContent ReadFn)
  | queueDelete (file : Filepath)
  | expires
  | readSettles (task : Nat) (file : Filepath) (outcome : Option String)
  | callbackStarts (task : Nat)
  | callbackSettles (task : Nat) (failed : Bool)

/-- What an action shows of itself. -/
inductive Observation (ReadFn : Type) where
  | updated (file : Filepath) (entry : ReadFnOrContent ReadFn)
  | deleted (file : Filepath)
  | read (file : Filepath) (readFn : ReadFn) (outcome : Option String)
  | started (call : Call)
  | settled (call : Call) (failed : Bool)
  deriving DecidableEq

def Call.withContent (call : Call) (file : Filepath) : Option String → Call
  | some text => { call with filesWithContent := call.filesWithContent.set file text }
  | none => call

namespace Batch

variable {ReadFn : Type}

def merge (pending newer : Batch ReadFn) : Batch ReadFn where
  files := pending.files.setAll newer.files.entries
  deletedFiles := newer.deletedFiles.foldl (fun set file => addToSet file set) pending.deletedFiles
  batchId := newer.batchId

def begin (batch : Batch ReadFn) : Task ReadFn :=
  .reading (batch.files.filterMapValues ReadFnOrContent.readFn?)
    { filesWithContent := batch.files.filterMapValues ReadFnOrContent.content?
      deletedFiles := batch.deletedFiles
      batchId := toString batch.batchId }

end Batch

namespace DebounceHmr

variable {ReadFn : Type}

def initial : DebounceHmr ReadFn where
  updateQueue := ∅
  deleteQueue := []
  updateTimer := false
  batchId := 0
  isProcessing := false
  pendingBatch := none
  tasks := []

def scheduleFlush (hmr : DebounceHmr ReadFn) : DebounceHmr ReadFn :=
  { hmr with updateTimer := true }

def queueUpdate (hmr : DebounceHmr ReadFn) (file : Filepath) (entry : ReadFnOrContent ReadFn) :
    DebounceHmr ReadFn :=
  scheduleFlush
    (if hmr.updateQueue.contains file then hmr
      else { hmr with updateQueue := hmr.updateQueue.set file entry })

def queueDelete (hmr : DebounceHmr ReadFn) (file : Filepath) : DebounceHmr ReadFn :=
  scheduleFlush { hmr with deleteQueue := addToSet file hmr.deleteQueue }

def queued (hmr : DebounceHmr ReadFn) : Batch ReadFn where
  files := hmr.updateQueue
  deletedFiles := hmr.deleteQueue
  batchId := hmr.batchId + 1

def flush (hmr : DebounceHmr ReadFn) : DebounceHmr ReadFn :=
  let flushed : DebounceHmr ReadFn :=
    { hmr with
      updateQueue := ∅
      deleteQueue := []
      updateTimer := false
      batchId := hmr.batchId + 1 }
  if hmr.isProcessing then
    match hmr.pendingBatch with
    | some pending => { flushed with pendingBatch := some (pending.merge hmr.queued) }
    | none => { flushed with pendingBatch := some hmr.queued }
  else { flushed with isProcessing := true, tasks := hmr.tasks ++ [hmr.queued.begin] }

def drain (hmr : DebounceHmr ReadFn) (task : Nat) : DebounceHmr ReadFn :=
  match hmr.pendingBatch with
  | some pending => { hmr with pendingBatch := none, tasks := hmr.tasks.set task pending.begin }
  | none => { hmr with isProcessing := false, tasks := hmr.tasks.eraseIdx task }

def readSettles (hmr : DebounceHmr ReadFn) (task : Nat) (file : Filepath)
    (outcome : Option String) : Option (DebounceHmr ReadFn × Observation ReadFn) :=
  match hmr.tasks[task]? with
  | some (.reading unread call) =>
      match unread.get? file with
      | some readFn =>
          let reading := Task.reading (unread.erase file) (call.withContent file outcome)
          some ({ hmr with tasks := hmr.tasks.set task reading }, .read file readFn outcome)
      | none => none
  | _ => none

def callbackStarts (hmr : DebounceHmr ReadFn) (task : Nat) :
    Option (DebounceHmr ReadFn × Observation ReadFn) :=
  match hmr.tasks[task]? with
  | some (.reading unread call) =>
      if unread.isEmpty then
        some ({ hmr with tasks := hmr.tasks.set task (.running call) }, .started call)
      else none
  | _ => none

def callbackSettles (hmr : DebounceHmr ReadFn) (task : Nat) (failed : Bool) :
    Option (DebounceHmr ReadFn × Observation ReadFn) :=
  match hmr.tasks[task]? with
  | some (.running call) => some (hmr.drain task, .settled call failed)
  | _ => none

def step (rootPrefix : Filepath) (hmr : DebounceHmr ReadFn) :
    Action ReadFn → Option (DebounceHmr ReadFn × Option (Observation ReadFn))
  | .queueUpdate file entry => some (hmr.queueUpdate file entry, some (.updated file entry))
  | .queueDelete file =>
      some (hmr.queueDelete (relativePath rootPrefix file), some (.deleted file))
  | .expires => if hmr.updateTimer then some (hmr.flush, none) else none
  | .readSettles task file outcome =>
      (hmr.readSettles task file outcome).map fun (next, shown) => (next, some shown)
  | .callbackStarts task => (hmr.callbackStarts task).map fun (next, shown) => (next, some shown)
  | .callbackSettles task failed =>
      (hmr.callbackSettles task failed).map fun (next, shown) => (next, some shown)

end DebounceHmr

abbrev History (ReadFn : Type) := List (Observation ReadFn)

/-- The states that any interleaving reaches, and what was seen on the way. -/
inductive Run (ReadFn : Type) (rootPrefix : Filepath) :
    DebounceHmr ReadFn → History ReadFn → Prop where
  | initial : Run ReadFn rootPrefix .initial []
  | step {hmr next : DebounceHmr ReadFn} {history : History ReadFn} {action : Action ReadFn}
      {shown : Option (Observation ReadFn)} (earlier : Run ReadFn rootPrefix hmr history)
      (stepped : hmr.step rootPrefix action = some (next, shown)) :
      Run ReadFn rootPrefix next (shown.toList ++ history)

inductive FileEvent (ReadFn : Type) where
  | updated (entry : ReadFnOrContent ReadFn)
  | deleted
  deriving DecidableEq

/-- How a callback mentions a file: with a content, and as one that was deleted. -/
def Call.about (rootPrefix file : Filepath) (call : Call) : Option String × Bool :=
  (call.filesWithContent.get? file, decide (relativePath rootPrefix file ∈ call.deletedFiles))

def Call.Mentions (rootPrefix file : Filepath) (call : Call) : Prop :=
  call.about rootPrefix file ≠ (none, false)

instance (rootPrefix file : Filepath) (call : Call) : Decidable (call.Mentions rootPrefix file) :=
  inferInstanceAs (Decidable (_ ≠ _))

section History

variable {ReadFn : Type}

def Observation.event? (file : Filepath) : Observation ReadFn → Option (FileEvent ReadFn)
  | .updated other entry => if other = file then some (.updated entry) else none
  | .deleted other => if other = file then some .deleted else none
  | _ => none

def Observation.call? (rootPrefix file : Filepath) : Observation ReadFn → Option Call
  | .started call => if call.Mentions rootPrefix file then some call else none
  | _ => none

def History.lastEvent (file : Filepath) (history : History ReadFn) : Option (FileEvent ReadFn) :=
  history.findSome? (·.event? file)

def History.sinceEvent (file : Filepath) (history : History ReadFn) : History ReadFn :=
  history.takeWhile fun shown => (shown.event? file).isNone

/-- A callback mentions a file as its last event says: as deleted, or with the content that the
event came with or that its function has read since. -/
def Call.Reflects (rootPrefix file : Filepath) (history : History ReadFn) (call : Call) :
    FileEvent ReadFn → Prop
  | .deleted => call.about rootPrefix file = (none, true)
  | .updated (.content text) => call.about rootPrefix file = (some text, false)
  | .updated (.read readFn) => ∃ text, call.about rootPrefix file = (some text, false) ∧
      Observation.read file readFn (some text) ∈ history.sinceEvent file

/-- The last callback that mentions a file started after the last event of the file, and reflects
it. -/
def History.Reflected (rootPrefix file : Filepath) (event : FileEvent ReadFn)
    (history : History ReadFn) : Prop :=
  ∃ later call earlier, history = later ++ .started call :: earlier ∧
    (∀ shown ∈ later, shown.event? file = none ∧ shown.call? rootPrefix file = none) ∧
    History.lastEvent file earlier = some event ∧ call.Reflects rootPrefix file earlier event

/-- After an event of a file a callback starts that mentions the file. -/
def History.Covered (rootPrefix file : Filepath) (later : History ReadFn) : Prop :=
  ∃ call, .started call ∈ later ∧ call.Mentions rootPrefix file

end History

def Batch.about {ReadFn : Type} (rootPrefix file : Filepath) (batch : Batch ReadFn) :
    Option (ReadFnOrContent ReadFn) × Bool :=
  (batch.files.get? file, decide (relativePath rootPrefix file ∈ batch.deletedFiles))

def Task.Holds {ReadFn : Type} (rootPrefix file : Filepath) : Task ReadFn → Prop
  | .reading unread call => unread.get? file ≠ none ∨ call.Mentions rootPrefix file
  | .running _ => False

namespace DebounceHmr

variable {ReadFn : Type} (rootPrefix : Filepath)

/-- A callback will be called for a file: the file is queued, in the batch that waits, or in the
one that is read. -/
def Waits (hmr : DebounceHmr ReadFn) (file : Filepath) : Prop :=
  hmr.queued.about rootPrefix file ≠ (none, false) ∨
    (∃ pending, hmr.pendingBatch = some pending ∧
      pending.about rootPrefix file ≠ (none, false)) ∨
    ∃ task ∈ hmr.tasks, task.Holds rootPrefix file

def running (hmr : DebounceHmr ReadFn) : List Call :=
  hmr.tasks.filterMap fun
    | .running call => some call
    | .reading _ _ => none

end DebounceHmr

def Action.internal {ReadFn : Type} : Action ReadFn → Bool
  | .queueUpdate _ _ => false
  | .queueDelete _ => false
  | _ => true

def DebounceHmr.steps {ReadFn : Type} (rootPrefix : Filepath) (hmr : DebounceHmr ReadFn) :
    List (Action ReadFn) → Option (DebounceHmr ReadFn)
  | [] => some hmr
  | action :: rest =>
      (hmr.step rootPrefix action).bind fun (next, _) => next.steps rootPrefix rest

end Houdini.Vite
