import Houdini.Runtime.Client.DocumentStore

/-! The plugins of the standard pipeline, as far as a mutation runs through them. What
they do for other documents is a parameter. -/

set_option autoImplicit false

namespace Houdini.Runtime.Client

/-- `documentPlugin`: hooks that only apply to one kind of document. Errors are
handled for every kind. -/
def documentPlugin (kind : ArtifactKind) (source : ClientHooks) : ClientHooks :=
  let enterWrapper (handler : ClientPluginEnterPhase) : ClientPluginEnterPhase := fun ctx =>
    if ctx.artifactKind ≠ kind then .next ctx .finish else handler ctx
  let exitWrapper (handler : ClientPluginExitPhase) : ClientPluginExitPhase := fun ctx value =>
    if ctx.artifactKind ≠ kind then .resolve ctx none .finish else handler ctx value
  { start := source.start.map enterWrapper
    network := source.network.map enterWrapper
    beforeNetwork := source.beforeNetwork.map enterWrapper
    afterNetwork := source.afterNetwork.map exitWrapper
    «end» := source.end.map exitWrapper
    «catch» := source.catch }

def cachePolicy (readCache : ClientPluginEnterPhase) : ClientHooks where
  beforeNetwork := some fun ctx =>
    if ctx.artifactKind = .query ∨ ctx.artifactKind = .fragment then readCache ctx
    else .work (.next ctx .finish)
  afterNetwork := some fun ctx value =>
    match value with
    | none => .throw .typeError
    | some value =>
        .work (.respond fun read => .resolve ctx (some { value with data := read.data }) .finish)

def throwOnError (throwOnKind : ArtifactKind → Bool) (error : List String → JSError) :
    ClientHooks where
  «end» := some fun ctx value =>
    match value with
    | none => .throw .typeError
    | some value =>
        if value.errors ≠ [] ∧ throwOnKind ctx.artifactKind = true then
          .work (.throw (error value.errors))
        else .resolve ctx none .finish

def fetchParams : ClientHooks where
  start := some fun ctx => .work (.next ctx .finish)

def optimisticKeys : ClientHooks where
  start := some fun ctx => .work (.next ctx .finish)
  beforeNetwork := some fun ctx => .work (.next ctx .finish)
  afterNetwork := some fun ctx _ => .work (.resolve ctx none .finish)
  «end» := some fun ctx _ => .resolve ctx none .finish

def sessionRelay : ClientHooks where
  «end» := some fun ctx _ => .work (.resolve ctx none .finish)

def query (start : ClientPluginEnterPhase) (exit : ClientPluginExitPhase) : ClientHooks :=
  documentPlugin .query { start := some start, «end» := some exit }

def fragment (start : ClientPluginEnterPhase) : ClientHooks :=
  documentPlugin .fragment { start := some start }

def fetch : ClientHooks where
  network := some fun ctx => .work (.respond fun result => .resolve ctx (some result) .finish)

namespace Mutation

/-- Every mutation gets an optimistic layer, whether or not there is an optimistic
response to write to it. -/
def start : ClientPluginEnterPhase := fun ctx =>
  .createLayer fun layer =>
    let handOn : HookProgram := .next { ctx with layer := some layer } .finish
    if ctx.optimisticResponse then .work handOn else handOn

def afterNetwork : ClientPluginExitPhase := fun ctx _ =>
  match ctx.layer with
  | some layer => .clearLayer layer (.resolve ctx none .finish)
  | none => .resolve ctx none .finish

/-- Merge the layer back into the cache. A failed mutation is rolled back first. -/
def «end» : ClientPluginExitPhase := fun ctx value =>
  match value with
  | none => .throw .typeError
  | some value =>
      match ctx.layer with
      | none => .resolve ctx none .finish
      | some layer =>
          let merge : HookProgram := .resolveLayer layer (.resolve ctx none .finish)
          if value.errors ≠ [] then .clearLayer layer merge else merge

def «catch» : ClientPluginErrorPhase := fun ctx error =>
  match ctx.layer with
  | some layer => .clearLayer layer (.resolveLayer layer (.throw error))
  | none => .throw error

end Mutation

def mutation : ClientHooks :=
  documentPlugin .mutation
    { start := some Mutation.start
      afterNetwork := some Mutation.afterNetwork
      «end» := some Mutation.end
      «catch» := some Mutation.catch }

structure ClientOptions where
  readCache : ClientPluginEnterPhase
  enableCache : Bool := true
  throwOnError : Option ((ArtifactKind → Bool) × (List String → JSError)) := none
  queryStart : ClientPluginEnterPhase
  queryEnd : ClientPluginExitPhase
  fragmentStart : ClientPluginEnterPhase
  /-- The user's plugins. -/
  plugins : List ClientHooks := []

def standardPipeline (options : ClientOptions) : Pipeline where
  before :=
    (if options.enableCache then [cachePolicy options.readCache] else []) ++
      options.throwOnError.toList.map (fun throwing => throwOnError throwing.1 throwing.2) ++
      [fetchParams, optimisticKeys, sessionRelay, query options.queryStart options.queryEnd]
  mutation := mutation
  after := fragment options.fragmentStart :: options.plugins ++ [fetch]

end Houdini.Runtime.Client
