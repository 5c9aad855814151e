import Houdini.Runtime.Client.DocumentStoreProperties
import Houdini.Runtime.Client.Plugins

/-! The optimistic layer of a mutation, from `start` until the send settles. -/

set_option autoImplicit false

namespace Houdini.Runtime.Client

open Cache (InMemoryStorage LayerID)

/-- What a hook may hand on, and whether it may create a layer. -/
structure Permission where
  next : ClientPluginContext → Prop
  resolve : ClientPluginContext → Prop
  createLayer : Prop

namespace Permission

def anything : Permission := ⟨fun _ => True, fun _ => True, True⟩

def nothing : Permission := ⟨fun _ => False, fun _ => False, False⟩

def keep (context : ClientPluginContext) : Permission where
  next handed := handed.layer = context.layer ∧ handed.artifactKind = context.artifactKind
  resolve handed := handed.layer = context.layer ∧ handed.artifactKind = context.artifactKind
  createLayer := False

def exit (context : ClientPluginContext) : Permission where
  next _ := False
  resolve handed := handed.layer = context.layer ∧ handed.artifactKind = context.artifactKind
  createLayer := False

def withLayer (id : LayerID) : Permission where
  next handed := handed.layer = some id ∧ handed.artifactKind = .mutation
  resolve _ := False
  createLayer := False

end Permission

namespace HookProgram

def Within (permission : Permission) : HookProgram → Prop
  | .finish | .throw _ => True
  | .next context rest => permission.next context ∧ rest.Within permission
  | .resolve context _ rest => permission.resolve context ∧ rest.Within permission
  | .createLayer rest => permission.createLayer ∧ ∀ id, (rest id).Within permission
  | .clearLayer _ rest | .resolveLayer _ rest | .work rest => rest.Within permission
  | .respond rest => ∀ value, (rest value).Within permission

def StartsOnce : HookProgram → Prop
  | .finish | .throw _ => True
  | .work rest => rest.StartsOnce
  | .next context rest => context.artifactKind = .mutation ∧ rest = .finish
  | _ => False

def CreatesFirst (program : HookProgram) : Prop :=
  ∃ rest, program = .createLayer rest ∧ ∀ id, (rest id).Within (.withLayer id)

def Releases (layer : LayerID) : HookProgram → Prop
  | .throw _ => True
  | .clearLayer _ rest | .work rest => rest.Releases layer
  | .resolveLayer id _ => id = layer
  | _ => False

def ClearsFirst : (cleared : List LayerID) → HookProgram → Prop
  | _, .finish | _, .throw _ => True
  | cleared, .resolveLayer id rest => id ∈ cleared ∧ rest.ClearsFirst cleared
  | cleared, .clearLayer id rest => rest.ClearsFirst (id :: cleared)
  | cleared, .next _ rest | cleared, .resolve _ _ rest | cleared, .work rest =>
      rest.ClearsFirst cleared
  | cleared, .createLayer rest => ∀ id, (rest id).ClearsFirst cleared
  | cleared, .respond rest => ∀ value, (rest value).ClearsFirst cleared

attribute [local grind =] Within StartsOnce Releases ClearsFirst

theorem within_anything (program : HookProgram) : program.Within .anything := by
  induction program with
  | finish | throw => exact trivial
  | next context rest ih => exact ⟨trivial, ih⟩
  | resolve context value rest ih => exact ⟨trivial, ih⟩
  | createLayer rest ih => exact ⟨trivial, ih⟩
  | clearLayer id rest ih => exact ih
  | resolveLayer id rest ih => exact ih
  | work rest ih => exact ih
  | respond rest ih => exact ih

variable {storage next : InMemoryStorage} {program rest : HookProgram}

theorem Step.within {permission : Permission} (step : Step storage program next rest)
    (within : program.Within permission) : rest.Within permission := by
  cases step with
  | work | clearLayer | resolveLayer => exact within
  | workFailed | clearLayerFailed | resolveLayerFailed => exact trivial
  | respond rest value => exact within value
  | createLayer rest => exact within.2 _

theorem Step.releases {layer : LayerID} (step : Step storage program next rest)
    (releases : program.Releases layer) :
    rest.Releases layer ∨ next = resultState (storage.resolveLayer layer) := by
  cases step with
  | work | clearLayer => exact .inl releases
  | workFailed | clearLayerFailed => exact .inl trivial
  | respond | createLayer => exact releases.elim
  | resolveLayer rest success =>
      have same : _ = layer := releases
      rw [← same, success]
      exact .inr rfl
  | resolveLayerFailed rest failure => exact .inl trivial

theorem Step.clearsFirst {cleared : List LayerID} (step : Step storage program next rest)
    (clears : program.ClearsFirst cleared) :
    rest.ClearsFirst (program.clears ++ cleared) := by
  cases step with
  | work | clearLayer => exact clears
  | workFailed | clearLayerFailed | resolveLayerFailed => exact trivial
  | respond rest value => exact clears value
  | createLayer rest => exact clears _
  | resolveLayer => exact clears.2

end HookProgram

namespace Activation.HandsOn

variable {activation : Activation} {plugins : List ClientHooks} {aborted : Bool}
  {context : ClientPluginContext} {rest : HookProgram} {result : StepResult}

theorem within {permission : Permission}
    (hands : activation.HandsOn plugins aborted context rest result)
    (within : activation.program.Within permission) :
    rest.Within permission ∧ (permission.next context ∨ permission.resolve context) := by
  cases hands with
  | next program =>
      rw [program] at within
      exact ⟨within.2, .inl within.1⟩
  | resolve program =>
      rw [program] at within
      exact ⟨within.2, .inr within.1⟩

theorem not_releases {layer : LayerID}
    (hands : activation.HandsOn plugins aborted context rest result) :
    ¬ activation.program.Releases layer := by
  cases hands with
  | next program => rw [program]; exact id
  | resolve program => rw [program]; exact id

theorem clearsFirst {cleared : List LayerID}
    (hands : activation.HandsOn plugins aborted context rest result)
    (clears : activation.program.ClearsFirst cleared) :
    rest.ClearsFirst (activation.program.clears ++ cleared) := by
  cases hands with
  | next program | resolve program =>
      rw [program] at clears ⊢
      exact clears

end Activation.HandsOn

structure ClientHooks.PassesOn (hooks : ClientHooks) : Prop where
  start : ∀ handler, hooks.start = some handler →
    ∀ context, context.artifactKind = .mutation → (handler context).StartsOnce
  forward : ∀ step handler, step ≠ 0 → hooks.forward step = some handler →
    ∀ context, context.artifactKind = .mutation → (handler context).Within (.keep context)
  backwards : ∀ step handler, hooks.backwards step = some handler →
    ∀ context value, context.artifactKind = .mutation →
      (handler context value).Within (.exit context)
  «catch» : hooks.catch = none

/-- The mutation plugin stands behind plugins that pass mutations on. -/
structure Pipeline.Standard (pipeline : Pipeline) : Prop where
  mutation : pipeline.mutation = Client.mutation
  before : ∀ plugin ∈ pipeline.before, plugin.PassesOn

private theorem forward_cases {hooks : ClientHooks} {step : Nat}
    {handler : ClientPluginEnterPhase} (later : step ≠ 0)
    (present : hooks.forward step = some handler) :
    hooks.beforeNetwork = some handler ∨ hooks.network = some handler := by
  match step with
  | 0 => exact absurd rfl later
  | 1 => exact .inl present
  | 2 => exact .inr present
  | _ + 3 => cases present

theorem ClientHooks.backwards_cases {hooks : ClientHooks} {step : Nat}
    {handler : ClientPluginExitPhase} (present : hooks.backwards step = some handler) :
    hooks.end = some handler ∨ hooks.afterNetwork = some handler := by
  match step with
  | 0 => exact .inl present
  | 1 => exact .inr present
  | _ + 2 => cases present

private theorem cachePolicy_passesOn (readCache : ClientPluginEnterPhase) :
    (cachePolicy readCache).PassesOn where
  start := fun handler present => nomatch present
  forward := by
    intro step handler later present context kind
    obtain before | network := forward_cases later present
    · cases before
      simp [kind, HookProgram.Within, Permission.keep]
    · cases network
  backwards := by
    intro step handler present context value kind
    obtain ending | after := ClientHooks.backwards_cases present
    · cases ending
    · cases after
      cases value <;> simp [HookProgram.Within, Permission.exit]
  «catch» := rfl

private theorem throwOnError_passesOn (throwOnKind : ArtifactKind → Bool)
    (error : List String → JSError) : (throwOnError throwOnKind error).PassesOn where
  start := fun handler present => nomatch present
  forward := by
    intro step handler later present
    obtain before | network := forward_cases later present
    · cases before
    · cases network
  backwards := by
    intro step handler present context value kind
    obtain ending | after := ClientHooks.backwards_cases present
    · cases ending
      cases value with
      | none => exact trivial
      | some value =>
          dsimp only
          split <;> simp [HookProgram.Within, Permission.exit]
    · cases after
  «catch» := rfl

private theorem fetchParams_passesOn : fetchParams.PassesOn where
  start := by
    intro handler present context kind
    cases present
    exact ⟨kind, rfl⟩
  forward := by
    intro step handler later present
    obtain before | network := forward_cases later present
    · cases before
    · cases network
  backwards := by
    intro step handler present
    obtain ending | after := ClientHooks.backwards_cases present
    · cases ending
    · cases after
  «catch» := rfl

private theorem optimisticKeys_passesOn : optimisticKeys.PassesOn where
  start := by
    intro handler present context kind
    cases present
    exact ⟨kind, rfl⟩
  forward := by
    intro step handler later present context kind
    obtain before | network := forward_cases later present
    · cases before
      simp [HookProgram.Within, Permission.keep]
    · cases network
  backwards := by
    intro step handler present context value kind
    obtain ending | after := ClientHooks.backwards_cases present
    · cases ending
      simp [HookProgram.Within, Permission.exit]
    · cases after
      simp [HookProgram.Within, Permission.exit]
  «catch» := rfl

private theorem sessionRelay_passesOn : sessionRelay.PassesOn where
  start := fun handler present => nomatch present
  forward := by
    intro step handler later present
    obtain before | network := forward_cases later present
    · cases before
    · cases network
  backwards := by
    intro step handler present context value kind
    obtain ending | after := ClientHooks.backwards_cases present
    · cases ending
      simp [HookProgram.Within, Permission.exit]
    · cases after
  «catch» := rfl

private theorem documentPlugin_passesOn {kind : ArtifactKind} {source : ClientHooks}
    (other : kind ≠ .mutation) (handlesNothing : source.catch = none) :
    (documentPlugin kind source).PassesOn where
  start := by
    intro handler present context kind
    obtain ⟨source, _, rfl⟩ := Option.map_eq_some_iff.mp present
    simp [kind, other.symm, HookProgram.StartsOnce]
  forward := by
    intro step handler later present context kind
    obtain before | network := forward_cases later present
    · obtain ⟨source, _, rfl⟩ := Option.map_eq_some_iff.mp before
      simp [kind, other.symm, HookProgram.Within, Permission.keep]
    · obtain ⟨source, _, rfl⟩ := Option.map_eq_some_iff.mp network
      simp [kind, other.symm, HookProgram.Within, Permission.keep]
  backwards := by
    intro step handler present context value kind
    obtain ending | after := ClientHooks.backwards_cases present
    · obtain ⟨source, _, rfl⟩ := Option.map_eq_some_iff.mp ending
      simp [kind, other.symm, HookProgram.Within, Permission.exit]
    · obtain ⟨source, _, rfl⟩ := Option.map_eq_some_iff.mp after
      simp [kind, other.symm, HookProgram.Within, Permission.exit]
  «catch» := handlesNothing

theorem standardPipeline_standard (options : ClientOptions) :
    (standardPipeline options).Standard where
  mutation := rfl
  before := by
    intro plugin member
    simp only [standardPipeline, List.mem_append, List.mem_cons, List.not_mem_nil, or_false,
      List.mem_map] at member
    obtain (cache | ⟨throwing, _, rfl⟩) | rfl | rfl | rfl | rfl := member
    · split at cache
      · rw [List.mem_singleton.mp cache]
        exact cachePolicy_passesOn options.readCache
      · exact absurd cache List.not_mem_nil
    · exact throwOnError_passesOn throwing.1 throwing.2
    · exact fetchParams_passesOn
    · exact optimisticKeys_passesOn
    · exact sessionRelay_passesOn
    · exact documentPlugin_passesOn (by decide) rfl

end Houdini.Runtime.Client
