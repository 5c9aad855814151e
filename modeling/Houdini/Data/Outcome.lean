import Mathlib.Logic.Basic

/-! Stateful programs that can fail: taking a successful run apart, step by step. -/

set_option autoImplicit false

universe u

namespace EStateM

variable {Failure State Value Output : Type u}

theorem bind_apply (program : EStateM Failure State Value)
    (next : Value → EStateM Failure State Output) (state : State) :
    (program >>= next) state =
      match program state with
      | .ok value middle => next value middle
      | .error failure middle => .error failure middle := rfl

theorem bind_eq_ok {program : EStateM Failure State Value}
    {next : Value → EStateM Failure State Output} {state final : State} {result : Output}
    (success : (program >>= next) state = .ok result final) :
    ∃ value middle, program state = .ok value middle ∧ next value middle = .ok result final := by
  rw [bind_apply] at success
  cases first : program state with
  | ok value middle =>
      rw [first] at success
      exact ⟨value, middle, rfl, success⟩
  | error failure middle =>
      rw [first] at success
      cases success

theorem pure_eq_ok {value result : Value} {state final : State}
    (success : (pure value : EStateM Failure State Value) state = .ok result final) :
    result = value ∧ final = state := by
  cases success
  exact ⟨rfl, rfl⟩

theorem throw_ne_ok {failure : Failure} {state final : State} {result : Value} :
    (throw failure : EStateM Failure State Value) state ≠ .ok result final := nofun

theorem bind_of_ok {program : EStateM Failure State Value}
    {next : Value → EStateM Failure State Output} {state middle : State} {value : Value}
    (success : program state = .ok value middle) :
    (program >>= next) state = next value middle := by
  rw [bind_apply, success]

def Result.Satisfies (result : Result Failure State Value) (good : Value → State → Prop)
    (bad : State → Prop) : Prop :=
  match result with
  | .ok value state => good value state
  | .error _ state => bad state

section Satisfies

variable {program : EStateM Failure State Value} {state : State}
variable {good : Value → State → Prop} {bad : State → Prop}

theorem Result.Satisfies.mono {result : Result Failure State Value}
    {good' : Value → State → Prop} {bad' : State → Prop} (satisfied : result.Satisfies good bad)
    (better : ∀ value state, good value state → good' value state)
    (worse : ∀ state, bad state → bad' state) : result.Satisfies good' bad' := by
  cases result with
  | ok value state => exact better value state satisfied
  | error failure state => exact worse state satisfied

theorem satisfies_bind {next : Value → EStateM Failure State Output}
    {good : Output → State → Prop}
    (satisfied : (program state).Satisfies
      (fun value middle => (next value middle).Satisfies good bad) bad) :
    ((program >>= next) state).Satisfies good bad := by
  rw [bind_apply]
  cases first : program state with
  | ok value middle =>
      rw [first] at satisfied
      exact satisfied
  | error failure middle =>
      rw [first] at satisfied
      exact satisfied

theorem satisfies_foldlM {Item : Type u} {step : Value → Item → EStateM Failure State Value}
    (kept : ∀ value item state, good value state →
      (step value item state).Satisfies good bad) :
    ∀ (items : List Item) (value : Value) (state : State), good value state →
      (items.foldlM step value state).Satisfies good bad
  | [], _, _, holds => holds
  | item :: rest, value, state, holds => by
      rw [List.foldlM_cons]
      apply satisfies_bind
      exact (kept value item state holds).mono
        (fun value state holds => satisfies_foldlM kept rest value state holds) fun _ => id

theorem satisfies_forM {Item : Type u} {step : Item → EStateM Failure State PUnit}
    {good : State → Prop}
    (kept : ∀ item state, good state → (step item state).Satisfies (fun _ => good) bad) :
    ∀ (items : List Item) (state : State), good state →
      (items.forM step state).Satisfies (fun _ => good) bad
  | [], _, holds => holds
  | item :: rest, state, holds => by
      change ((step item >>= fun _ => rest.forM step) state).Satisfies _ bad
      apply satisfies_bind
      exact (kept item state holds).mono
        (fun _ state holds => satisfies_forM kept rest state holds) fun _ => id

def Keeps (good : State → Prop) (program : EStateM Failure State Value) : Prop :=
  ∀ state, good state → (program state).Satisfies (fun _ => good) good

namespace Keeps

variable {good : State → Prop}

theorem pure (value : Value) : Keeps good (pure value : EStateM Failure State Value) :=
  fun _ holds => holds

theorem throw (failure : Failure) : Keeps good (throw failure : EStateM Failure State Value) :=
  fun _ holds => holds

theorem get : Keeps good (get : EStateM Failure State State) := fun _ holds => holds

theorem bind {next : Value → EStateM Failure State Output} (first : Keeps good program)
    (rest : ∀ value, Keeps good (next value)) : Keeps good (program >>= next) :=
  fun state holds => satisfies_bind <| (first state holds).mono
    (fun value middle holds => rest value middle holds) fun _ => id

theorem forM {Item : Type u} {step : Item → EStateM Failure State PUnit}
    (kept : ∀ item, Keeps good (step item)) (items : List Item) : Keeps good (items.forM step) :=
  fun state holds => satisfies_forM (fun item state holds => kept item state holds) items state holds

end Keeps

end Satisfies

end EStateM
