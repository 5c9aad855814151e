import Mathlib.Data.List.Basic

/-! Codes whose texts tell where they end, and texts that are put together of them. -/

set_option autoImplicit false

universe u v

variable {Symbol : Type u} {Letter : Type v}

def Instantaneous (code : Symbol → List Letter) : Prop :=
  ∀ symbol other rest last, code symbol ++ rest = code other ++ last → symbol = other ∧ rest = last

def NeverStarts (code : Symbol → List Letter) (letter : Letter) : Prop :=
  ∀ symbol, ∃ first rest, code symbol = first :: rest ∧ first ≠ letter

def joinCode (code : Symbol → List Letter) (separator : Letter) : List Symbol → List Letter
  | [] => []
  | [symbol] => code symbol
  | symbol :: rest => code symbol ++ separator :: joinCode code separator rest

namespace Instantaneous

variable {code : Symbol → List Letter}

theorem flatMap_unique (instantaneous : Instantaneous code) {stop : Letter}
    (starts : NeverStarts code stop) {symbols others : List Symbol} {rest last : List Letter}
    (same : symbols.flatMap code ++ stop :: rest = others.flatMap code ++ stop :: last) :
    symbols = others ∧ rest = last := by
  induction symbols generalizing others with
  | nil =>
      cases others with
      | nil => exact ⟨rfl, (List.cons.inj same).2⟩
      | cons other others =>
          obtain ⟨first, tail, text, different⟩ := starts other
          rw [List.flatMap_cons, text] at same
          exact absurd (List.cons.inj same).1.symm different
  | cons symbol symbols ih =>
      cases others with
      | nil =>
          obtain ⟨first, tail, text, different⟩ := starts symbol
          rw [List.flatMap_cons, text] at same
          exact absurd (List.cons.inj same).1 different
      | cons other others =>
          rw [List.flatMap_cons, List.flatMap_cons, List.append_assoc, List.append_assoc] at same
          obtain ⟨rfl, below⟩ := instantaneous symbol other _ _ same
          obtain ⟨rfl, ended⟩ := ih below
          exact ⟨rfl, ended⟩

theorem pair {Other : Type u} {second : Other → List Letter} (instantaneous : Instantaneous code)
    (instantaneousSecond : Instantaneous second) (separator : Letter) :
    Instantaneous fun pair : Symbol × Other => code pair.1 ++ separator :: second pair.2 := by
  intro symbol other rest last same
  rw [List.append_assoc, List.append_assoc] at same
  obtain ⟨left, same⟩ := instantaneous _ _ _ _ same
  obtain ⟨right, ended⟩ := instantaneousSecond _ _ _ _ (List.cons.inj same).2
  exact ⟨Prod.ext left right, ended⟩

private theorem joinCode_cons (separator : Letter) (symbol : Symbol) (rest : List Symbol) :
    joinCode code separator (symbol :: rest) =
      code symbol ++ if rest = [] then [] else separator :: joinCode code separator rest := by
  cases rest with
  | nil => simp [joinCode]
  | cons next rest => simp [joinCode]

theorem joinCode_unique (instantaneous : Instantaneous code) {separator stop : Letter}
    (different : separator ≠ stop) (starts : NeverStarts code stop)
    {symbols others : List Symbol} {rest last : List Letter}
    (same : joinCode code separator symbols ++ stop :: rest =
      joinCode code separator others ++ stop :: last) : symbols = others ∧ rest = last := by
  induction symbols generalizing others with
  | nil =>
      cases others with
      | nil => exact ⟨rfl, (List.cons.inj same).2⟩
      | cons other others =>
          obtain ⟨first, tail, text, unequal⟩ := starts other
          rw [joinCode_cons, text] at same
          exact absurd (List.cons.inj same).1.symm unequal
  | cons symbol symbols ih =>
      cases others with
      | nil =>
          obtain ⟨first, tail, text, unequal⟩ := starts symbol
          rw [joinCode_cons, text] at same
          exact absurd (List.cons.inj same).1 unequal
      | cons other others =>
          rw [joinCode_cons, joinCode_cons, List.append_assoc, List.append_assoc] at same
          obtain ⟨rfl, below⟩ := instantaneous symbol other _ _ same
          by_cases ends : symbols = []
          · by_cases otherEnds : others = []
            · subst ends otherEnds
              rw [if_pos rfl] at below
              exact ⟨rfl, (List.cons.inj below).2⟩
            · rw [if_pos ends, if_neg otherEnds] at below
              exact absurd (List.cons.inj below).1.symm different
          · by_cases otherEnds : others = []
            · rw [if_neg ends, if_pos otherEnds] at below
              exact absurd (List.cons.inj below).1 different
            · rw [if_neg ends, if_neg otherEnds] at below
              obtain ⟨rfl, ended⟩ := ih (List.cons.inj below).2
              exact ⟨rfl, ended⟩

end Instantaneous
