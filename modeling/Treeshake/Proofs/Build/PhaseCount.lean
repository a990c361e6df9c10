import Mathlib.Data.List.DropRight
import Treeshake.Build.Phase

namespace Treeshake.Phase

-- The events of the build at hand.
def current (events : List Event) : List Event := events.rtakeWhile (· ≠ .reset)

def queries (events : List Event) : Nat := (current events).count .query

def begins (events : List Event) : Nat := (current events).count .begin

-- The phase that so many queries and begun passes lead to.
def reached : Nat → Nat → Phase
  | 0, 0 => .initial
  | 0, _ + 1 => .scanning
  | 1, _ => .pruning
  | _ + 2, _ => .done

theorem reached_begin (q b : Nat) : reached q (b + 1) = (reached q b).begin := by
  match q, b with
  | 0, 0 => rfl
  | 0, _ + 1 => rfl
  | 1, _ => rfl
  | _ + 2, _ => rfl

theorem reached_query (q b : Nat) : reached (q + 1) b = (reached q b).query.1 := by
  match q, b with
  | 0, 0 => rfl
  | 0, _ + 1 => rfl
  | 1, _ => rfl
  | _ + 2, _ => rfl

theorem current_concat (events : List Event) (event : Event) :
    current (events ++ [event]) = if event = .reset then [] else current events ++ [event] := by
  simp only [current, List.rtakeWhile_concat]
  cases event <;> rfl

theorem queries_concat (events : List Event) (event : Event) :
    queries (events ++ [event]) = match event with
      | .begin => queries events
      | .query => queries events + 1
      | .reset => 0 := by
  unfold queries
  rw [current_concat]
  cases event <;> simp

theorem begins_concat (events : List Event) (event : Event) :
    begins (events ++ [event]) = match event with
      | .begin => begins events + 1
      | .query => begins events
      | .reset => 0 := by
  unfold begins
  rw [current_concat]
  cases event <;> simp

-- A step changes the counts as it changes the phase.
theorem foldl_after (events : List Event) :
    events.foldl after .initial = reached (queries events) (begins events) := by
  induction events using List.reverseRecOn with
  | nil => rfl
  | append_singleton events event ih =>
    rw [List.foldl_append, ih, queries_concat, begins_concat]
    cases event with
    | begin => exact (reached_begin _ _).symm
    | query => exact (reached_query _ _).symm
    | reset => rfl

-- Only the first query finds a phase that calls for another pass.
theorem query_reached (q b : Nat) : (reached q b).query.2 = decide (q + 1 = 1) := by
  fun_cases reached q b <;> rfl

theorem emits_reached (q b : Nat) : (reached q b).emits = false ↔ q = 0 := by
  fun_cases reached q b <;> simp [emits]

theorem reached_eq_initial (q b : Nat) : reached q b = .initial ↔ q = 0 ∧ b = 0 := by
  fun_cases reached q b <;> simp

theorem reached_eq_scanning (q b : Nat) : reached q b = .scanning ↔ q = 0 ∧ 1 ≤ b := by
  fun_cases reached q b <;> simp

theorem reached_eq_pruning (q b : Nat) : reached q b = .pruning ↔ q = 1 := by
  fun_cases reached q b <;> simp

theorem reached_eq_done (q b : Nat) : reached q b = .done ↔ 2 ≤ q := by
  fun_cases reached q b <;> simp

end Treeshake.Phase
