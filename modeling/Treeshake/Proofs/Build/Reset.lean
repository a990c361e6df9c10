import Treeshake.Proofs.Build.History

namespace Treeshake.Plan

variable {p : Plan}

-- Record, phase and barrel are all that operations change, and each goes back to where it started.
theorem reset_session (s : Session) : (p.perform s .reset).session = .initial := by
  obtain ⟨⟨components, directives⟩, phase, seen⟩ := s
  rfl

theorem sessionAfter_reset (s : Session) (ops : List Operation) :
    p.sessionAfter s (ops ++ [.reset]) = .initial := by
  rw [sessionAfter_concat, reset_session]

theorem run_append (s : Session) (before after : List Operation) :
    p.run s (before ++ after) = p.run s before ++ p.run (p.sessionAfter s before) after := by
  induction before generalizing s with
  | nil => rfl
  | cons op rest ih =>
    have hrest : p.sessionAfter s (op :: rest) = p.sessionAfter (p.perform s op).session rest := rfl
    rw [List.cons_append, run, run, ih, hrest, List.cons_append]

-- Whatever has been done before a reset, what follows it answers, says and leaves behind is what it
-- would in a new session of the same plan.
theorem run_after_reset (p : Plan) (s : Session) (before later : List Operation) :
    p.run s (before ++ .reset :: later) = p.run s (before ++ [.reset]) ++ p.run .initial later := by
  have hsplit : before ++ .reset :: later = (before ++ [.reset]) ++ later := by simp
  rw [hsplit, run_append, sessionAfter_reset]

end Treeshake.Plan
