import Mathlib.Tactic.DeriveFintype

/-! Job life-cycle states and `StateMachine::transition`, the table every state change of a job is
meant to follow. -/
namespace AriaShell.Job

inductive JobState where
  | none
  | foreground
  | background
  | stopped
  | terminated
  deriving DecidableEq, Repr

inductive JobEvent where
  | spawn
  | spawnBg
  | ctrlC
  | ctrlZ
  | fgCmd
  | bgCmd
  | childExit
  | childStop
  | ttyRead
  | timeout
  | error
  deriving DecidableEq, Repr, Fintype

namespace StateMachine

/-- `StateMachine::transition`: the new state when `valid`, `none` otherwise (the error text of an
invalid `TransitionResult` is read by no caller). -/
def transition : JobState → JobEvent → Option JobState
  | .none, .spawn => some .foreground
  | .none, .spawnBg => some .background
  | .foreground, .ctrlZ => some .stopped
  | .foreground, .ctrlC => some .terminated
  | .foreground, .childExit => some .terminated
  | .foreground, .childStop => some .stopped
  | .foreground, .error => some .terminated
  | .background, .fgCmd => some .foreground
  | .background, .bgCmd => some .background
  | .background, .childExit => some .terminated
  | .background, .childStop => some .stopped
  | .background, .ttyRead => some .stopped
  | .background, .error => some .terminated
  | .stopped, .fgCmd => some .foreground
  | .stopped, .bgCmd => some .background
  | .stopped, .ctrlC => some .terminated
  | .stopped, .childExit => some .terminated
  | .stopped, .error => some .terminated
  | _, _ => none

def canTransition (s : JobState) (e : JobEvent) : Bool := (transition s e).isSome

end StateMachine

/-- A change `old → new` some event of the table allows. -/
def ValidChange (old new : JobState) : Prop := ∃ e, StateMachine.transition old e = some new

instance (old new : JobState) : Decidable (ValidChange old new) :=
  inferInstanceAs (Decidable (∃ e, StateMachine.transition old e = some new))

namespace StateMachine

@[simp] private theorem transition_terminated (e : JobEvent) : transition .terminated e = none := by
  cases e <;> rfl

/-- No event leads back to `NONE`. -/
theorem transition_ne_none {s s' : JobState} {e : JobEvent} (h : transition s e = some s') :
    s' ≠ .none := by
  cases s <;> cases e <;> simp [transition] at h <;> subst h <;> decide

end StateMachine

@[simp] private theorem validChange_terminated (new : JobState) : ¬ValidChange .terminated new := by
  simp [ValidChange]

/-- A child's exit is a valid change from every live state. -/
theorem validChange_childExit {s : JobState} (h : s ≠ .none) (ht : s ≠ .terminated) :
    ValidChange s .terminated :=
  ⟨.childExit, by cases s <;> simp_all [StateMachine.transition]⟩

end AriaShell.Job
