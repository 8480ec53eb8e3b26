import AriaShell.Executor.Executor
import AriaShell.Parser.Spec
/-! What the executor leaves alone. No expression visitor writes the environment, so no run of
`evaluateExpr`, returning or throwing, changes a binding; a declaration or an assignment writes it
only after its last step that can throw, so one that throws leaves the bindings it found. -/
namespace AriaShell.Executor

open AriaShell.Parser

/-- Every run of `x`, returning or throwing, ends with the environment it started from. -/
def KeepsEnv {α : Type} (x : ExecM α) : Prop := ∀ st, (x.run.run st).2.env = st.env

/-- Every run of `x` that throws ends with the environment it started from. -/
def KeepsEnvOnThrow {α : Type} (x : ExecM α) : Prop :=
  ∀ st f, (x.run.run st).1 = .error f → (x.run.run st).2.env = st.env

namespace KeepsEnv

variable {α β : Type} {x : ExecM α}

theorem pure' {a : α} : KeepsEnv (pure a) := fun _ => rfl

theorem throw' {f : ExecFault} : KeepsEnv (throw f : ExecM α) := fun _ => rfl

theorem get' : KeepsEnv (get : ExecM State) := fun _ => rfl

theorem modify' {g : State → State} (hg : ∀ st, (g st).env = st.env) : KeepsEnv (modify g : ExecM PUnit) :=
  hg

theorem liftRuntime' {r : Except RuntimeError α} : KeepsEnv (liftRuntime r) := by
  cases r <;> exact fun _ => rfl

theorem liftFault' {r : Except ExecFault α} : KeepsEnv (liftFault r) := by
  cases r <;> exact fun _ => rfl

private theorem write' {text : List Char} : KeepsEnv (write text) := modify' fun _ => rfl

theorem bind {f : α → ExecM β} (hx : KeepsEnv x) (hf : ∀ a, KeepsEnv (f a)) : KeepsEnv (x >>= f) := by
  intro st
  have h := hx st
  rw [run_bind]
  rcases hrun : x.run.run st with ⟨_ | a, st'⟩ <;> rw [hrun] at h
  · exact h
  · exact (hf a st').trans h

theorem onThrow (h : KeepsEnv x) : KeepsEnvOnThrow x := fun st _ _ => h st

end KeepsEnv

/-- A step that cannot throw, after one that keeps the environment: a throw of the whole comes
from the first, before any write. -/
theorem KeepsEnvOnThrow.bind {α β : Type} {x : ExecM α} {f : α → ExecM β} (hx : KeepsEnv x)
    (hf : ∀ a, KeepsEnvOnThrow (f a)) : KeepsEnvOnThrow (x >>= f) := by
  intro st e h
  have hst := hx st
  rw [run_bind] at h ⊢
  rcases hrun : x.run.run st with ⟨_ | a, st'⟩ <;> rw [hrun] at h hst
  · exact hst
  · exact (hf a st' e h).trans hst

private theorem keepsEnvOnThrow_modify {g : State → State} : KeepsEnvOnThrow (modify g : ExecM PUnit) :=
  fun _ _ h => nomatch h

mutual

theorem evaluateExpr_keepsEnv : (e : ExprNode) → KeepsEnv (evaluateExpr e)
  | .integerLiteral .. | .stringLiteral .. => KeepsEnv.pure'
  | .variableExpr .. => KeepsEnv.get'.bind fun _ => KeepsEnv.liftRuntime'
  | .binaryOpExpr _ left right _ =>
    (evaluateExpr_keepsEnv left).bind fun _ => (evaluateExpr_keepsEnv right).bind fun _ => KeepsEnv.liftFault'
  | .unaryOpExpr _ operand _ => (evaluateExpr_keepsEnv operand).bind fun _ => KeepsEnv.liftRuntime'
  | .callExpr function arguments _ => by
    rw [evaluateExpr.eq_def]
    dsimp only
    split_ifs
    · exact (printArguments_keepsEnv arguments).bind fun _ => KeepsEnv.write'.bind fun _ => KeepsEnv.pure'
    · match arguments with
      | [argument] =>
        exact (evaluateExpr_keepsEnv argument).bind fun v => by cases v <;> exact fun _ => rfl
      | [] | _ :: _ :: _ => exact KeepsEnv.throw'
    · exact KeepsEnv.throw'

private theorem printArguments_keepsEnv : (arguments : List ExprNode) → KeepsEnv (printArguments arguments)
  | [] => KeepsEnv.pure'
  | argument :: rest =>
    (evaluateExpr_keepsEnv argument).bind fun _ => KeepsEnv.write'.bind fun _ => printArguments_keepsEnv rest

end

/-- No run of `evaluateExpr` changes a binding, whether it returns or throws; and a declaration
or an assignment that throws (an undefined variable, a type mismatch, a division by zero, an
unknown function, an assignment to an undeclared name) leaves the environment as it found it. -/
theorem failed_statement_keeps_env :
    (∀ e, KeepsEnv (evaluateExpr e)) ∧
      ∀ (commandResult : CommandStmt → Int) (n : Nat),
        (∀ type name initializer location,
          KeepsEnvOnThrow (visit commandResult n (.varDeclStmt type name initializer location))) ∧
        ∀ variableName value location,
          KeepsEnvOnThrow (visit commandResult n (.assignStmt variableName value location)) := by
  refine ⟨evaluateExpr_keepsEnv, fun commandResult n => ⟨fun type name initializer _ => ?_, fun _ value _ => ?_⟩⟩
  · cases n with
    | zero => exact KeepsEnv.throw'.onThrow
    | succ n =>
      cases initializer with
      | some e => exact KeepsEnvOnThrow.bind (evaluateExpr_keepsEnv e) fun _ => keepsEnvOnThrow_modify
      | none => exact KeepsEnvOnThrow.bind KeepsEnv.pure' fun _ => keepsEnvOnThrow_modify
  · cases n with
    | zero => exact KeepsEnv.throw'.onThrow
    | succ n =>
      exact KeepsEnvOnThrow.bind (evaluateExpr_keepsEnv value) fun _ =>
        KeepsEnvOnThrow.bind KeepsEnv.get' fun _ =>
          KeepsEnvOnThrow.bind KeepsEnv.liftRuntime' fun _ => keepsEnvOnThrow_modify

end AriaShell.Executor
