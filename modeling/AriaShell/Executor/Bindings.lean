import AriaShell.Executor.Frame
/-! What the executor never undoes. `Environment` is one flat map: a block opens no scope, so a
name declared inside one is still bound after it, and no statement removes a binding. A name
bound when a run starts is bound when it ends, whether the run returns or throws. -/
namespace AriaShell.Executor

open AriaShell.Parser

private theorem Environment.exists_define {env : Environment} {name : List Char} (n : List Char) (v : Value)
    (h : env.exists name = true) : (env.define n v).exists name = true := by
  simp only [Environment.exists, Environment.define, List.lookup_cons] at h ⊢
  split
  · rfl
  · exact h

private theorem Environment.exists_assign {env env' : Environment} {name n : List Char} {v : Value}
    (ha : env.assign n v = .ok env') (h : env.exists name = true) : env'.exists name = true := by
  unfold Environment.assign at ha
  split at ha <;> cases ha
  exact Environment.exists_define n v h

/-- Every run of `x`, returning or throwing, ends with every name bound that was bound at its
start. -/
def KeepsBound {α : Type} (x : ExecM α) : Prop :=
  ∀ st name, st.env.exists name = true → (x.run.run st).2.env.exists name = true

namespace KeepsBound

variable {α β : Type} {x : ExecM α}

private theorem of_keepsEnv (h : KeepsEnv x) : KeepsBound x := fun st _ hb => (h st).symm ▸ hb

theorem pure' {a : α} : KeepsBound (pure a) := of_keepsEnv KeepsEnv.pure'

theorem throw' {f : ExecFault} : KeepsBound (throw f : ExecM α) := of_keepsEnv KeepsEnv.throw'

theorem get' : KeepsBound (get : ExecM State) := of_keepsEnv KeepsEnv.get'

theorem bind {f : α → ExecM β} (hx : KeepsBound x) (hf : ∀ a, KeepsBound (f a)) : KeepsBound (x >>= f) := by
  intro st name hb
  have h := hx st name hb
  rw [run_bind]
  rcases hrun : x.run.run st with ⟨_ | a, st'⟩ <;> rw [hrun] at h
  · exact h
  · exact hf a st' name h

theorem ite' {c : Prop} [Decidable c] {y : ExecM α} (hx : KeepsBound x) (hy : KeepsBound y) :
    KeepsBound (if c then x else y) := by
  split <;> assumption

end KeepsBound

theorem run_get (st : State) : (get : ExecM State).run.run st = (.ok st, st) := rfl

private theorem keepsBound_declare (name : List Char) (value : Value) :
    KeepsBound (modify fun st : State => { st with env := st.env.define name value }) :=
  fun _ _ hb => Environment.exists_define _ _ hb

private theorem keepsBound_assign (name : List Char) (v : Value) :
    KeepsBound (do
      let env ← liftRuntime ((← get).env.assign name v)
      modify fun st : State => { st with env := env }) := by
  intro st n hb
  rcases h : st.env.assign name v with e | env'
  · simpa [run_bind, run_get, liftRuntime, h] using hb
  · simpa [run_bind, run_get, liftRuntime, h] using Environment.exists_assign h hb

section Statements

variable (commandResult : CommandStmt → Int)

private theorem executeAll_keepsBound {accept : StmtNode → ExecM Unit} (h : ∀ s, KeepsBound (accept s)) :
    ∀ ss, KeepsBound (executeAll accept ss)
  | [] => KeepsBound.pure'
  | s :: ss => by
    rw [executeAll]
    exact KeepsBound.get'.bind fun _ => KeepsBound.ite' KeepsBound.pure' (KeepsBound.pure'.bind fun _ =>
      (h s).bind fun _ => executeAll_keepsBound h ss)

private theorem whileLoop_keepsBound {condition : ExecM Value} {body : ExecM Unit} (hc : KeepsBound condition)
    (hb : KeepsBound body) (k : Nat) : KeepsBound (whileLoop condition body k) := by
  induction k with
  | zero => exact KeepsBound.throw'
  | succ k ih =>
    rw [whileLoop]
    exact hc.bind fun _ => KeepsBound.ite' KeepsBound.pure' (KeepsBound.pure'.bind fun _ => hb.bind fun _ =>
      KeepsBound.get'.bind fun _ => KeepsBound.ite' KeepsBound.pure' (KeepsBound.pure'.bind fun _ => ih))

private theorem visit_keepsBound (n : Nat) : ∀ s, KeepsBound (visit commandResult n s) := by
  have hexpr := fun e => KeepsBound.of_keepsEnv (evaluateExpr_keepsEnv e)
  have hmodify : ∀ g : State → State, (∀ st, (g st).env = st.env) → KeepsBound (modify g : ExecM PUnit) :=
    fun g hg => KeepsBound.of_keepsEnv (KeepsEnv.modify' hg)
  induction n with
  | zero => exact fun _ => KeepsBound.throw'
  | succ n ih =>
    intro s
    cases s with
    | blockStmt ss _ => exact executeAll_keepsBound ih ss
    | varDeclStmt type name init _ =>
      cases init with
      | none => exact KeepsBound.pure'.bind fun _ => keepsBound_declare _ _
      | some e => exact (hexpr e).bind fun _ => keepsBound_declare _ _
    | assignStmt name v _ => exact (hexpr v).bind fun _ => keepsBound_assign _ _
    | ifStmt c t e _ =>
      refine (hexpr c).bind fun _ => KeepsBound.ite' ?_ ?_
      · cases t with
        | none => exact KeepsBound.throw'
        | some t => exact ih t
      · cases e with
        | none => exact KeepsBound.pure'
        | some e => exact ih e
    | whileStmt c b _ =>
      refine whileLoop_keepsBound (hexpr c) ?_ n
      cases b with
      | none => exact KeepsBound.throw'
      | some b => exact ih b
    | forStmt => exact KeepsBound.throw'
    | returnStmt v _ =>
      cases v with
      | none => exact KeepsBound.pure'.bind fun _ => hmodify _ fun _ => rfl
      | some e => exact (hexpr e).bind fun _ => (hmodify _ fun _ => rfl).bind fun _ => hmodify _ fun _ => rfl
    | exprStmt e _ => exact (hexpr e).bind fun _ => hmodify _ fun _ => rfl
    | pipelineStmt commands _ =>
      show KeepsBound (executePipeline commandResult commands)
      unfold executePipeline executeCommand
      split
      · exact hmodify _ fun _ => rfl
      · exact KeepsBound.pure'

theorem execute_keepsBound (fuel : Nat) (program : Program) : KeepsBound (execute commandResult fuel program) :=
  executeAll_keepsBound (visit_keepsBound commandResult fuel) _

end Statements

end AriaShell.Executor
