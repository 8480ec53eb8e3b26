import AriaShell.Executor.Executor
import AriaShell.Parser.Spec
/-! The fuel of `visit` and `whileLoop` stands for the unbounded nesting and loops of the executor:
a run that does not stop for want of fuel ends the same way, with the same executor state, under
any larger fuel. -/
namespace AriaShell.Executor

open AriaShell.Parser

variable {α β : Type}

/-- `y` ends as `x` does from every state from which `x` does not run out of fuel. -/
def Extends (x y : ExecM α) : Prop :=
  ∀ st, (x.run.run st).1 ≠ .error .outOfFuel → y.run.run st = x.run.run st

namespace Extends

theorem refl (x : ExecM α) : Extends x x := fun _ _ => rfl

theorem bind {x x' : ExecM α} {f f' : α → ExecM β} (hx : Extends x x') (hf : ∀ a, Extends (f a) (f' a)) :
    Extends (x >>= f) (x' >>= f') := by
  intro st h
  rw [run_bind] at h
  rw [run_bind, run_bind]
  rcases hrun : x.run.run st with ⟨_ | a, st'⟩ <;> rw [hrun] at h
  · rw [hx st (by rw [hrun]; exact fun he => h (by cases he; rfl)), hrun]
  · rw [hx st (by rw [hrun]; nofun), hrun]
    exact hf a st' h

end Extends

private theorem whileLoop_extends {c : ExecM Value} {b b' : ExecM Unit} (hb : Extends b b') :
    ∀ {k k' : Nat}, k ≤ k' → Extends (whileLoop c b k) (whileLoop c b' k')
  | 0, _, _ => fun _ h => absurd rfl h
  | k + 1, 0, hk => absurd hk (by omega)
  | k + 1, k' + 1, hk => by
    unfold whileLoop
    exact (Extends.refl c).bind fun v => by
      split
      · exact .refl _
      · exact hb.bind fun _ => (Extends.refl _).bind fun st => by
          split
          · exact .refl _
          · exact whileLoop_extends hb (by omega)

private theorem executeAll_extends {accept accept' : StmtNode → ExecM Unit} (h : ∀ s, Extends (accept s) (accept' s)) :
    ∀ stmts, Extends (executeAll accept stmts) (executeAll accept' stmts)
  | [] => .refl _
  | _ :: stmts => (Extends.refl _).bind fun st => by
    split
    · exact .refl _
    · exact (h _).bind fun _ => executeAll_extends h stmts

private theorem deref_extends {accept accept' : StmtNode → ExecM Unit} (h : ∀ s, Extends (accept s) (accept' s)) :
    ∀ node, Extends (deref node accept) (deref node accept')
  | some s => h s
  | none => .refl _

private theorem visit_extends (commandResult : CommandStmt → Int) :
    ∀ {n n' : Nat}, n ≤ n' → ∀ s, Extends (visit commandResult n s) (visit commandResult n' s)
  | 0, _, _, _ => fun _ h => absurd rfl h
  | _ + 1, 0, h, _ => absurd h (by omega)
  | n + 1, n' + 1, h, s => by
    have ih := visit_extends commandResult (Nat.le_of_succ_le_succ h)
    cases s with
    | blockStmt statements _ => exact executeAll_extends ih statements
    | ifStmt condition thenBranch elseBranch _ =>
      exact (Extends.refl _).bind fun _ => by
        split
        · exact deref_extends ih thenBranch
        · cases elseBranch
          · exact .refl _
          · exact ih _
    | whileStmt condition body _ => exact whileLoop_extends (deref_extends ih body) (Nat.le_of_succ_le_succ h)
    | varDeclStmt | assignStmt | forStmt | returnStmt | exprStmt | pipelineStmt => exact .refl _

private theorem execute_fuel_extends (commandResult : CommandStmt → Int) {fuel fuel' : Nat} (hle : fuel ≤ fuel')
    (program : Program) (st : State)
    (h : ((execute commandResult fuel program).run.run st).1 ≠ .error .outOfFuel) :
    (execute commandResult fuel' program).run.run st = (execute commandResult fuel program).run.run st :=
  executeAll_extends (visit_extends commandResult hle) program.statements st h

/- `int64 x = 0; while (x < 3) { x = x + 1; }` runs to its end with fuel 5, and so alike with
fuel 100. -/
example :
    let loop : Program := ⟨[.varDeclStmt "int64".toList ['x'] (some (.integerLiteral 0 {})) {},
      .whileStmt (.binaryOpExpr .lt (.variableExpr ['x'] {}) (.integerLiteral 3 {}) {})
        (some (.blockStmt [.assignStmt ['x'] (.binaryOpExpr .plus (.variableExpr ['x'] {})
          (.integerLiteral 1 {}) {}) {}] {})) {}], {}⟩
    ((execute (fun _ => 0) 5 loop).run.run {}).1 ≠ .error .outOfFuel ∧
      (execute (fun _ => 0) 100 loop).run.run {} = (execute (fun _ => 0) 5 loop).run.run {} := by
  intro loop
  have hok : ((execute (fun _ => 0) 5 loop).run.run {}).1.isOk = true := rfl
  have h : ((execute (fun _ => 0) 5 loop).run.run {}).1 ≠ .error .outOfFuel := fun he => by
    rw [he] at hok; cases hok
  exact ⟨h, execute_fuel_extends _ (by decide) _ _ h⟩

end AriaShell.Executor
