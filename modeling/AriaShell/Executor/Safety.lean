import AriaShell.Executor.Executor
import AriaShell.Parser.Operators
import AriaShell.Parser.Lexer
/-! Which faults a run of the executor can raise. `Avoids bad x` says that no run of `x`, from
any state, raises a fault `bad` accepts; one lemma a visitor carries it from the nodes to a whole
tree. On the trees the parser builds the operator dispatch never reaches a default branch. The
statement an `if` or `while` header governs is dereferenced without a check, and the parser
leaves it null when the header ends the input. -/
namespace AriaShell.Executor

open AriaShell.Parser

/-- No run of `x`, from any state, raises a fault `bad` accepts. -/
def Avoids {α : Type} (bad : ExecFault → Bool) (x : ExecM α) : Prop :=
  ∀ st f, (x.run.run st).1 = .error f → bad f = false

namespace Avoids

variable {α β : Type} {bad : ExecFault → Bool} {x : ExecM α}

theorem pure' {a : α} : Avoids bad (pure a) := fun _ _ h => nomatch h

theorem throw' {f : ExecFault} (h : bad f = false) : Avoids bad (throw f : ExecM α) := by
  intro _ _ h'
  cases h'
  exact h

theorem bind {f : α → ExecM β} (hx : Avoids bad x) (hf : ∀ a, Avoids bad (f a)) :
    Avoids bad (x >>= f) := by
  intro st e h
  rw [run_bind] at h
  rcases hrun : x.run.run st with ⟨_ | a, st'⟩ <;> rw [hrun] at h
  · cases h
    exact hx st _ (by rw [hrun])
  · exact hf a st' e h

theorem ite' {c : Prop} [Decidable c] {y : ExecM α} (hx : Avoids bad x) (hy : Avoids bad y) :
    Avoids bad (if c then x else y) := by
  split <;> assumption

theorem get' : Avoids bad (get : ExecM State) := fun _ _ h => nomatch h

theorem modify' {g : State → State} : Avoids bad (modify g : ExecM PUnit) := fun _ _ h => nomatch h

theorem liftRuntime' {r : Except RuntimeError α}
    (h : ∀ e, r = .error e → bad (.runtimeError e) = false) : Avoids bad (liftRuntime r) := by
  cases r with
  | ok a => exact pure'
  | error e => exact throw' (h e rfl)

theorem liftFault' {r : Except ExecFault α} (h : ∀ f, r = .error f → bad f = false) :
    Avoids bad (liftFault r) := by
  cases r with
  | ok a => exact pure'
  | error f => exact throw' (h f rfl)

end Avoids

/-! ## The faults of each node -/

private theorem Environment.get_error {env : Environment} {name : List Char} {e : RuntimeError}
    (h : env.get name = .error e) : e = .undefinedVariable name := by
  unfold Environment.get at h
  split at h <;> cases h
  rfl

private theorem Environment.assign_error {env : Environment} {name : List Char} {v : Value} {e : RuntimeError}
    (h : env.assign name v = .error e) : e = .undefinedVariable name := by
  unfold Environment.assign at h
  split at h <;> cases h
  rfl

private theorem applyArithmetic_error {op : TokenType} {l r : Value} {f : ExecFault}
    (hop : op ∈ [.plus, .minus, .star, .slash]) (h : applyArithmetic op l r = .error f) :
    f = .runtimeError .divisionByZero ∨ f = .divisionTrap ∨ f = .runtimeError .arithmeticTypeMismatch := by
  unfold applyArithmetic at h
  split at h
  · simp only [List.mem_cons, List.mem_singleton, List.not_mem_nil, or_false] at hop
    rcases hop with rfl | rfl | rfl | rfl <;> simp only [Except.error.injEq, reduceCtorEq] at h
    split_ifs at h <;> cases h
    exacts [.inl rfl, .inr (.inl rfl)]
  · split at h <;> cases h
    exact .inr (.inr rfl)

private theorem mapError_runtimeError {α : Type} {x : Except RuntimeError α} {f : ExecFault}
    (h : x.mapError ExecFault.runtimeError = .error f) : ∃ e, x = .error e ∧ f = .runtimeError e := by
  cases x <;> cases h
  exact ⟨_, rfl, rfl⟩

private theorem applyComparison_error {op : TokenType} {l r : Value} {e : RuntimeError}
    (hop : op ∈ [.lt, .le, .gt, .ge, .eq, .ne]) (h : applyComparison op l r = .error e) :
    e = .comparisonTypeMismatch := by
  simp only [List.mem_cons, List.mem_singleton, List.not_mem_nil, or_false] at hop
  unfold applyComparison at h
  split at h
  · rcases hop with rfl | rfl | rfl | rfl | rfl | rfl <;> cases h
  · rcases hop with rfl | rfl | rfl | rfl | rfl | rfl <;> cases h
  · cases h
    rfl

private theorem applyLogical_error {op : TokenType} {l r : Value} {e : RuntimeError}
    (hop : op ∈ [.and, .or]) (h : applyLogical op l r = .error e) : False := by
  simp only [List.mem_cons, List.mem_singleton, List.not_mem_nil, or_false] at hop
  rcases hop with rfl | rfl <;> cases h

/-- A fault of a default branch of the operator dispatch. -/
def ExecFault.unknownOperator : ExecFault → Bool
  | .runtimeError e => e.isUnknownOperator
  | _ => false

private theorem binaryOp_error {op : TokenType} {l r : Value} {f : ExecFault} (hop : op ∈ binaryOperators)
    (h : binaryOp op l r = .error f) : f.unknownOperator = false := by
  unfold binaryOp at h
  split_ifs at h with h₁ h₂ h₃
  · rcases applyArithmetic_error h₁ h with rfl | rfl | rfl <;> rfl
  · obtain ⟨e, he, rfl⟩ := mapError_runtimeError h
    rw [applyComparison_error h₂ he]; rfl
  · obtain ⟨e, he, rfl⟩ := mapError_runtimeError h
    exact (applyLogical_error h₃ he).elim
  · have hcover : ∀ o ∈ binaryOperators, o ∈ [.plus, .minus, .star, .slash] ∨
        o ∈ [.lt, .le, .gt, .ge, .eq, .ne] ∨ o ∈ [.and, .or] := by decide
    rcases hcover op hop with h' | h' | h' <;> contradiction

private theorem unaryOp_error {op : TokenType} {v : Value} {e : RuntimeError} (hop : op ∈ unaryOperators)
    (h : unaryOp op v = .error e) : e = .cannotNegate := by
  simp only [unaryOperators, List.mem_cons, List.mem_singleton, List.not_mem_nil, or_false] at hop
  rcases hop with rfl | rfl <;> cases v <;> cases h
  all_goals rfl

/-! ## Expressions -/

/-- `bad` rejects every fault the node `e` raises itself once its children are values. -/
def NodeSafe (bad : ExecFault → Bool) : ExprNode → Prop
  | .variableExpr name _ => bad (.runtimeError (.undefinedVariable name)) = false
  | .binaryOpExpr op _ _ _ => ∀ l r f, binaryOp op l r = .error f → bad f = false
  | .unaryOpExpr op _ _ => ∀ v e, unaryOp op v = .error e → bad (.runtimeError e) = false
  | .callExpr function _ _ => bad (.runtimeError .lenArity) = false ∧
      bad (.runtimeError .lenArgument) = false ∧ bad (.runtimeError (.unknownFunction function)) = false
  | _ => True

section Expressions

variable {bad : ExecFault → Bool}

private theorem printArguments_avoids {args : List ExprNode} (h : ∀ a ∈ args, Avoids bad (evaluateExpr a)) :
    Avoids bad (printArguments args) := by
  induction args with
  | nil => exact Avoids.pure'
  | cons a as ih =>
    rw [printArguments]
    exact (h a (List.mem_cons_self _ _)).bind fun _ => Avoids.modify'.bind fun _ =>
      ih fun b hb => h b (List.mem_cons_of_mem _ hb)

private theorem evaluateExpr_avoids {q : ExprNode → Prop} (hq : ∀ e, q e → NodeSafe bad e) {e : ExprNode}
    (h : e.Every q) : Avoids bad (evaluateExpr e) := by
  induction h with
  | @node e hp _ ih =>
    have hs := hq e hp
    cases e with
    | integerLiteral => exact Avoids.pure'
    | stringLiteral => exact Avoids.pure'
    | variableExpr name _ =>
      exact Avoids.get'.bind fun _ => Avoids.liftRuntime' fun e he => by rw [Environment.get_error he]; exact hs
    | binaryOpExpr op l r _ =>
      exact (ih l (by simp [ExprNode.children])).bind fun a =>
        (ih r (by simp [ExprNode.children])).bind fun b => Avoids.liftFault' (hs a b)
    | unaryOpExpr op a _ =>
      exact (ih a (by simp [ExprNode.children])).bind fun v => Avoids.liftRuntime' (hs v)
    | callExpr function arguments _ =>
      rw [evaluateExpr.eq_def]
      dsimp only
      split_ifs
      · exact (printArguments_avoids ih).bind fun _ => Avoids.modify'.bind fun _ => Avoids.pure'
      · split
        · refine (ih _ (by simp [ExprNode.children])).bind fun v => ?_
          split
          · exact Avoids.pure'
          · exact Avoids.throw' hs.2.1
        · exact Avoids.throw' hs.1
      · exact Avoids.throw' hs.2.2

end Expressions

/-! ## Statements -/

/-- The faults `visit` raises itself, on a tree with `p` at every statement and `q` at every
expression node, are all ones `bad` rejects. -/
structure VisitSafe (bad : ExecFault → Bool) (p : StmtNode → Prop) (q : ExprNode → Prop) : Prop where
  outOfFuel : bad .outOfFuel = false
  forLoop : bad (.runtimeError .forNotImplemented) = false
  assign : ∀ name, bad (.runtimeError (.undefinedVariable name)) = false
  thenBranch : ∀ c e l, p (.ifStmt c none e l) → bad .nullDeref = false
  body : ∀ c l, p (.whileStmt c none l) → bad .nullDeref = false
  expr : ∀ e, e.Every q → Avoids bad (evaluateExpr e)

section Statements

variable {bad : ExecFault → Bool} (commandResult : CommandStmt → Int)

private theorem executeAll_avoids {accept : StmtNode → ExecM Unit} {ss : List StmtNode}
    (h : ∀ s ∈ ss, Avoids bad (accept s)) : Avoids bad (executeAll accept ss) := by
  induction ss with
  | nil => exact Avoids.pure'
  | cons s ss ih =>
    rw [executeAll]
    exact Avoids.get'.bind fun _ => Avoids.ite' Avoids.pure' (Avoids.pure'.bind fun _ =>
      (h s (List.mem_cons_self _ _)).bind fun _ => ih fun t ht => h t (List.mem_cons_of_mem _ ht))

private theorem whileLoop_avoids {condition : ExecM Value} {body : ExecM Unit} (hfuel : bad .outOfFuel = false)
    (hc : Avoids bad condition) (hb : Avoids bad body) (k : Nat) :
    Avoids bad (whileLoop condition body k) := by
  induction k with
  | zero => exact Avoids.throw' hfuel
  | succ k ih =>
    rw [whileLoop]
    exact hc.bind fun _ => Avoids.ite' Avoids.pure' (Avoids.pure'.bind fun _ => hb.bind fun _ =>
      Avoids.get'.bind fun _ => Avoids.ite' Avoids.pure' (Avoids.pure'.bind fun _ => ih))

private theorem visit_avoids {p : StmtNode → Prop} {q : ExprNode → Prop} (hs : VisitSafe bad p q) (n : Nat) :
    ∀ s : StmtNode, s.Every p q → Avoids bad (visit commandResult n s) := by
  induction n with
  | zero => exact fun _ _ => Avoids.throw' hs.outOfFuel
  | succ n ih =>
    intro s hst
    cases hst with
    | node hp he hc =>
    cases s with
    | blockStmt ss _ => exact executeAll_avoids fun s h => ih s (hc s h)
    | varDeclStmt type name init _ =>
      cases init with
      | none => exact Avoids.pure'.bind fun _ => Avoids.modify'
      | some e => exact (hs.expr e (he e (by simp [StmtNode.exprs]))).bind fun _ => Avoids.modify'
    | assignStmt name v _ =>
      exact (hs.expr v (he v (by simp [StmtNode.exprs]))).bind fun _ => Avoids.get'.bind fun _ =>
        (Avoids.liftRuntime' fun e h => by rw [Environment.assign_error h]; exact hs.assign _).bind
          fun _ => Avoids.modify'
    | ifStmt c t e _ =>
      refine (hs.expr c (he c (by simp [StmtNode.exprs]))).bind fun _ => Avoids.ite' ?_ ?_
      · cases t with
        | none => exact Avoids.throw' (hs.thenBranch _ _ _ hp)
        | some t => exact ih t (hc t (by simp [StmtNode.children]))
      · cases e with
        | none => exact Avoids.pure'
        | some e => exact ih e (hc e (by simp [StmtNode.children]))
    | whileStmt c b _ =>
      refine whileLoop_avoids hs.outOfFuel (hs.expr c (he c (by simp [StmtNode.exprs]))) ?_ n
      cases b with
      | none => exact Avoids.throw' (hs.body _ _ hp)
      | some b => exact ih b (hc b (by simp [StmtNode.children]))
    | forStmt => exact Avoids.throw' hs.forLoop
    | returnStmt v _ =>
      cases v with
      | none => exact Avoids.pure'.bind fun _ => Avoids.modify'
      | some e => exact (hs.expr e (he e (by simp [StmtNode.exprs]))).bind fun _ =>
          Avoids.modify'.bind fun _ => Avoids.modify'
    | exprStmt e _ => exact (hs.expr e (he e (by simp [StmtNode.exprs]))).bind fun _ => Avoids.modify'
    | pipelineStmt commands _ =>
      show Avoids bad (executePipeline commandResult commands)
      unfold executePipeline
      split
      · exact Avoids.modify'
      · exact Avoids.pure'

private theorem execute_avoids {p : StmtNode → Prop} {q : ExprNode → Prop} (hs : VisitSafe bad p q)
    {program : Program} (h : ∀ s ∈ program.statements, s.Every p q) (fuel : Nat) :
    Avoids bad (execute commandResult fuel program) :=
  executeAll_avoids fun s hs' => visit_avoids commandResult hs fuel s (h s hs')

end Statements

/-! ## Operators -/

private theorem nodeSafe_of_opKnown {e : ExprNode} (h : opKnown e) : NodeSafe ExecFault.unknownOperator e := by
  cases e with
  | binaryOpExpr => exact fun _ _ _ he => binaryOp_error h he
  | unaryOpExpr => exact fun _ _ he => by rw [unaryOp_error h he]; rfl
  | callExpr => exact ⟨rfl, rfl, rfl⟩
  | variableExpr => rfl
  | _ => trivial

private theorem visitSafe_unknownOperator : VisitSafe ExecFault.unknownOperator (fun _ => True) opKnown where
  outOfFuel := rfl
  forLoop := rfl
  assign _ := rfl
  thenBranch _ _ _ _ := rfl
  body _ _ _ := rfl
  expr _ h := evaluateExpr_avoids (fun _ => nodeSafe_of_opKnown) h

theorem parseProgram_operators_implemented (tokens : List Token) (fuel pos : Nat) {prog : Program} {p : Nat}
    (h : (parseProgram tokens fuel).run.run pos = (.ok prog, p)) :
    (∀ s ∈ prog.statements, s.OpsKnown) ∧
      ∀ commandResult n, Avoids ExecFault.unknownOperator (execute commandResult n prog) :=
  have hops := (parseProgram_opsKnown fuel pos _ _ h).1 prog rfl
  ⟨hops, fun commandResult n => execute_avoids commandResult visitSafe_unknownOperator hops n⟩

theorem parseProgram_operators_implemented_sum :
    let prog : Program :=
      ⟨[.exprStmt (.binaryOpExpr .plus (.integerLiteral 1 {}) (.integerLiteral 2 {}) {}) {}], {}⟩
    (∀ s ∈ prog.statements, s.OpsKnown) ∧
      ∀ commandResult n, Avoids ExecFault.unknownOperator (execute commandResult n prog) :=
  @parseProgram_operators_implemented [⟨.integer, ['1'], {}, 1⟩, ⟨.plus, ['+'], {}, 0⟩,
    ⟨.integer, ['2'], {}, 2⟩, ⟨.endOfFile, [], {}, 0⟩] 20 0 _ 3 rfl

/-! ## Null statements -/

/-- The statement an `if` or a `while` header governs is there. -/
def hasBody : StmtNode → Bool
  | .ifStmt _ thenBranch _ _ => thenBranch.isSome
  | .whileStmt _ body _ => body.isSome
  | _ => true

/-- On `if (1)` the parser leaves the `if`'s statement null and a run dereferences it. -/
theorem tokenize_parse_if_then_null :
    ∃ tokens prog, (ShellLexer.init "if (1)".toList).tokenize = .ok tokens ∧ parse tokens = .ok prog ∧
      (∃ s ∈ prog.statements, hasBody s = false) ∧
      ∀ commandResult fuel, ((execute commandResult (fuel + 1) prog).run.run {}).1 = .error .nullDeref :=
  ⟨_, _, rfl, rfl, ⟨_, List.mem_singleton_self _, rfl⟩, fun _ _ => rfl⟩

end AriaShell.Executor
