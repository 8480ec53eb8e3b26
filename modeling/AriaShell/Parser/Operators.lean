import AriaShell.Parser.Spec
/-! The operators the parser puts into the tree. A binary node's operator is the token the level's
`match` consumed, read back as `tokens_[current_ - 1]`; the six levels match only the twelve
operators below, and `parseUnary` only `-` and `!`. -/
namespace AriaShell.Parser

/-- The operators of the six binary levels, from `parseLogicalOr` down to `parseMultiplicative`. -/
def binaryOperators : List TokenType :=
  [.or, .and, .eq, .ne, .lt, .le, .gt, .ge, .plus, .minus, .star, .slash]

/-- The operators of `parseUnary`. -/
def unaryOperators : List TokenType := [.minus, .not]

/-- A node's operator, if it has one, is among these. -/
def opKnown : ExprNode → Prop
  | .binaryOpExpr op _ _ _ => op ∈ binaryOperators
  | .unaryOpExpr op _ _ => op ∈ unaryOperators
  | _ => True

/-- Every operator in the expression is one of the parser's. -/
def ExprNode.OpsKnown (e : ExprNode) : Prop := e.Every opKnown

/-- Every operator in the statement's expressions is one of the parser's. -/
def StmtNode.OpsKnown (s : StmtNode) : Prop := s.Every (fun _ => True) opKnown

/-- `x` returns only values with `P`, whatever it raises. -/
def Yields {α : Type} (x : ParseM α) (P : α → Prop) : Prop := ∀ pos, Spec x pos (fun a _ => P a) (fun _ _ => True)

namespace Yields

variable {α β : Type} {x : ParseM α} {P : α → Prop}

theorem bind {f : α → ParseM β} {R : β → Prop} (hx : Yields x P) (hf : ∀ a, P a → Yields (f a) R) :
    Yields (x >>= f) R :=
  fun pos => Spec.bind (hx pos) fun a p ha => hf a ha p

private theorem bind_any {f : α → ParseM β} {R : β → Prop} (hf : ∀ a, Yields (f a) R) : Yields (x >>= f) R :=
  fun pos => Spec.bind (Spec.any x pos) fun a p _ => hf a p

theorem pure' {a : α} (h : P a) : Yields (pure a) P := fun _ => Spec.pure' h

theorem throw' (f : ParseFault) : Yields (throw f : ParseM α) P := fun _ => Spec.throw' trivial

theorem ite' {c : Prop} [Decidable c] {y : ParseM α} (ht : c → Yields x P) (he : ¬c → Yields y P) :
    Yields (if c then x else y) P :=
  fun pos => Spec.ite' (fun h => ht h pos) (fun h => he h pos)

theorem map {g : α → β} {R : β → Prop} (h : Yields x P) (hg : ∀ a, P a → R (g a)) : Yields (g <$> x) R :=
  fun pos => Spec.map (h pos) fun a _ ha => hg a ha

end Yields

section Parse

variable (tokens : List Token)

private theorem yields_matchAny_previous (ops : List TokenType) {α : Type} {f : Token → ParseM α}
    {g : ParseM α} {P : α → Prop} (hf : ∀ t : Token, t.type ∈ ops → Yields (f t) P) (hg : Yields g P) :
    Yields (matchAny tokens ops >>= fun b => if b = true then previous tokens >>= f else g) P := by
  intro pos
  refine Spec.bind ((matchAny_spec tokens ops pos).mono (fun _ _ h => h) (fun _ _ _ => trivial))
    fun b p ⟨htrue, _⟩ => ?_
  split
  next hb =>
    obtain ⟨hp, t, ht, -, hmem⟩ := htrue hb
    refine Spec.bind ((previous_spec tokens p).mono (fun _ _ h => h) (fun _ _ _ => trivial))
      fun tok q ⟨hq, _, htok⟩ => ?_
    rw [hp, Nat.add_sub_cancel, ht] at htok
    cases htok
    exact hf t hmem q
  next => exact hg p

private theorem binaryLoop_opsKnown {ops : List TokenType} (hops : ∀ op ∈ ops, op ∈ binaryOperators)
    {operand : ParseM ExprNode} (hoperand : Yields operand ExprNode.OpsKnown) (k : Nat) :
    ∀ left : ExprNode, left.OpsKnown → Yields (binaryLoop tokens ops operand k left) ExprNode.OpsKnown := by
  induction k with
  | zero => exact fun _ _ => Yields.throw' _
  | succ k ih =>
    intro left hleft
    rw [binaryLoop]
    refine yields_matchAny_previous tokens ops (fun t ht => ?_) (Yields.pure' hleft)
    refine hoperand.bind fun right hright => ih _ (.node (hops _ ht) ?_)
    simpa [ExprNode.children] using ⟨hleft, hright⟩

private theorem binaryLevel_opsKnown {ops : List TokenType} (hops : ∀ op ∈ ops, op ∈ binaryOperators)
    {operand : ParseM ExprNode} (hoperand : Yields operand ExprNode.OpsKnown) (fuel : Nat) :
    Yields (binaryLevel tokens ops operand fuel) ExprNode.OpsKnown :=
  hoperand.bind fun left hleft => binaryLoop_opsKnown tokens hops hoperand fuel left hleft

private theorem argumentsLoop_opsKnown {expression : ParseM ExprNode} (hexpr : Yields expression ExprNode.OpsKnown)
    (k : Nat) : ∀ arguments : List ExprNode, (∀ a ∈ arguments, a.OpsKnown) →
      Yields (argumentsLoop tokens expression k arguments) (fun as => ∀ a ∈ as, a.OpsKnown) := by
  induction k with
  | zero => exact fun _ _ => Yields.throw' _
  | succ k ih =>
    intro arguments hargs
    rw [argumentsLoop]
    refine hexpr.bind fun a ha => Yields.bind_any fun b => Yields.ite' (fun _ => ih _ ?_) (fun _ => Yields.pure' ?_) <;>
      simpa [or_imp, forall_and] using ⟨hargs, ha⟩

private theorem blockLoop_opsKnown {statement : ParseM (Option StmtNode)}
    (hstmt : Yields statement (fun s => ∀ st ∈ s, st.OpsKnown)) (k : Nat) :
    ∀ statements : List StmtNode, (∀ s ∈ statements, s.OpsKnown) →
      Yields (blockLoop tokens statement k statements) (fun ss => ∀ s ∈ ss, s.OpsKnown) := by
  induction k with
  | zero => exact fun _ _ => Yields.throw' _
  | succ k ih =>
    intro statements hs
    rw [blockLoop]
    refine Yields.bind_any fun _ => Yields.ite' (fun _ => Yields.pure' hs) fun _ => ?_
    simp only [pure_bind]
    refine Yields.bind_any fun _ => Yields.ite' (fun _ => Yields.pure' hs) fun _ => ?_
    refine hstmt.bind fun s hs' => ih _ ?_
    simpa [or_imp, forall_and] using ⟨hs, hs'⟩

private theorem upcast_opsKnown {x : ParseM StmtNode} (h : Yields x StmtNode.OpsKnown) :
    Yields (upcast x) (fun s => ∀ st ∈ s, st.OpsKnown) :=
  h.map fun s hs st hst => by cases hst; exact hs

private theorem parsePipeline_opsKnown (fuel : Nat) : Yields (parsePipeline tokens fuel) StmtNode.OpsKnown := by
  unfold parsePipeline
  refine Yields.bind_any fun _ => Yields.bind_any fun _ => Yields.bind_any fun _ => Yields.bind_any fun _ =>
    Yields.pure' (.node trivial ?_ ?_) <;> simp [StmtNode.exprs, StmtNode.children]

/-- The trees every parse function builds at fuel `n` carry only the parser's operators. -/
structure OpsBuilt (n : Nat) : Prop where
  statement : Yields (parseStatement tokens n) (fun s => ∀ st ∈ s, st.OpsKnown)
  expression : Yields (parseExpression tokens n) ExprNode.OpsKnown
  logicalOr : Yields (parseLogicalOr tokens n) ExprNode.OpsKnown
  logicalAnd : Yields (parseLogicalAnd tokens n) ExprNode.OpsKnown
  equality : Yields (parseEquality tokens n) ExprNode.OpsKnown
  comparison : Yields (parseComparison tokens n) ExprNode.OpsKnown
  additive : Yields (parseAdditive tokens n) ExprNode.OpsKnown
  multiplicative : Yields (parseMultiplicative tokens n) ExprNode.OpsKnown
  unary : Yields (parseUnary tokens n) ExprNode.OpsKnown
  primary : Yields (parsePrimary tokens n) ExprNode.OpsKnown
  callOrVariable : Yields (parseCallOrVariable tokens n) ExprNode.OpsKnown
  block : Yields (parseBlock tokens n) StmtNode.OpsKnown
  varDecl : Yields (parseVarDecl tokens n) StmtNode.OpsKnown
  assignment : ∀ varName, Yields (parseAssignment tokens n varName) StmtNode.OpsKnown
  ifStmt : Yields (parseIf tokens n) StmtNode.OpsKnown
  whileStmt : Yields (parseWhile tokens n) StmtNode.OpsKnown
  forStmt : Yields (parseFor tokens n) StmtNode.OpsKnown
  returnStmt : Yields (parseReturn tokens n) StmtNode.OpsKnown

private theorem opsBuilt_zero : OpsBuilt tokens 0 where
  statement := by rw [parseStatement]; exact Yields.throw' _
  expression := by rw [parseExpression]; exact Yields.throw' _
  logicalOr := by rw [parseLogicalOr]; exact Yields.throw' _
  logicalAnd := by rw [parseLogicalAnd]; exact Yields.throw' _
  equality := by rw [parseEquality]; exact Yields.throw' _
  comparison := by rw [parseComparison]; exact Yields.throw' _
  additive := by rw [parseAdditive]; exact Yields.throw' _
  multiplicative := by rw [parseMultiplicative]; exact Yields.throw' _
  unary := by rw [parseUnary]; exact Yields.throw' _
  primary := by rw [parsePrimary]; exact Yields.throw' _
  callOrVariable := by rw [parseCallOrVariable]; exact Yields.throw' _
  block := by rw [parseBlock]; exact Yields.throw' _
  varDecl := by rw [parseVarDecl]; exact Yields.throw' _
  assignment _ := by rw [parseAssignment]; exact Yields.throw' _
  ifStmt := by rw [parseIf]; exact Yields.throw' _
  whileStmt := by rw [parseWhile]; exact Yields.throw' _
  forStmt := by rw [parseFor]; exact Yields.throw' _
  returnStmt := by rw [parseReturn]; exact Yields.throw' _

variable {tokens} {n : Nat}

private theorem ExprNode.opsKnown_leaf {e : ExprNode} (hop : opKnown e) (hc : e.children = []) : e.OpsKnown :=
  .node hop (by simp [hc])

private theorem StmtNode.opsKnown_of {s : StmtNode} (he : ∀ e ∈ s.exprs, e.OpsKnown)
    (hc : ∀ c ∈ s.children, c.OpsKnown) : s.OpsKnown :=
  .node trivial he hc

private theorem parseUnary_opsKnown (h : OpsBuilt tokens n) : Yields (parseUnary tokens (n + 1)) ExprNode.OpsKnown := by
  rw [parseUnary]
  simp only [pure_bind]
  exact yields_matchAny_previous tokens _ (fun t ht => h.unary.bind fun operand ho =>
    Yields.pure' (.node ht (by simpa [ExprNode.children] using ho))) h.primary

private theorem parsePrimary_opsKnown (h : OpsBuilt tokens n) : Yields (parsePrimary tokens (n + 1)) ExprNode.OpsKnown := by
  rw [parsePrimary]
  simp only [pure_bind, bind_pure]
  refine Yields.bind_any fun _ => Yields.ite'
    (fun _ => Yields.bind_any fun _ => Yields.pure' (ExprNode.opsKnown_leaf trivial rfl)) fun _ => ?_
  refine Yields.bind_any fun _ => Yields.ite'
    (fun _ => Yields.bind_any fun _ => Yields.pure' (ExprNode.opsKnown_leaf trivial rfl)) fun _ => ?_
  refine Yields.bind_any fun _ => Yields.ite'
    (fun _ => h.expression.bind fun _ he => Yields.bind_any fun _ => Yields.pure' he) fun _ => ?_
  exact Yields.bind_any fun _ => Yields.ite' (fun _ => h.callOrVariable)
    (fun _ => Yields.bind_any fun _ => Yields.throw' _)

private theorem parseCallOrVariable_opsKnown (h : OpsBuilt tokens n) :
    Yields (parseCallOrVariable tokens (n + 1)) ExprNode.OpsKnown := by
  rw [parseCallOrVariable]
  simp only [pure_bind]
  refine Yields.bind_any fun _ => Yields.bind_any fun _ => Yields.ite' (fun _ => ?_)
    (fun _ => Yields.pure' (ExprNode.opsKnown_leaf trivial rfl))
  have hcall : ∀ arguments : List ExprNode, (∀ a ∈ arguments, a.OpsKnown) → ∀ name location,
      (ExprNode.callExpr name arguments location).OpsKnown := fun _ ha _ _ => .node trivial ha
  refine Yields.bind_any fun _ => Yields.ite' (fun _ => ?_) (fun _ => ?_)
  · exact Yields.bind_any fun _ => Yields.pure' (hcall [] (by simp) _ _)
  · exact (argumentsLoop_opsKnown tokens h.expression n [] (by simp)).bind fun _ ha =>
      Yields.bind_any fun _ => Yields.pure' (hcall _ ha _ _)

private theorem parseBlock_opsKnown (h : OpsBuilt tokens n) : Yields (parseBlock tokens (n + 1)) StmtNode.OpsKnown := by
  rw [parseBlock]
  refine Yields.bind_any fun _ => Yields.bind_any fun _ =>
    (blockLoop_opsKnown tokens h.statement n [] (by simp)).bind fun _ hs => Yields.bind_any fun _ =>
      Yields.pure' (StmtNode.opsKnown_of (by simp [StmtNode.exprs]) (by simpa [StmtNode.children] using hs))

private theorem parseVarDecl_opsKnown (h : OpsBuilt tokens n) : Yields (parseVarDecl tokens (n + 1)) StmtNode.OpsKnown := by
  rw [parseVarDecl]
  simp only [pure_bind]
  have hdecl : ∀ type name location (init : Option ExprNode), (∀ e ∈ init, e.OpsKnown) →
      Yields (discard (matchToken tokens .semicolon) >>= fun _ =>
        pure (StmtNode.varDeclStmt type name init location)) StmtNode.OpsKnown :=
    fun _ _ _ init hi => Yields.bind_any fun _ =>
      Yields.pure' (StmtNode.opsKnown_of (by simpa [StmtNode.exprs] using hi) (by simp [StmtNode.children]))
  refine Yields.bind_any fun _ => Yields.bind_any fun _ => Yields.bind_any fun _ => Yields.bind_any fun _ =>
    Yields.bind_any fun _ => Yields.ite' (fun _ => ?_) (fun _ => hdecl _ _ _ none (by simp))
  exact (h.expression.map fun e he e' he' => by cases he'; exact he).bind fun init hi => hdecl _ _ _ init hi

private theorem parseAssignment_opsKnown (h : OpsBuilt tokens n) (varName : List Char) :
    Yields (parseAssignment tokens (n + 1) varName) StmtNode.OpsKnown := by
  rw [parseAssignment]
  exact Yields.bind_any fun _ => Yields.bind_any fun _ => h.expression.bind fun _ he =>
    Yields.bind_any fun _ => Yields.pure' (StmtNode.opsKnown_of (by simpa [StmtNode.exprs] using he)
      (by simp [StmtNode.children]))

private theorem parseIf_opsKnown (h : OpsBuilt tokens n) : Yields (parseIf tokens (n + 1)) StmtNode.OpsKnown := by
  rw [parseIf]
  refine Yields.bind_any fun tok => Yields.bind_any fun _ => Yields.bind_any fun _ =>
    h.expression.bind fun cond hc => Yields.bind_any fun _ => h.statement.bind fun thenBranch ht =>
      Yields.bind_any fun _ => ?_
  have hif : ∀ e : Option StmtNode, (∀ s ∈ e, s.OpsKnown) →
      Yields (pure (StmtNode.ifStmt cond thenBranch e tok.location)) StmtNode.OpsKnown := fun e he =>
    Yields.pure' (StmtNode.opsKnown_of (by simpa [StmtNode.exprs] using hc)
      (by simpa [StmtNode.children, or_imp, forall_and] using ⟨ht, he⟩))
  exact Yields.ite' (fun _ => h.statement.bind hif)
    (fun _ => (Yields.pure' (P := fun e : Option StmtNode => ∀ s ∈ e, s.OpsKnown) (by simp)).bind hif)

private theorem parseWhile_opsKnown (h : OpsBuilt tokens n) : Yields (parseWhile tokens (n + 1)) StmtNode.OpsKnown := by
  rw [parseWhile]
  exact Yields.bind_any fun _ => Yields.bind_any fun _ => Yields.bind_any fun _ =>
    h.expression.bind fun _ hc => Yields.bind_any fun _ => h.statement.bind fun _ hb =>
      Yields.pure' (StmtNode.opsKnown_of (by simpa [StmtNode.exprs] using hc)
        (by simpa [StmtNode.children] using hb))

private theorem parseFor_opsKnown (h : OpsBuilt tokens n) : Yields (parseFor tokens (n + 1)) StmtNode.OpsKnown := by
  rw [parseFor]
  exact Yields.bind_any fun _ => Yields.bind_any fun _ => Yields.bind_any fun _ => Yields.bind_any fun _ =>
    Yields.bind_any fun _ => Yields.bind_any fun _ => h.expression.bind fun _ hc => Yields.bind_any fun _ =>
      h.statement.bind fun _ hb => Yields.pure' (StmtNode.opsKnown_of (by simpa [StmtNode.exprs] using hc)
        (by simpa [StmtNode.children] using hb))

private theorem parseReturn_opsKnown (h : OpsBuilt tokens n) : Yields (parseReturn tokens (n + 1)) StmtNode.OpsKnown := by
  rw [parseReturn]
  refine Yields.bind_any fun tok => Yields.bind_any fun _ => Yields.bind_any fun _ =>
    Yields.bind_any fun _ => ?_
  have hret : ∀ value : Option ExprNode, (∀ e ∈ value, e.OpsKnown) →
      Yields (discard (matchToken tokens .semicolon) >>= fun _ =>
        pure (StmtNode.returnStmt value tok.location)) StmtNode.OpsKnown := fun value hv =>
    Yields.bind_any fun _ => Yields.pure' (StmtNode.opsKnown_of (by simpa [StmtNode.exprs] using hv)
      (by simp [StmtNode.children]))
  exact Yields.ite' (fun _ => (h.expression.map fun e he e' he' => by cases he'; exact he).bind hret)
    (fun _ => (Yields.pure' (P := fun e : Option ExprNode => ∀ x ∈ e, x.OpsKnown) (by simp)).bind hret)

private theorem parseStatement_opsKnown (h : OpsBuilt tokens n) :
    Yields (parseStatement tokens (n + 1)) (fun s => ∀ st ∈ s, st.OpsKnown) := by
  rw [parseStatement]
  simp only [pure_bind, bind_pure]
  have hexpr : Yields (parseExpression tokens n >>= fun expr => discard (matchToken tokens .semicolon) >>=
      fun _ => pure (some (StmtNode.exprStmt expr expr.location))) (fun s => ∀ st ∈ s, st.OpsKnown) :=
    h.expression.bind fun _ he => Yields.bind_any fun _ => Yields.pure' fun st hst => by
      cases hst; exact StmtNode.opsKnown_of (by simpa [StmtNode.exprs] using he) (by simp [StmtNode.children])
  have hpipe := upcast_opsKnown (parsePipeline_opsKnown tokens n)
  refine Yields.bind_any fun _ => Yields.bind_any fun _ => Yields.ite' (fun _ => Yields.pure' (by simp))
    fun _ => ?_
  refine Yields.bind_any fun _ => Yields.ite' (fun _ => upcast_opsKnown h.ifStmt) fun _ => ?_
  refine Yields.bind_any fun _ => Yields.ite' (fun _ => upcast_opsKnown h.whileStmt) fun _ => ?_
  refine Yields.bind_any fun _ => Yields.ite' (fun _ => upcast_opsKnown h.forStmt) fun _ => ?_
  refine Yields.bind_any fun _ => Yields.ite' (fun _ => upcast_opsKnown h.returnStmt) fun _ => ?_
  refine Yields.bind_any fun _ => Yields.ite' (fun _ => upcast_opsKnown h.block) fun _ => ?_
  refine Yields.bind_any fun _ => Yields.ite' (fun _ => upcast_opsKnown h.varDecl) fun _ => ?_
  refine Yields.bind_any fun _ => Yields.ite'
    (fun _ => Yields.bind_any fun _ => upcast_opsKnown (h.assignment _)) fun _ => ?_
  refine Yields.bind_any fun _ => Yields.ite' (fun _ => hexpr) fun _ => ?_
  exact Yields.bind_any fun _ => Yields.ite'
    (fun _ => Yields.bind_any fun _ => Yields.ite' (fun _ => hexpr) fun _ => hpipe) fun _ => hpipe

theorem OpsBuilt.succ (h : OpsBuilt tokens n) : OpsBuilt tokens (n + 1) where
  statement := parseStatement_opsKnown h
  expression := by rw [parseExpression]; exact h.logicalOr
  logicalOr := by rw [parseLogicalOr]; exact binaryLevel_opsKnown tokens (by decide) h.logicalAnd n
  logicalAnd := by rw [parseLogicalAnd]; exact binaryLevel_opsKnown tokens (by decide) h.equality n
  equality := by rw [parseEquality]; exact binaryLevel_opsKnown tokens (by decide) h.comparison n
  comparison := by rw [parseComparison]; exact binaryLevel_opsKnown tokens (by decide) h.additive n
  additive := by rw [parseAdditive]; exact binaryLevel_opsKnown tokens (by decide) h.multiplicative n
  multiplicative := by rw [parseMultiplicative]; exact binaryLevel_opsKnown tokens (by decide) h.unary n
  unary := parseUnary_opsKnown h
  primary := parsePrimary_opsKnown h
  callOrVariable := parseCallOrVariable_opsKnown h
  block := parseBlock_opsKnown h
  varDecl := parseVarDecl_opsKnown h
  assignment := parseAssignment_opsKnown h
  ifStmt := parseIf_opsKnown h
  whileStmt := parseWhile_opsKnown h
  forStmt := parseFor_opsKnown h
  returnStmt := parseReturn_opsKnown h

private theorem opsBuilt (tokens : List Token) (n : Nat) : OpsBuilt tokens n := by
  induction n with
  | zero => exact opsBuilt_zero tokens
  | succ n ih => exact ih.succ

private theorem catchParseError_opsKnown {statement : ParseM (Option StmtNode)}
    (hstmt : Yields statement (fun s => ∀ st ∈ s, st.OpsKnown)) :
    Yields (catchParseError statement) (fun r => ∀ s ∈ r, ∀ st ∈ s, st.OpsKnown) := fun pos =>
  Spec.tryCatch' ((hstmt pos).map fun _ _ h s hs => by cases hs; exact h) fun f _ _ => by
    cases f <;> first | exact Spec.pure' (by simp) | exact Spec.throw' trivial

private theorem programLoop_opsKnown {statement : ParseM (Option StmtNode)}
    (hstmt : Yields statement (fun s => ∀ st ∈ s, st.OpsKnown)) (k : Nat) :
    ∀ statements : List StmtNode, (∀ s ∈ statements, s.OpsKnown) →
      Yields (programLoop tokens statement k statements) (fun ss => ∀ s ∈ ss, s.OpsKnown) := by
  induction k with
  | zero => exact fun _ _ => Yields.throw' _
  | succ k ih =>
    intro statements hs
    rw [programLoop]
    refine Yields.bind_any fun _ => Yields.ite' (fun _ => Yields.pure' hs) fun _ => ?_
    refine (catchParseError_opsKnown hstmt).bind fun r hr => ?_
    cases r with
    | some stmt =>
      exact ih _ fun s hs' => (List.mem_append.1 hs').elim (hs s) fun h => hr stmt rfl s (Option.mem_toList.1 h)
    | none =>
      exact Yields.bind_any fun _ => Yields.bind_any fun _ =>
        Yields.ite' (fun _ => ih _ hs) fun _ => Yields.pure' hs

theorem parseProgram_opsKnown (fuel : Nat) :
    Yields (parseProgram tokens fuel) (fun prog => ∀ s ∈ prog.statements, s.OpsKnown) :=
  Yields.bind_any fun _ =>
    (programLoop_opsKnown (opsBuilt tokens fuel).statement fuel [] (by simp)).bind
      fun _ h => Yields.pure' h

end Parse

end AriaShell.Parser
