import AriaShell.Parser.Termination
/-! The expression grammar of the documented precedence table, and what `parseExpression` does
with it: on a token vector with an END_OF_FILE, from any position up to the first one, it returns
the tree of the phrase the grammar derives there when the token after the phrase ends it, and
raises a `ParseError` when there is no such phrase. The grammar's levels are numbered from `||`
(0) to `*` and `/` (5), then the unary (6) and primary (7) expressions; the binary rules are left
recursive, so the trees are the left-associative ones.

Completeness is proved by induction on the fuel, each parse function at fuel `n + 1` from all of
them at `n`, as the termination proof does; soundness the same way; the binary levels go through
the spine of their left-recursive derivations. -/
namespace AriaShell.Parser

/-- The binary operators of level `k`. -/
def levelOps : Nat → List TokenType
  | 0 => [.or]
  | 1 => [.and]
  | 2 => [.eq, .ne]
  | 3 => [.lt, .le, .gt, .ge]
  | 4 => [.plus, .minus]
  | 5 => [.star, .slash]
  | _ => []

/-- The tokens of the operators and operands after the first operand of a binary level, or of the
arguments after the first one of a call: each element is a separator token, a phrase and its
tree. -/
def chainTokens (chain : List (Token × List Token × ExprNode)) : List Token :=
  chain.flatMap fun c => c.1 :: c.2.1

/-- The left-associative tree of a first operand and the operators and operands after it. -/
def foldChain (left : ExprNode) (chain : List (Token × List Token × ExprNode)) : ExprNode :=
  chain.foldl (fun acc c => .binaryOpExpr c.1.type acc c.2.2 c.1.location) left

/-- `Derives k p t`: the tokens `p` derive the tree `t` from level `k` of
`E := E '||' A | A`, `A := A '&&' Q | Q`, `Q := Q ('=='|'!=') C | C`,
`C := C ('<'|'<='|'>'|'>=') S | S`, `S := S ('+'|'-') M | M`, `M := M ('*'|'/') U | U`,
`U := ('-'|'!') U | P`,
`P := INTEGER | STRING | '(' E ')' | IDENT | IDENT '(' [E (',' E)*] ')'`. -/
inductive Derives : Nat → List Token → ExprNode → Prop
  | lower {k : Nat} {p : List Token} {t : ExprNode} : k < 7 → Derives (k + 1) p t → Derives k p t
  | binary {k : Nat} {p₁ p₂ : List Token} {op : Token} {t₁ t₂ : ExprNode} : op.type ∈ levelOps k →
      Derives k p₁ t₁ → Derives (k + 1) p₂ t₂ →
      Derives k (p₁ ++ op :: p₂) (.binaryOpExpr op.type t₁ t₂ op.location)
  | unary {op : Token} {p : List Token} {t : ExprNode} : op.type ∈ [TokenType.minus, .not] →
      Derives 6 p t → Derives 6 (op :: p) (.unaryOpExpr op.type t op.location)
  | integer {tok : Token} : tok.type = .integer →
      Derives 7 [tok] (.integerLiteral tok.intValue tok.location)
  | string {tok : Token} : tok.type = .string → Derives 7 [tok] (.stringLiteral tok.lexeme tok.location)
  | paren {l r : Token} {p : List Token} {t : ExprNode} : l.type = .lparen → Derives 0 p t →
      r.type = .rparen → Derives 7 (l :: (p ++ [r])) t
  | ident {tok : Token} : tok.type = .identifier →
      Derives 7 [tok] (.variableExpr tok.lexeme tok.location)
  | callEmpty {name l r : Token} : name.type = .identifier → l.type = .lparen → r.type = .rparen →
      Derives 7 [name, l, r] (.callExpr name.lexeme [] name.location)
  | call {name l r : Token} {p : List Token} {t : ExprNode} {rest : List (Token × List Token × ExprNode)} :
      name.type = .identifier → l.type = .lparen → Derives 0 p t →
      (∀ c ∈ rest, c.1.type = .comma) → (∀ c ∈ rest, Derives 0 c.2.1 c.2.2) → r.type = .rparen →
      Derives 7 (name :: l :: (p ++ chainTokens rest ++ [r]))
        (.callExpr name.lexeme (t :: rest.map fun c => c.2.2) name.location)

/-- The token after a phrase `p` of level `k` ends it: it is no binary operator of level `k` or
tighter, and no `(` after an identifier. -/
def Stops (k : Nat) (p : List Token) (next : Token) : Prop :=
  (∀ j, k ≤ j → next.type ∉ levelOps j) ∧ (p.getLast?.map Token.type = some .identifier → next.type ≠ .lparen)

/-! ### The grammar -/

@[simp] private theorem levelOps_of_le {j : Nat} (h : 6 ≤ j) : levelOps j = [] := by
  match j, h with
  | _ + 6, _ => rfl

private theorem endOfFile_not_mem_levelOps (j : Nat) : TokenType.endOfFile ∉ levelOps j := by
  rcases Nat.lt_or_ge j 6 with h | h
  · exact (by decide : ∀ j : Fin 6, TokenType.endOfFile ∉ levelOps j) ⟨j, h⟩
  · simp [h]

private theorem stops_of_mem_levelOps {k : Nat} {op : Token} (hop : op.type ∈ levelOps k) (p : List Token) :
    Stops (k + 1) p op := by
  have hk : k < 6 := by
    by_contra h
    simp [levelOps_of_le (not_lt.mp h)] at hop
  have hdisj : ∀ k j : Fin 6, k < j → ∀ ty ∈ levelOps k, ty ∉ levelOps j := by decide
  have hlp : ∀ k : Fin 6, TokenType.lparen ∉ levelOps k := by decide
  refine ⟨fun j hj => ?_, fun _ h => hlp ⟨k, hk⟩ (h ▸ hop)⟩
  rcases Nat.lt_or_ge j 6 with h | h
  · exact hdisj ⟨k, hk⟩ ⟨j, h⟩ (show k < j by omega) _ hop
  · simp [h]

theorem Stops.mono {k k' : Nat} {p : List Token} {next : Token} (h : Stops k p next) (hk : k ≤ k') :
    Stops k' p next :=
  ⟨fun j hj => h.1 j (hk.trans hj), h.2⟩

theorem Stops.of_append {k : Nat} {p q : List Token} {next : Token} (h : Stops k (p ++ q) next)
    (hq : q ≠ []) : Stops k q next := by
  obtain ⟨a, ha⟩ := Option.ne_none_iff_exists'.mp (mt List.getLast?_eq_none_iff.mp hq)
  refine ⟨h.1, fun hl => h.2 ?_⟩
  simpa [List.getLast?_append, ha] using hl

theorem Stops.append {k : Nat} {p q : List Token} {next : Token} (hq : q ≠ []) (h : Stops k q next) :
    Stops k (p ++ q) next := by
  obtain ⟨a, ha⟩ := Option.ne_none_iff_exists'.mp (mt List.getLast?_eq_none_iff.mp hq)
  refine ⟨h.1, fun hl => h.2 ?_⟩
  simpa [List.getLast?_append, ha] using hl

namespace Derives

variable {k : Nat} {p : List Token} {t : ExprNode}

theorem ne_nil (h : Derives k p t) : p ≠ [] := by
  induction h with
  | lower _ _ ih => exact ih
  | binary => simp
  | _ => exact List.cons_ne_nil _ _

theorem not_eof (h : Derives k p t) : ∀ tok ∈ p, tok.type ≠ .endOfFile := by
  induction h with
  | lower _ _ ih => exact ih
  | binary hop _ _ ih₁ ih₂ =>
    intro tok htok
    rcases List.mem_append.mp htok with htok | htok
    · exact ih₁ tok htok
    · rcases List.mem_cons.mp htok with rfl | htok
      · exact fun h => endOfFile_not_mem_levelOps _ (h ▸ hop)
      · exact ih₂ tok htok
  | unary hop _ ih =>
    intro tok htok
    rcases List.mem_cons.mp htok with rfl | htok
    · exact fun h => by simp [h] at hop
    · exact ih tok htok
  | integer h | string h | ident h => simp_all
  | paren hl _ hr ih =>
    intro tok htok
    simp only [List.mem_cons, List.mem_append, List.not_mem_nil, or_false] at htok
    rcases htok with rfl | htok | rfl
    · simp [hl]
    · exact ih tok htok
    · simp [hr]
  | callEmpty hn hl hr => simp_all
  | call hn hl _ hcomma _ hr ih ihrest =>
    intro tok htok
    simp only [List.mem_cons, List.mem_append, List.not_mem_nil, or_false, chainTokens,
      List.mem_flatMap] at htok
    rcases htok with rfl | rfl | (htok | ⟨c, hc, rfl | htok⟩) | rfl
    · simp [hn]
    · simp [hl]
    · exact ih tok htok
    · simp [hcomma c hc]
    · exact ihrest c hc tok htok
    · simp [hr]

/-- A phrase starts with a literal, `(`, an identifier or a unary operator. -/
theorem head (h : Derives k p t) : ∃ tok rest, p = tok :: rest ∧
    tok.type ∈ [TokenType.integer, .string, .lparen, .identifier, .minus, .not] := by
  induction h with
  | lower _ _ ih => exact ih
  | binary _ _ _ ih₁ =>
    obtain ⟨tok, rest, rfl, h⟩ := ih₁
    exact ⟨tok, _, rfl, h⟩
  | unary hop => exact ⟨_, _, rfl, by simp_all⟩
  | integer h | string h | ident h | paren h | callEmpty h | call h => exact ⟨_, _, rfl, by simp [h]⟩

theorem head_primary (h : Derives 7 p t) : ∃ tok rest, p = tok :: rest ∧
    tok.type ∈ [TokenType.integer, .string, .lparen, .identifier] := by
  cases h with
  | lower hk => exact absurd hk (by decide)
  | binary hop => simp at hop
  | integer h | string h | ident h | paren h | callEmpty h | call h => exact ⟨_, _, rfl, by simp [h]⟩

theorem spine (h : Derives k p t) (hk : k < 6) :
    ∃ p₀ t₀ chain, Derives (k + 1) p₀ t₀ ∧ (∀ c ∈ chain, c.1.type ∈ levelOps k) ∧
      (∀ c ∈ chain, Derives (k + 1) c.2.1 c.2.2) ∧ p = p₀ ++ chainTokens chain ∧ t = foldChain t₀ chain := by
  induction h with
  | lower _ h => exact ⟨_, _, [], h, by simp, by simp, by simp [chainTokens], rfl⟩
  | @binary k p₁ p₂ op t₁ t₂ hop _ h₂ ih =>
    obtain ⟨p₀, t₀, chain, h₀, hops, hchain, rfl, rfl⟩ := ih hk
    refine ⟨p₀, t₀, chain ++ [(op, p₂, t₂)], h₀, ?_, ?_, by simp [chainTokens], by simp [foldChain]⟩
    · exact fun c hc => (List.mem_append.mp hc).elim (hops c) fun h => by
        rw [List.mem_singleton.mp h]; exact hop
    · exact fun c hc => (List.mem_append.mp hc).elim (hchain c) fun h => by
        rw [List.mem_singleton.mp h]; exact h₂
  | unary | integer | string | paren | ident | callEmpty | call => omega

end Derives

/-! ### The primitives on a token in the vector -/

section Runs

variable {tokens : List Token} {pos : Nat} {tok : Token}

private theorem drop_of_get? (h : tokens.get? pos = some tok) : tokens.drop pos = tok :: tokens.drop (pos + 1) := by
  obtain ⟨hlt, rfl⟩ := List.get?_eq_some.1 h
  exact List.drop_eq_getElem_cons hlt

private theorem get?_of_drop {rest : List Token} (h : tokens.drop pos = tok :: rest) : tokens.get? pos = some tok := by
  have := congrArg List.head? h
  rwa [List.head?_drop, List.head?_cons, ← List.get?_eq_getElem?] at this

private theorem drop_of_drop_append {p rest : List Token} (h : tokens.drop pos = p ++ rest) :
    tokens.drop (pos + p.length) = rest := by
  rw [← List.drop_drop, h, List.drop_left]

private theorem drop_succ_of_drop {rest : List Token} (h : tokens.drop pos = tok :: rest) : tokens.drop (pos + 1) = rest :=
  drop_of_drop_append (p := [tok]) h

private theorem Spec.run_eq {α : Type} {x : ParseM α} {a : α} {q : Nat}
    (h : Spec x pos (fun b p => b = a ∧ p = q) fun _ _ => False) : x.run.run pos = (.ok a, q) := by
  rcases hrun : x.run.run pos with ⟨_ | b, p⟩
  · exact ((h _ _ hrun).2 _ rfl).elim
  · obtain ⟨rfl, rfl⟩ := (h _ _ hrun).1 b rfl
    rfl

private theorem discard_eq_bind {α : Type} (x : ParseM α) : (discard x : ParseM PUnit) = x >>= fun _ => pure () :=
  rfl

private theorem run_bind_of_ok {α β : Type} {x : ParseM α} {f : α → ParseM β} {a : α} {q : Nat}
    (h : x.run.run pos = (.ok a, q)) : (x >>= f).run.run pos = (f a).run.run q := by
  rw [run_bind, h]

private theorem check_run (h : tokens.get? pos = some tok) (type : TokenType) :
    (check tokens type).run.run pos = (.ok (decide (tok.type ≠ .endOfFile ∧ tok.type = type)), pos) := by
  have hlt := (List.get?_eq_some.1 h).1
  refine Spec.run_eq ((check_spec tokens type pos).mono (fun b p ⟨hp, t, ht, hb⟩ => ⟨?_, hp⟩)
    fun _ _ hb => absurd hb (not_le.2 hlt))
  cases (peekAt_of_get? tokens h).symm.trans ht
  cases b <;> simp_all

private theorem consume_run (h : tokens.get? pos = some tok) (hne : tok.type ≠ .endOfFile) :
    (consume tokens).run.run pos = (.ok tok, pos + 1) := by
  have hlt := (List.get?_eq_some.1 h).1
  refine Spec.run_eq ((consume_spec tokens pos).mono (fun tok' p ⟨t, ht, hp, htok⟩ => ?_)
    fun _ _ hb => absurd (hb tok (peekAt_of_get? tokens h) hne) (not_le.2 hlt))
  cases (peekAt_of_get? tokens h).symm.trans ht
  rw [if_neg hne] at hp
  subst hp
  rw [Nat.add_sub_cancel, h] at htok
  exact ⟨(Option.some.inj htok).symm, rfl⟩

private theorem previous_run (h : tokens.get? pos = some tok) :
    (previous tokens).run.run (pos + 1) = (.ok tok, pos + 1) :=
  Spec.run_eq ((previous_spec tokens (pos + 1)).mono
    (fun t p ⟨hp, _, ht⟩ => ⟨by rw [Nat.add_sub_cancel, h] at ht; exact (Option.some.inj ht).symm, hp⟩)
    fun _ _ ⟨_, h'⟩ => by rw [Nat.add_sub_cancel, h] at h'; simp at h')

private theorem matchToken_run_of_eq (h : tokens.get? pos = some tok) (hne : tok.type ≠ .endOfFile)
    {type : TokenType} (hty : tok.type = type) :
    (matchToken tokens type).run.run pos = (.ok true, pos + 1) := by
  unfold matchToken
  rw [run_bind, check_run h, decide_eq_true ⟨hne, hty⟩]
  simp only [if_true, discard_eq_bind, bind_assoc, pure_bind]
  rw [run_bind_of_ok (consume_run h hne)]
  rfl

private theorem matchToken_run_of_ne (h : tokens.get? pos = some tok) {type : TokenType}
    (hty : tok.type = .endOfFile ∨ tok.type ≠ type) :
    (matchToken tokens type).run.run pos = (.ok false, pos) := by
  unfold matchToken
  rw [run_bind, check_run h, decide_eq_false (by tauto)]
  rfl

private theorem matchAny_run_of_mem (h : tokens.get? pos = some tok) (hne : tok.type ≠ .endOfFile)
    {types : List TokenType} (hty : tok.type ∈ types) :
    (matchAny tokens types).run.run pos = (.ok true, pos + 1) := by
  unfold matchAny
  induction types with
  | nil => simp at hty
  | cons type types ih =>
    rw [List.anyM]
    by_cases heq : tok.type = type
    · rw [run_bind, matchToken_run_of_eq h hne heq]
      rfl
    · rw [run_bind, matchToken_run_of_ne h (.inr heq)]
      exact ih ((List.mem_cons.mp hty).resolve_left heq)

private theorem matchAny_run_of_not_mem (h : tokens.get? pos = some tok) {types : List TokenType}
    (hty : tok.type = .endOfFile ∨ tok.type ∉ types) :
    (matchAny tokens types).run.run pos = (.ok false, pos) := by
  unfold matchAny
  induction types with
  | nil => rfl
  | cons type types ih =>
    rw [List.anyM, run_bind, matchToken_run_of_ne h (hty.imp_right fun h' h'' => h' (h'' ▸ List.mem_cons_self _ _))]
    exact ih (hty.imp_right fun h' h'' => h' (List.mem_cons_of_mem _ h''))

private theorem expect_run (h : tokens.get? pos = some tok) (hne : tok.type ≠ .endOfFile) {type : TokenType}
    (hty : tok.type = type) (message : List Char) :
    (expect tokens type message).run.run pos = (.ok (), pos + 1) := by
  unfold expect
  rw [run_bind, check_run h, decide_eq_true ⟨hne, hty⟩]
  simp only [Bool.not_true, Bool.false_eq_true, if_false, discard_eq_bind, pure_bind]
  rw [run_bind_of_ok (consume_run h hne)]
  rfl

end Runs

/-! ### Completeness -/

private theorem stops_of_not_mem {k : Nat} {tok : Token} (h : ∀ j : Fin 6, tok.type ∉ levelOps j)
    (hl : tok.type ≠ .lparen) (p : List Token) : Stops k p tok := by
  refine ⟨fun j _ => ?_, fun _ => hl⟩
  rcases Nat.lt_or_ge j 6 with hj | hj
  · exact h ⟨j, hj⟩
  · simp [hj]

private theorem stops_of_comma {k : Nat} {tok : Token} (h : tok.type = .comma) (p : List Token) : Stops k p tok :=
  stops_of_not_mem (by rw [h]; decide) (by rw [h]; decide) p

private theorem stops_of_rparen {k : Nat} {tok : Token} (h : tok.type = .rparen) (p : List Token) : Stops k p tok :=
  stops_of_not_mem (by rw [h]; decide) (by rw [h]; decide) p

private theorem length_lt_chainTokens {chain : List (Token × List Token × ExprNode)} {c : Token × List Token × ExprNode}
    (hc : c ∈ chain) : c.2.1.length < (chainTokens chain).length := by
  induction chain with
  | nil => simp at hc
  | cons d chain ih =>
    simp only [chainTokens, List.flatMap_cons, List.length_append, List.length_cons] at ih ⊢
    rcases List.mem_cons.mp hc with rfl | hc
    · omega
    · have := ih hc; omega

private theorem length_le_chainTokens (chain : List (Token × List Token × ExprNode)) :
    chain.length ≤ (chainTokens chain).length := by
  induction chain with
  | nil => simp [chainTokens]
  | cons d chain ih =>
    simp only [chainTokens, List.flatMap_cons, List.length_append, List.length_cons] at ih ⊢
    omega

/-- From `pos`, where the vector reads a phrase `p` of level `k` and then a token that ends it,
`x` returns the phrase's tree after it, given fuel above `11 * p.length + h`. -/
def Parses (tokens : List Token) (k h n : Nat) (x : ParseM ExprNode) : Prop :=
  ∀ pos p t next rest, tokens.drop pos = p ++ next :: rest → Derives k p t → Stops k p next →
    11 * p.length + h < n → x.run.run pos = (.ok t, pos + p.length)

section Loops

variable {tokens : List Token} {m : Nat}

private theorem binaryLoop_complete {k : Nat} {operand : ParseM ExprNode}
    (hop : ∀ pos p t next rest, tokens.drop pos = p ++ next :: rest → Derives (k + 1) p t →
      Stops (k + 1) p next → p.length ≤ m → operand.run.run pos = (.ok t, pos + p.length)) :
    ∀ (chain : List (Token × List Token × ExprNode)) (fuel pos : Nat) (left : ExprNode)
      (pl : List Token) (next : Token) (rest : List Token),
      (∀ c ∈ chain, c.1.type ∈ levelOps k) → (∀ c ∈ chain, Derives (k + 1) c.2.1 c.2.2 ∧ c.2.1.length ≤ m) →
      tokens.drop pos = chainTokens chain ++ next :: rest → Stops k (pl ++ chainTokens chain) next →
      chain.length < fuel →
      (binaryLoop tokens (levelOps k) operand fuel left).run.run pos =
        (.ok (foldChain left chain), pos + (chainTokens chain).length)
  | _, 0, _, _, _, _, _, _, _, _, _, hfuel => absurd hfuel (Nat.not_lt_zero _)
  | [], fuel + 1, pos, left, pl, next, rest, _, _, hd, hstop, _ => by
    have hget := get?_of_drop hd
    rw [binaryLoop, run_bind_of_ok (matchAny_run_of_not_mem hget (.inr (hstop.1 k le_rfl)))]
    rfl
  | c :: chain, fuel + 1, pos, left, pl, next, rest, hops, hchain, hd, hstop, hfuel => by
    obtain ⟨op, q, u⟩ := c
    have hop' : op.type ∈ levelOps k := hops _ (List.mem_cons_self _ _)
    obtain ⟨hu, hq⟩ := hchain _ (List.mem_cons_self _ _)
    simp only [chainTokens, List.flatMap_cons, List.cons_append, List.append_assoc] at hd
    have hget := get?_of_drop hd
    have hne : op.type ≠ .endOfFile := fun h => endOfFile_not_mem_levelOps k (h ▸ hop')
    have hd' := drop_succ_of_drop hd
    obtain ⟨nxt, rest', hnxt, hstop'⟩ : ∃ nxt rest', chainTokens chain ++ next :: rest = nxt :: rest' ∧
        Stops (k + 1) q nxt := by
      cases chain with
      | nil =>
        simp only [chainTokens, List.flatMap_cons, List.flatMap_nil, List.append_nil] at hstop
        exact ⟨next, rest, rfl, Stops.of_append (p := [op])
          ((hstop.mono (Nat.le_succ k)).of_append (List.cons_ne_nil _ _)) hu.ne_nil⟩
      | cons d chain => exact ⟨d.1, _, rfl, stops_of_mem_levelOps (hops d (by simp)) q⟩
    rw [binaryLoop, run_bind_of_ok (matchAny_run_of_mem hget hne hop'), if_pos rfl, run_bind_of_ok (previous_run hget), run_bind_of_ok (hop (pos + 1) q u nxt rest' (hnxt ▸ hd') hu hstop' hq),
      binaryLoop_complete hop chain fuel _ _ (pl ++ op :: q) next rest
        (fun c hc => hops c (List.mem_cons_of_mem _ hc)) (fun c hc => hchain c (List.mem_cons_of_mem _ hc))
        (drop_of_drop_append hd') (by simpa [chainTokens] using hstop) (by simpa using hfuel)]
    simp only [foldChain, chainTokens, List.flatMap_cons, List.foldl_cons, List.length_append, List.length_cons]
    congr 1
    omega

private theorem argumentsLoop_complete {expression : ParseM ExprNode}
    (hexpr : ∀ pos p t next rest, tokens.drop pos = p ++ next :: rest → Derives 0 p t →
      Stops 0 p next → p.length ≤ m → expression.run.run pos = (.ok t, pos + p.length)) :
    ∀ (chain : List (Token × List Token × ExprNode)) (fuel pos : Nat) (arguments : List ExprNode)
      (p : List Token) (t : ExprNode) (r : Token) (rest : List Token),
      Derives 0 p t → p.length ≤ m → (∀ c ∈ chain, c.1.type = .comma) →
      (∀ c ∈ chain, Derives 0 c.2.1 c.2.2 ∧ c.2.1.length ≤ m) → r.type = .rparen →
      tokens.drop pos = p ++ chainTokens chain ++ r :: rest → chain.length < fuel →
      (argumentsLoop tokens expression fuel arguments).run.run pos =
        (.ok (arguments ++ t :: chain.map fun c => c.2.2), pos + p.length + (chainTokens chain).length)
  | _, 0, _, _, _, _, _, _, _, _, _, _, _, _, hfuel => absurd hfuel (Nat.not_lt_zero _)
  | [], fuel + 1, pos, arguments, p, t, r, rest, hp, hpm, _, _, hr, hd, _ => by
    simp only [chainTokens, List.flatMap_nil, List.append_nil] at hd
    rw [argumentsLoop, run_bind_of_ok (hexpr pos p t r rest hd hp (stops_of_rparen hr p) hpm),
      run_bind_of_ok (matchToken_run_of_ne (get?_of_drop (drop_of_drop_append hd)) (.inr (by rw [hr]; decide)))]
    rfl
  | (comma, q, u) :: chain, fuel + 1, pos, arguments, p, t, r, rest, hp, hpm, hcommas, hchain, hr, hd, hfuel => by
    have hcomma : comma.type = .comma := hcommas _ (List.mem_cons_self _ _)
    obtain ⟨hu, hq⟩ := hchain _ (List.mem_cons_self _ _)
    simp only [chainTokens, List.flatMap_cons, List.append_assoc, List.cons_append] at hd
    have hd₁ := drop_of_drop_append hd
    have hget := get?_of_drop hd₁
    rw [argumentsLoop, run_bind_of_ok (hexpr pos p t comma _ hd hp (stops_of_comma hcomma p) hpm),
      run_bind_of_ok (matchToken_run_of_eq hget (by rw [hcomma]; decide) hcomma), if_pos rfl,
      argumentsLoop_complete hexpr chain fuel _ _ q u r rest hu hq
        (fun c hc => hcommas c (List.mem_cons_of_mem _ hc)) (fun c hc => hchain c (List.mem_cons_of_mem _ hc))
        hr (by simpa [chainTokens] using drop_succ_of_drop hd₁) (by simpa using hfuel)]
    simp only [List.append_assoc, List.singleton_append, List.map_cons, chainTokens, List.flatMap_cons,
      List.length_append, List.length_cons]
    congr 1
    omega

end Loops

private theorem binaryLevel_complete {tokens : List Token} {k h n : Nat} {operand : ParseM ExprNode} (hk : k < 6)
    (hop : Parses tokens (k + 1) h n operand) :
    Parses tokens k (h + 1) (n + 1) (binaryLevel tokens (levelOps k) operand n) := by
  intro pos p t next rest hd hder hstop hfuel
  obtain ⟨p₀, t₀, chain, h₀, hops, hchain, rfl, rfl⟩ := hder.spine hk
  have hlen := length_le_chainTokens chain
  simp only [List.length_append] at hfuel ⊢
  obtain ⟨nxt, rest', hnxt, hstop₀⟩ : ∃ nxt rest', chainTokens chain ++ next :: rest = nxt :: rest' ∧
      Stops (k + 1) p₀ nxt := by
    cases chain with
    | nil => exact ⟨next, rest, rfl, (by simpa [chainTokens] using hstop : Stops k p₀ next).mono (Nat.le_succ k)⟩
    | cons c chain => exact ⟨c.1, _, rfl, stops_of_mem_levelOps (hops c (List.mem_cons_self _ _)) p₀⟩
  rw [List.append_assoc] at hd
  unfold binaryLevel
  rw [run_bind_of_ok (hop pos p₀ t₀ nxt rest' (hnxt ▸ hd) h₀ hstop₀ (by omega)),
    binaryLoop_complete (m := (chainTokens chain).length)
      (fun q p' t' next' rest'' hd' hder' hstop' hlen' => hop q p' t' next' rest'' hd' hder' hstop' (by omega))
      chain n (pos + p₀.length) t₀ p₀ next rest hops
      (fun c hc => ⟨hchain c hc, (length_lt_chainTokens hc).le⟩) (drop_of_drop_append hd) hstop (by omega),
    Nat.add_assoc]

/-- The fuel `n` is enough for every parse function of an expression, at its rank, to read any
phrase of its level that the vector holds. -/
structure Complete (tokens : List Token) (n : Nat) : Prop where
  expression : Parses tokens 0 9 n (parseExpression tokens n)
  logicalOr : Parses tokens 0 8 n (parseLogicalOr tokens n)
  logicalAnd : Parses tokens 1 7 n (parseLogicalAnd tokens n)
  equality : Parses tokens 2 6 n (parseEquality tokens n)
  comparison : Parses tokens 3 5 n (parseComparison tokens n)
  additive : Parses tokens 4 4 n (parseAdditive tokens n)
  multiplicative : Parses tokens 5 3 n (parseMultiplicative tokens n)
  unary : Parses tokens 6 2 n (parseUnary tokens n)
  primary : Parses tokens 7 1 n (parsePrimary tokens n)
  callOrVariable : ∀ pos p t next rest, tokens.drop pos = p ++ next :: rest → Derives 7 p t →
    p.head?.map Token.type = some .identifier → Stops 7 p next → 11 * p.length < n →
    (parseCallOrVariable tokens n).run.run pos = (.ok t, pos + p.length)

section Descent

variable {tokens : List Token} {n : Nat}

private theorem complete_zero : Complete tokens 0 where
  expression _ _ _ _ _ _ _ _ h := absurd h (Nat.not_lt_zero _)
  logicalOr _ _ _ _ _ _ _ _ h := absurd h (Nat.not_lt_zero _)
  logicalAnd _ _ _ _ _ _ _ _ h := absurd h (Nat.not_lt_zero _)
  equality _ _ _ _ _ _ _ _ h := absurd h (Nat.not_lt_zero _)
  comparison _ _ _ _ _ _ _ _ h := absurd h (Nat.not_lt_zero _)
  additive _ _ _ _ _ _ _ _ h := absurd h (Nat.not_lt_zero _)
  multiplicative _ _ _ _ _ _ _ _ h := absurd h (Nat.not_lt_zero _)
  unary _ _ _ _ _ _ _ _ h := absurd h (Nat.not_lt_zero _)
  primary _ _ _ _ _ _ _ _ h := absurd h (Nat.not_lt_zero _)
  callOrVariable _ _ _ _ _ _ _ _ _ h := absurd h (Nat.not_lt_zero _)

private theorem parseUnary_complete (hc : Complete tokens n) : Parses tokens 6 2 (n + 1) (parseUnary tokens (n + 1)) := by
  intro pos p t next rest hd hder hstop hfuel
  rw [parseUnary]
  simp only [pure_bind]
  cases hder with
  | lower _ h7 =>
    obtain ⟨tok, rest₀, rfl, htok⟩ := h7.head_primary
    have hnot : tok.type = .endOfFile ∨ tok.type ∉ [TokenType.minus, .not] :=
      .inr fun h => by simp only [List.mem_cons, List.not_mem_nil, or_false] at htok h; rcases h with h | h <;>
        rcases htok with h' | h' | h' | h' <;> rw [h] at h' <;> cases h'
    rw [run_bind_of_ok (matchAny_run_of_not_mem (get?_of_drop hd) hnot)]
    exact hc.primary pos _ _ next rest hd h7 (hstop.mono (by decide)) (by omega)
  | binary hop => simp at hop
  | @unary op p t hop h6 =>
    have hget := get?_of_drop hd
    have hne : op.type ≠ .endOfFile := fun h => by simp [h] at hop
    have hfuel' : 11 * p.length + 2 < n := by simp only [List.length_cons] at hfuel; omega
    rw [run_bind_of_ok (matchAny_run_of_mem hget hne hop), if_pos rfl, run_bind_of_ok (previous_run hget),
      run_bind_of_ok (hc.unary (pos + 1) p t next rest (drop_succ_of_drop hd) h6
        (Stops.of_append (p := [op]) hstop h6.ne_nil) hfuel')]
    simp only [List.length_cons]
    congr 1
    omega

private theorem parsePrimary_complete (hc : Complete tokens n) : Parses tokens 7 1 (n + 1) (parsePrimary tokens (n + 1)) := by
  intro pos p t next rest hd hder hstop hfuel
  have hno : ∀ {tok : Token} {type : TokenType}, tok.type ≠ type →
      tok.type = .endOfFile ∨ tok.type ≠ type := fun h => .inr h
  have hcall : ∀ {tok : Token} {rest₀ : List Token}, p = tok :: rest₀ → tok.type = .identifier →
      (parsePrimary tokens (n + 1)).run.run pos = (.ok t, pos + p.length) := by
    intro tok rest₀ hp htok
    subst hp
    have hget := get?_of_drop hd
    rw [parsePrimary]
    simp only [pure_bind, bind_pure]
    rw [run_bind_of_ok (matchToken_run_of_ne hget (hno (by rw [htok]; decide))), if_neg Bool.false_ne_true,
      run_bind_of_ok (matchToken_run_of_ne hget (hno (by rw [htok]; decide))), if_neg Bool.false_ne_true,
      run_bind_of_ok (matchToken_run_of_ne hget (hno (by rw [htok]; decide))), if_neg Bool.false_ne_true,
      run_bind_of_ok (check_run hget _), decide_eq_true ⟨by rw [htok]; decide, htok⟩, if_pos rfl]
    exact hc.callOrVariable pos _ t next rest hd hder (by simp [htok]) hstop (by omega)
  cases hder with
  | lower hk => exact absurd hk (by decide)
  | binary hop => simp at hop
  | @integer tok h =>
    have hget := get?_of_drop hd
    rw [parsePrimary]
    simp only [pure_bind, bind_pure]
    rw [run_bind_of_ok (matchToken_run_of_eq hget (by rw [h]; decide) h), if_pos rfl,
      run_bind_of_ok (previous_run hget)]
    rfl
  | @string tok h =>
    have hget := get?_of_drop hd
    rw [parsePrimary]
    simp only [pure_bind, bind_pure]
    rw [run_bind_of_ok (matchToken_run_of_ne hget (hno (by rw [h]; decide))), if_neg Bool.false_ne_true,
      run_bind_of_ok (matchToken_run_of_eq hget (by rw [h]; decide) h), if_pos rfl,
      run_bind_of_ok (previous_run hget)]
    rfl
  | @paren l r p t hl hinner hr =>
    have hget := get?_of_drop hd
    simp only [List.cons_append, List.append_assoc, List.singleton_append] at hd
    have hd' := drop_succ_of_drop hd
    have hfuel' : 11 * p.length + 9 < n := by
      simp only [List.length_cons, List.length_append, List.length_singleton] at hfuel; omega
    rw [parsePrimary]
    simp only [pure_bind, bind_pure]
    rw [run_bind_of_ok (matchToken_run_of_ne hget (hno (by rw [hl]; decide))), if_neg Bool.false_ne_true,
      run_bind_of_ok (matchToken_run_of_ne hget (hno (by rw [hl]; decide))), if_neg Bool.false_ne_true,
      run_bind_of_ok (matchToken_run_of_eq hget (by rw [hl]; decide) hl), if_pos rfl,
      run_bind_of_ok (hc.expression (pos + 1) p t r _ hd' hinner (stops_of_rparen hr p) hfuel'),
      run_bind_of_ok (expect_run (get?_of_drop (drop_of_drop_append hd')) (by rw [hr]; decide) hr _)]
    simp only [List.length_cons, List.length_append, List.length_singleton, List.length_nil]
    congr 1
    omega
  | ident h => exact hcall rfl h
  | callEmpty h => exact hcall rfl h
  | call h => exact hcall rfl h

private theorem parseCallOrVariable_complete (hc : Complete tokens n) :
    ∀ pos p t next rest, tokens.drop pos = p ++ next :: rest → Derives 7 p t →
      p.head?.map Token.type = some .identifier → Stops 7 p next → 11 * p.length < n + 1 →
      (parseCallOrVariable tokens (n + 1)).run.run pos = (.ok t, pos + p.length) := by
  intro pos p t next rest hd hder hhead hstop hfuel
  rw [parseCallOrVariable]
  simp only [pure_bind, bind_assoc]
  cases hder with
  | lower hk => exact absurd hk (by decide)
  | binary hop => simp at hop
  | integer h | string h | paren h => simp [h] at hhead
  | @ident tok h =>
    have hget := get?_of_drop hd
    have hnext : tokens.get? (pos + 1) = some next := get?_of_drop (drop_of_drop_append hd)
    rw [run_bind_of_ok (consume_run hget (by rw [h]; decide)),
      run_bind_of_ok (matchToken_run_of_ne hnext (.inr (hstop.2 (by simp [h]))))]
    rfl
  | @callEmpty name l r hn hl hr =>
    simp only [List.cons_append, List.nil_append] at hd
    have hd₁ := drop_succ_of_drop hd
    have hgetl := get?_of_drop hd₁
    have hgetr := get?_of_drop (drop_succ_of_drop hd₁)
    rw [run_bind_of_ok (consume_run (get?_of_drop hd) (by rw [hn]; decide)),
      run_bind_of_ok (matchToken_run_of_eq hgetl (by rw [hl]; decide) hl), if_pos rfl,
      run_bind_of_ok (check_run hgetr _), decide_eq_true ⟨by rw [hr]; decide, hr⟩, if_pos rfl,
      run_bind_of_ok (expect_run hgetr (by rw [hr]; decide) hr _)]
    rfl
  | @call name l r p t chain hn hl hp hcommas hargs hr =>
    simp only [List.cons_append, List.append_assoc, List.singleton_append] at hd
    have hget := get?_of_drop hd
    have hgetl := get?_of_drop (drop_succ_of_drop hd)
    have hd' := drop_succ_of_drop (drop_succ_of_drop hd)
    obtain ⟨first, rest₀, hfirst, hfirstty⟩ := hp.head
    have hgetf : tokens.get? (pos + 1 + 1) = some first := get?_of_drop (by rw [hd', hfirst]; rfl)
    have hnr : first.type ≠ .rparen := fun h => by rw [h] at hfirstty; simp at hfirstty
    simp only [List.length_cons, List.length_append, List.length_singleton, List.length_nil] at hfuel ⊢
    have hlen := length_le_chainTokens chain
    have hd'' : tokens.drop (pos + 1 + 1) = p ++ chainTokens chain ++ r :: (next :: rest) := by
      rw [hd']; simp
    have hgetr : tokens.get? (pos + 1 + 1 + p.length + (chainTokens chain).length) = some r := by
      have := get?_of_drop (drop_of_drop_append hd'')
      rwa [List.length_append, ← Nat.add_assoc] at this
    rw [run_bind_of_ok (consume_run hget (by rw [hn]; decide)),
      run_bind_of_ok (matchToken_run_of_eq hgetl (by rw [hl]; decide) hl), if_pos rfl,
      run_bind_of_ok (check_run hgetf _),
      decide_eq_false (fun h => hnr h.2), if_neg Bool.false_ne_true,
      run_bind_of_ok (argumentsLoop_complete (m := p.length + (chainTokens chain).length)
        (fun q p' t' next' rest' hd₁ hder₁ hstop₁ hlen₁ => hc.expression q p' t' next' rest' hd₁ hder₁ hstop₁
          (by omega))
        chain n (pos + 1 + 1) [] p t r (next :: rest) hp (by omega) hcommas
        (fun c hc' => ⟨hargs c hc', by have := length_lt_chainTokens hc'; omega⟩) hr hd'' (by omega)),
      run_bind_of_ok (expect_run hgetr (by rw [hr]; decide) hr _)]
    simp only [List.nil_append]
    congr 1
    omega

theorem Complete.succ (hc : Complete tokens n) : Complete tokens (n + 1) where
  expression pos p t next rest hd hder hstop hfuel :=
    hc.logicalOr pos p t next rest hd hder hstop (by omega)
  logicalOr := binaryLevel_complete (k := 0) (by decide) hc.logicalAnd
  logicalAnd := binaryLevel_complete (k := 1) (by decide) hc.equality
  equality := binaryLevel_complete (k := 2) (by decide) hc.comparison
  comparison := binaryLevel_complete (k := 3) (by decide) hc.additive
  additive := binaryLevel_complete (k := 4) (by decide) hc.multiplicative
  multiplicative := binaryLevel_complete (k := 5) (by decide) hc.unary
  unary := parseUnary_complete hc
  primary := parsePrimary_complete hc
  callOrVariable := parseCallOrVariable_complete hc

private theorem complete : ∀ n, Complete tokens n
  | 0 => complete_zero
  | n + 1 => (complete n).succ

end Descent

/-! ### Soundness -/

/-- What a run of a parse function of level `k` that returned `t` at `q` read from `pos`: a phrase
of the level with tree `t`, ended by the token at `q`. -/
def Parsed (tokens : List Token) (k pos : Nat) (t : ExprNode) (q : Nat) : Prop :=
  ∃ p, tokens.drop pos = p ++ tokens.drop q ∧ Derives k p t ∧
    ∀ next, tokens.get? q = some next → Stops k p next

/-- Every run of `x` that returns has read a phrase of level `k`. -/
def ReadsLevel (tokens : List Token) (k : Nat) (x : ParseM ExprNode) : Prop :=
  ∀ pos, Spec x pos (Parsed tokens k pos) fun _ _ => True

section Sound

variable {tokens : List Token}

private theorem matchToken_sound (type : TokenType) (pos : Nat) :
    Spec (matchToken tokens type) pos
      (fun b p => (b = true → p = pos + 1 ∧ ∃ t, tokens.get? pos = some t ∧ t.type = type) ∧
        (b = false → p = pos ∧ ∀ t, tokens.get? pos = some t → t.type = .endOfFile ∨ t.type ≠ type))
      fun _ _ => True := by
  intro r p hr
  refine ⟨fun b hb => ?_, fun _ _ => trivial⟩
  obtain ⟨h₁, h₂⟩ := (matchToken_spec tokens type pos r p hr).1 b hb
  refine ⟨fun h => (h₁ h).imp_right fun ⟨t, ht, _, hty⟩ => ⟨t, ht, hty⟩, fun h => ⟨h₂ h, fun t ht => ?_⟩⟩
  by_contra hc
  push_neg at hc
  rw [matchToken_run_of_eq ht hc.1 hc.2] at hr
  subst hb h
  cases hr

private theorem matchAny_sound (types : List TokenType) (pos : Nat) :
    Spec (matchAny tokens types) pos
      (fun b p => (b = true → p = pos + 1 ∧ ∃ t, tokens.get? pos = some t ∧ t.type ∈ types) ∧
        (b = false → p = pos ∧ ∀ t, tokens.get? pos = some t → t.type = .endOfFile ∨ t.type ∉ types))
      fun _ _ => True := by
  intro r p hr
  refine ⟨fun b hb => ?_, fun _ _ => trivial⟩
  obtain ⟨h₁, h₂⟩ := (matchAny_spec tokens types pos r p hr).1 b hb
  refine ⟨fun h => (h₁ h).imp_right fun ⟨t, ht, _, hty⟩ => ⟨t, ht, hty⟩, fun h => ⟨h₂ h, fun t ht => ?_⟩⟩
  by_contra hc
  push_neg at hc
  rw [matchAny_run_of_mem ht hc.1 hc.2] at hr
  subst hb h
  cases hr

private theorem stops_of_primary {p : List Token} {next : Token} (h : Stops 7 p next) : Stops 6 p next :=
  ⟨fun j hj => by simp [levelOps_of_le hj], h.2⟩

private theorem stops_of_last {p : List Token} {tok next : Token} (h : tok.type ≠ .identifier) :
    Stops 7 (p ++ [tok]) next :=
  ⟨fun j hj => by simp [levelOps_of_le (by omega : 6 ≤ j)], fun h' => absurd (by simpa using h') h⟩

private theorem previous_sound (pos : Nat) {tok : Token} (h : tokens.get? pos = some tok) :
    Spec (previous tokens) (pos + 1) (fun t p => t = tok ∧ p = pos + 1) fun _ _ => True :=
  (previous_spec tokens (pos + 1)).mono
    (fun t p ⟨hp, _, ht⟩ => ⟨by rw [Nat.add_sub_cancel, h] at ht; exact (Option.some.inj ht).symm, hp⟩)
    fun _ _ _ => trivial

private theorem binaryLoop_sound {k : Nat} {operand : ParseM ExprNode} (hop : ReadsLevel tokens (k + 1) operand) :
    ∀ fuel pos left pl, Derives k pl left → (∀ next, tokens.get? pos = some next → Stops (k + 1) pl next) →
      Spec (binaryLoop tokens (levelOps k) operand fuel left) pos
        (fun t q => ∃ p, tokens.drop pos = p ++ tokens.drop q ∧ Derives k (pl ++ p) t ∧
          ∀ next, tokens.get? q = some next → Stops k (pl ++ p) next) fun _ _ => True
  | 0, _, _, _, _, _ => Spec.throw' trivial
  | fuel + 1, pos, left, pl, hpl, hstop => by
    rw [binaryLoop]
    refine Spec.bind (matchAny_sound (levelOps k) pos) fun b p ⟨htrue, hfalse⟩ => ?_
    cases b with
    | false =>
      obtain ⟨rfl, hno⟩ := hfalse rfl
      rw [if_neg Bool.false_ne_true]
      refine Spec.pure' ⟨[], by simp, by simpa using hpl, fun next hnext => ?_⟩
      rw [List.append_nil]
      refine ⟨fun j hj => ?_, (hstop next hnext).2⟩
      rcases hj.eq_or_lt with rfl | hj
      · exact (hno next hnext).elim (fun h => h ▸ endOfFile_not_mem_levelOps _) id
      · exact (hstop next hnext).1 j hj
    | true =>
      obtain ⟨rfl, op, hget, hop'⟩ := htrue rfl
      rw [if_pos rfl]
      refine Spec.bind (previous_sound pos hget) fun opTok p ⟨hopt, hp⟩ => ?_
      subst opTok hp
      refine Spec.bind (hop (pos + 1)) fun right q ⟨pr, hd, hder, hst⟩ => ?_
      have hst' : ∀ next, tokens.get? q = some next → Stops (k + 1) (pl ++ op :: pr) next := fun next h => by
        simpa using Stops.append (p := pl ++ [op]) hder.ne_nil (hst next h)
      refine (binaryLoop_sound hop fuel q _ (pl ++ op :: pr) (.binary hop' hpl hder) hst').mono
        (fun t q' ⟨p', hd', hder', hst'⟩ => ⟨op :: pr ++ p', ?_, by simpa using hder', by simpa using hst'⟩)
        fun _ _ _ => trivial
      rw [drop_of_get? hget, hd, hd']
      simp

private theorem binaryLevel_sound {k : Nat} {operand : ParseM ExprNode} (hk : k < 6)
    (hop : ReadsLevel tokens (k + 1) operand) (fuel : Nat) :
    ReadsLevel tokens k (binaryLevel tokens (levelOps k) operand fuel) := fun pos =>
  Spec.bind (hop pos) fun left q ⟨p₀, hd₀, hder₀, hst₀⟩ =>
    (binaryLoop_sound hop fuel q left p₀ (.lower (by omega) hder₀) hst₀).mono
      (fun _ _ ⟨p, hd, hder, hst⟩ => ⟨p₀ ++ p, by rw [hd₀, hd, List.append_assoc], hder, hst⟩)
      fun _ _ _ => trivial

private theorem argumentsLoop_sound {expression : ParseM ExprNode} (hexpr : ReadsLevel tokens 0 expression) :
    ∀ fuel pos arguments, Spec (argumentsLoop tokens expression fuel arguments) pos
      (fun args q => ∃ p t chain, tokens.drop pos = p ++ chainTokens chain ++ tokens.drop q ∧
        Derives 0 p t ∧ (∀ c ∈ chain, c.1.type = .comma) ∧ (∀ c ∈ chain, Derives 0 c.2.1 c.2.2) ∧
        args = arguments ++ t :: chain.map fun c => c.2.2) fun _ _ => True
  | 0, _, _ => Spec.throw' trivial
  | fuel + 1, pos, arguments => by
    rw [argumentsLoop]
    refine Spec.bind (hexpr pos) fun t q ⟨p, hd, hder, _⟩ => ?_
    refine Spec.bind (matchToken_sound .comma q) fun b q' ⟨htrue, hfalse⟩ => ?_
    cases b with
    | false =>
      obtain ⟨rfl, -⟩ := hfalse rfl
      rw [if_neg Bool.false_ne_true]
      exact Spec.pure' ⟨p, t, [], by simpa [chainTokens] using hd, hder, by simp, by simp, by simp⟩
    | true =>
      obtain ⟨rfl, comma, hget, hcomma⟩ := htrue rfl
      rw [if_pos rfl]
      refine (argumentsLoop_sound hexpr fuel (q + 1) _).mono
        (fun args q' ⟨p', t', chain, hd', hder', hcs, hds, hargs⟩ =>
          ⟨p, t, (comma, p', t') :: chain, ?_, hder, ?_, ?_, by simp [hargs]⟩) fun _ _ _ => trivial
      · rw [hd, drop_of_get? hget, hd']
        simp [chainTokens]
      · exact List.forall_mem_cons.mpr ⟨hcomma, hcs⟩
      · exact List.forall_mem_cons.mpr ⟨hder', hds⟩

/-- Every parse function at fuel `n`, from any position, returns only the tree of a phrase of its
level, ended by the token after it; `parseCallOrVariable` is called on an identifier. -/
structure Sound (tokens : List Token) (n : Nat) : Prop where
  expression : ReadsLevel tokens 0 (parseExpression tokens n)
  logicalOr : ReadsLevel tokens 0 (parseLogicalOr tokens n)
  logicalAnd : ReadsLevel tokens 1 (parseLogicalAnd tokens n)
  equality : ReadsLevel tokens 2 (parseEquality tokens n)
  comparison : ReadsLevel tokens 3 (parseComparison tokens n)
  additive : ReadsLevel tokens 4 (parseAdditive tokens n)
  multiplicative : ReadsLevel tokens 5 (parseMultiplicative tokens n)
  unary : ReadsLevel tokens 6 (parseUnary tokens n)
  primary : ReadsLevel tokens 7 (parsePrimary tokens n)
  callOrVariable : ∀ pos, (∀ t, peekAt tokens pos = some t → t.type = .identifier) →
    Spec (parseCallOrVariable tokens n) pos (Parsed tokens 7 pos) fun _ _ => True

variable {n : Nat}

private theorem sound_zero : Sound tokens 0 where
  expression _ := Spec.throw' trivial
  logicalOr _ := Spec.throw' trivial
  logicalAnd _ := Spec.throw' trivial
  equality _ := Spec.throw' trivial
  comparison _ := Spec.throw' trivial
  additive _ := Spec.throw' trivial
  multiplicative _ := Spec.throw' trivial
  unary _ := Spec.throw' trivial
  primary _ := Spec.throw' trivial
  callOrVariable _ _ := Spec.throw' trivial

private theorem parseUnary_sound (hs : Sound tokens n) : ReadsLevel tokens 6 (parseUnary tokens (n + 1)) := by
  intro pos
  rw [parseUnary]
  simp only [pure_bind]
  refine Spec.bind (matchAny_sound _ pos) fun b p ⟨htrue, hfalse⟩ => ?_
  cases b with
  | false =>
    obtain ⟨rfl, -⟩ := hfalse rfl
    rw [if_neg Bool.false_ne_true]
    exact (hs.primary p).mono (fun _ _ ⟨p', hd, hder, hst⟩ =>
      ⟨p', hd, .lower (by decide) hder, fun next h => stops_of_primary (hst next h)⟩) fun _ _ _ => trivial
  | true =>
    obtain ⟨rfl, op, hget, hop⟩ := htrue rfl
    rw [if_pos rfl]
    refine Spec.bind (previous_sound pos hget) fun opTok p ⟨hopt, hp⟩ => ?_
    subst opTok hp
    refine Spec.bind (hs.unary (pos + 1)) fun _ _ ⟨p', hd, hder, hst⟩ => Spec.pure'
      ⟨op :: p', ?_, .unary hop hder, fun next h => Stops.append (p := [op]) hder.ne_nil (hst next h)⟩
    rw [drop_of_get? hget, hd, List.cons_append]

private theorem parsed_single {pos : Nat} {tok : Token} {t : ExprNode} (hget : tokens.get? pos = some tok)
    (hder : Derives 7 [tok] t) (h : tok.type ≠ .identifier) : Parsed tokens 7 pos t (pos + 1) :=
  ⟨[tok], by rw [drop_of_get? hget]; rfl, hder, fun _ _ => stops_of_last (p := []) h⟩

private theorem parsePrimary_sound (hs : Sound tokens n) : ReadsLevel tokens 7 (parsePrimary tokens (n + 1)) := by
  intro pos
  rw [parsePrimary]
  simp only [pure_bind, bind_pure]
  refine Spec.bind (matchToken_sound .integer pos) fun b p ⟨htrue, hfalse⟩ => ?_
  cases b with
  | true =>
    obtain ⟨rfl, tok, hget, hty⟩ := htrue rfl
    rw [if_pos rfl]
    refine Spec.bind (previous_sound pos hget) fun tok' p ⟨htok, hp⟩ => ?_
    subst tok' hp
    exact Spec.pure' (parsed_single hget (.integer hty) (by rw [hty]; decide))
  | false =>
  obtain ⟨hp, -⟩ := hfalse rfl
  subst p
  rw [if_neg Bool.false_ne_true]
  refine Spec.bind (matchToken_sound .string pos) fun b p ⟨htrue, hfalse⟩ => ?_
  cases b with
  | true =>
    obtain ⟨rfl, tok, hget, hty⟩ := htrue rfl
    rw [if_pos rfl]
    refine Spec.bind (previous_sound pos hget) fun tok' p ⟨htok, hp⟩ => ?_
    subst tok' hp
    exact Spec.pure' (parsed_single hget (.string hty) (by rw [hty]; decide))
  | false =>
  obtain ⟨hp, -⟩ := hfalse rfl
  subst p
  rw [if_neg Bool.false_ne_true]
  refine Spec.bind (matchToken_sound .lparen pos) fun b p ⟨htrue, hfalse⟩ => ?_
  cases b with
  | true =>
    obtain ⟨rfl, l, hgetl, hl⟩ := htrue rfl
    rw [if_pos rfl]
    refine Spec.bind (hs.expression (pos + 1)) fun _ q ⟨p', hd, hder, _⟩ => ?_
    refine Spec.bind ((expect_spec tokens .rparen _ q).mono (fun _ _ h => h) fun _ _ _ => trivial)
      fun _ q' ⟨hq', r, hgetr, _, hr⟩ => ?_
    subst hq'
    refine Spec.pure' ⟨l :: (p' ++ [r]), ?_, .paren hl hder hr,
      fun _ _ => stops_of_last (p := l :: p') (by rw [hr]; decide)⟩
    rw [drop_of_get? hgetl, hd, drop_of_get? hgetr]
    simp
  | false =>
  obtain ⟨hp, -⟩ := hfalse rfl
  subst p
  rw [if_neg Bool.false_ne_true]
  refine Spec.bind ((check_spec tokens .identifier pos).mono (fun _ _ h => h) fun _ _ _ => trivial)
    fun b p ⟨hp, t, ht, hb⟩ => ?_
  subst hp
  cases b with
  | true =>
    rw [if_pos rfl]
    exact hs.callOrVariable _ fun t' ht' => by
      rw [ht] at ht'
      exact Option.some.inj ht' ▸ (hb.1 rfl).2
  | false =>
    rw [if_neg Bool.false_ne_true]
    exact Spec.bind (Spec.any _ _) fun _ _ _ => Spec.throw' trivial

private theorem parseCallOrVariable_sound (hs : Sound tokens n) (pos : Nat)
    (hid : ∀ t, peekAt tokens pos = some t → t.type = .identifier) :
    Spec (parseCallOrVariable tokens (n + 1)) pos (Parsed tokens 7 pos) fun _ _ => True := by
  rw [parseCallOrVariable]
  simp only [pure_bind, bind_assoc]
  refine Spec.bind ((consume_spec tokens pos).mono (fun _ _ h => h) fun _ _ _ => trivial)
    fun name p ⟨t, ht, hp, hname⟩ => ?_
  have hty := hid t ht
  rw [if_neg (by rw [hty]; decide)] at hp
  subst hp
  rw [Nat.add_sub_cancel] at hname
  obtain rfl : name = t := Option.some.inj ((peekAt_of_get? tokens hname).symm.trans ht)
  refine Spec.bind (matchToken_sound .lparen (pos + 1)) fun b p ⟨htrue, hfalse⟩ => ?_
  cases b with
  | false =>
    obtain ⟨rfl, hno⟩ := hfalse rfl
    rw [if_neg Bool.false_ne_true]
    refine Spec.pure' ⟨[name], by rw [drop_of_get? hname]; rfl, .ident hty, fun next h =>
      ⟨fun j hj => by simp [levelOps_of_le (by omega : 6 ≤ j)], fun _ => ?_⟩⟩
    rcases hno next h with h' | h'
    · rw [h']; decide
    · exact h'
  | true =>
    obtain ⟨rfl, l, hgetl, hl⟩ := htrue rfl
    rw [if_pos rfl]
    refine Spec.bind ((check_spec tokens .rparen (pos + 1 + 1)).mono (fun _ _ h => h.1) fun _ _ _ => trivial)
      fun b p hp => ?_
    subst hp
    cases b with
    | true =>
      rw [if_pos rfl]
      refine Spec.bind ((expect_spec tokens .rparen _ _).mono (fun _ _ h => h) fun _ _ _ => trivial)
        fun _ q ⟨hq, r, hgetr, _, hr⟩ => ?_
      subst hq
      refine Spec.pure' ⟨[name, l, r], ?_, .callEmpty hty hl hr,
        fun _ _ => stops_of_last (p := [name, l]) (by rw [hr]; decide)⟩
      rw [drop_of_get? hname, drop_of_get? hgetl, drop_of_get? hgetr]
      rfl
    | false =>
      rw [if_neg Bool.false_ne_true]
      refine Spec.bind (argumentsLoop_sound hs.expression n _ [])
        fun _ q ⟨p', t', chain, hd, hder, hcs, hds, hargs⟩ => ?_
      subst hargs
      refine Spec.bind ((expect_spec tokens .rparen _ _).mono (fun _ _ h => h) fun _ _ _ => trivial)
        fun _ q' ⟨hq', r, hgetr, _, hr⟩ => ?_
      subst hq'
      refine Spec.pure' ⟨name :: l :: (p' ++ chainTokens chain ++ [r]), ?_,
        by simpa only [List.nil_append] using Derives.call hty hl hder hcs hds hr,
        fun _ _ => stops_of_last (p := name :: l :: (p' ++ chainTokens chain)) (by rw [hr]; decide)⟩
      rw [drop_of_get? hname, drop_of_get? hgetl, hd, drop_of_get? hgetr]
      simp

theorem Sound.succ (hs : Sound tokens n) : Sound tokens (n + 1) where
  expression := hs.logicalOr
  logicalOr := binaryLevel_sound (k := 0) (by decide) hs.logicalAnd n
  logicalAnd := binaryLevel_sound (k := 1) (by decide) hs.equality n
  equality := binaryLevel_sound (k := 2) (by decide) hs.comparison n
  comparison := binaryLevel_sound (k := 3) (by decide) hs.additive n
  additive := binaryLevel_sound (k := 4) (by decide) hs.multiplicative n
  multiplicative := binaryLevel_sound (k := 5) (by decide) hs.unary n
  unary := parseUnary_sound hs
  primary := parsePrimary_sound hs
  callOrVariable := parseCallOrVariable_sound hs

private theorem sound : ∀ n, Sound tokens n
  | 0 => sound_zero
  | n + 1 => (sound n).succ

end Sound

/-! ### The grammar and `parseExpression` -/

theorem Derives.tree_unique {p : List Token} {t t' : ExprNode} (h : Derives 0 p t) (h' : Derives 0 p t') :
    t = t' := by
  let eof : Token := ⟨.endOfFile, [], {}, 0⟩
  have hstop : Stops 0 p eof := ⟨fun j _ => endOfFile_not_mem_levelOps j, fun _ => by decide⟩
  have run : ∀ t, Derives 0 p t →
      (parseExpression (p ++ [eof]) (11 * p.length + 10)).run.run 0 = (.ok t, 0 + p.length) :=
    fun t h => (complete _).expression 0 p t eof [] rfl h hstop (by omega)
  exact Except.ok.inj (congrArg Prod.fst ((run t h).symm.trans (run t' h')))

section Agreement

variable {tokens : List Token} {e : Nat}

private theorem length_le_of_derives (he : FirstEof tokens e) {pos k : Nat} {p rest : List Token} {t : ExprNode}
    (hpos : pos ≤ e) (hd : tokens.drop pos = p ++ rest) (hder : Derives k p t) : p.length ≤ e - pos := by
  by_contra hlt
  obtain ⟨eof, hget, heof⟩ := he.eof
  have hp : p[e - pos]? = some eof := by
    rw [← @List.getElem?_append_left _ p rest _ (by omega), ← hd, List.getElem?_drop,
      Nat.add_sub_cancel' hpos, ← List.get?_eq_getElem?, hget]
  exact hder.not_eof eof (List.getElem?_mem hp) heof

private theorem exists_get?_of_le (he : FirstEof tokens e) {q : Nat} (hq : q ≤ e) : ∃ next, tokens.get? q = some next := by
  obtain ⟨_, hget, _⟩ := he.eof
  exact ⟨_, List.get?_eq_get (lt_of_le_of_lt hq (List.get?_eq_some.1 hget).1)⟩

/-- `parseExpression` with enough fuel, from a position at or before the first END_OF_FILE of
the vector: on a phrase of the grammar ended by the token after it, it returns the phrase's tree
and stops after the phrase; where there is no such phrase, it raises a `ParseError`; and no
phrase has two trees. -/
theorem parseExpression_follows_grammar (he : FirstEof tokens e) {pos n : Nat} (hpos : pos ≤ e)
    (hn : 11 * (e - pos) + 9 < n) :
    (∀ p t next rest, tokens.drop pos = p ++ next :: rest → Derives 0 p t → Stops 0 p next →
      (parseExpression tokens n).run.run pos = (.ok t, pos + p.length)) ∧
    ((¬∃ p t next rest, tokens.drop pos = p ++ next :: rest ∧ Derives 0 p t ∧ Stops 0 p next) →
      ∃ message location q,
        (parseExpression tokens n).run.run pos = (.error (.parseError message location), q)) ∧
    ∀ p t t', Derives 0 p t → Derives 0 p t' → t = t' := by
  refine ⟨fun p t next rest hd hder hstop => (complete n).expression pos p t next rest hd hder hstop
    (by have := length_le_of_derives he hpos hd hder; omega), fun hno => ?_,
    fun _ _ _ h h' => h.tree_unique h'⟩
  have hw := (enough he n).expression pos hpos hn
  rcases hrun : (parseExpression tokens n).run.run pos with ⟨_ | t, q⟩
  · obtain ⟨⟨message, location, rfl⟩, -⟩ := (hw _ _ hrun).2 _ rfl
    exact ⟨message, location, q, rfl⟩
  · obtain ⟨-, hqe, -⟩ := (hw _ _ hrun).1 t rfl
    obtain ⟨p, hd, hder, hst⟩ := ((sound n).expression pos _ _ hrun).1 t rfl
    obtain ⟨next, hget⟩ := exists_get?_of_le he hqe
    exact absurd ⟨p, t, next, _, by rw [hd, drop_of_get? hget], hder, hst next hget⟩ hno

/-- `a + b * c` before END_OF_FILE: the product binds tighter and is the right operand of the sum. -/
theorem parseExpression_follows_grammar_sum_product :
    (parseExpression [⟨.identifier, ['a'], {}, 0⟩, ⟨.plus, ['+'], {}, 0⟩, ⟨.identifier, ['b'], {}, 0⟩,
      ⟨.star, ['*'], {}, 0⟩, ⟨.identifier, ['c'], {}, 0⟩, ⟨.endOfFile, [], {}, 0⟩] 65).run.run 0 =
      (.ok (.binaryOpExpr .plus (.variableExpr ['a'] {})
        (.binaryOpExpr .star (.variableExpr ['b'] {}) (.variableExpr ['c'] {}) {}) {}), 5) := by
  have ha : Derives 4 [⟨.identifier, ['a'], {}, 0⟩] (.variableExpr ['a'] {}) :=
    .lower (by decide) <| .lower (by decide) <| .lower (by decide) <| .ident rfl
  have hbc : Derives 5 [⟨.identifier, ['b'], {}, 0⟩, ⟨.star, ['*'], {}, 0⟩, ⟨.identifier, ['c'], {}, 0⟩]
      (.binaryOpExpr .star (.variableExpr ['b'] {}) (.variableExpr ['c'] {}) {}) :=
    @Derives.binary 5 [_] [_] _ _ _ (by decide) (.lower (by decide) <| .lower (by decide) <| .ident rfl)
      (.lower (by decide) <| .ident rfl)
  exact (parseExpression_follows_grammar (firstEof_spec (by decide)) (Nat.zero_le _) (by decide)).1 _ _ _ []
    rfl (.lower (by decide) <| .lower (by decide) <| .lower (by decide) <| .lower (by decide) <|
      @Derives.binary 4 [_] _ _ _ _ (by decide) ha hbc)
    ⟨fun j _ => endOfFile_not_mem_levelOps j, fun _ => by decide⟩

/-- Without END_OF_FILE, `f (` begins with no phrase of the grammar, and `parseExpression`, with
any fuel past 20, reads past the end of the vector instead of raising a `ParseError`. -/
theorem parseExpression_reads_past_end :
    (¬∃ p t next rest, [⟨.identifier, ['f'], {}, 0⟩, ⟨.lparen, ['('], {}, 0⟩] = p ++ next :: rest ∧
      Derives 0 p t ∧ Stops 0 p next) ∧
    ∀ n, (parseExpression [⟨.identifier, ['f'], {}, 0⟩, ⟨.lparen, ['('], {}, 0⟩] (n + 20)).run.run 0 =
      (.error .outOfBounds, 3) := by
  refine ⟨?_, fun _ => rfl⟩
  rintro ⟨p, t, next, rest, hd, hder, hstop⟩
  match p, hd with
  | [], _ => exact hder.ne_nil rfl
  | [_], hd =>
    obtain ⟨rfl, rfl, -⟩ := by simpa using hd
    exact hstop.2 rfl rfl
  | _ :: _ :: _, hd => simp at hd

end Agreement

end AriaShell.Parser
