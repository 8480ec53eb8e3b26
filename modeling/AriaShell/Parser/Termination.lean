import AriaShell.Parser.Spec
/-! `parseProgram` returns on every token vector whose last token is END_OF_FILE: it raises
nothing, so no access out of the vector's bounds and no spent fuel, and it leaves `current_` at or
before the first END_OF_FILE. `Within e E x pos Q` says that every run of `x` from `pos` ends
between `pos` and `e`, the index of the first END_OF_FILE, and raises only faults with `E`: a
`ParseError` in the descent, nothing in `parseProgram`'s loop, which catches those.

The measure is the number `e - pos` of tokens left before the first END_OF_FILE. The functions of
the descent have ranks, from `parseStatement` (10) and `parseExpression` (9) down through the six
binary levels, `parseUnary` (2) and `parsePrimary` (1) to the statement parsers and
`parseCallOrVariable` (0). Each calls a function of lower rank at its own position, or one of any
rank after consuming a token, so fuel above `11 * (e - pos) + h` is enough at rank `h`. Each loop
consumes a token an iteration and gets fuel above `e - pos`. -/
namespace AriaShell.Parser

/-- The first END_OF_FILE of `tokens` is at index `e`. -/
structure FirstEof (tokens : List Token) (e : Nat) : Prop where
  eof : ∃ t, tokens.get? e = some t ∧ t.type = .endOfFile
  before : ∀ i < e, ∀ t, tokens.get? i = some t → t.type ≠ .endOfFile

/-- A `ParseError`, the exception `parseProgram` catches. -/
def ParseFault.IsParseError (f : ParseFault) : Prop := ∃ message location, f = .parseError message location

/-- Every run of `x` from `pos` ends at some `p` with `pos ≤ p ≤ e`, returning `a` with `Q a p`
or raising a fault with `E`. -/
def Within (e : Nat) (E : ParseFault → Prop) {α : Type} (x : ParseM α) (pos : Nat)
    (Q : α → Nat → Prop) : Prop :=
  Spec x pos (fun a p => pos ≤ p ∧ p ≤ e ∧ Q a p) (fun f p => E f ∧ pos ≤ p ∧ p ≤ e)

namespace Within

variable {e : Nat} {E : ParseFault → Prop} {α β : Type} {x : ParseM α} {pos : Nat}
  {Q : α → Nat → Prop}

theorem pure' {a : α} (hpos : pos ≤ e) (h : Q a pos) : Within e E (pure a) pos Q :=
  Spec.pure' ⟨le_rfl, hpos, h⟩

theorem throw' {f : ParseFault} (hpos : pos ≤ e) (h : E f) : Within e E (throw f : ParseM α) pos Q :=
  Spec.throw' ⟨h, le_rfl, hpos⟩

theorem mono {E' : ParseFault → Prop} {Q' : α → Nat → Prop} (h : Within e E x pos Q)
    (hQ : ∀ a p, pos ≤ p → Q a p → Q' a p) (hE : ∀ f, E f → E' f) : Within e E' x pos Q' :=
  Spec.mono h (fun a p ⟨h₁, h₂, hq⟩ => ⟨h₁, h₂, hQ a p h₁ hq⟩)
    fun f _ ⟨hf, h₁, h₂⟩ => ⟨hE f hf, h₁, h₂⟩

/-- The rule for `>>=`: the continuation runs from where `x` returned. -/
theorem bind {f : α → ParseM β} {R : β → Nat → Prop} (hx : Within e E x pos Q)
    (hf : ∀ a p, pos ≤ p → p ≤ e → Q a p → Within e E (f a) p R) : Within e E (x >>= f) pos R :=
  Spec.bind hx fun a p ⟨h₁, h₂, hq⟩ => Spec.mono (hf a p h₁ h₂ hq)
    (fun _ _ ⟨h₃, h₄, hr⟩ => ⟨h₁.trans h₃, h₄, hr⟩)
    fun _ _ ⟨hE, h₃, h₄⟩ => ⟨hE, h₁.trans h₃, h₄⟩

theorem ite' {c : Prop} [Decidable c] {y : ParseM α} (ht : c → Within e E x pos Q)
    (he : ¬c → Within e E y pos Q) : Within e E (if c then x else y) pos Q :=
  Spec.ite' ht he

theorem map {g : α → β} {R : β → Nat → Prop} (h : Within e E x pos Q) (hg : ∀ a p, Q a p → R (g a) p) :
    Within e E (g <$> x) pos R :=
  Spec.map h fun a p ⟨h₁, h₂, hq⟩ => ⟨h₁, h₂, hg a p hq⟩

theorem discard' (h : Within e E x pos Q) : Within e E (discard x) pos (fun _ p => ∃ a, Q a p) :=
  map h fun a _ h => ⟨a, h⟩

variable {t : ParseM Bool} {y : ParseM α}

private theorem test_ite (ht : Within e E t pos fun b p => p = pos ∧ (b = true → pos < e))
    (hx : pos < e → Within e E x pos Q) (hy : Within e E y pos Q) :
    Within e E (t >>= fun b => if b = true then x else y) pos Q :=
  bind ht fun b p _ _ ⟨hp, hb⟩ => by
    subst hp
    cases b with
    | true => exact hx (hb rfl)
    | false => exact hy

private theorem match_ite (ht : Within e E t pos fun b p => (b = true → p = pos + 1) ∧ (b = false → p = pos))
    (hx : pos < e → Within e E x (pos + 1) Q) (hy : Within e E y pos Q) :
    Within e E (t >>= fun b => if b = true then x else y) pos Q :=
  bind ht fun b p _ hp ⟨h₁, h₂⟩ => by
    cases b with
    | true => obtain rfl := h₁ rfl; exact hx (by omega)
    | false => obtain rfl := h₂ rfl; exact hy

end Within

section Primitives

variable {tokens : List Token} {e : Nat} (he : FirstEof tokens e) {E : ParseFault → Prop} {pos : Nat}
include he

theorem FirstEof.lt_length : e < tokens.length := by
  obtain ⟨t, ht, -⟩ := he.eof
  by_contra h
  rw [List.get?_eq_none.2 (not_lt.1 h)] at ht
  cases ht

/-- Up to the first END_OF_FILE every index holds a token, END_OF_FILE only at `e`. -/
theorem FirstEof.token (hpos : pos ≤ e) :
    ∃ t, tokens.get? pos = some t ∧ peekAt tokens pos = some t ∧ (t.type = .endOfFile ↔ pos = e) := by
  have ht := List.get?_eq_get (lt_of_le_of_lt hpos he.lt_length)
  refine ⟨_, ht, peekAt_of_get? tokens ht, fun h => ?_, fun h => ?_⟩
  · exact hpos.eq_or_lt.resolve_right fun hlt => he.before pos hlt _ ht h
  · obtain ⟨t', ht', heof⟩ := he.eof
    subst h
    rw [ht] at ht'
    cases ht'
    exact heof

theorem FirstEof.not_beyond (hpos : pos ≤ e) : ¬tokens.length ≤ pos :=
  fun h => absurd (lt_of_le_of_lt hpos he.lt_length) (not_lt.2 h)

private theorem peek_within (k : Nat) (hpos : pos ≤ e) :
    Within e E (peek tokens k) pos (fun _ p => p = pos) :=
  (peek_spec tokens k pos).mono (fun _ _ ⟨hp, _⟩ => ⟨by omega, by omega, hp⟩)
    fun _ _ ⟨_, h⟩ => absurd (length_le_of_peekAt tokens h pos) (he.not_beyond hpos)

private theorem peek_zero_within (hpos : pos ≤ e) :
    Within e E (peek tokens 0) pos (fun t p => p = pos ∧ (t.type = .endOfFile ↔ pos = e)) := by
  obtain ⟨t, -, ht, heof⟩ := he.token hpos
  refine (peek_spec tokens 0 pos).mono (fun t' p ⟨hp, ht'⟩ => ⟨by omega, by omega, hp, ?_⟩)
    fun _ _ ⟨_, h⟩ => absurd (length_le_of_peekAt tokens h pos) (he.not_beyond hpos)
  rw [Nat.add_zero, ht] at ht'
  cases ht'
  exact heof

private theorem isAtEnd_within (hpos : pos ≤ e) :
    Within e E (isAtEnd tokens) pos (fun b p => p = pos ∧ (b = true ↔ pos = e)) :=
  Within.bind (peek_zero_within he hpos) fun _ _ _ hp' ⟨hp, heof⟩ =>
    Within.pure' hp' ⟨hp, beq_iff_eq.trans heof⟩

private theorem peeking_within {x : ParseM Bool} (hpos : pos ≤ e)
    (h : Spec x pos (fun b p => p = pos ∧ (b = true → ∃ t, peekAt tokens pos = some t ∧ t.type ≠ .endOfFile))
      (Beyond tokens pos)) :
    Within e E x pos (fun b p => p = pos ∧ (b = true → pos < e)) := by
  obtain ⟨t, -, ht, heof⟩ := he.token hpos
  refine h.mono (fun b p ⟨hp, hb⟩ => ⟨by omega, by omega, hp, fun h => ?_⟩)
    fun _ _ h => absurd h (he.not_beyond hpos)
  obtain ⟨t', ht', hne⟩ := hb h
  cases ht.symm.trans ht'
  exact lt_of_le_of_ne hpos (heof.not.1 hne)

private theorem check_within (type : TokenType) (hpos : pos ≤ e) :
    Within e E (check tokens type) pos (fun b p => p = pos ∧ (b = true → pos < e)) :=
  peeking_within he hpos <| (check_spec tokens type pos).mono
    (fun _ _ ⟨hp, t, ht, hb⟩ => ⟨hp, fun h => ⟨t, ht, (hb.1 h).1⟩⟩) fun _ _ h => h

private theorem checkAny_within (types : List TokenType) (hpos : pos ≤ e) :
    Within e E (checkAny tokens types) pos (fun b p => p = pos ∧ (b = true → pos < e)) :=
  peeking_within he hpos <| (checkAny_spec tokens types pos).mono
    (fun _ _ ⟨hp, hb⟩ => ⟨hp, fun h => (hb h).imp fun _ ⟨ht, hne, _⟩ => ⟨ht, hne⟩⟩) fun _ _ h => h

private theorem consume_within (hlt : pos < e) : Within e E (consume tokens) pos (fun _ p => p = pos + 1) := by
  obtain ⟨t, -, ht, heof⟩ := he.token hlt.le
  have hne : t.type ≠ .endOfFile := fun h => absurd (heof.1 h) hlt.ne
  refine (consume_spec tokens pos).mono (fun _ p ⟨t', ht', hp, _⟩ => ?_)
    fun _ _ h => absurd (h t ht hne) (he.not_beyond hlt.le)
  cases ht.symm.trans ht'
  rw [if_neg hne] at hp
  exact ⟨by omega, by omega, hp⟩

private theorem consuming_within {x : ParseM Bool} {P : Token → Prop} (hpos : pos ≤ e)
    (h : Spec x pos (fun b p => (b = true → p = pos + 1 ∧
      ∃ t, tokens.get? pos = some t ∧ t.type ≠ .endOfFile ∧ P t) ∧ (b = false → p = pos))
      (Beyond tokens pos)) :
    Within e E x pos (fun b p => (b = true → p = pos + 1) ∧ (b = false → p = pos)) := by
  obtain ⟨t, htok, -, heof⟩ := he.token hpos
  refine h.mono (fun b p ⟨h₁, h₂⟩ => ?_) fun _ _ h => absurd h (he.not_beyond hpos)
  cases b with
  | true =>
    obtain ⟨hp, t', ht', hne, -⟩ := h₁ rfl
    cases htok.symm.trans ht'
    have := heof.not.1 hne
    exact ⟨by omega, by omega, fun _ => hp, nofun⟩
  | false =>
    have hp := h₂ rfl
    exact ⟨by omega, by omega, nofun, fun _ => hp⟩

private theorem matchToken_within (type : TokenType) (hpos : pos ≤ e) :
    Within e E (matchToken tokens type) pos
      (fun b p => (b = true → p = pos + 1) ∧ (b = false → p = pos)) :=
  consuming_within he hpos (matchToken_spec tokens type pos)

private theorem matchAny_within (types : List TokenType) (hpos : pos ≤ e) :
    Within e E (matchAny tokens types) pos
      (fun b p => (b = true → p = pos + 1) ∧ (b = false → p = pos)) :=
  consuming_within he hpos (matchAny_spec tokens types pos)

private theorem expect_within (type : TokenType) (message : List Char) (hpos : pos ≤ e) :
    Within e ParseFault.IsParseError (expect tokens type message) pos (fun _ p => p = pos + 1) := by
  obtain ⟨t, htok, -, heof⟩ := he.token hpos
  refine (expect_spec tokens type message pos).mono (fun _ p ⟨hp, t', ht', hne, _⟩ => ?_)
    fun f p h => ?_
  · cases htok.symm.trans ht'
    have := heof.not.1 hne
    exact ⟨by omega, by omega, hp⟩
  · obtain ⟨hp, location, rfl⟩ := h.resolve_left (he.not_beyond hpos)
    exact ⟨⟨_, _, rfl⟩, by omega, by omega⟩

private theorem previous_within (h0 : 0 < pos) (hpos : pos ≤ e) :
    Within e E (previous tokens) pos (fun _ p => p = pos) := by
  obtain ⟨t, htok, -⟩ := he.token (show pos - 1 ≤ e by omega)
  refine (previous_spec tokens pos).mono (fun _ _ ⟨hp, _⟩ => ⟨by omega, by omega, hp⟩)
    fun _ _ ⟨_, h⟩ => ?_
  rcases h with h | h
  · omega
  · nomatch htok.symm.trans h

private theorem isTypeKeyword_within (hpos : pos ≤ e) :
    Within e E (isTypeKeyword tokens) pos (fun b p => p = pos ∧ (b = true → pos < e)) :=
  Within.bind (peek_zero_within he hpos) fun t _ _ _ ⟨hp, heof⟩ => Within.pure' (by omega)
    ⟨hp, fun h => lt_of_le_of_ne hpos fun h' => absurd h (by rw [heof.2 h']; decide)⟩

private theorem isAssignmentAhead_within (hpos : pos ≤ e) :
    Within e E (isAssignmentAhead tokens) pos (fun b p => p = pos ∧ (b = true → pos < e)) :=
  Within.test_ite (check_within he .identifier hpos)
    (fun hlt => Within.bind (peek_within he 1 hpos) fun _ _ _ _ hp => Within.pure' (by omega) ⟨hp, fun _ => hlt⟩)
    (Within.pure' hpos ⟨rfl, nofun⟩)

variable {α : Type} {A B : ParseM α} {R : α → Nat → Prop}

private theorem isAtEnd_ite (hpos : pos ≤ e) (hA : pos = e → Within e E A pos R) (hB : pos < e → Within e E B pos R) :
    Within e E (isAtEnd tokens >>= fun b => if b = true then A else B) pos R :=
  Within.bind (isAtEnd_within he hpos) fun b p _ _ ⟨hp, hb⟩ => by
    subst hp
    cases b with
    | true => exact hA (hb.1 rfl)
    | false => exact hB (lt_of_le_of_ne hpos fun h => nomatch hb.2 h)

private theorem matchToken_discard_pure {a : α} (type : TokenType) (hpos : pos ≤ e)
    (hR : ∀ p, pos ≤ p → p ≤ e → R a p) :
    Within e E (discard (matchToken tokens type) >>= fun _ => pure a) pos R :=
  Within.bind (Within.discard' (matchToken_within he type hpos)) fun _ p hp hp' _ =>
    Within.pure' hp' (hR p hp hp')

end Primitives

/-! ## Loops -/

section Loops

variable {tokens : List Token} {e : Nat} (he : FirstEof tokens e) {E : ParseFault → Prop}
include he

private theorem skipSemicolons_within : ∀ k pos, pos ≤ e → e - pos < k →
    Within e E (skipSemicolons tokens k) pos (fun _ _ => True)
  | 0, _, _, hk => absurd hk (Nat.not_lt_zero _)
  | k + 1, pos, hpos, hk => by
    rw [skipSemicolons]
    exact Within.match_ite (matchToken_within he .semicolon hpos)
      (fun hlt => skipSemicolons_within k (pos + 1) hlt (by omega)) (Within.pure' hpos trivial)

variable {ops : List TokenType} {operand expression : ParseM ExprNode}
  {statement : ParseM (Option StmtNode)} {lo : Nat}

private theorem binaryLoop_within
    (hop : ∀ q, lo ≤ q → q ≤ e → Within e ParseFault.IsParseError operand q (fun _ p => q < p)) :
    ∀ k pos left, lo ≤ pos → pos ≤ e → e - pos < k →
      Within e ParseFault.IsParseError (binaryLoop tokens ops operand k left) pos (fun _ _ => True)
  | 0, _, _, _, _, hk => absurd hk (Nat.not_lt_zero _)
  | k + 1, pos, left, hlo, hpos, hk => by
    rw [binaryLoop]
    exact Within.match_ite (matchAny_within he ops hpos) (fun hlt =>
      Within.bind (previous_within he (by omega) hlt) fun _ p _ hp hq =>
        Within.bind (hop p (by omega) hp) fun _ p' _ hp' hlt' =>
          binaryLoop_within hop k p' _ (by omega) hp' (by omega)) (Within.pure' hpos trivial)

private theorem binaryLevel_within {n pos : Nat}
    (hop : ∀ q, pos ≤ q → q ≤ e → Within e ParseFault.IsParseError operand q (fun _ p => q < p))
    (hpos : pos ≤ e) (hn : e - pos ≤ n) :
    Within e ParseFault.IsParseError (binaryLevel tokens ops operand n) pos (fun _ p => pos < p) :=
  Within.bind (hop pos le_rfl hpos) fun left p _ hp hlt =>
    (binaryLoop_within he hop n p left (by omega) hp (by omega)).mono (fun _ _ h _ => by omega) fun _ h => h

private theorem argumentsLoop_within
    (hexpr : ∀ q, lo ≤ q → q ≤ e → Within e ParseFault.IsParseError expression q (fun _ p => q < p)) :
    ∀ k pos arguments, lo ≤ pos → pos ≤ e → e - pos < k →
      Within e ParseFault.IsParseError (argumentsLoop tokens expression k arguments) pos (fun _ _ => True)
  | 0, _, _, _, _, hk => absurd hk (Nat.not_lt_zero _)
  | k + 1, pos, arguments, hlo, hpos, hk => by
    rw [argumentsLoop]
    exact Within.bind (hexpr pos hlo hpos) fun _ p _ hp hlt =>
      Within.match_ite (matchToken_within he .comma hp)
        (fun hlt' => argumentsLoop_within hexpr k (p + 1) _ (by omega) hlt' (by omega)) (Within.pure' hp trivial)

private theorem blockLoop_within
    (hstmt : ∀ q, lo ≤ q → q ≤ e →
      Within e ParseFault.IsParseError statement q (fun _ p => q < p ∨ p = e)) :
    ∀ k pos statements, lo ≤ pos → pos ≤ e → e - pos < k →
      Within e ParseFault.IsParseError (blockLoop tokens statement k statements) pos (fun _ _ => True)
  | 0, _, _, _, _, hk => absurd hk (Nat.not_lt_zero _)
  | k + 1, pos, statements, hlo, hpos, hk => by
    rw [blockLoop]
    simp only [pure_bind]
    exact Within.test_ite (check_within he .rbrace hpos) (fun _ => Within.pure' hpos trivial) <|
      isAtEnd_ite he hpos (fun _ => Within.pure' hpos trivial) fun hlt =>
        Within.bind (hstmt pos hlo hpos) fun _ p _ hp hadv => blockLoop_within hstmt k p _ (by omega) hp (by omega)

private theorem commandArguments_within : ∀ k pos arguments, pos ≤ e → e - pos < k →
    Within e E (commandArguments tokens k arguments) pos (fun _ _ => True)
  | 0, _, _, _, hk => absurd hk (Nat.not_lt_zero _)
  | k + 1, pos, arguments, hpos, hk => by
    rw [commandArguments]
    exact Within.test_ite (checkAny_within he _ hpos) (fun hlt => Within.bind (consume_within he hlt)
      fun _ p _ hp hq => commandArguments_within k p _ hp (by omega)) (Within.pure' hpos trivial)

private theorem redirectionType_within {pos : Nat} (hpos : pos ≤ e) :
    Within e E (redirectionType tokens) pos (fun _ _ => True) := by
  unfold redirectionType
  simp only [pure_bind]
  refine Within.bind (matchToken_within he .lt hpos) fun _ _ _ hp _ =>
    Within.ite' (fun _ => Within.pure' hp trivial) fun _ => ?_
  refine Within.bind (matchToken_within he .gt hp) fun _ _ _ hp' _ =>
    Within.ite' (fun _ => Within.pure' hp' trivial) fun _ => ?_
  exact Within.bind (Within.discard' (matchToken_within he .redirectAppend hp')) fun _ _ _ hp'' _ =>
    Within.pure' hp'' trivial

private theorem parseRedirections_within : ∀ k pos redirects, pos ≤ e → e - pos < k →
    Within e ParseFault.IsParseError (parseRedirections tokens k redirects) pos (fun _ _ => True)
  | 0, _, _, _, hk => absurd hk (Nat.not_lt_zero _)
  | k + 1, pos, redirects, hpos, hk => by
    rw [parseRedirections]
    refine Within.test_ite (checkAny_within he _ hpos) (fun _ => ?_) (Within.pure' hpos trivial)
    exact Within.bind (redirectionType_within he hpos) fun _ p h₁ hp _ =>
      Within.test_ite (checkAny_within he _ hp)
        (fun hlt => Within.bind (consume_within he hlt) fun _ p' _ hp' hq =>
          parseRedirections_within k p' _ hp' (by omega))
        (Within.bind (peek_within he 0 hp) fun _ _ _ hp' _ => Within.throw' hp' ⟨_, _, rfl⟩)

private theorem parseCommand_within {fuel pos : Nat} (hpos : pos ≤ e) (hfuel : e - pos ≤ fuel) :
    Within e ParseFault.IsParseError (parseCommand tokens fuel) pos (fun _ p => pos < p) := by
  unfold parseCommand
  simp only [pure_bind]
  refine Within.bind (peek_within he 0 hpos) fun _ p _ _ hp =>
    Within.bind (check_within he .identifier (by omega)) fun b p₁ _ _ ⟨hp₁, hb⟩ => ?_
  cases b with
  | false =>
    exact Within.bind (peek_within he 0 (by omega)) fun _ _ _ hp₂ _ => Within.throw' hp₂ ⟨_, _, rfl⟩
  | true =>
    have := hb rfl
    refine Within.bind (consume_within he (by omega)) fun _ p₂ _ hp₂ hq => ?_
    refine Within.bind (commandArguments_within he fuel p₂ [] hp₂ (by omega)) fun _ p₃ h₃ hp₃ _ => ?_
    refine Within.bind (parseRedirections_within he fuel p₃ [] hp₃ (by omega)) fun _ p₄ h₄ hp₄ _ => ?_
    exact Within.bind (matchToken_within he .background hp₄) fun _ p₅ h₅ hp₅ _ =>
      Within.pure' hp₅ (by omega)

private theorem pipelineLoop_within {fuel : Nat} : ∀ k pos commands, pos ≤ e → e - pos < k → e - pos ≤ fuel →
    Within e ParseFault.IsParseError (pipelineLoop tokens fuel k commands) pos (fun _ _ => True)
  | 0, _, _, _, hk, _ => absurd hk (Nat.not_lt_zero _)
  | k + 1, pos, commands, hpos, hk, hfuel => by
    rw [pipelineLoop]
    exact Within.match_ite (matchToken_within he .pipe hpos)
      (fun hlt => Within.bind (parseCommand_within he hlt (by omega)) fun _ p _ hp hlt' =>
        pipelineLoop_within k p _ hp (by omega) (by omega)) (Within.pure' hpos trivial)

private theorem parsePipeline_within {fuel pos : Nat} (hpos : pos ≤ e) (hfuel : e - pos ≤ fuel) :
    Within e ParseFault.IsParseError (parsePipeline tokens fuel) pos (fun _ p => pos < p) :=
  Within.bind (peek_within he 0 hpos) fun _ p _ _ hp =>
    Within.bind (parseCommand_within he (by omega) (by omega)) fun _ p₁ _ hp₁ hlt =>
      Within.bind (pipelineLoop_within he fuel p₁ _ hp₁ (by omega) (by omega)) fun _ p₂ h₂ hp₂ _ =>
        Within.bind (Within.discard' (matchToken_within he .semicolon hp₂)) fun _ p₃ h₃ hp₃ _ =>
          Within.pure' hp₃ (by omega)

private theorem synchronize_within : ∀ k pos, pos ≤ e → e - pos < k →
    Within e E (synchronize tokens k) pos (fun _ _ => True)
  | 0, _, _, hk => absurd hk (Nat.not_lt_zero _)
  | k + 1, pos, hpos, hk => by
    rw [synchronize]
    simp only [pure_bind]
    refine isAtEnd_ite he hpos (fun _ => Within.pure' hpos trivial) fun hlt =>
      Within.bind (peek_within he 0 hpos) fun _ p _ hp hq => Within.ite' (fun _ => ?_) fun _ => Within.pure' hp trivial
    exact Within.bind (Within.discard' (consume_within he (by omega))) fun _ p' _ hp' ⟨_, hq'⟩ =>
      synchronize_within k p' hp' (by omega)

end Loops

/-! ## `parseProgram`'s loop -/

section Program

variable {tokens : List Token} {e : Nat} (he : FirstEof tokens e) {E : ParseFault → Prop}

private theorem catchParseError_within {x : ParseM (Option StmtNode)} {pos : Nat} {Q : Option StmtNode → Nat → Prop}
    (h : Within e ParseFault.IsParseError x pos Q) :
    Within e E (catchParseError x) pos (fun r p => ∀ s, r = some s → Q s p) :=
  Spec.tryCatch' (h.map fun _ _ hq _ hs => by cases hs; exact hq) fun f p ⟨⟨_, _, hf⟩, h₁, h₂⟩ => by
    subst hf
    exact Spec.pure' ⟨h₁, h₂, fun _ h => nomatch h⟩

include he

private theorem programLoop_within {statement : ParseM (Option StmtNode)}
    (hstmt : ∀ q ≤ e, Within e ParseFault.IsParseError statement q (fun _ p => q < p ∨ p = e)) :
    ∀ k pos statements, pos ≤ e → e - pos + 2 ≤ k →
      Within e E (programLoop tokens statement k statements) pos (fun _ _ => True)
  | 0, _, _, _, hk => absurd hk (by omega)
  | k + 1, pos, statements, hpos, hk => by
    rw [programLoop]
    simp only [pure_bind]
    refine isAtEnd_ite he hpos (fun _ => Within.pure' hpos trivial) fun hlt =>
      Within.bind (catchParseError_within (hstmt pos hpos)) fun r p h₁ hp hr => ?_
    cases r with
    | some stmt => exact programLoop_within hstmt k p _ hp (by have := hr stmt rfl; omega)
    | none =>
      exact Within.bind (synchronize_within he k p hp (by omega)) fun _ p' h₂ hp' _ =>
        Within.match_ite (matchToken_within he .semicolon hp')
          (fun hlt' => programLoop_within hstmt k (p' + 1) _ hlt' (by omega)) (Within.pure' hp' trivial)

end Program


/-! ## The descent -/

/-- From every `pos ≤ e` with `11 * (e - pos) + h < n`, `x` returns past `pos` or raises a
`ParseError`, within `e`. -/
def Advances {α : Type} (e h n : Nat) (x : ParseM α) : Prop :=
  ∀ pos ≤ e, 11 * (e - pos) + h < n → Within e ParseFault.IsParseError x pos (fun _ p => pos < p)

/-- The fuel `n` is enough for every function of the descent, at its rank. `parseStatement` may
also return at `e`, the null at END_OF_FILE; `parseCallOrVariable` and `parseVarDecl` begin with
`consume` and are only called before `e`. -/
structure Enough (tokens : List Token) (e n : Nat) : Prop where
  statement : ∀ pos ≤ e, 11 * (e - pos) + 10 < n →
    Within e ParseFault.IsParseError (parseStatement tokens n) pos (fun _ p => pos < p ∨ p = e)
  expression : Advances e 9 n (parseExpression tokens n)
  logicalOr : Advances e 8 n (parseLogicalOr tokens n)
  logicalAnd : Advances e 7 n (parseLogicalAnd tokens n)
  equality : Advances e 6 n (parseEquality tokens n)
  comparison : Advances e 5 n (parseComparison tokens n)
  additive : Advances e 4 n (parseAdditive tokens n)
  multiplicative : Advances e 3 n (parseMultiplicative tokens n)
  unary : Advances e 2 n (parseUnary tokens n)
  primary : Advances e 1 n (parsePrimary tokens n)
  callOrVariable : ∀ pos < e, 11 * (e - pos) < n →
    Within e ParseFault.IsParseError (parseCallOrVariable tokens n) pos (fun _ p => pos < p)
  block : Advances e 0 n (parseBlock tokens n)
  varDecl : ∀ pos < e, 11 * (e - pos) < n →
    Within e ParseFault.IsParseError (parseVarDecl tokens n) pos (fun _ p => pos < p)
  assignment : ∀ varName, Advances e 0 n (parseAssignment tokens n varName)
  ifStmt : Advances e 0 n (parseIf tokens n)
  whileStmt : Advances e 0 n (parseWhile tokens n)
  forStmt : Advances e 0 n (parseFor tokens n)
  returnStmt : Advances e 0 n (parseReturn tokens n)

section Descent

variable {tokens : List Token} {e n : Nat} (he : FirstEof tokens e)

private theorem enough_zero : Enough tokens e 0 where
  statement _ _ h := absurd h (Nat.not_lt_zero _)
  expression _ _ h := absurd h (Nat.not_lt_zero _)
  logicalOr _ _ h := absurd h (Nat.not_lt_zero _)
  logicalAnd _ _ h := absurd h (Nat.not_lt_zero _)
  equality _ _ h := absurd h (Nat.not_lt_zero _)
  comparison _ _ h := absurd h (Nat.not_lt_zero _)
  additive _ _ h := absurd h (Nat.not_lt_zero _)
  multiplicative _ _ h := absurd h (Nat.not_lt_zero _)
  unary _ _ h := absurd h (Nat.not_lt_zero _)
  primary _ _ h := absurd h (Nat.not_lt_zero _)
  callOrVariable _ _ h := absurd h (Nat.not_lt_zero _)
  block _ _ h := absurd h (Nat.not_lt_zero _)
  varDecl _ _ h := absurd h (Nat.not_lt_zero _)
  assignment _ _ _ h := absurd h (Nat.not_lt_zero _)
  ifStmt _ _ h := absurd h (Nat.not_lt_zero _)
  whileStmt _ _ h := absurd h (Nat.not_lt_zero _)
  forStmt _ _ h := absurd h (Nat.not_lt_zero _)
  returnStmt _ _ h := absurd h (Nat.not_lt_zero _)

include he

private theorem binaryLevel_advances {ops : List TokenType} {operand : ParseM ExprNode} {h : Nat}
    (hop : Advances e h n operand) : Advances e (h + 1) (n + 1) (binaryLevel tokens ops operand n) :=
  fun _ hpos hn => binaryLevel_within he (fun q hq hq' => hop q hq' (by omega)) hpos (by omega)

private theorem parseUnary_advances (h : Enough tokens e n) : Advances e 2 (n + 1) (parseUnary tokens (n + 1)) := by
  intro pos hpos hn
  rw [parseUnary]
  simp only [pure_bind]
  refine Within.match_ite (matchAny_within he _ hpos) (fun hlt => ?_) (h.primary pos hpos (by omega))
  exact Within.bind (previous_within he (by omega) (by omega)) fun _ p _ hp hq =>
    Within.bind (h.unary p hp (by omega)) fun _ p₁ _ hp₁ _ => Within.pure' hp₁ (by omega)

private theorem parsePrimary_advances (h : Enough tokens e n) :
    Advances e 1 (n + 1) (parsePrimary tokens (n + 1)) := by
  intro pos hpos hn
  rw [parsePrimary]
  simp only [pure_bind, bind_pure]
  have hliteral : ∀ f : Token → ExprNode, pos < e → Within e ParseFault.IsParseError
      (previous tokens >>= fun tok => pure (f tok)) (pos + 1) (fun _ p => pos < p) := fun _ hlt =>
    Within.bind (previous_within he (by omega) hlt) fun _ p _ hp _ => Within.pure' hp (by omega)
  refine Within.match_ite (matchToken_within he _ hpos) (hliteral _) ?_
  refine Within.match_ite (matchToken_within he _ hpos) (hliteral _) ?_
  refine Within.match_ite (matchToken_within he _ hpos) (fun hlt =>
    Within.bind (h.expression (pos + 1) hlt (by omega)) fun _ p _ hp _ =>
      Within.bind (expect_within he .rparen _ hp) fun _ p₁ _ hp₁ _ => Within.pure' hp₁ (by omega)) ?_
  exact Within.test_ite (check_within he _ hpos) (fun hlt => h.callOrVariable pos hlt (by omega))
    (Within.bind (peek_within he 0 hpos) fun _ _ _ hp _ => Within.throw' hp ⟨_, _, rfl⟩)

private theorem parseCallOrVariable_advances (h : Enough tokens e n) :
    ∀ pos < e, 11 * (e - pos) < n + 1 → Within e ParseFault.IsParseError
      (parseCallOrVariable tokens (n + 1)) pos (fun _ p => pos < p) := by
  intro pos hlt hn
  rw [parseCallOrVariable]
  simp only [pure_bind]
  refine Within.bind (consume_within he hlt) fun tok p _ hp hq =>
    Within.match_ite (matchToken_within he _ hp) (fun hlt' => ?_) (Within.pure' hp (by omega))
  have hclose : ∀ q, p + 1 ≤ q → q ≤ e → ∀ arguments, Within e ParseFault.IsParseError
      (expect tokens .rparen "Expected \x27)\x27 after arguments".toList >>= fun _ =>
        pure (ExprNode.callExpr tok.lexeme arguments tok.location)) q (fun _ p' => pos < p') :=
    fun q hq hq' _ =>
    Within.bind (expect_within he .rparen _ hq') fun _ p₁ _ hp₁ _ => Within.pure' hp₁ (by omega)
  refine Within.test_ite (check_within he _ (by omega)) (fun _ => hclose _ le_rfl (by omega) []) ?_
  exact Within.bind (argumentsLoop_within he (fun q hq hq' => h.expression q hq' (by omega)) n (p + 1) []
    le_rfl (by omega) (by omega)) fun _ q hq hq' _ => hclose q hq hq' _

private theorem parseBlock_advances (h : Enough tokens e n) : Advances e 0 (n + 1) (parseBlock tokens (n + 1)) := by
  intro pos hpos hn
  rw [parseBlock]
  exact Within.bind (peek_within he 0 hpos) fun _ p _ _ hp =>
    Within.bind (expect_within he .lbrace _ (by omega)) fun _ p₁ _ hp₁ hq =>
      Within.bind (blockLoop_within he (fun q hq hq' => h.statement q hq' (by omega)) n p₁ [] le_rfl hp₁
        (by omega)) fun _ p₂ h₂ hp₂ _ =>
          Within.bind (expect_within he .rbrace _ hp₂) fun _ p₃ _ hp₃ _ => Within.pure' hp₃ (by omega)

private theorem parseVarDecl_advances (h : Enough tokens e n) :
    ∀ pos < e, 11 * (e - pos) < n + 1 → Within e ParseFault.IsParseError
      (parseVarDecl tokens (n + 1)) pos (fun _ p => pos < p) := by
  intro pos hlt hn
  rw [parseVarDecl]
  simp only [pure_bind]
  exact Within.bind (peek_within he 0 hlt.le) fun _ p _ _ hp =>
    Within.bind (consume_within he (by omega)) fun _ p₁ _ hp₁ hq₁ =>
      Within.bind (expect_within he _ _ hp₁) fun _ p₂ _ hp₂ hq₂ =>
        Within.bind (previous_within he (by omega) hp₂) fun _ p₃ _ hp₃ hq₃ =>
          Within.match_ite (matchToken_within he _ hp₃)
            (fun _ => Within.bind ((h.expression (p₃ + 1) (by omega) (by omega)).map (R := fun _ _ => True)
                fun _ _ _ => trivial)
              fun _ p₄ h₄ hp₄ _ => matchToken_discard_pure he _ hp₄ fun _ _ _ => by omega)
            (matchToken_discard_pure he _ hp₃ fun _ _ _ => by omega)

private theorem parseAssignment_advances (h : Enough tokens e n) (varName : List Char) :
    Advances e 0 (n + 1) (parseAssignment tokens (n + 1) varName) := by
  intro pos hpos hn
  rw [parseAssignment]
  exact Within.bind (peek_within he 0 hpos) fun _ p _ _ hp =>
    Within.bind (expect_within he _ _ (by omega)) fun _ p₁ _ hp₁ hq₁ =>
      Within.bind (h.expression p₁ hp₁ (by omega)) fun _ p₂ _ hp₂ hq₂ =>
        matchToken_discard_pure he _ hp₂ fun _ _ _ => by omega

private theorem parseIf_advances (h : Enough tokens e n) : Advances e 0 (n + 1) (parseIf tokens (n + 1)) := by
  intro pos hpos hn
  rw [parseIf]
  simp only [pure_bind]
  exact Within.bind (peek_within he 0 hpos) fun _ p _ _ hp =>
    Within.bind (expect_within he _ _ (by omega)) fun _ p₁ _ hp₁ hq₁ =>
      Within.bind (expect_within he _ _ hp₁) fun _ p₂ _ hp₂ hq₂ =>
        Within.bind (h.expression p₂ hp₂ (by omega)) fun _ p₃ _ hp₃ hq₃ =>
          Within.bind (expect_within he _ _ hp₃) fun _ p₄ _ hp₄ hq₄ =>
            Within.bind (h.statement p₄ hp₄ (by omega)) fun _ p₅ h₅ hp₅ _ =>
              Within.match_ite (matchToken_within he _ hp₅)
                (fun _ => Within.bind (h.statement (p₅ + 1) (by omega) (by omega)) fun _ p₆ h₆ hp₆ _ =>
                  Within.pure' hp₆ (by omega))
                (Within.pure' hp₅ (by omega))

private theorem parseWhile_advances (h : Enough tokens e n) :
    Advances e 0 (n + 1) (parseWhile tokens (n + 1)) := by
  intro pos hpos hn
  rw [parseWhile]
  exact Within.bind (peek_within he 0 hpos) fun _ p _ _ hp =>
    Within.bind (expect_within he _ _ (by omega)) fun _ p₁ _ hp₁ hq₁ =>
      Within.bind (expect_within he _ _ hp₁) fun _ p₂ _ hp₂ hq₂ =>
        Within.bind (h.expression p₂ hp₂ (by omega)) fun _ p₃ _ hp₃ hq₃ =>
          Within.bind (expect_within he _ _ hp₃) fun _ p₄ _ hp₄ hq₄ =>
            Within.bind (h.statement p₄ hp₄ (by omega)) fun _ p₅ h₅ hp₅ _ =>
              Within.pure' hp₅ (by omega)

private theorem parseFor_advances (h : Enough tokens e n) : Advances e 0 (n + 1) (parseFor tokens (n + 1)) := by
  intro pos hpos hn
  rw [parseFor]
  exact Within.bind (peek_within he 0 hpos) fun _ p _ _ hp =>
    Within.bind (expect_within he _ _ (by omega)) fun _ p₁ _ hp₁ hq₁ =>
      Within.bind (expect_within he _ _ hp₁) fun _ p₂ _ hp₂ hq₂ =>
        Within.bind (expect_within he _ _ hp₂) fun _ p₃ _ hp₃ hq₃ =>
          Within.bind (previous_within he (by omega) hp₃) fun _ p₄ _ hp₄ hq₄ =>
            Within.bind (expect_within he _ _ hp₄) fun _ p₅ _ hp₅ hq₅ =>
              Within.bind (h.expression p₅ hp₅ (by omega)) fun _ p₆ _ hp₆ hq₆ =>
                Within.bind (expect_within he _ _ hp₆) fun _ p₇ _ hp₇ hq₇ =>
                  Within.bind (h.statement p₇ hp₇ (by omega)) fun _ p₈ h₈ hp₈ _ =>
                    Within.pure' hp₈ (by omega)

private theorem parseReturn_advances (h : Enough tokens e n) :
    Advances e 0 (n + 1) (parseReturn tokens (n + 1)) := by
  intro pos hpos hn
  rw [parseReturn]
  simp only [pure_bind]
  exact Within.bind (peek_within he 0 hpos) fun _ p _ _ hp =>
    Within.bind (expect_within he _ _ (by omega)) fun _ p₁ _ hp₁ hq₁ =>
      Within.bind (check_within he _ hp₁) fun _ p₂ _ hp₂ ⟨hq₂, _⟩ =>
        Within.bind (isAtEnd_within he hp₂) fun _ p₃ _ hp₃ ⟨hq₃, _⟩ =>
          Within.ite'
            (fun _ => Within.bind ((h.expression p₃ hp₃ (by omega)).map (R := fun _ _ => True)
                fun _ _ _ => trivial)
              fun _ p₄ h₄ hp₄ _ => matchToken_discard_pure he _ hp₄ fun _ _ _ => by omega)
            (fun _ => matchToken_discard_pure he _ hp₃ fun _ _ _ => by omega)

private theorem parseStatement_advances (h : Enough tokens e n) :
    ∀ pos ≤ e, 11 * (e - pos) + 10 < n + 1 → Within e ParseFault.IsParseError
      (parseStatement tokens (n + 1)) pos (fun _ p => pos < p ∨ p = e) := by
  intro pos hpos hn
  rw [parseStatement]
  simp only [pure_bind, bind_pure]
  refine Within.bind (skipSemicolons_within he n pos hpos (by omega)) fun _ p h₀ hp _ => ?_
  have lift : ∀ {x : ParseM StmtNode} {q : Nat}, p ≤ q →
      Within e ParseFault.IsParseError x q (fun _ p' => q < p') →
      Within e ParseFault.IsParseError (upcast x) q (fun _ p' => pos < p' ∨ p' = e) :=
    fun hq hx => hx.map fun _ _ hlt => .inl (by omega)
  have hexpr : Within e ParseFault.IsParseError (parseExpression tokens n >>= fun expr =>
      discard (matchToken tokens .semicolon) >>= fun _ => pure (some (StmtNode.exprStmt expr expr.location)))
      p (fun _ p' => pos < p' ∨ p' = e) :=
    Within.bind (h.expression p hp (by omega)) fun _ q _ hq hlt =>
      matchToken_discard_pure he _ hq fun _ _ _ => .inl (by omega)
  have hpipe := lift le_rfl (parsePipeline_within he hp (show e - p ≤ n by omega))
  refine isAtEnd_ite he hp (fun hpe => Within.pure' hp (.inr hpe)) fun _ => ?_
  refine Within.test_ite (check_within he _ hp) (fun _ => lift le_rfl (h.ifStmt p hp (by omega))) ?_
  refine Within.test_ite (check_within he _ hp) (fun _ => lift le_rfl (h.whileStmt p hp (by omega))) ?_
  refine Within.test_ite (check_within he _ hp) (fun _ => lift le_rfl (h.forStmt p hp (by omega))) ?_
  refine Within.test_ite (check_within he _ hp) (fun _ => lift le_rfl (h.returnStmt p hp (by omega))) ?_
  refine Within.test_ite (check_within he _ hp) (fun _ => lift le_rfl (h.block p hp (by omega))) ?_
  refine Within.test_ite (isTypeKeyword_within he hp) (fun hlt => lift le_rfl (h.varDecl p hlt (by omega))) ?_
  refine Within.test_ite (isAssignmentAhead_within he hp) (fun hlt => Within.bind (consume_within he hlt)
    fun _ q _ hq hq' => lift (by omega) (h.assignment _ q hq (by omega))) ?_
  refine Within.test_ite (checkAny_within he _ hp) (fun _ => hexpr) ?_
  exact Within.test_ite (check_within he _ hp) (fun _ => Within.bind (peek_within he 1 hp) fun _ q _ _ hq => by
    subst hq; exact Within.ite' (fun _ => hexpr) fun _ => hpipe) hpipe

theorem Enough.succ (h : Enough tokens e n) : Enough tokens e (n + 1) where
  statement := parseStatement_advances he h
  expression pos hpos hn := h.logicalOr pos hpos (by omega)
  logicalOr := binaryLevel_advances he h.logicalAnd
  logicalAnd := binaryLevel_advances he h.equality
  equality := binaryLevel_advances he h.comparison
  comparison := binaryLevel_advances he h.additive
  additive := binaryLevel_advances he h.multiplicative
  multiplicative := binaryLevel_advances he h.unary
  unary := parseUnary_advances he h
  primary := parsePrimary_advances he h
  callOrVariable := parseCallOrVariable_advances he h
  block := parseBlock_advances he h
  varDecl := parseVarDecl_advances he h
  assignment := parseAssignment_advances he h
  ifStmt := parseIf_advances he h
  whileStmt := parseWhile_advances he h
  forStmt := parseFor_advances he h
  returnStmt := parseReturn_advances he h

theorem enough : ∀ n, Enough tokens e n
  | 0 => enough_zero
  | n + 1 => (enough n).succ he

end Descent

/-! ## `parseProgram` -/

/-- The index of the first END_OF_FILE token. -/
def firstEof (tokens : List Token) : Nat := tokens.findIdx (·.type == .endOfFile)

theorem firstEof_spec {tokens : List Token} (h : ∃ t ∈ tokens, t.type = .endOfFile) :
    FirstEof tokens (firstEof tokens) := by
  have hlt : firstEof tokens < tokens.length := List.findIdx_lt_length_of_exists (by simpa using h)
  refine ⟨⟨_, List.get?_eq_get hlt, by simpa using List.findIdx_getElem (w := hlt)⟩, fun i hi t ht => ?_⟩
  obtain ⟨hi', rfl⟩ := List.get?_eq_some.1 ht
  simpa using List.not_of_lt_findIdx hi

private theorem parseProgram_within {tokens : List Token} {e F : Nat} (he : FirstEof tokens e) {E : ParseFault → Prop}
    (hF : 11 * e + 12 ≤ F) : Within e E (parseProgram tokens F) 0 (fun _ _ => True) :=
  Within.bind (peek_within he 0 (Nat.zero_le _)) fun _ p _ hp _ =>
    Within.bind (programLoop_within he (fun q hq => (enough he F).statement q hq (by omega)) F p [] hp
      (by omega)) fun _ _ _ hp' _ => Within.pure' hp' trivial

theorem parseProgram_returns_before_first_eof (tokens : List Token)
    (h : ∃ t, tokens.getLast? = some t ∧ t.type = .endOfFile) :
    ∃ program p, (parseProgram tokens (12 * tokens.length + 12)).run.run 0 = (.ok program, p) ∧
      p ≤ firstEof tokens := by
  obtain ⟨t, ht, heof⟩ := h
  have he := firstEof_spec ⟨t, List.mem_of_getLast?_eq_some ht, heof⟩
  have hw := parseProgram_within he (E := fun _ => False) (F := 12 * tokens.length + 12)
    (by have := he.lt_length; omega)
  rcases hrun : (parseProgram tokens (12 * tokens.length + 12)).run.run 0 with ⟨_ | program, p⟩
  · exact ((hw _ _ hrun).2 _ rfl).1.elim
  · exact ⟨program, p, rfl, ((hw _ _ hrun).1 program rfl).2.1⟩

theorem parseProgram_returns_before_first_eof_stray_brace :
    let tokens : List Token := [⟨.rbrace, ['}'], {}, 0⟩, ⟨.endOfFile, [], {}, 0⟩]
    (∃ t, tokens.getLast? = some t ∧ t.type = .endOfFile) ∧
      ∃ program p, (parseProgram tokens (12 * tokens.length + 12)).run.run 0 = (.ok program, p) ∧
        p ≤ firstEof tokens :=
  ⟨⟨_, rfl, rfl⟩, parseProgram_returns_before_first_eof _ ⟨_, rfl, rfl⟩⟩

end AriaShell.Parser
