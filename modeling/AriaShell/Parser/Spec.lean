import AriaShell.Parser.Parser
/-! Pre- and postconditions for parser actions: `Spec x pos Q E` says what every run of `x` from
`current_ = pos` ends with, a value or an exception, and the position it leaves. The rules follow
the shapes `do` blocks elaborate to; the primitives of `ShellParser` get one lemma each. -/
namespace AriaShell.Parser

theorem run_bind {ε σ α β : Type} (x : ExceptT ε (StateM σ) α) (f : α → ExceptT ε (StateM σ) β)
    (pos : σ) :
    (x >>= f).run.run pos = match x.run.run pos with
      | (.ok a, p) => (f a).run.run p
      | (.error e, p) => (.error e, p) := by
  change StateT.run (StateT.bind x (ExceptT.bindCont f)) pos = _
  simp only [StateT.run, StateT.bind, ExceptT.run]
  change (match x pos with | (a, s) => ExceptT.bindCont f a s) = _
  rcases x pos with ⟨_ | _, p⟩ <;> rfl

private theorem run_tryCatch {ε σ α : Type} (x : ExceptT ε (StateM σ) α) (h : ε → ExceptT ε (StateM σ) α)
    (pos : σ) :
    (tryCatch x h).run.run pos = match x.run.run pos with
      | (.ok a, p) => (.ok a, p)
      | (.error e, p) => (h e).run.run p := by
  simp only [tryCatch, tryCatchThe, MonadExceptOf.tryCatch, ExceptT.tryCatch, ExceptT.run, ExceptT.mk,
    bind, StateT.bind, StateT.run]
  rcases x pos with ⟨_ | _, p⟩ <;> rfl

/-- Every run of `x` from `current_ = pos` returns `a` at `p` with `Q a p`, or raises `f` at `p`
with `E f p`. -/
def Spec {α : Type} (x : ParseM α) (pos : Nat) (Q : α → Nat → Prop) (E : ParseFault → Nat → Prop) :
    Prop :=
  ∀ r p, x.run.run pos = (r, p) → (∀ a, r = .ok a → Q a p) ∧ (∀ f, r = .error f → E f p)

namespace Spec

variable {α β : Type} {x : ParseM α} {pos : Nat} {Q : α → Nat → Prop} {E : ParseFault → Nat → Prop}

theorem pure' {a : α} (h : Q a pos) : Spec (pure a) pos Q E := by
  intro r p hr
  cases (hr : ((Except.ok a : Except ParseFault α), pos) = (r, p))
  exact ⟨fun _ h' => (by cases h'; exact h), fun _ h' => by cases h'⟩

theorem throw' {f : ParseFault} (h : E f pos) : Spec (throw f : ParseM α) pos Q E := by
  intro r p hr
  cases (hr : ((Except.error f : Except ParseFault α), pos) = (r, p))
  exact ⟨fun _ h' => (by cases h'), fun _ h' => by cases h'; exact h⟩

theorem bind {f : α → ParseM β} {R : β → Nat → Prop} (hx : Spec x pos Q E)
    (hf : ∀ a p, Q a p → Spec (f a) p R E) : Spec (x >>= f) pos R E := by
  intro r p h
  rw [run_bind] at h
  rcases hrun : x.run.run pos with ⟨_ | a, p₁⟩ <;> rw [hrun] at h
  · cases h
    exact ⟨fun _ h' => (by cases h'), fun _ h' => by cases h'; exact (hx _ _ hrun).2 _ rfl⟩
  · exact hf a p₁ ((hx _ _ hrun).1 a rfl) r p h

/-- The rule for a `try`/`catch`: the handler runs from where `x` raised. -/
theorem tryCatch' {h : ParseFault → ParseM α} {E' : ParseFault → Nat → Prop} (hx : Spec x pos Q E')
    (hh : ∀ f p, E' f p → Spec (h f) p Q E) : Spec (tryCatch x h) pos Q E := by
  intro r p hr
  rw [run_tryCatch] at hr
  rcases hrun : x.run.run pos with ⟨_ | a, p₁⟩ <;> rw [hrun] at hr
  · exact hh _ p₁ ((hx _ _ hrun).2 _ rfl) r p hr
  · cases hr
    exact ⟨fun _ h' => by cases h'; exact (hx _ _ hrun).1 _ rfl, fun _ h' => by cases h'⟩

theorem mono {Q' : α → Nat → Prop} {E' : ParseFault → Nat → Prop} (h : Spec x pos Q E)
    (hQ : ∀ a p, Q a p → Q' a p) (hE : ∀ f p, E f p → E' f p) : Spec x pos Q' E' :=
  fun r p hr => ⟨fun a ha => hQ a p ((h r p hr).1 a ha), fun f hf => hE f p ((h r p hr).2 f hf)⟩

/-- The rule for an `if` on a value the block has read. -/
theorem ite' {c : Prop} [Decidable c] {y : ParseM α} (ht : c → Spec x pos Q E)
    (he : ¬c → Spec y pos Q E) : Spec (if c then x else y) pos Q E := by
  by_cases hc : c
  · rw [if_pos hc]; exact ht hc
  · rw [if_neg hc]; exact he hc

theorem map {g : α → β} {R : β → Nat → Prop} (h : Spec x pos Q E) (hg : ∀ a p, Q a p → R (g a) p) :
    Spec (g <$> x) pos R E := by
  rw [← bind_pure_comp]
  exact bind h fun a p h' => pure' (hg a p h')

theorem discard' (h : Spec x pos Q E) : Spec (discard x) pos (fun _ p => ∃ a, Q a p) E :=
  map h fun a _ h => ⟨a, h⟩

theorem get' : Spec (get : ParseM Nat) pos (fun a p => a = pos ∧ p = pos) E := by
  intro r p hr
  cases (hr : ((Except.ok pos : Except ParseFault Nat), pos) = (r, p))
  exact ⟨fun _ h => (by cases h; exact ⟨rfl, rfl⟩), fun _ h => by cases h⟩

theorem modify' {g : Nat → Nat} : Spec (modify g : ParseM PUnit) pos (fun _ p => p = g pos) E := by
  intro r p hr
  cases (hr : ((Except.ok PUnit.unit : Except ParseFault PUnit), g pos) = (r, p))
  exact ⟨fun _ _ => rfl, fun _ h => by cases h⟩

/-- Every action returns values, whatever they are. -/
theorem any (x : ParseM α) (pos : Nat) : Spec x pos (fun _ _ => True) (fun _ _ => True) :=
  fun _ _ _ => ⟨fun _ _ => trivial, fun _ _ => trivial⟩

end Spec

/-! ## The primitives from any position -/

/-- The token `peek` reads at index `i`: `tokens_[i]`, or `tokens_.back()` past the end, and
nothing in an empty vector. -/
def peekAt (tokens : List Token) (i : Nat) : Option Token := (tokens.get? i).or tokens.getLast?

section Primitives

variable (tokens : List Token)

/-- Where a primitive can fault: `current_` is past the end of the vector. -/
def Beyond (pos : Nat) (_ : ParseFault) (_ : Nat) : Prop := tokens.length ≤ pos

theorem peekAt_of_get? {i : Nat} {t : Token} (h : tokens.get? i = some t) : peekAt tokens i = some t := by
  rw [peekAt, h]; rfl

theorem length_le_of_peekAt {i : Nat} (h : peekAt tokens i = none) (pos : Nat) : tokens.length ≤ pos := by
  cases tokens with
  | nil => exact Nat.zero_le _
  | cons t ts => simp [peekAt] at h

theorem peek_spec (k pos : Nat) :
    Spec (peek tokens k) pos (fun t p => p = pos ∧ peekAt tokens (pos + k) = some t)
      (fun _ p => p = pos ∧ peekAt tokens (pos + k) = none) := by
  unfold peek
  refine Spec.bind Spec.get' fun a p ⟨ha, hp⟩ => ?_
  rw [ha, hp]
  split
  next t h => exact Spec.pure' ⟨rfl, by rw [peekAt, h]; rfl⟩
  next h =>
    split
    next t h' => exact Spec.pure' ⟨rfl, by rw [peekAt, h, h']; rfl⟩
    next h' => exact Spec.throw' ⟨rfl, by rw [peekAt, h, h']; rfl⟩

private theorem isAtEnd_spec (pos : Nat) :
    Spec (isAtEnd tokens) pos
      (fun b p => p = pos ∧ ∃ t, peekAt tokens pos = some t ∧ (b = true ↔ t.type = .endOfFile))
      (Beyond tokens pos) := by
  unfold isAtEnd
  exact Spec.bind ((peek_spec tokens 0 pos).mono (fun _ _ h => h) (fun _ _ h => length_le_of_peekAt tokens h.2 _))
    fun t p ⟨hp, ht⟩ => Spec.pure' ⟨hp, t, ht, by simp⟩

theorem check_spec (type : TokenType) (pos : Nat) :
    Spec (check tokens type) pos
      (fun b p => p = pos ∧ ∃ t, peekAt tokens pos = some t ∧
        (b = true ↔ t.type ≠ .endOfFile ∧ t.type = type))
      (Beyond tokens pos) := by
  unfold check
  refine Spec.bind (isAtEnd_spec tokens pos) fun b p ⟨hp, t, ht, hb⟩ => ?_
  subst hp
  dsimp only
  split
  · exact Spec.pure' ⟨rfl, t, ht, by simp_all⟩
  · rw [pure_bind]
    refine Spec.bind ((peek_spec tokens 0 p).mono (fun _ _ h => h) (fun _ _ h => length_le_of_peekAt tokens h.2 _))
      fun t' p' ⟨hp', ht'⟩ => Spec.pure' ⟨hp', t, ht, ?_⟩
    rw [Nat.add_zero, ht] at ht'
    cases ht'
    simp_all

theorem previous_spec (pos : Nat) :
    Spec (previous tokens) pos (fun t p => p = pos ∧ 0 < pos ∧ tokens.get? (pos - 1) = some t)
      (fun _ p => p = pos ∧ (pos = 0 ∨ tokens.get? (pos - 1) = none)) := by
  unfold previous tokenAt
  refine Spec.bind Spec.get' fun a p ⟨ha, hp⟩ => ?_
  rw [ha, hp]
  cases pos with
  | zero => exact Spec.throw' ⟨rfl, .inl rfl⟩
  | succ q =>
    dsimp only
    split
    next t h => exact Spec.pure' ⟨rfl, Nat.succ_pos q, h⟩
    next h => exact Spec.throw' ⟨rfl, .inr h⟩

theorem consume_spec (pos : Nat) :
    Spec (consume tokens) pos
      (fun tok p => ∃ t, peekAt tokens pos = some t ∧
        p = (if t.type = .endOfFile then pos else pos + 1) ∧ tokens.get? (p - 1) = some tok)
      (fun _ _ => ∀ t, peekAt tokens pos = some t → t.type ≠ .endOfFile → tokens.length ≤ pos) := by
  unfold consume
  refine Spec.bind ((isAtEnd_spec tokens pos).mono (fun _ _ h => h) (fun _ _ h _ _ _ => h))
    fun b p ⟨hp, t, ht, hb⟩ => ?_
  subst hp
  dsimp only
  split
  next hnot =>
    have hne : t.type ≠ .endOfFile := fun h => by simp [hb.mpr h] at hnot
    refine Spec.bind Spec.modify' fun _ q hq => ?_
    refine (previous_spec tokens q).mono (fun tok p' ⟨hp', _, htok⟩ => ⟨t, ht, ?_, hp' ▸ htok⟩) ?_
    · rw [if_neg hne, hp', hq]
    · rintro _ p' ⟨-, h | h⟩ t' ht' -
      · omega
      · rw [ht] at ht'; cases ht'
        rw [hq, Nat.add_sub_cancel] at h
        exact List.get?_eq_none.mp h
  next hat =>
    have heof : t.type = .endOfFile := hb.mp (by simpa using hat)
    rw [pure_bind]
    refine (previous_spec tokens p).mono (fun tok p' ⟨hp', _, htok⟩ => ⟨t, ht, by rw [if_pos heof, hp'],
      hp' ▸ htok⟩) ?_
    rintro _ _ - t' ht' hne
    rw [ht] at ht'; cases ht'
    exact absurd heof hne

theorem matchToken_spec (type : TokenType) (pos : Nat) :
    Spec (matchToken tokens type) pos
      (fun b p => (b = true → p = pos + 1 ∧ ∃ t, tokens.get? pos = some t ∧ t.type ≠ .endOfFile ∧
        t.type = type) ∧ (b = false → p = pos))
      (Beyond tokens pos) := by
  unfold matchToken
  refine Spec.bind (check_spec tokens type pos) fun b p ⟨hp, t, ht, hb⟩ => ?_
  subst hp
  dsimp only
  split
  next hc =>
    obtain ⟨hne, hty⟩ := hb.mp hc
    refine Spec.bind (Spec.discard' ((consume_spec tokens p).mono (fun _ _ h => h)
      (fun _ _ h => h t ht hne))) fun _ q ⟨tok, t', ht', hq, htok⟩ =>
        Spec.pure' ⟨fun _ => ?_, fun h => (by cases h)⟩
    rw [ht] at ht'; cases ht'
    rw [if_neg hne] at hq
    subst hq
    rw [Nat.add_sub_cancel] at htok
    cases (peekAt_of_get? tokens htok).symm.trans ht
    exact ⟨rfl, _, htok, hne, hty⟩
  next => exact Spec.pure' ⟨fun h => (by cases h), fun _ => rfl⟩

theorem matchAny_spec (types : List TokenType) (pos : Nat) :
    Spec (matchAny tokens types) pos
      (fun b p => (b = true → p = pos + 1 ∧ ∃ t, tokens.get? pos = some t ∧ t.type ≠ .endOfFile ∧
        t.type ∈ types) ∧ (b = false → p = pos))
      (Beyond tokens pos) := by
  unfold matchAny
  induction types with
  | nil => exact Spec.pure' ⟨fun h => (by cases h), fun _ => rfl⟩
  | cons type types ih =>
    rw [List.anyM]
    refine Spec.bind (matchToken_spec tokens type pos) fun b p ⟨htrue, hfalse⟩ => ?_
    cases b with
    | true =>
      obtain ⟨hp, t, ht, hne, hty⟩ := htrue rfl
      exact Spec.pure' ⟨fun _ => ⟨hp, t, ht, hne, hty ▸ List.mem_cons_self _ _⟩, fun h => by cases h⟩
    | false =>
      rw [hfalse rfl]
      exact ih.mono (fun b p ⟨h₁, h₂⟩ => ⟨fun hb => (h₁ hb).imp_right fun ⟨t, ht, hne, hty⟩ =>
        ⟨t, ht, hne, List.mem_cons_of_mem _ hty⟩, h₂⟩) (fun _ _ h => h)

theorem checkAny_spec (types : List TokenType) (pos : Nat) :
    Spec (checkAny tokens types) pos
      (fun b p => p = pos ∧ (b = true → ∃ t, peekAt tokens pos = some t ∧ t.type ≠ .endOfFile ∧
        t.type ∈ types))
      (Beyond tokens pos) := by
  unfold checkAny
  induction types with
  | nil => exact Spec.pure' ⟨rfl, fun h => by cases h⟩
  | cons type types ih =>
    rw [List.anyM]
    refine Spec.bind (check_spec tokens type pos) fun b p ⟨hp, t, ht, hb⟩ => ?_
    subst hp
    cases b with
    | true =>
      obtain ⟨hne, hty⟩ := hb.mp rfl
      exact Spec.pure' ⟨rfl, fun _ => ⟨t, ht, hne, hty ▸ List.mem_cons_self _ _⟩⟩
    | false =>
      exact ih.mono (fun b p ⟨h₁, h₂⟩ => ⟨h₁, fun hb => (h₂ hb).imp fun t ⟨ht, hne, hty⟩ =>
        ⟨ht, hne, List.mem_cons_of_mem _ hty⟩⟩) (fun _ _ h => h)

theorem expect_spec (type : TokenType) (message : List Char) (pos : Nat) :
    Spec (expect tokens type message) pos
      (fun _ p => p = pos + 1 ∧ ∃ t, tokens.get? pos = some t ∧ t.type ≠ .endOfFile ∧ t.type = type)
      (fun f p => tokens.length ≤ pos ∨ p = pos ∧ ∃ location, f = .parseError message location) := by
  unfold expect
  refine Spec.bind ((check_spec tokens type pos).mono (fun _ _ h => h) (fun _ _ h => .inl h))
    fun b p ⟨hp, t, ht, hb⟩ => ?_
  subst hp
  dsimp only
  split
  next hc =>
    refine Spec.bind ((peek_spec tokens 0 p).mono (fun _ _ h => h)
      (fun _ _ h => .inl (length_le_of_peekAt tokens h.2 _))) fun t' q ⟨hq, _⟩ => ?_
    exact Spec.throw' (.inr ⟨hq, _, rfl⟩)
  next hc =>
    have hc : b = true := by simpa using hc
    obtain ⟨hne, hty⟩ := hb.mp hc
    rw [pure_bind]
    refine (Spec.discard' ((consume_spec tokens p).mono (fun _ _ h => h)
      (fun _ _ h => .inl (h t ht hne)))).mono (fun _ q ⟨tok, t', ht', hq, htok⟩ => ?_) (fun _ _ h => h)
    rw [ht] at ht'; cases ht'
    rw [if_neg hne] at hq
    subst hq
    rw [Nat.add_sub_cancel] at htok
    cases (peekAt_of_get? tokens htok).symm.trans ht
    exact ⟨rfl, _, htok, hne, hty⟩

end Primitives

end AriaShell.Parser
