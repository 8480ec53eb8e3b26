import AriaShell.Parser.Lexer
/-! How a run of `tokenize` goes on: what one call of `nextToken` leaves (a suffix of the text,
and a state stack with at most one state pushed or popped), what one round of its loop does, and
the states `Reads` passes between two tokens, which are the boundaries between the tokens
`tokenize` returns. -/
namespace AriaShell.Parser

/-! ## The scanners' text -/

section Strings

variable (quote : Char)

theorem scanStringBody_quote (cs : List Char) (loc : SourceLocation) (value : List Char) :
    scanStringBody quote (quote :: cs) loc value = (value, quote :: cs, loc) := by
  cases cs <;> simp [scanStringBody]

theorem scanStringBody_plain {c : Char} (hq : c ≠ quote) (hb : c ≠ '\\') (cs : List Char)
    (loc : SourceLocation) (value : List Char) :
    scanStringBody quote (c :: cs) loc value = scanStringBody quote cs (advancePos loc c) (value ++ [c]) := by
  cases cs <;> simp [scanStringBody, hq, hb]

/-- The text `scanStringBody` leaves is a suffix of what it reads, at the closing quote when it
is not empty. -/
theorem scanStringBody_rest (cs : List Char) (loc : SourceLocation) (value : List Char) :
    (scanStringBody quote cs loc value).2.1 <:+ cs ∧
      ∀ c, (scanStringBody quote cs loc value).2.1.head? = some c → c = quote := by
  induction cs, loc, value using scanStringBody.induct quote with
  | case1 => simp [scanStringBody]
  | case2 cs loc value => simp [scanStringBody_quote]
  | case3 loc value h => simp [scanStringBody, h]
  | case4 loc value e cs' h ih =>
    simp only [scanStringBody, if_neg h, if_true]
    exact ⟨ih.1.trans ((List.suffix_cons e cs').trans (List.suffix_cons _ _)), ih.2⟩
  | case5 c cs loc value hq hb ih =>
    rw [scanStringBody_plain quote hq hb]
    exact ⟨ih.1.trans (List.suffix_cons c cs), ih.2⟩

end Strings

namespace ShellLexer

theorem matchChar_eq (lx : ShellLexer) (e : Char) :
    lx.matchChar e = if lx.rest.head? = some e then (true, lx.advance.2) else (false, lx) := by
  unfold matchChar peek
  cases lx.rest <;> simp

private theorem matchChar_suffix (lx : ShellLexer) (e : Char) : (lx.matchChar e).2.rest <:+ lx.rest := by
  rw [matchChar_eq]
  split
  · exact List.drop_suffix 1 _
  · exact List.suffix_refl _

theorem matchEither_suffix (lx : ShellLexer) (c second : Char) (long short : TokenType) :
    (lx.matchEither c second long short).2.rest <:+ lx.rest := by
  unfold matchEither
  split <;> rename_i h <;> simpa [h] using matchChar_suffix lx second

theorem scanString_rest (lx : ShellLexer) (quote : Char) :
    (lx.scanString quote).2.rest =
      if (scanStringBody quote lx.advance.2.rest lx.advance.2.location []).2.1 ≠ [] then
        (scanStringBody quote lx.advance.2.rest lx.advance.2.location []).2.1.drop 1
      else (scanStringBody quote lx.advance.2.rest lx.advance.2.location []).2.1 := by
  unfold scanString
  dsimp only
  split_ifs <;> rfl

theorem scanString_stateStack (lx : ShellLexer) (quote : Char) :
    (lx.scanString quote).2.stateStack = lx.stateStack := by
  unfold scanString
  dsimp only
  split_ifs <;> rfl

end ShellLexer

/-! ## What one call leaves -/

/-- How one call of `nextToken` changes the state stack: not at all, by pushing INTERPOLATION
(`&{`), or by popping (`}` and the closing backtick). -/
def StackStep (st st' : List LexerState) : Prop :=
  st' = st ∨ st' = .interpolation :: st ∨ pop st = .ok st'

/-- The states that can stand in the stack between two tokens. -/
def Quiet (st : List LexerState) : Prop := ∀ s ∈ st, s = .root ∨ s = .interpolation

theorem Quiet.stackStep {st st' : List LexerState} (hq : Quiet st) (h : StackStep st st') : Quiet st' := by
  rcases h with rfl | rfl | h
  · exact hq
  · rintro s (_ | ⟨_, hs⟩)
    · exact .inr rfl
    · exact hq s hs
  · cases st with
    | nil => cases h
    | cons a st =>
      cases h
      exact fun s hs => hq s (List.mem_cons_of_mem a hs)

namespace ShellLexer

variable {lx lx₁ : ShellLexer} {tok : Token}

private theorem snd_of_ok {x : Token × ShellLexer} (h : (.ok x : Except LexFault (Token × ShellLexer)) = .ok (tok, lx₁)) :
    x.2 = lx₁ := by
  cases h
  rfl

private theorem scanString_suffix (lx : ShellLexer) (quote : Char) : (lx.scanString quote).2.rest <:+ lx.rest := by
  have hb := (scanStringBody_rest quote lx.advance.2.rest lx.advance.2.location []).1.trans
    (List.drop_suffix 1 lx.rest)
  rw [scanString_rest]
  split_ifs
  · exact (List.drop_suffix 1 _).trans hb
  · exact hb

private theorem scanTemplateString_step {value : List Char} (hs : lx.scanTemplateString = .ok (value, lx₁)) :
    lx₁.rest <:+ lx.rest ∧ (lx₁.rest ≠ [] → pop lx.stateStack = .ok lx₁.stateStack) := by
  unfold scanTemplateString at hs
  dsimp only at hs
  split_ifs at hs with hS
  · rcases hpop : pop (lx.scanWhile (· != backtick)).2.stateStack with _ | st <;> rw [hpop] at hs <;> cases hs
    exact ⟨(List.drop_suffix 1 _).trans (List.dropWhile_suffix _), fun _ => hpop⟩
  · cases hs
    exact ⟨List.dropWhile_suffix _, fun h => absurd h hS⟩

private theorem scanNumber_step (hs : lx.scanNumber = .ok (tok, lx₁)) :
    lx₁.rest <:+ lx.rest ∧ lx₁.stateStack = lx.stateStack := by
  unfold scanNumber at hs
  dsimp only at hs
  split at hs
  · rcases stod_ok_or (lx.scanWhile Char.isDigit).1
      ((lx.scanWhile Char.isDigit).2.advance.2.scanWhile Char.isDigit).1 with h | h <;> rw [h] at hs <;> cases hs
    exact ⟨(List.dropWhile_suffix _).trans ((List.drop_suffix 1 _).trans (List.dropWhile_suffix _)), rfl⟩
  · obtain ⟨v, h | h⟩ := stoll_ok_or (lx.scanWhile Char.isDigit).1 <;> rw [h] at hs <;> cases hs
    exact ⟨List.dropWhile_suffix _, rfl⟩

private theorem scanOperator_step (hs : lx.scanOperator = .ok (tok, lx₁)) :
    lx₁.rest <:+ lx.rest ∧ StackStep lx.stateStack lx₁.stateStack := by
  rcases ha : lx.advance with ⟨c, lxa⟩
  have hA : lxa.rest <:+ lx.rest ∧ lxa.stateStack = lx.stateStack := by
    obtain rfl : lx.advance.2 = lxa := by rw [ha]
    exact ⟨List.drop_suffix 1 _, rfl⟩
  have hmatch : ∀ e, (lxa.matchChar e).2.rest <:+ lx.rest ∧ (lxa.matchChar e).2.stateStack = lx.stateStack :=
    fun e => ⟨(matchChar_suffix lxa e).trans hA.1, (matchChar_spec lxa e).2.trans hA.2⟩
  have heither : ∀ {l : ShellLexer}, l.rest <:+ lx.rest → l.stateStack = lx.stateStack → ∀ c e lo sh,
      (l.matchEither c e lo sh).2.rest <:+ lx.rest ∧ StackStep lx.stateStack (l.matchEither c e lo sh).2.stateStack :=
    fun h₁ h₂ c e lo sh => ⟨(matchEither_suffix _ c e lo sh).trans h₁, .inl ((matchEither_spec _ c e lo sh).2.2.trans h₂)⟩
  revert hs
  refine scanOperator_cases ha ha
    (fun R _ => R = .ok (tok, lx₁) → lx₁.rest <:+ lx.rest ∧ StackStep lx.stateStack lx₁.stateStack)
    (fun _ => True) (fun _ _ => trivial) (fun _ _ hs => by cases hs; exact ⟨hA.1, .inl hA.2⟩)
    (fun _ _ _ _ _ _ hs => by rw [← snd_of_ok hs]; exact heither hA.1 hA.2 _ _ _ _) ?_ ?_ ?_ <;>
    rintro rfl hs
  · -- '>'
    rcases hm : lxa.matchChar '=' with ⟨_ | _, lxm⟩ <;> rw [hm] at hs <;> dsimp only at hs <;>
      have hM := hmatch '=' <;> rw [hm] at hM
    · rw [← snd_of_ok hs]
      exact heither hM.1 hM.2 _ _ _ _
    · cases hs
      exact ⟨hM.1, .inl hM.2⟩
  · -- '&'
    rcases hm : lxa.matchChar '{' with ⟨_ | _, lxm⟩ <;> rw [hm] at hs <;> dsimp only at hs <;>
      have hM := hmatch '{' <;> rw [hm] at hM
    · rw [← snd_of_ok hs]
      exact heither hM.1 hM.2 _ _ _ _
    · cases hs
      exact ⟨hM.1, .inr (.inl (by rw [hM.2]))⟩
  · -- '}'
    rcases htop : top lxa.stateStack with _ | st <;> rw [htop] at hs
    · cases hs
    dsimp only [bind, Except.bind] at hs
    split_ifs at hs
    · rcases hpop : pop lxa.stateStack with _ | y <;> rw [hpop] at hs <;> cases hs
      exact ⟨hA.1, .inr (.inr (hA.2 ▸ hpop))⟩
    · cases hs
      exact ⟨hA.1, .inl hA.2⟩

private theorem scanAt_step (hs : lx.scanAt = .ok (tok, lx₁)) :
    lx₁.rest <:+ lx.rest ∧ (lx₁.rest ≠ [] → StackStep lx.stateStack lx₁.stateStack) := by
  unfold scanAt at hs
  split at hs
  · cases hs
    exact ⟨List.suffix_refl _, fun _ => .inl rfl⟩
  split_ifs at hs
  · rw [← snd_of_ok hs]
    exact ⟨scanString_suffix lx _, fun _ => .inl (scanString_stateStack lx _)⟩
  · rcases ht : { lx with stateStack := .stringTemplate :: lx.stateStack }.advance.2.scanTemplateString with
      _ | ⟨value, lx₂⟩ <;> rw [ht] at hs <;> cases hs
    obtain ⟨hsuf, hpop⟩ := scanTemplateString_step ht
    exact ⟨hsuf.trans (List.drop_suffix 1 _),
      fun hne => .inl (Except.ok.inj (hpop hne : Except.ok lx.stateStack = _)).symm⟩
  · exact ⟨(scanNumber_step hs).1, fun _ => .inl (scanNumber_step hs).2⟩
  · rw [← snd_of_ok hs]
    exact ⟨List.dropWhile_suffix _, fun _ => .inl rfl⟩
  · exact ⟨(scanOperator_step hs).1, fun _ => (scanOperator_step hs).2⟩

private theorem nextToken_step (hs : lx.nextToken = .ok (tok, lx₁)) :
    lx₁.rest <:+ lx.rest ∧ (lx₁.rest ≠ [] → StackStep lx.stateStack lx₁.stateStack) := by
  rw [nextToken_eq] at hs
  rcases htop : top lx.stateStack with _ | s <;> rw [htop] at hs
  · cases hs
  dsimp only [bind, Except.bind] at hs
  obtain ⟨hsuf, hst⟩ := scanAt_step hs
  split_ifs at hsuf hst
  · exact ⟨hsuf.trans (List.dropWhile_suffix _), hst⟩
  · exact ⟨hsuf, hst⟩

/-- A scanner that returned before `r` read at least one character before it. -/
theorem length_lt_of_scanAt {r : List Char} (hst : RootBelow lx.stateStack) (hne : lx.rest ≠ [])
    (hs : lx.scanAt = .ok (tok, lx₁)) (hfin : r <:+ lx₁.rest) : r.length < lx.rest.length := by
  rcases scanAt_scanned hne hst with he | ⟨t, lx₂, he, -, hlt, -⟩ <;> rw [hs] at he <;> cases he
  exact lt_of_le_of_lt hfin.length_le hlt

end ShellLexer

/-- Between two calls, while text is left, the state stack holds only ROOT and INTERPOLATION:
STRING_TEMPLATE is popped by the call that pushed it unless the template ran to the end. -/
def Settled (lx : ShellLexer) : Prop := lx.rest ≠ [] → Quiet lx.stateStack

theorem Settled.nextToken {lx lx₁ : ShellLexer} {tok : Token} (hq : Settled lx)
    (hs : lx.nextToken = .ok (tok, lx₁)) : Settled lx₁ := fun hne =>
  have hstep := ShellLexer.nextToken_step hs
  (hq fun h => hne (List.eq_nil_of_suffix_nil (h ▸ hstep.1))).stackStep (hstep.2 hne)

theorem top_mem {st : List LexerState} {s : LexerState} (h : top st = .ok s) : s ∈ st := by
  cases st with
  | nil => cases h
  | cons a st =>
    cases h
    exact List.mem_cons_self _ _

/-! ## The loop of `tokenize` -/

namespace ShellLexer

variable {lx lx₁ : ShellLexer} {tok : Token}

/-- A call that returned a token other than END_OF_FILE read text, and kept ROOT at the bottom. -/
theorem nextToken_shortens (hst : RootBelow lx.stateStack) (hs : lx.nextToken = .ok (tok, lx₁))
    (ht : tok.type ≠ .endOfFile) : RootBelow lx₁.stateStack ∧ lx₁.rest.length < lx.rest.length := by
  rcases nextToken_next hst with he | ⟨t, l, he, hst₁, hcase⟩ <;> rw [hs] at he <;> cases he
  rcases hcase with ⟨h, -⟩ | ⟨-, hlt⟩
  · exact absurd h ht
  · exact ⟨hst₁, hlt⟩

/-- At the end of the text every call returns END_OF_FILE. -/
theorem rest_ne_nil_of_nextToken (hs : lx.nextToken = .ok (tok, lx₁)) (ht : tok.type ≠ .endOfFile) :
    lx.rest ≠ [] := by
  intro hn
  rw [nextToken_eq] at hs
  rcases htop : top lx.stateStack with _ | s <;> rw [htop] at hs
  · cases hs
  dsimp only [bind, Except.bind] at hs
  have hn' : (if s = .root ∨ s = .interpolation then lx.skipWhitespace else lx).rest = [] := by
    split_ifs
    · show lx.rest.dropWhile isWhitespace = []
      rw [hn]
      rfl
    · exact hn
  rw [scanAt_nil hn'] at hs
  cases hs
  exact ht rfl

variable {n : Nat} {lxe : ShellLexer} {tokens ts : List Token}

theorem tokenizeLoop_nil (h : lx.rest = []) : tokenizeLoop (n + 1) lx tokens = .ok (tokens, lx) := by
  rw [tokenizeLoop, if_pos h]

theorem tokenizeLoop_eof (hne : lx.rest ≠ []) (hs : lx.nextToken = .ok (tok, lx₁)) (ht : tok.type = .endOfFile) :
    tokenizeLoop (n + 1) lx tokens = .ok (tokens ++ [tok], lx₁) := by
  rw [tokenizeLoop, if_neg hne, hs]
  exact if_pos ht

theorem tokenizeLoop_next (hne : lx.rest ≠ []) (hs : lx.nextToken = .ok (tok, lx₁)) (ht : tok.type ≠ .endOfFile) :
    tokenizeLoop (n + 1) lx tokens = tokenizeLoop n lx₁ (tokens ++ [tok]) := by
  rw [tokenizeLoop, if_neg hne, hs]
  exact if_neg ht

/-- What one round of the loop of `tokenize` can do. -/
theorem tokenizeLoop_cases (hs : tokenizeLoop (n + 1) lx tokens = .ok (ts, lxe)) :
    lx.rest = [] ∧ ts = tokens ∧ lxe = lx ∨
      ∃ t lx₁, lx.rest ≠ [] ∧ lx.nextToken = .ok (t, lx₁) ∧
        (t.type = .endOfFile ∧ ts = tokens ++ [t] ∧ lxe = lx₁ ∨
          t.type ≠ .endOfFile ∧ tokenizeLoop n lx₁ (tokens ++ [t]) = .ok (ts, lxe)) := by
  by_cases hne : lx.rest = []
  · rw [tokenizeLoop_nil hne] at hs
    cases hs
    exact .inl ⟨hne, rfl, rfl⟩
  rcases hnext : lx.nextToken with _ | ⟨t, lx₁⟩
  · rw [tokenizeLoop, if_neg hne, hnext] at hs
    cases hs
  by_cases ht : t.type = .endOfFile
  · rw [tokenizeLoop_eof hne hnext ht] at hs
    cases hs
    exact .inr ⟨t, _, hne, rfl, .inl ⟨ht, rfl, rfl⟩⟩
  · rw [tokenizeLoop_next hne hnext ht] at hs
    exact .inr ⟨t, lx₁, hne, rfl, .inr ⟨ht, hs⟩⟩

end ShellLexer

open ShellLexer

/-- `Reads lx ts lx₂`: from `lx`, calls of `nextToken` return the tokens `ts`, none of them
END_OF_FILE, and leave `lx₂`. These are the states `tokenize` passes between two tokens. -/
inductive Reads : ShellLexer → List Token → ShellLexer → Prop
  | nil (lx : ShellLexer) : Reads lx [] lx
  | cons {lx lx₁ lx₂ : ShellLexer} {t : Token} {ts : List Token} :
      lx.nextToken = .ok (t, lx₁) → t.type ≠ .endOfFile → Reads lx₁ ts lx₂ → Reads lx (t :: ts) lx₂

namespace Reads

variable {lx lx₂ : ShellLexer} {ts : List Token}

theorem suffix (h : Reads lx ts lx₂) : lx₂.rest <:+ lx.rest := by
  induction h with
  | nil => exact List.suffix_refl _
  | cons hs _ _ ih => exact ih.trans (ShellLexer.nextToken_step hs).1

theorem settled (h : Reads lx ts lx₂) (hq : Settled lx) : Settled lx₂ := by
  induction h with
  | nil => exact hq
  | cons hs _ _ ih => exact ih (hq.nextToken hs)

end Reads

/-! ## The boundaries are the states the loop passes -/

private theorem tokenizeLoop_prefix (n : Nat) : ∀ {lx lxe : ShellLexer} {tokens ts : List Token},
    tokenizeLoop n lx tokens = .ok (ts, lxe) → tokens <+: ts := by
  induction n with
  | zero => intro _ _ _ _ hs; cases hs
  | succ n ih =>
    intro lx lxe tokens ts hs
    rcases tokenizeLoop_cases hs with ⟨-, rfl, -⟩ | ⟨t, lx₁, -, -, ⟨-, rfl, -⟩ | ⟨-, hs⟩⟩
    · exact List.prefix_refl _
    · exact List.prefix_append _ _
    · exact (List.prefix_append _ _).trans (ih hs)

theorem Reads.prefix_tokenizeLoop {lx lxb lxn : ShellLexer} {before : List Token} {tok : Token}
    (h : Reads lx before lxb) (hnext : lxb.nextToken = .ok (tok, lxn)) (htok : tok.type ≠ .endOfFile) :
    ∀ {n : Nat} {lxe : ShellLexer} {tokens ts : List Token}, tokenizeLoop n lx tokens = .ok (ts, lxe) →
      tokens ++ before ++ [tok] <+: ts := by
  induction h with
  | nil lx =>
    intro n lxe tokens ts hs
    cases n with
    | zero => cases hs
    | succ n =>
      rw [tokenizeLoop_next (rest_ne_nil_of_nextToken hnext htok) hnext htok] at hs
      simpa using tokenizeLoop_prefix n hs
  | cons hs₁ ht₁ _ ih =>
    intro n lxe tokens ts hs
    cases n with
    | zero => cases hs
    | succ n =>
      rw [tokenizeLoop_next (rest_ne_nil_of_nextToken hs₁ ht₁) hs₁ ht₁] at hs
      simpa using ih hnext hs

private theorem reads_of_tokenizeLoop (n : Nat) : ∀ {lx lxe : ShellLexer} {tokens before rest ts : List Token}
    {tok : Token}, tokenizeLoop n lx tokens = .ok (ts, lxe) → ts = tokens ++ before ++ tok :: rest →
    (∀ t ∈ before, t.type ≠ .endOfFile) → tok.type ≠ .endOfFile →
    ∃ lxb lxn, Reads lx before lxb ∧ lxb.nextToken = .ok (tok, lxn) := by
  induction n with
  | zero => intro _ _ _ _ _ _ _ hs; cases hs
  | succ n ih =>
    intro lx lxe tokens before rest ts tok hs hts hbefore htok
    rcases tokenizeLoop_cases hs with ⟨-, rfl, -⟩ | ⟨t, lx₁, -, hcall, ⟨ht, rfl, -⟩ | ⟨ht, hs⟩⟩
    · have := congrArg List.length hts
      simp only [List.length_append, List.length_cons] at this
      omega
    · rw [List.append_assoc, List.append_cancel_left_eq] at hts
      cases before with
      | nil => exact absurd (List.cons.inj hts).1 (fun h => htok (h ▸ ht))
      | cons b bs => simp at hts
    · obtain ⟨rest', hrest'⟩ := tokenizeLoop_prefix n hs
      rw [hts, List.append_assoc, List.append_assoc, List.append_cancel_left_eq] at hrest'
      cases before with
      | nil =>
        obtain ⟨rfl, -⟩ := List.cons.inj hrest'
        exact ⟨lx, lx₁, .nil lx, hcall⟩
      | cons b bs =>
        obtain ⟨rfl, -⟩ := List.cons.inj hrest'
        obtain ⟨lxb, lxn, hread, hn⟩ := ih hs (show ts = tokens ++ [t] ++ bs ++ tok :: rest by rw [hts]; simp)
          (fun x hx => hbefore x (List.mem_cons_of_mem _ hx)) htok
        exact ⟨lxb, lxn, .cons hcall ht hread, hn⟩

/-- The boundaries between tokens are the states `Reads` reaches: for a text that `tokenize` reads
into `ts`, the tokens `before` and a next token `tok`, none of them END_OF_FILE, begin `ts` exactly
when some state that `Reads` reaches from the start returns `tok` next. -/
theorem tokenize_prefix_iff_reads {source : List Char} {ts before : List Token} {tok : Token}
    (hs : (init source).tokenize = .ok ts) (hbefore : ∀ t ∈ before, t.type ≠ .endOfFile)
    (htok : tok.type ≠ .endOfFile) :
    (∃ rest, ts = before ++ tok :: rest) ↔ ∃ lx lx₁, Reads (init source) before lx ∧ lx.nextToken = .ok (tok, lx₁) := by
  unfold tokenize at hs
  rcases hL : tokenizeLoop ((init source).rest.length + 1) (init source) [] with _ | ⟨tokens, lxe⟩ <;>
    rw [hL] at hs
  · cases hs
  dsimp only [bind, Except.bind] at hs
  have hts : ts = tokens ∨ ∃ eof : Token, eof.type = .endOfFile ∧ ts = tokens ++ [eof] := by
    split_ifs at hs <;> cases hs
    · exact .inr ⟨_, rfl, rfl⟩
    · exact .inl rfl
  constructor
  · rintro ⟨rest, rfl⟩
    rcases hts with hts | ⟨eof, heof, hts⟩
    · exact reads_of_tokenizeLoop _ hL (show tokens = [] ++ before ++ tok :: rest by rw [← hts]; rfl) hbefore htok
    rcases List.eq_nil_or_concat rest with rfl | ⟨L, x, rfl⟩
    · have := congrArg List.getLast? hts
      simp only [List.getLast?_append, List.getLast?_singleton, Option.or_some, Option.some_inj] at this
      exact (htok (this ▸ heof)).elim
    · rw [List.concat_eq_append, ← List.cons_append, ← List.append_assoc] at hts
      obtain ⟨htokens, -⟩ := List.append_inj' hts rfl
      exact reads_of_tokenizeLoop _ hL (show tokens = [] ++ before ++ tok :: L by rw [← htokens]; rfl) hbefore htok
  · rintro ⟨lx, lx₁, hread, hnext⟩
    obtain ⟨rest, hrest⟩ := hread.prefix_tokenizeLoop hnext htok hL
    rcases hts with rfl | ⟨eof, -, rfl⟩
    · exact ⟨rest, by rw [← hrest]; simp⟩
    · exact ⟨rest ++ [eof], by rw [← hrest]; simp⟩

end AriaShell.Parser
