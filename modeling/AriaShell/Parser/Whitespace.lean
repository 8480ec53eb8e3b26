import AriaShell.Parser.LexerRun
/-! Whitespace put in between two tokens changes nothing `tokenize` returns but the source
locations. Every scanner stops before a blank, so one that stopped before the text after its token
stops there again when whitespace is put in that text; the blank after it is then skipped as any
other. The locations are carried along and never decide a branch. -/
namespace AriaShell.Parser

/-- What the parser reads of a token besides its location. -/
def Token.erase (t : Token) : TokenType × List Char × Int := (t.type, t.lexeme, t.intValue)

private theorem Token.type_eq_of_erase {t t' : Token} (h : t'.erase = t.erase) : t'.type = t.type :=
  congrArg Prod.fst h

/-! ## Where a scan stops -/

section Scan

variable {p : Char → Bool} {x x₁ r : List Char}

private theorem dropWhile_append_of_stop (h : (x ++ r).dropWhile p = x₁ ++ r) (hx₁ : x₁ ≠ []) (r' : List Char) :
    (x ++ r').dropWhile p = x₁ ++ r' := by
  induction x with
  | nil =>
    have := (List.dropWhile_suffix p (l := [] ++ r)).length_le
    rw [h, List.length_append, List.nil_append] at this
    exact absurd (List.length_eq_zero.mp (by omega)) hx₁
  | cons a x ih =>
    by_cases ha : p a
    · simp only [List.cons_append, List.dropWhile_cons_of_pos ha] at h ⊢
      exact ih h
    · simp only [List.cons_append, List.dropWhile_cons_of_neg ha] at h ⊢
      rw [← List.cons_append] at h
      rw [← List.append_cancel_right h, List.cons_append]

private theorem takeWhile_append_of_stop (h : (x ++ r).dropWhile p = x₁ ++ r) (hx₁ : x₁ ≠ []) (r' : List Char) :
    (x ++ r').takeWhile p = (x ++ r).takeWhile p := by
  have h' := List.takeWhile_append_dropWhile p (x ++ r')
  have h₀ := List.takeWhile_append_dropWhile p (x ++ r)
  rw [dropWhile_append_of_stop h hx₁, ← List.append_assoc] at h'
  rw [h, ← List.append_assoc] at h₀
  exact List.append_cancel_right ((List.append_cancel_right h').trans (List.append_cancel_right h₀).symm)

private theorem dropWhile_append_of_head (hx : ∀ c ∈ x, p c = true) {r' : List Char}
    (hr : ∀ c, r'.head? = some c → p c = false) : (x ++ r').dropWhile p = r' ∧ (x ++ r').takeWhile p = x := by
  rw [List.dropWhile_append_of_pos hx, List.takeWhile_append_of_pos hx]
  cases r' with
  | nil => simp
  | cons c r' =>
    have hc := hr c rfl
    simp [List.dropWhile_cons_of_neg, List.takeWhile_cons_of_neg, hc]

end Scan

/-! ## The text after a token, with whitespace put in -/

/-- `r'` is `r` with whitespace put in somewhere, and none put after the end: what a scanner that
stopped before `r` finds instead of `r`. -/
def Look (r r' : List Char) : Prop :=
  ∃ y z w, r = y ++ z ∧ r' = y ++ w ++ z ∧ (∀ c ∈ w, isWhitespace c = true) ∧ (r = [] → w = [])

namespace Look

variable {r r' : List Char}

theorem refl (r : List Char) : Look r r := ⟨[], r, [], rfl, rfl, by simp, fun _ => rfl⟩

theorem nil (h : Look [] r') : r' = [] := by
  obtain ⟨y, z, w, hr, rfl, -, hw⟩ := h
  obtain ⟨rfl, rfl⟩ := List.append_eq_nil.mp hr.symm
  simp [hw rfl]

/-- After the put-in whitespace begins, `r'` begins with a blank; before, with what `r` does. -/
theorem head (h : Look r r') : r'.head? = r.head? ∨ ∃ c, r'.head? = some c ∧ isWhitespace c = true := by
  obtain ⟨y, z, w, rfl, rfl, hw, -⟩ := h
  match y, w with
  | a :: y, _ => exact .inl rfl
  | [], [] => exact .inl rfl
  | [], c :: w => exact .inr ⟨c, rfl, hw c (List.mem_cons_self c w)⟩

theorem scan {p : Char → Bool} {x x₁ : List Char} (hp : ∀ c, isWhitespace c = true → p c = false)
    (h : (x ++ r).dropWhile p = x₁ ++ r) (hr : Look r r') :
    (x ++ r').dropWhile p = x₁ ++ r' ∧ (x ++ r').takeWhile p = (x ++ r).takeWhile p := by
  by_cases hx₁ : x₁ = []
  · subst hx₁
    have htake := List.takeWhile_append_dropWhile p (x ++ r)
    rw [h, List.nil_append] at htake
    have hxt : (x ++ r).takeWhile p = x := List.append_cancel_right htake
    have hx : ∀ c ∈ x, p c = true := fun c hc => List.mem_takeWhile_imp (by rw [hxt]; exact hc)
    have hstop : ∀ c, r.head? = some c → p c = false := by
      intro c hc
      obtain ⟨r₀, rfl⟩ : ∃ r₀, r = c :: r₀ := by
        cases r with
        | nil => cases hc
        | cons d r₀ => exact ⟨r₀, by cases hc; rfl⟩
      simpa [h] using List.head_dropWhile_not p (x ++ c :: r₀) (by simp [h])
    have hstop' : ∀ c, r'.head? = some c → p c = false := fun c hc => by
      rcases hr.head with h' | ⟨d, hd, hdw⟩
      · exact hstop c (h' ▸ hc)
      · exact hp c (Option.some_inj.mp (hc.symm.trans hd) ▸ hdw)
    obtain ⟨hd, ht⟩ := dropWhile_append_of_head hx hstop'
    obtain ⟨-, ht₀⟩ := dropWhile_append_of_head hx hstop
    exact ⟨hd, ht.trans ht₀.symm⟩
  · exact ⟨dropWhile_append_of_stop h hx₁ r', takeWhile_append_of_stop h hx₁ r'⟩

theorem head_ne {e : Char} (h : Look r r') (he : isWhitespace e = false) (hr : r.head? ≠ some e) :
    r'.head? ≠ some e := by
  rcases h.head with h' | ⟨c, hc, hcw⟩
  · rwa [h']
  · rw [hc]
    rintro ⟨⟩
    rw [hcw] at he
    cases he

theorem not_decimal (h : Look r r') (hr : ¬(r.headD '\x00' = '.' ∧ ((r.drop 1).headD '\x00').isDigit = true)) :
    ¬(r'.headD '\x00' = '.' ∧ ((r'.drop 1).headD '\x00').isDigit = true) := by
  obtain ⟨y, z, w, rfl, rfl, hw, -⟩ := h
  have hblank : ∀ c, isWhitespace c = true → c ≠ '.' ∧ c.isDigit = false := fun c hc => by
    simp only [isWhitespace, Bool.or_eq_true, beq_iff_eq] at hc
    rcases hc with ((rfl | rfl) | rfl) | rfl <;> decide
  match y, w with
  | [], [] => exact hr
  | [], c :: w => exact fun h' => (hblank c (hw c (List.mem_cons_self c w))).1 h'.1
  | [a], [] => exact hr
  | [a], c :: w =>
    intro h'
    have := (hblank c (hw c (List.mem_cons_self c w))).2
    simp_all
  | a :: b :: y, _ => exact hr

theorem append_left (h : Look r r') (u : List Char) : Look (u ++ r) (u ++ r') := by
  obtain ⟨y, z, w, rfl, rfl, hw, hne⟩ := h
  exact ⟨u ++ y, z, w, by simp, by simp, hw, fun h' => hne (List.append_eq_nil.mp h').2⟩

end Look

private theorem isWhitespace_cases {c : Char} (h : isWhitespace c = true) : c = ' ' ∨ c = '\t' ∨ c = '\r' ∨ c = '\n' := by
  simp only [isWhitespace, Bool.or_eq_true, beq_iff_eq] at h
  tauto

/-! ## Strings -/

section Strings

variable (quote : Char)

private theorem scanStringBody_relocate (cs : List Char) (loc loc' : SourceLocation) (value : List Char) :
    (scanStringBody quote cs loc' value).1 = (scanStringBody quote cs loc value).1 ∧
      (scanStringBody quote cs loc' value).2.1 = (scanStringBody quote cs loc value).2.1 := by
  induction cs, loc, value using scanStringBody.induct quote generalizing loc' with
  | case1 => simp [scanStringBody]
  | case2 cs loc value => simp [scanStringBody_quote]
  | case3 loc value h => simp [scanStringBody, h]
  | case4 loc value e cs' h ih =>
    simp only [scanStringBody, if_neg h, if_true]
    exact ih _
  | case5 c cs loc value hq hb ih =>
    simp only [scanStringBody_plain quote hq hb]
    exact ih _

private theorem scanStringBody_close (r r' : List Char) :
    ∀ (pre : List Char) (loc loc' : SourceLocation) (value : List Char),
      (scanStringBody quote (pre ++ quote :: r) loc value).2.1 = quote :: r →
      (scanStringBody quote (pre ++ quote :: r') loc' value).1 =
          (scanStringBody quote (pre ++ quote :: r) loc value).1 ∧
        (scanStringBody quote (pre ++ quote :: r') loc' value).2.1 = quote :: r'
  | [], _, _, _, _ => by simp [scanStringBody_quote]
  | c :: pre, loc, loc', value, h => by
    by_cases hq : c = quote
    · subst hq
      have := congrArg List.length h
      simp [scanStringBody_quote] at this
      omega
    by_cases hb : c = '\\'
    · subst hb
      cases pre with
      | nil =>
        simp only [List.singleton_append, scanStringBody, if_neg hq, if_true] at h
        have hlen := (scanStringBody_rest quote r (advancePos (advancePos loc '\\') quote)
          (value ++ [escapeChar quote])).1.length_le
        rw [h, List.length_cons] at hlen
        omega
      | cons e pre =>
        simp only [List.cons_append, scanStringBody, if_neg hq, if_true] at h ⊢
        exact scanStringBody_close r r' pre _ _ _ h
    simp only [List.cons_append, scanStringBody_plain quote hq hb] at h ⊢
    exact scanStringBody_close r r' pre _ _ _ h

end Strings

/-! ## Two lexers no scanner tells apart -/

/-- The two lexers stand at the same text `u`, followed by `r` in the one and by `r'` in the
other, with the same state stack; their locations may differ. -/
def Tracks (r r' : List Char) (lx lx' : ShellLexer) : Prop :=
  ∃ u, lx.rest = u ++ r ∧ lx'.rest = u ++ r' ∧ lx'.stateStack = lx.stateStack

/-- The call `res` answers as the one that returned `tok` and left `lx₁`, as far as the rest of
the run can tell: a token of the same type, lexeme and value, and a lexer that tracks `lx₁`. -/
def Answers (r r' : List Char) (res : Except LexFault (Token × ShellLexer)) (tok : Token)
    (lx₁ : ShellLexer) : Prop :=
  ∃ tok' lx₁', res = .ok (tok', lx₁') ∧ tok'.erase = tok.erase ∧ Tracks r r' lx₁ lx₁'

namespace ShellLexer

private theorem scanString_erase (lx : ShellLexer) (quote : Char) :
    (lx.scanString quote).1.erase =
      (.string, (scanStringBody quote lx.advance.2.rest lx.advance.2.location []).1, 0) := rfl

end ShellLexer

namespace Tracks

variable {r r' : List Char} {lx lx' : ShellLexer}

private theorem of_rest (h : lx'.rest = lx.rest) (hst : lx'.stateStack = lx.stateStack) : Tracks [] [] lx lx' :=
  ⟨lx.rest, by simp, by simp [h], hst⟩

theorem stack (h : Tracks r r' lx lx') : lx'.stateStack = lx.stateStack := by
  obtain ⟨_, _, _, hst⟩ := h
  exact hst

theorem rest_eq_of_nil (h : Tracks [] [] lx lx') : lx'.rest = lx.rest := by
  obtain ⟨u, hu, hu', -⟩ := h
  rw [hu, hu']

theorem rest_eq (h : Tracks r r' lx lx') (hr : lx.rest = r) : lx'.rest = r' := by
  obtain ⟨u, hu, hu', -⟩ := h
  rw [hr] at hu
  rw [hu', List.append_left_eq_self.mp hu.symm, List.nil_append]

/-- Before the end of `u` both lexers read the same character. -/
theorem advance (h : Tracks r r' lx lx') (hlt : r.length < lx.rest.length) :
    lx'.advance.1 = lx.advance.1 ∧ Tracks r r' lx.advance.2 lx'.advance.2 := by
  obtain ⟨u, hu, hu', hst⟩ := h
  cases u with
  | nil => simp [hu] at hlt
  | cons c u =>
    exact ⟨by simp [ShellLexer.advance, ShellLexer.peek, hu, hu'], u, by simp [hu], by simp [hu'], hst⟩

/-- `match(e)` for an `e` that is no blank: where `u` has ended, it fails on both lexers, since
the one would otherwise have read into `r`. -/
theorem matchChar {e : Char} (h : Tracks r r' lx lx') (hr : Look r r') (he : isWhitespace e = false)
    (hfin : r <:+ (lx.matchChar e).2.rest) :
    (lx'.matchChar e).1 = (lx.matchChar e).1 ∧ Tracks r r' (lx.matchChar e).2 (lx'.matchChar e).2 := by
  obtain ⟨u, hu, hu', hst⟩ := h
  rw [ShellLexer.matchChar_eq] at hfin ⊢
  rw [ShellLexer.matchChar_eq]
  cases u with
  | nil =>
    rw [List.nil_append] at hu hu'
    have hs : lx.rest.head? ≠ some e := fun hc => by
      rw [if_pos hc, ShellLexer.advance_rest, hu] at hfin
      have := hfin.length_le
      rw [List.length_drop] at this
      rw [hu] at hc
      cases r with
      | nil => cases hc
      | cons a r => simp only [List.length_cons] at this; omega
    have hs' : lx'.rest.head? ≠ some e := by
      rw [hu']
      exact hr.head_ne he (hu ▸ hs)
    rw [if_neg hs, if_neg hs']
    exact ⟨rfl, [], by simp [hu], by simp [hu'], hst⟩
  | cons c u =>
    have h₁ : lx.rest.head? = some c := by rw [hu]; rfl
    have h₂ : lx'.rest.head? = some c := by rw [hu']; rfl
    by_cases hc : c = e
    · subst hc
      rw [if_pos h₁, if_pos h₂]
      exact ⟨rfl, u, by simp [hu], by simp [hu'], hst⟩
    · rw [if_neg (show ¬lx.rest.head? = some e by rw [h₁]; simpa using hc),
        if_neg (show ¬lx'.rest.head? = some e by rw [h₂]; simpa using hc)]
      exact ⟨rfl, c :: u, hu, hu', hst⟩

theorem look (h : Tracks r r' lx lx') (hr : Look r r') : Look lx.rest lx'.rest := by
  obtain ⟨u, hu, hu', -⟩ := h
  rw [hu, hu']
  exact hr.append_left u

/-- A scan that no blank continues stops at the same place in both lexers. -/
theorem scanWhile {p : Char → Bool} (h : Tracks r r' lx lx') (hr : Look r r')
    (hp : ∀ c, isWhitespace c = true → p c = false) (hfin : r <:+ (lx.scanWhile p).2.rest) :
    (lx'.scanWhile p).1 = (lx.scanWhile p).1 ∧ Tracks r r' (lx.scanWhile p).2 (lx'.scanWhile p).2 := by
  obtain ⟨u, hu, hu', hst⟩ := h
  obtain ⟨x₁, hx₁⟩ := hfin
  rw [ShellLexer.scanWhile_rest, hu] at hx₁
  obtain ⟨hd, ht⟩ := hr.scan hp hx₁.symm
  refine ⟨?_, x₁, by simp [hu, hx₁], by simp [hu', hd], hst⟩
  show lx'.rest.takeWhile p = lx.rest.takeWhile p
  rw [hu, hu', ht]

theorem scanWhile_of_lt {p : Char → Bool} (h : Tracks r r' lx lx')
    (hfin : r <:+ (lx.scanWhile p).2.rest) (hlt : r.length < (lx.scanWhile p).2.rest.length) :
    (lx'.scanWhile p).1 = (lx.scanWhile p).1 ∧ Tracks r r' (lx.scanWhile p).2 (lx'.scanWhile p).2 := by
  obtain ⟨u, hu, hu', hst⟩ := h
  obtain ⟨x₁, hx₁⟩ := hfin
  have hx₁' : x₁ ≠ [] := by
    rintro rfl
    rw [← hx₁, List.nil_append] at hlt
    exact lt_irrefl _ hlt
  rw [ShellLexer.scanWhile_rest, hu] at hx₁
  refine ⟨?_, x₁, by simp [hu, hx₁], by simp [hu', dropWhile_append_of_stop hx₁.symm hx₁' r'], hst⟩
  show lx'.rest.takeWhile p = lx.rest.takeWhile p
  rw [hu, hu', takeWhile_append_of_stop hx₁.symm hx₁' r']

theorem matchEither {c second : Char} {long short : TokenType} (h : Tracks r r' lx lx') (hr : Look r r')
    (he : isWhitespace second = false) (hfin : r <:+ (lx.matchEither c second long short).2.rest) :
    (lx'.matchEither c second long short).1.erase = (lx.matchEither c second long short).1.erase ∧
      Tracks r r' (lx.matchEither c second long short).2 (lx'.matchEither c second long short).2 := by
  have hfin' : r <:+ (lx.matchChar second).2.rest := by
    unfold ShellLexer.matchEither at hfin
    split at hfin <;> rename_i hm <;> simpa [hm] using hfin
  obtain ⟨hb, ht⟩ := h.matchChar hr he hfin'
  unfold ShellLexer.matchEither
  rcases hm : lx.matchChar second with ⟨_ | _, lxm⟩ <;> rcases hm' : lx'.matchChar second with ⟨_ | _, lxm'⟩ <;>
    simp only [hm, hm'] at hb ht ⊢ <;> first | exact ⟨rfl, ht⟩ | cases hb

theorem withStack (h : Tracks r r' lx lx') (st : List LexerState) :
    Tracks r r' { lx with stateStack := st } { lx' with stateStack := st } := by
  obtain ⟨u, hu, hu', -⟩ := h
  exact ⟨u, hu, hu', rfl⟩

/-! ### The scanners -/

theorem scanIdentifier (h : Tracks r r' lx lx') (hr : Look r r') (hfin : r <:+ lx.scanIdentifier.2.rest) :
    Answers r r' (.ok lx'.scanIdentifier) lx.scanIdentifier.1 lx.scanIdentifier.2 := by
  have hp : ∀ c, isWhitespace c = true → (c.isAlphanum || c == '_') = false := fun c hc => by
    rcases isWhitespace_cases hc with rfl | rfl | rfl | rfl <;> decide
  obtain ⟨h₁, h₂⟩ := h.scanWhile (p := fun c => c.isAlphanum || c == '_') hr hp hfin
  have h₁' : lx'.rest.takeWhile (fun c => c.isAlphanum || c == '_') =
      lx.rest.takeWhile (fun c => c.isAlphanum || c == '_') := h₁
  exact ⟨_, _, rfl, by simp only [ShellLexer.scanIdentifier, ShellLexer.scanWhile, Token.erase, h₁'], h₂⟩

theorem scanNumber (h : Tracks r r' lx lx') (hr : Look r r') {tok : Token} {lx₁ : ShellLexer}
    (hs : lx.scanNumber = .ok (tok, lx₁)) (hfin : r <:+ lx₁.rest) : Answers r r' lx'.scanNumber tok lx₁ := by
  have hp : ∀ c, isWhitespace c = true → c.isDigit = false := fun c hc => by
    rcases isWhitespace_cases hc with rfl | rfl | rfl | rfl <;> decide
  unfold ShellLexer.scanNumber at hs ⊢
  dsimp only at hs ⊢
  split at hs
  case isTrue hdec =>
    rcases ShellLexer.stod_ok_or (lx.scanWhile Char.isDigit).1
      ((lx.scanWhile Char.isDigit).2.advance.2.scanWhile Char.isDigit).1 with hst | hst <;>
      rw [hst] at hs <;> cases hs
    have hne : (lx.scanWhile Char.isDigit).2.rest ≠ [] := by
      intro h'
      have h₁ := hdec.1
      unfold ShellLexer.peek at h₁
      rw [h'] at h₁
      exact absurd h₁ (by decide)
    have hsuf : ((lx.scanWhile Char.isDigit).2.advance.2.scanWhile Char.isDigit).2.rest <:+
        (lx.scanWhile Char.isDigit).2.advance.2.rest := List.dropWhile_suffix _
    obtain ⟨hW₁, hW⟩ := h.scanWhile hr hp (hfin.trans (hsuf.trans (List.drop_suffix 1 _)))
    have hlt₁ : r.length < (lx.scanWhile Char.isDigit).2.rest.length := by
      have := hfin.length_le.trans hsuf.length_le
      rw [ShellLexer.advance_rest, List.length_drop] at this
      have := List.length_pos.mpr hne
      omega
    obtain ⟨hc₁, hA⟩ := hW.advance hlt₁
    have hlt₂ : r.length < (lx.scanWhile Char.isDigit).2.advance.2.rest.length := by
      have hpn : ((lx.scanWhile Char.isDigit).2.advance.2.rest.headD '\x00').isDigit = true := hdec.2
      have hle := hfin.length_le
      rw [ShellLexer.scanWhile_rest] at hle
      rcases hdr : (lx.scanWhile Char.isDigit).2.advance.2.rest with _ | ⟨d, ds⟩
      · rw [hdr] at hpn
        exact absurd hpn (by decide)
      · rw [hdr] at hpn hle
        exact lt_of_le_of_lt hle (length_dropWhile_lt hpn ds)
    obtain ⟨hc₂, -⟩ := hA.advance hlt₂
    obtain ⟨hF₁, hF⟩ := hA.scanWhile hr hp hfin
    have hdec' : (lx'.scanWhile Char.isDigit).2.peek = '.' ∧
        (lx'.scanWhile Char.isDigit).2.peekNext.isDigit = true := by
      refine ⟨(hc₁.trans ?_), ?_⟩
      · exact hdec.1
      · have h₂ : (lx'.scanWhile Char.isDigit).2.peekNext = (lx.scanWhile Char.isDigit).2.peekNext := hc₂
        rw [h₂]
        exact hdec.2
    rw [if_pos hdec', hW₁, hF₁, hst]
    exact ⟨_, _, rfl, by simp only [Token.erase, hW₁, hF₁], hF⟩
  case isFalse hdec =>
    obtain ⟨v, hv | hv⟩ := ShellLexer.stoll_ok_or (lx.scanWhile Char.isDigit).1 <;>
      rw [hv] at hs <;> cases hs
    obtain ⟨hW₁, hW⟩ := h.scanWhile hr hp hfin
    have hdec' : ¬((lx'.scanWhile Char.isDigit).2.peek = '.' ∧
        (lx'.scanWhile Char.isDigit).2.peekNext.isDigit = true) :=
      (hW.look hr).not_decimal hdec
    rw [if_neg hdec', hW₁, hv]
    exact ⟨_, _, rfl, rfl, hW⟩

theorem scanString (h : Tracks r r' lx lx') (hr : Look r r') (hlt : r.length < lx.rest.length) (quote : Char)
    (hfin : r <:+ (lx.scanString quote).2.rest) :
    Answers r r' (.ok (lx'.scanString quote)) (lx.scanString quote).1 (lx.scanString quote).2 := by
  obtain ⟨-, u, hu, hu', -⟩ := h.advance hlt
  have hbody := scanStringBody_rest quote lx.advance.2.rest lx.advance.2.location []
  rw [ShellLexer.scanString_rest] at hfin
  suffices hB : (scanStringBody quote lx'.advance.2.rest lx'.advance.2.location []).1 =
      (scanStringBody quote lx.advance.2.rest lx.advance.2.location []).1 ∧
      Tracks r r' (lx.scanString quote).2 (lx'.scanString quote).2 from
    ⟨_, _, rfl, by rw [ShellLexer.scanString_erase]; exact congrArg (fun v => (TokenType.string, v, (0 : Int))) hB.1,
      hB.2⟩
  have hstack : (lx'.scanString quote).2.stateStack = (lx.scanString quote).2.stateStack := by
    rw [ShellLexer.scanString_stateStack, ShellLexer.scanString_stateStack, h.stack]
  by_cases hb : (scanStringBody quote lx.advance.2.rest lx.advance.2.location []).2.1 = []
  · rw [if_neg (not_not.mpr hb), hb] at hfin
    obtain rfl : r = [] := List.eq_nil_of_suffix_nil hfin
    obtain rfl := hr.nil
    have htext : lx'.advance.2.rest = lx.advance.2.rest := by rw [hu, hu']
    obtain ⟨h₁, h₂⟩ := scanStringBody_relocate quote lx.advance.2.rest lx.advance.2.location
      lx'.advance.2.location []
    refine ⟨htext ▸ h₁, [], ?_, ?_, hstack⟩ <;> rw [ShellLexer.scanString_rest]
    · rw [hb]; rfl
    · rw [htext, h₂, hb]; rfl
  · rw [if_pos hb] at hfin
    obtain ⟨t, hBt⟩ : ∃ t, (scanStringBody quote lx.advance.2.rest lx.advance.2.location []).2.1 = quote :: t := by
      rcases hB₁ : (scanStringBody quote lx.advance.2.rest lx.advance.2.location []).2.1 with _ | ⟨c, t⟩
      · exact absurd hB₁ hb
      · rw [hbody.2 c (by rw [hB₁]; rfl)]
        exact ⟨t, rfl⟩
    rw [hBt, List.drop_one, List.tail_cons] at hfin
    obtain ⟨v, rfl⟩ := hfin
    obtain ⟨pre, hpre⟩ := hbody.1
    rw [hBt, hu] at hpre
    have hu₀ : u = pre ++ quote :: v := List.append_cancel_right (by simpa using hpre.symm)
    have htext : lx.advance.2.rest = pre ++ quote :: (v ++ r) := by rw [hu, hu₀]; simp
    have htext' : lx'.advance.2.rest = pre ++ quote :: (v ++ r') := by rw [hu', hu₀]; simp
    obtain ⟨h₁, h₂⟩ := scanStringBody_close quote (v ++ r) (v ++ r') pre lx.advance.2.location
      lx'.advance.2.location [] (by rw [← htext, hBt])
    refine ⟨by rw [htext, htext', h₁], v, ?_, ?_, hstack⟩ <;> rw [ShellLexer.scanString_rest]
    · rw [hBt, if_pos (List.cons_ne_nil _ _)]; rfl
    · rw [htext', h₂, if_pos (List.cons_ne_nil _ _)]; rfl

theorem ne_nil (h : Tracks r r' lx lx') (hlt : r.length < lx.rest.length) : lx'.rest ≠ [] := by
  obtain ⟨u, hu, hu', -⟩ := h
  cases u with
  | nil => simp [hu] at hlt
  | cons c u => simp [hu']

theorem scanTemplateString (h : Tracks r r' lx lx') (hr : Look r r') {value : List Char} {lx₁ : ShellLexer}
    (hs : lx.scanTemplateString = .ok (value, lx₁)) (hfin : r <:+ lx₁.rest) :
    ∃ lx₁', lx'.scanTemplateString = .ok (value, lx₁') ∧ Tracks r r' lx₁ lx₁' := by
  unfold ShellLexer.scanTemplateString at hs ⊢
  dsimp only at hs ⊢
  by_cases hS : (lx.scanWhile (· != backtick)).2.rest = []
  · rw [if_neg (not_not.mpr hS)] at hs
    cases hs
    obtain rfl : r = [] := List.eq_nil_of_suffix_nil (hS ▸ hfin)
    obtain rfl := hr.nil
    have htext : lx'.rest = lx.rest := h.rest_eq_of_nil
    have hS' : (lx'.scanWhile (· != backtick)).2.rest = [] := by
      rw [ShellLexer.scanWhile_rest, htext]
      exact hS
    rw [if_neg (not_not.mpr hS')]
    refine ⟨(lx'.scanWhile (· != backtick)).2, ?_, Tracks.of_rest ?_ h.stack⟩
    · simp only [ShellLexer.scanWhile, htext]
      rfl
    · simp only [ShellLexer.scanWhile, htext]
  · rw [if_pos hS] at hs
    rcases hpop : pop (lx.scanWhile (· != backtick)).2.stateStack with _ | st <;> rw [hpop] at hs <;> cases hs
    have hne := List.length_pos.mpr hS
    have hlt : r.length < (lx.scanWhile (· != backtick)).2.rest.length := by
      have := hfin.length_le
      simp only [ShellLexer.advance_rest, List.length_drop] at this
      omega
    obtain ⟨h₁, hW⟩ := h.scanWhile_of_lt ((hfin.trans (List.drop_suffix 1 _))) hlt
    obtain ⟨-, hA⟩ := hW.advance hlt
    rw [if_pos (hW.ne_nil hlt), hW.stack, hpop, h₁]
    exact ⟨_, rfl, hA.withStack st⟩

/-! ### The operators -/

theorem single (h : Tracks r r' lx lx') {type : TokenType} {lexeme : List Char} {tok : Token} {lx₁ : ShellLexer}
    (hs : (.ok (lx.makeToken type lexeme, lx) : Except LexFault (Token × ShellLexer)) = .ok (tok, lx₁)) :
    Answers r r' (.ok (lx'.makeToken type lexeme, lx')) tok lx₁ := by
  cases hs
  exact ⟨_, _, rfl, rfl, h⟩

theorem either (h : Tracks r r' lx lx') (hr : Look r r') {c second : Char} {long short : TokenType}
    (he : isWhitespace second = false) {tok : Token} {lx₁ : ShellLexer}
    (hs : (.ok (lx.matchEither c second long short) : Except LexFault (Token × ShellLexer)) = .ok (tok, lx₁))
    (hfin : r <:+ lx₁.rest) : Answers r r' (.ok (lx'.matchEither c second long short)) tok lx₁ := by
  have heq := Except.ok.inj hs
  obtain ⟨h₁, h₂⟩ := h.matchEither hr he (by rw [heq]; exact hfin)
  rw [heq] at h₁ h₂
  exact ⟨_, _, rfl, h₁, h₂⟩

theorem scanOperator (h : Tracks r r' lx lx') (hr : Look r r') (hlt : r.length < lx.rest.length)
    {tok : Token} {lx₁ : ShellLexer} (hs : lx.scanOperator = .ok (tok, lx₁)) (hfin : r <:+ lx₁.rest) :
    Answers r r' lx'.scanOperator tok lx₁ := by
  obtain ⟨hc, hA⟩ := h.advance hlt
  rcases ha : lx.advance with ⟨c, lxa⟩
  rcases ha' : lx'.advance with ⟨c', lxa'⟩
  rw [ha, ha'] at hc hA
  dsimp only at hc hA
  subst c'
  revert hs hfin
  refine ShellLexer.scanOperator_cases ha ha'
    (fun R R' => R = .ok (tok, lx₁) → r <:+ lx₁.rest → Answers r r' R' tok lx₁) (fun _ => True)
    (fun _ _ => trivial) (fun _ _ hs _ => hA.single hs) (fun _ _ _ he _ _ hs hfin => hA.either hr he hs hfin)
    ?_ ?_ ?_ <;> rintro rfl hs hfin
  · -- '>': '>=', '>>' or '>'
    rcases hm : lxa.matchChar '=' with ⟨_ | _, lxm⟩ <;> rw [hm] at hs <;> dsimp only at hs
    · have hfin' := hfin.trans ((congrArg Prod.snd (Except.ok.inj hs)) ▸ ShellLexer.matchEither_suffix lxm _ _ _ _)
      obtain ⟨hb, hM⟩ := hA.matchChar hr (e := '=') (by decide) (by rw [hm]; exact hfin')
      rw [hm] at hb hM
      rcases hm' : lxa'.matchChar '=' with ⟨_ | _, lxm'⟩ <;> rw [hm'] at hb hM <;> cases hb
      exact hM.either hr (by decide) hs hfin
    · cases hs
      obtain ⟨hb, hM⟩ := hA.matchChar hr (e := '=') (by decide) (by rw [hm]; exact hfin)
      rw [hm] at hb hM
      rcases hm' : lxa'.matchChar '=' with ⟨_ | _, lxm'⟩ <;> rw [hm'] at hb hM <;> cases hb
      exact hM.single rfl
  · -- '&': '&{', '&&' or '&'
    rcases hm : lxa.matchChar '{' with ⟨_ | _, lxm⟩ <;> rw [hm] at hs <;> dsimp only at hs
    · have hfin' := hfin.trans ((congrArg Prod.snd (Except.ok.inj hs)) ▸ ShellLexer.matchEither_suffix lxm _ _ _ _)
      obtain ⟨hb, hM⟩ := hA.matchChar hr (e := '{') (by decide) (by rw [hm]; exact hfin')
      rw [hm] at hb hM
      rcases hm' : lxa'.matchChar '{' with ⟨_ | _, lxm'⟩ <;> rw [hm'] at hb hM <;> cases hb
      exact hM.either hr (by decide) hs hfin
    · cases hs
      obtain ⟨hb, hM⟩ := hA.matchChar hr (e := '{') (by decide) (by rw [hm]; exact hfin)
      rw [hm] at hb hM
      rcases hm' : lxa'.matchChar '{' with ⟨_ | _, lxm'⟩ <;> rw [hm'] at hb hM <;> cases hb
      dsimp only
      rw [hM.stack]
      exact ⟨_, _, rfl, rfl, hM.withStack _⟩
  · -- '}': pops the INTERPOLATION state that '&{' pushed
    rw [hA.stack]
    rcases htop : top lxa.stateStack with _ | st <;> rw [htop] at hs
    · cases hs
    dsimp only [bind, Except.bind] at hs ⊢
    split_ifs at hs ⊢
    · rcases hpop : pop lxa.stateStack with _ | y <;> rw [hpop] at hs
      · cases hs
      cases hs
      exact ⟨_, _, rfl, rfl, hA.withStack y⟩
    · cases hs
      exact ⟨_, _, rfl, rfl, hA.withStack _⟩

/-! ### One call of `nextToken` -/

theorem suffix (h : Tracks r r' lx lx') : r <:+ lx.rest := by
  obtain ⟨u, hu, -⟩ := h
  exact hu ▸ List.suffix_append u r

theorem cons (h : Tracks r r' lx lx') (hlt : r.length < lx.rest.length) {c : Char} {cs : List Char}
    (hc : lx.rest = c :: cs) : ∃ cs', lx'.rest = c :: cs' := by
  obtain ⟨u, hu, hu', -⟩ := h
  cases u with
  | nil => simp [hu] at hlt
  | cons d u =>
    rw [hc, List.cons_append] at hu
    cases hu
    exact ⟨u ++ r', by rw [hu', List.cons_append]⟩

/-- A skip that stops inside `u` stops at the same place in both lexers. -/
theorem skipWhitespace (h : Tracks r r' lx lx') (hlt : r.length < lx.skipWhitespace.rest.length) :
    Tracks r r' lx.skipWhitespace lx'.skipWhitespace :=
  (h.scanWhile_of_lt (p := isWhitespace)
    (List.suffix_of_suffix_length_le h.suffix (List.dropWhile_suffix _) hlt.le) hlt).2

/-- The scanner the next character selects answers alike on both lexers. -/
theorem scanAt (h : Tracks r r' lx lx') (hr : Look r r') (hst : RootBelow lx.stateStack) {tok : Token}
    {lx₁ : ShellLexer} (hs : lx.scanAt = .ok (tok, lx₁)) (hfin : r <:+ lx₁.rest) :
    Answers r r' lx'.scanAt tok lx₁ := by
  by_cases hne : lx.rest = []
  · rw [ShellLexer.scanAt_nil hne] at hs
    cases hs
    obtain rfl : r = [] := List.eq_nil_of_suffix_nil (hne ▸ hfin)
    obtain rfl := hr.nil
    rw [ShellLexer.scanAt_nil (h.rest_eq_of_nil.trans hne)]
    exact ⟨_, _, rfl, rfl, h⟩
  have hlt := ShellLexer.length_lt_of_scanAt hst hne hs hfin
  unfold ShellLexer.scanAt at hs ⊢
  split at hs
  · contradiction
  rename_i c cs hc
  obtain ⟨cs', hc'⟩ := h.cons hlt hc
  split
  · rename_i hn
    rw [hn] at hc'
    cases hc'
  rename_i c' cs'' hc''
  rw [hc'] at hc''
  cases hc''
  split_ifs at hs ⊢
  · have he : lx.scanString c = (tok, lx₁) := Except.ok.inj hs
    have := h.scanString hr hlt c (by rw [he]; exact hfin)
    rwa [he] at this
  · rw [h.stack]
    rcases ht : { lx with stateStack := .stringTemplate :: lx.stateStack }.advance.2.scanTemplateString with
      _ | ⟨value, lx₂⟩ <;> rw [ht] at hs <;> cases hs
    obtain ⟨lx₂', ht', hT⟩ :=
      ((h.withStack (.stringTemplate :: lx.stateStack)).advance hlt).2.scanTemplateString hr ht hfin
    rw [ht']
    exact ⟨_, _, rfl, rfl, hT⟩
  · exact h.scanNumber hr hs hfin
  · have he : lx.scanIdentifier = (tok, lx₁) := Except.ok.inj hs
    have := h.scanIdentifier hr (by rw [he]; exact hfin)
    rwa [he] at this
  · exact h.scanOperator hr hlt hs hfin

/-- One call of `nextToken` answers alike on two tracking lexers, when it returns before `r`. -/
theorem nextToken (h : Tracks r r' lx lx') (hr : Look r r') (hst : RootBelow lx.stateStack) {tok : Token}
    {lx₁ : ShellLexer} (hs : lx.nextToken = .ok (tok, lx₁)) (hfin : r <:+ lx₁.rest) :
    Answers r r' lx'.nextToken tok lx₁ := by
  obtain ⟨s, htop⟩ := hst.top_ok
  rw [ShellLexer.nextToken_eq, htop] at hs
  rw [ShellLexer.nextToken_eq, h.stack, htop]
  dsimp only [bind, Except.bind] at hs ⊢
  split_ifs at hs ⊢
  · have hS : Tracks r r' lx.skipWhitespace lx'.skipWhitespace := by
      by_cases hr₀ : r = []
      · subst hr₀
        obtain rfl := hr.nil
        exact Tracks.of_rest (by simp only [ShellLexer.skipWhitespace, ShellLexer.scanWhile_rest,
          h.rest_eq_of_nil]) h.stack
      · have hne : lx.skipWhitespace.rest ≠ [] := fun hn => by
          rw [ShellLexer.scanAt_nil hn] at hs
          cases hs
          exact hr₀ (List.eq_nil_of_suffix_nil (hn ▸ hfin))
        exact h.skipWhitespace (ShellLexer.length_lt_of_scanAt hst hne hs hfin)
    exact hS.scanAt hr hst hs hfin
  · exact h.scanAt hr hst hs hfin

end Tracks

private theorem nextToken_boundary {lx lx' lx₁ : ShellLexer} {ws w b : List Char} {tok : Token}
    (hrest : lx.rest = ws ++ b) (hrest' : lx'.rest = ws ++ w ++ b) (hws : ∀ c ∈ ws, isWhitespace c = true)
    (hw : ∀ c ∈ w, isWhitespace c = true) (hstk : lx'.stateStack = lx.stateStack)
    (hst : RootBelow lx.stateStack) (hq : Quiet lx.stateStack) (hs : lx.nextToken = .ok (tok, lx₁)) :
    Answers [] [] lx'.nextToken tok lx₁ := by
  obtain ⟨s, htop⟩ := hst.top_ok
  rw [ShellLexer.nextToken_eq, htop] at hs
  rw [ShellLexer.nextToken_eq, hstk, htop]
  dsimp only [bind, Except.bind] at hs ⊢
  rw [if_pos (hq s (top_mem htop))] at hs ⊢
  have hS : Tracks [] [] lx.skipWhitespace lx'.skipWhitespace := by
    refine Tracks.of_rest ?_ hstk
    show lx'.rest.dropWhile isWhitespace = lx.rest.dropWhile isWhitespace
    rw [hrest, hrest', List.append_assoc, List.dropWhile_append_of_pos hws, List.dropWhile_append_of_pos hw,
      List.dropWhile_append_of_pos hws]
  exact hS.scanAt (Look.refl []) hst hs List.nil_suffix

/-! ## The two runs -/

open ShellLexer

private theorem map_erase_append {ts ts' : List Token} (h : ts'.map Token.erase = ts.map Token.erase) {t t' : Token}
    (ht : t'.erase = t.erase) : (ts' ++ [t']).map Token.erase = (ts ++ [t]).map Token.erase := by
  rw [List.map_append, List.map_append, h, List.map_singleton, List.map_singleton, ht]

private theorem tokenizeLoop_of_tracks (n : Nat) : ∀ {lx lx' lxe : ShellLexer} {n' : Nat} {tokens tokens' ts : List Token},
    Tracks [] [] lx lx' → RootBelow lx.stateStack → n ≤ n' → tokens'.map Token.erase = tokens.map Token.erase →
    tokenizeLoop n lx tokens = .ok (ts, lxe) →
    ∃ ts' lxe', tokenizeLoop n' lx' tokens' = .ok (ts', lxe') ∧ ts'.map Token.erase = ts.map Token.erase ∧
      Tracks [] [] lxe lxe' := by
  induction n with
  | zero => intro _ _ _ _ _ _ _ _ _ _ _ hs; cases hs
  | succ n ih =>
    intro lx lx' lxe n' tokens tokens' ts h hst hn htoks hs
    obtain ⟨m, rfl⟩ : ∃ m, n' = m + 1 := ⟨n' - 1, by omega⟩
    have htext := h.rest_eq_of_nil
    rcases tokenizeLoop_cases hs with ⟨hne, rfl, rfl⟩ | ⟨t, lx₁, hne, hnext, hcase⟩
    · exact ⟨_, _, tokenizeLoop_nil (htext.trans hne), htoks, h⟩
    obtain ⟨t', lx₁', hnext', he, hT⟩ := h.nextToken (Look.refl []) hst hnext List.nil_suffix
    have htype := Token.type_eq_of_erase he
    have hne' : lx'.rest ≠ [] := htext ▸ hne
    rcases hcase with ⟨ht, rfl, rfl⟩ | ⟨ht, hs⟩
    · exact ⟨_, _, tokenizeLoop_eof hne' hnext' (htype.trans ht), map_erase_append htoks he, hT⟩
    · rw [tokenizeLoop_next hne' hnext' (htype ▸ ht)]
      exact ih hT (ShellLexer.nextToken_shortens hst hnext ht).1 (by omega) (map_erase_append htoks he) hs

private theorem tokenizeLoop_of_reads {lx lxb : ShellLexer} {before : List Token} (hread : Reads lx before lxb)
    {ws w b : List Char} (hrest : lxb.rest = ws ++ b) (hws : ∀ c ∈ ws, isWhitespace c = true)
    (hw : ∀ c ∈ w, isWhitespace c = true) (hq : Quiet lxb.stateStack) {tok : Token} {lxn : ShellLexer}
    (hnext : lxb.nextToken = .ok (tok, lxn)) (htok : tok.type ≠ .endOfFile) :
    ∀ {lx' lxe : ShellLexer} {n n' : Nat} {tokens tokens' ts : List Token},
      Tracks (ws ++ b) (ws ++ w ++ b) lx lx' → RootBelow lx.stateStack → n ≤ n' →
      tokens'.map Token.erase = tokens.map Token.erase → tokenizeLoop n lx tokens = .ok (ts, lxe) →
      ∃ ts' lxe', tokenizeLoop n' lx' tokens' = .ok (ts', lxe') ∧ ts'.map Token.erase = ts.map Token.erase ∧
        Tracks [] [] lxe lxe' := by
  have hlook : Look (ws ++ b) (ws ++ w ++ b) :=
    ⟨ws, b, w, rfl, rfl, hw, fun h => absurd (hrest.trans h) (rest_ne_nil_of_nextToken hnext htok)⟩
  induction hread with
  | nil lx =>
    intro lx' lxe n n' tokens tokens' ts h hst hn htoks hs
    obtain ⟨hstn, hlt⟩ := ShellLexer.nextToken_shortens hst hnext htok
    obtain ⟨k, rfl⟩ : ∃ k, n = k + 1 := ⟨n - 1, by cases n <;> [cases hs; omega]⟩
    obtain ⟨m, rfl⟩ : ∃ m, n' = m + 1 := ⟨n' - 1, by omega⟩
    have hrest' := h.rest_eq hrest
    have hne' : lx'.rest ≠ [] := by
      rw [hrest']
      intro hn
      have : lx.rest.length = 0 := by simp_all
      omega
    obtain ⟨tok', lxn', hnext', he, hT⟩ := nextToken_boundary hrest hrest' hws hw h.stack hst hq hnext
    rcases tokenizeLoop_cases hs with ⟨hnil, -⟩ | ⟨t, lx₁, -, hcall, hcase⟩
    · rw [hnil] at hlt
      exact absurd hlt (Nat.not_lt_zero _)
    rw [hnext] at hcall
    cases hcall
    rcases hcase with ⟨ht, -⟩ | ⟨-, hs⟩
    · exact absurd ht htok
    rw [tokenizeLoop_next hne' hnext' (Token.type_eq_of_erase he ▸ htok)]
    exact tokenizeLoop_of_tracks k hT hstn (by omega) (map_erase_append htoks he) hs
  | cons hs₁ ht₁ hrd ih =>
    intro lx' lxe n n' tokens tokens' ts h hst hn htoks hs
    rename_i lx lx₁ _ t _
    obtain ⟨hst₁, hlt⟩ := ShellLexer.nextToken_shortens hst hs₁ ht₁
    obtain ⟨k, rfl⟩ : ∃ k, n = k + 1 := ⟨n - 1, by cases n <;> [cases hs; omega]⟩
    obtain ⟨m, rfl⟩ : ∃ m, n' = m + 1 := ⟨n' - 1, by omega⟩
    have hfin : ws ++ b <:+ lx₁.rest := hrest ▸ hrd.suffix
    obtain ⟨t', lx₁', hnext', he, hT⟩ := h.nextToken hlook hst hs₁ hfin
    have hne' : lx'.rest ≠ [] := h.ne_nil (lt_of_le_of_lt hfin.length_le hlt)
    rcases tokenizeLoop_cases hs with ⟨hnil, -⟩ | ⟨t₀, l₀, -, hcall, hcase⟩
    · rw [hnil] at hlt
      exact absurd hlt (Nat.not_lt_zero _)
    rw [hs₁] at hcall
    cases hcall
    rcases hcase with ⟨ht, -⟩ | ⟨-, hs⟩
    · exact absurd ht ht₁
    rw [tokenizeLoop_next hne' hnext' (Token.type_eq_of_erase he ▸ ht₁)]
    exact ih hrest hq hnext hT hst₁ (by omega) (map_erase_append htoks he) hs

private theorem map_type_of_erase {ts ts' : List Token} (h : ts'.map Token.erase = ts.map Token.erase) :
    ts'.map Token.type = ts.map Token.type := by
  have := congrArg (List.map Prod.fst) h
  rwa [List.map_map, List.map_map] at this

/-- Whitespace put in at a boundary between two tokens changes only locations. `tokenize` of
`a ++ b` has read the tokens `before` and stands at blanks `ws` followed by `b`, and its next token
is not END_OF_FILE; then `a ++ w ++ b`, for any blanks `w`, gives the same tokens as `a ++ b` but
for their locations. -/
theorem tokenize_whitespace_insensitive {a b ws w : List Char} {before ts : List Token} {lx lx₁ : ShellLexer}
    {tok : Token} (hs : (init (a ++ b)).tokenize = .ok ts) (hread : Reads (init (a ++ b)) before lx)
    (hrest : lx.rest = ws ++ b) (hws : ∀ c ∈ ws, isWhitespace c = true) (hnext : lx.nextToken = .ok (tok, lx₁))
    (htok : tok.type ≠ .endOfFile) (hw : ∀ c ∈ w, isWhitespace c = true) :
    ∃ ts', (init (a ++ w ++ b)).tokenize = .ok ts' ∧ ts'.map Token.erase = ts.map Token.erase := by
  obtain ⟨u, hu⟩ := hread.suffix
  rw [hrest] at hu
  have ha : a = u ++ ws := List.append_cancel_right (by rw [List.append_assoc, hu]; rfl)
  have hT : Tracks (ws ++ b) (ws ++ w ++ b) (init (a ++ b)) (init (a ++ w ++ b)) :=
    ⟨u, hu.symm, by rw [ha]; simp [init], rfl⟩
  have hq : Quiet lx.stateStack :=
    hread.settled (fun _ _ hs => .inl (List.mem_singleton.mp hs)) (rest_ne_nil_of_nextToken hnext htok)
  unfold tokenize at hs ⊢
  rcases hL : tokenizeLoop ((init (a ++ b)).rest.length + 1) (init (a ++ b)) [] with _ | ⟨tokens, lxe⟩ <;>
    rw [hL] at hs
  · cases hs
  obtain ⟨ts', lxe', hL', he, -⟩ := tokenizeLoop_of_reads hread hrest hws hw hq hnext htok hT ⟨[], rfl⟩
    (show (init (a ++ b)).rest.length + 1 ≤ (init (a ++ w ++ b)).rest.length + 1 by simp [init]) rfl hL
  rw [hL']
  dsimp only [bind, Except.bind] at hs ⊢
  have hlast : ts'.getLast?.map Token.type = tokens.getLast?.map Token.type := by
    rw [← List.getLast?_map, ← List.getLast?_map, map_type_of_erase he]
  rw [hlast]
  split_ifs at hs ⊢ <;> cases hs
  · exact ⟨_, rfl, map_erase_append he rfl⟩
  · exact ⟨_, rfl, he⟩

theorem tokenize_whitespace_insensitive_plus : ∃ ts ts', (init ['x', '+', 'y']).tokenize = .ok ts ∧
    (init (['x'] ++ [' '] ++ ['+', 'y'])).tokenize = .ok ts' ∧ ts'.map Token.erase = ts.map Token.erase := by
  obtain ⟨ts, hs⟩ : ∃ ts, (init ['x', '+', 'y']).tokenize = .ok ts := ⟨_, rfl⟩
  obtain ⟨ts', h', he⟩ := tokenize_whitespace_insensitive (a := ['x']) (b := ['+', 'y']) (w := [' ']) hs
    (.cons rfl (by decide) (.nil _)) (show _ = [] ++ ['+', 'y'] from rfl) (by simp) rfl (by decide) (by decide)
  exact ⟨ts, ts', hs, h', he⟩

end AriaShell.Parser
