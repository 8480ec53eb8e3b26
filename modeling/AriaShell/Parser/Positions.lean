import AriaShell.Parser.LexerRun
/-! Where `tokenize` puts its tokens. `advance` keeps `line_` and `column_` on the next character to
read, and every scanner reads through it, so the lexer's position is always that of its first
unread character (`Moves`). `scanNumber`, `scanIdentifier` and `scanString` take their token's
position before they read; `scanOperator` builds its token with `makeToken` after reading it, and
so does the template branch of `nextToken`, so those tokens carry the position after their text. -/
namespace AriaShell.Parser

/-- The position of the character at index `i` of `source`, lines counted by `'\n'` from 1 and
columns from 1. -/
def positionAt (source : List Char) (i : Nat) : SourceLocation :=
  (source.take i).foldl advancePos {}

/-- INTEGER, FLOAT, IDENTIFIER and the keywords. -/
def TokenType.isWord : TokenType → Bool
  | .integer | .float | .identifier
  | .kwIf | .kwElse | .kwWhile | .kwFor | .kwIn | .kwFunc | .kwReturn | .kwBreak | .kwContinue
  | .kwSpawn | .kwInt8 | .kwInt16 | .kwInt32 | .kwInt64 | .kwTbb8 | .kwTbb16 | .kwTbb32 | .kwTbb64
  | .kwString | .kwBuffer | .kwBool | .kwGc | .kwWild => true
  | _ => false

/-- The operators and delimiters. -/
def TokenType.isOperator : TokenType → Bool
  | .plus | .minus | .star | .slash | .percent | .eq | .ne | .lt | .le | .gt | .ge
  | .and | .or | .not | .assign | .plusAssign | .minusAssign
  | .lparen | .rparen | .lbrace | .rbrace | .lbracket | .rbracket | .semicolon | .comma | .dot
  | .colon | .pipe | .redirectOut | .redirectAppend | .redirectIn | .background | .interpStart => true
  | _ => false

private theorem foldl_advancePos (l : List Char) (loc : SourceLocation) :
    loc.line < (l.foldl advancePos loc).line ∨
      (l.foldl advancePos loc).line = loc.line ∧ (l.foldl advancePos loc).column = loc.column + l.length := by
  induction l generalizing loc with
  | nil => exact .inr ⟨rfl, rfl⟩
  | cons c l ih =>
    rw [List.foldl_cons]
    by_cases hc : c = '\n'
    · rw [show advancePos loc c = ⟨loc.line + 1, 1⟩ from if_pos hc]
      rcases ih ⟨loc.line + 1, 1⟩ with h | ⟨h, -⟩ <;> exact .inl (by simp only at h; omega)
    · rw [show advancePos loc c = { loc with column := loc.column + 1 } from if_neg hc]
      rcases ih { loc with column := loc.column + 1 } with h | ⟨h, h'⟩
      · exact .inl h
      · exact .inr ⟨h, by simp only [List.length_cons] at h' ⊢; omega⟩

private theorem foldl_advancePos_ne {l : List Char} (hl : l ≠ []) (loc : SourceLocation) :
    l.foldl advancePos loc ≠ loc := by
  have := List.length_pos.mpr hl
  rcases foldl_advancePos l loc with h | ⟨-, h⟩ <;> intro he <;> rw [he] at h <;> omega

/-- `lx'` is `lx` after reading some text: its position is that of `lx` moved over the text. -/
def Moves (lx lx' : ShellLexer) : Prop :=
  ∃ read, lx.rest = read ++ lx'.rest ∧ lx'.location = read.foldl advancePos lx.location

namespace Moves

variable {lx lx₁ lx₂ : ShellLexer}

theorem refl (lx : ShellLexer) : Moves lx lx := ⟨[], rfl, rfl⟩

theorem trans (h₁ : Moves lx lx₁) (h₂ : Moves lx₁ lx₂) : Moves lx lx₂ :=
  let ⟨r₁, hr₁, hl₁⟩ := h₁
  let ⟨r₂, hr₂, hl₂⟩ := h₂
  ⟨r₁ ++ r₂, by rw [hr₁, hr₂, List.append_assoc], by rw [hl₂, hl₁, List.foldl_append]⟩

theorem location_eq {read : List Char} (h : Moves lx lx₁) (hr : lx.rest = read ++ lx₁.rest) :
    lx₁.location = read.foldl advancePos lx.location := by
  obtain ⟨r, hr', hl⟩ := h
  rwa [List.append_cancel_right (hr'.symm.trans hr)] at hl

theorem init_position {source : List Char} (h : Moves (ShellLexer.init source) lx) :
    ∃ i, source.drop i = lx.rest ∧ lx.location = positionAt source i := by
  obtain ⟨read, hr, hl⟩ := h
  refine ⟨read.length, ?_, ?_⟩
  · rw [show source = read ++ lx.rest from hr, List.drop_left]
  · rw [hl, positionAt, show source = read ++ lx.rest from hr, List.take_left]
    rfl

end Moves

namespace ShellLexer

variable {lx lx₁ : ShellLexer} {tok : Token}

private theorem advance_moves (hne : lx.rest ≠ []) : Moves lx lx.advance.2 := by
  obtain ⟨c, cs, hr⟩ := List.exists_cons_of_ne_nil hne
  exact ⟨[c], by simp [hr], by simp [advance, peek, hr]⟩

private theorem advance_fst {c : Char} {cs : List Char} (hr : lx.rest = c :: cs) : lx.advance.1 = c := by
  simp [advance, peek, hr]

private theorem scanWhile_moves (lx : ShellLexer) (p : Char → Bool) : Moves lx (lx.scanWhile p).2 :=
  ⟨lx.rest.takeWhile p, (List.takeWhile_append_dropWhile p lx.rest).symm, rfl⟩

end ShellLexer

private theorem scanStringBody_moves (quote : Char) (cs : List Char) (loc : SourceLocation) (value : List Char) :
    ∃ read, cs = read ++ (scanStringBody quote cs loc value).2.1 ∧
      (scanStringBody quote cs loc value).2.2 = read.foldl advancePos loc := by
  induction cs, loc, value using scanStringBody.induct quote with
  | case1 => exact ⟨[], by simp [scanStringBody], rfl⟩
  | case2 cs loc value => exact ⟨[], by simp [scanStringBody_quote], by simp [scanStringBody_quote]⟩
  | case3 loc value h => exact ⟨['\\'], by simp [scanStringBody, h], by simp [scanStringBody, h]⟩
  | case4 loc value e cs' h ih =>
    obtain ⟨read, hr, hl⟩ := ih
    simp only [scanStringBody, if_neg h, if_true]
    exact ⟨'\\' :: e :: read, congrArg (fun t => '\\' :: e :: t) hr, hl⟩
  | case5 c cs loc value hq hb ih =>
    obtain ⟨read, hr, hl⟩ := ih
    rw [scanStringBody_plain quote hq hb]
    exact ⟨c :: read, congrArg (c :: ·) hr, hl⟩

/-- What a scanner called at `lx` leaves, for positions: it read on to `lx₁`; a word token spells
the text it read and sits where that text began; an operator token spells the text it read, which
is not empty, and sits where that text ended; a string token sits where its opening quote is, or,
opened by a backtick, where the text it read ended. -/
def Located (lx : ShellLexer) (tok : Token) (lx₁ : ShellLexer) : Prop :=
  Moves lx lx₁ ∧
    (tok.type.isWord → lx.rest = tok.lexeme ++ lx₁.rest ∧ tok.location = lx.location) ∧
    (tok.type.isOperator → lx.rest = tok.lexeme ++ lx₁.rest ∧ tok.lexeme ≠ [] ∧ tok.location = lx₁.location) ∧
    (tok.type = .string →
      (lx.rest.head? = some doubleQuote ∨ lx.rest.head? = some singleQuote) ∧ tok.location = lx.location ∨
      lx.rest.head? = some backtick ∧
        ∃ read, read ≠ [] ∧ lx.rest = read ++ lx₁.rest ∧ tok.location = lx₁.location)

namespace Located

variable {lx lx₁ lxf : ShellLexer} {tok : Token}

theorem endOfFile (h : Moves lx lx₁) (he : tok.type = .endOfFile) : Located lx tok lx₁ := by
  refine ⟨h, ?_, ?_, ?_⟩ <;> rw [he] <;> nofun

theorem quoted (h : Moves lx lx₁) (hq : lx.rest.head? = some doubleQuote ∨ lx.rest.head? = some singleQuote)
    (ht : tok.type = .string) (hl : tok.location = lx.location) : Located lx tok lx₁ := by
  refine ⟨h, ?_, ?_, fun _ => .inl ⟨hq, hl⟩⟩ <;> rw [ht] <;> nofun

theorem template (read : List Char) (hb : lx.rest.head? = some backtick) (hne : read ≠ [])
    (hr : lx.rest = read ++ lx₁.rest) (hm : lx₁.location = read.foldl advancePos lx.location)
    (ht : tok.type = .string) (hl : tok.location = lx₁.location) : Located lx tok lx₁ := by
  refine ⟨⟨read, hr, hm⟩, ?_, ?_, fun _ => .inr ⟨hb, read, hne, hr, hl⟩⟩ <;> rw [ht] <;> nofun

/-- A token `makeToken` builds after its text was read. -/
theorem operator {lexeme : List Char} {type : TokenType} (hm : Moves lx lxf)
    (hr : lx.rest = lexeme ++ lxf.rest) (hne : lexeme ≠ []) (hw : type.isWord = false ∧ type ≠ .string)
    (st : List LexerState) :
    Located lx (lxf.makeToken type lexeme) { lxf with stateStack := st } :=
  ⟨hm, fun h => absurd h (by rw [ShellLexer.makeToken_type, hw.1]; decide), fun _ => ⟨hr, hne, rfl⟩,
    fun h => absurd h hw.2⟩

/-- A word token, which `scanNumber` or `scanIdentifier` builds at the position it started from. -/
theorem word (hm : Moves lx lx₁) (hr : lx.rest = tok.lexeme ++ lx₁.rest) (hl : tok.location = lx.location)
    (ho : tok.type.isOperator = false) (hs : tok.type ≠ .string) : Located lx tok lx₁ :=
  ⟨hm, fun _ => ⟨hr, hl⟩, fun h => absurd h (by rw [ho]; decide), fun h => absurd h hs⟩

end Located

private theorem identifierType_isOperator (text : List Char) : (identifierType text).isOperator = false := by
  have hkw : ∀ p ∈ keywords, p.2.isOperator = false := by decide
  unfold identifierType
  cases h : keywords.lookup text with
  | none => rfl
  | some t =>
    obtain ⟨l₁, l₂, hl, -⟩ := List.lookup_eq_some_iff.mp h
    exact hkw (text, t) (by rw [hl]; simp)

private theorem identifierType_ne_string (text : List Char) : identifierType text ≠ .string := by
  have hkw : ∀ p ∈ keywords, p.2 ≠ .string := by decide
  unfold identifierType
  cases h : keywords.lookup text with
  | none => decide
  | some t =>
    obtain ⟨l₁, l₂, hl, -⟩ := List.lookup_eq_some_iff.mp h
    exact hkw (text, t) (by rw [hl]; simp)

namespace ShellLexer

variable {lx lx₁ : ShellLexer} {r : Token × ShellLexer}

private theorem matchChar_true {e : Char} (h : lx.matchChar e = (true, lx₁)) :
    lx.rest = e :: lx₁.rest ∧ Moves lx lx₁ := by
  rw [matchChar_eq] at h
  split_ifs at h with he <;> cases h
  obtain ⟨t, ht⟩ : ∃ t, lx.rest = e :: t := by
    cases hr : lx.rest with
    | nil => rw [hr] at he; cases he
    | cons c t => rw [hr] at he; cases he; exact ⟨t, rfl⟩
  exact ⟨by simp [ht], advance_moves (by simp [ht])⟩

private theorem matchChar_false {e : Char} (h : lx.matchChar e = (false, lx₁)) : lx₁ = lx := by
  rw [matchChar_eq] at h
  split_ifs at h <;> cases h
  rfl

private theorem matchEither_located {lxa : ShellLexer} {c : Char} (hm : Moves lx lxa) (hr : lx.rest = c :: lxa.rest)
    (second : Char) {long short : TokenType} (hl : long.isWord = false ∧ long ≠ .string)
    (hs : short.isWord = false ∧ short ≠ .string) :
    Located lx (lxa.matchEither c second long short).1 (lxa.matchEither c second long short).2 := by
  unfold matchEither
  rcases hmc : lxa.matchChar second with ⟨_ | _, lxm⟩
  · obtain rfl := matchChar_false hmc
    exact Located.operator hm hr (List.cons_ne_nil _ _) hs _
  · obtain ⟨hr', hm'⟩ := matchChar_true hmc
    exact Located.operator (hm.trans hm') (by rw [hr, hr']; rfl) (List.cons_ne_nil _ _) hl _

private theorem scanString_moves (hne : lx.rest ≠ []) (quote : Char) : Moves lx (lx.scanString quote).2 := by
  obtain ⟨read, hr, hl⟩ := scanStringBody_moves quote lx.advance.2.rest lx.advance.2.location []
  unfold scanString
  dsimp only
  generalize scanStringBody quote lx.advance.2.rest lx.advance.2.location [] = body at hr hl ⊢
  have hbody : Moves lx.advance.2 { lx with rest := body.2.1, location := body.2.2 } := ⟨read, hr, hl⟩
  split_ifs with h
  · exact ((advance_moves hne).trans hbody).trans (advance_moves h)
  · exact (advance_moves hne).trans hbody

private theorem scanTemplateString_moves {value : List Char} (hs : lx.scanTemplateString = .ok (value, lx₁)) :
    Moves lx lx₁ := by
  unfold scanTemplateString at hs
  dsimp only at hs
  split_ifs at hs with hS
  · rcases hpop : pop (lx.scanWhile (· != backtick)).2.stateStack with _ | st <;> rw [hpop] at hs <;> cases hs
    exact (scanWhile_moves _ _).trans (advance_moves hS)
  · cases hs
    exact scanWhile_moves _ _

private theorem rest_of_peek {c : Char} (h : lx.peek = c) (hc : c ≠ '\x00') : lx.rest = c :: lx.advance.2.rest := by
  unfold peek at h
  cases hr : lx.rest with
  | nil => rw [hr] at h; exact absurd h.symm hc
  | cons d t => rw [hr] at h; cases h; simp [hr]

@[simp] private theorem scanWhile_fst (lx : ShellLexer) (p : Char → Bool) :
    (lx.scanWhile p).1 = lx.rest.takeWhile p := rfl

private theorem scanNumber_located (hs : lx.scanNumber = .ok r) : Located lx r.1 r.2 := by
  unfold scanNumber at hs
  dsimp only at hs
  split at hs
  · rename_i hdot
    rcases stod_ok_or (lx.scanWhile Char.isDigit).1
      ((lx.scanWhile Char.isDigit).2.advance.2.scanWhile Char.isDigit).1 with h | h <;> rw [h] at hs <;> cases hs
    have hd := rest_of_peek hdot.1 (by decide)
    refine .word ((scanWhile_moves _ _).trans ((advance_moves (by rw [hd]; exact List.cons_ne_nil _ _)).trans
      (scanWhile_moves _ _))) ?_ rfl rfl nofun
    simp only [scanWhile_fst, scanWhile_rest] at hd ⊢
    rw [List.append_assoc, List.cons_append, List.takeWhile_append_dropWhile, ← hd,
      List.takeWhile_append_dropWhile]
  · obtain ⟨v, h | h⟩ := stoll_ok_or (lx.scanWhile Char.isDigit).1 <;> rw [h] at hs <;> cases hs
    exact .word (scanWhile_moves _ _) (List.takeWhile_append_dropWhile _ _).symm rfl rfl nofun

private theorem scanIdentifier_located (lx : ShellLexer) : Located lx lx.scanIdentifier.1 lx.scanIdentifier.2 :=
  .word (scanWhile_moves _ _) (List.takeWhile_append_dropWhile _ _).symm rfl (identifierType_isOperator _)
    (identifierType_ne_string _)

private theorem scanOperator_located (hne : lx.rest ≠ []) (hs : lx.scanOperator = .ok r) : Located lx r.1 r.2 := by
  obtain ⟨c, cs, hr⟩ := List.exists_cons_of_ne_nil hne
  rcases ha : lx.advance with ⟨c', lxa⟩
  obtain ⟨rfl, hA, hR⟩ : c' = c ∧ Moves lx lxa ∧ lx.rest = c :: lxa.rest := by
    obtain ⟨rfl, rfl⟩ : lx.advance.1 = c' ∧ lx.advance.2 = lxa := by rw [ha]; exact ⟨rfl, rfl⟩
    exact ⟨advance_fst hr, advance_moves hne, by simp [hr]⟩
  revert hs
  refine scanOperator_cases ha ha (fun R _ => R = .ok r → Located lx r.1 r.2)
    (fun t => t.isWord = false ∧ t ≠ .string) (by decide)
    (fun _ ht hs => by cases hs; exact Located.operator hA hR (List.cons_ne_nil _ _) ht _)
    (fun _ _ _ _ hl hsh hs => by cases hs; exact matchEither_located hA hR _ hl hsh) ?_ ?_ ?_ <;>
    rintro rfl hs
  · -- '>'
    rcases hm : lxa.matchChar '=' with ⟨_ | _, lxm⟩ <;> rw [hm] at hs <;> cases hs
    · obtain rfl := matchChar_false hm
      exact matchEither_located hA hR _ (by decide) (by decide)
    · obtain ⟨hr', hm'⟩ := matchChar_true hm
      exact Located.operator (hA.trans hm') (by rw [hR, hr']; rfl) (List.cons_ne_nil _ _) (by decide) _
  · -- '&'
    rcases hm : lxa.matchChar '{' with ⟨_ | _, lxm⟩ <;> rw [hm] at hs <;> cases hs
    · obtain rfl := matchChar_false hm
      exact matchEither_located hA hR _ (by decide) (by decide)
    · obtain ⟨hr', hm'⟩ := matchChar_true hm
      exact Located.operator (hA.trans hm') (by rw [hR, hr']; rfl) (List.cons_ne_nil _ _) (by decide) _
  · -- '}'
    rcases htop : top lxa.stateStack with _ | st <;> rw [htop] at hs
    · cases hs
    dsimp only [bind, Except.bind] at hs
    split_ifs at hs
    · rcases hpop : pop lxa.stateStack with _ | y <;> rw [hpop] at hs <;> cases hs
      exact Located.operator hA hR (List.cons_ne_nil _ _) (by decide) _
    · cases hs
      exact Located.operator hA hR (List.cons_ne_nil _ _) (by decide) _

private theorem scanAt_located (hs : lx.scanAt = .ok r) : Located lx r.1 r.2 := by
  unfold scanAt at hs
  split at hs
  · cases hs
    exact .endOfFile (.refl _) rfl
  rename_i c cs hr
  have hne : lx.rest ≠ [] := by simp [hr]
  split_ifs at hs with hq hb
  · cases hs
    exact .quoted (scanString_moves hne _) (by rcases hq with rfl | rfl <;> simp [hr]) rfl rfl
  · rcases ht : { lx with stateStack := .stringTemplate :: lx.stateStack }.advance.2.scanTemplateString with
      _ | ⟨value, lx₂⟩ <;> rw [ht] at hs <;> cases hs
    obtain ⟨read, hr', hl'⟩ := scanTemplateString_moves ht
    simp only [advance, peek, hr, List.headD_cons, List.drop_one, List.tail_cons] at hr' hl'
    exact .template (c :: read) (by simp [hr, hb]) (List.cons_ne_nil _ _) (by rw [hr, hr']; rfl) hl' rfl rfl
  · exact scanNumber_located hs
  · cases hs
    exact scanIdentifier_located lx
  · exact scanOperator_located hne hs

private theorem nextToken_located (hs : lx.nextToken = .ok r) : ∃ lxs, Moves lx lxs ∧ Located lxs r.1 r.2 := by
  rw [nextToken_eq] at hs
  rcases htop : top lx.stateStack with _ | s <;> rw [htop] at hs
  · cases hs
  refine ⟨_, ?_, scanAt_located hs⟩
  split_ifs
  · exact scanWhile_moves _ _
  · exact .refl _

end ShellLexer

open ShellLexer

theorem Reads.moves {lx lx₂ : ShellLexer} {ts : List Token} (h : Reads lx ts lx₂) : Moves lx lx₂ := by
  induction h with
  | nil lx => exact .refl lx
  | cons hs _ _ ih =>
    obtain ⟨lxs, hskip, hloc⟩ := nextToken_located hs
    exact (hskip.trans hloc.1).trans ih

private theorem tokenize_split_of_mem {source : List Char} {ts : List Token} {tok : Token}
    (hs : (init source).tokenize = .ok ts) (ht : tok ∈ ts) (htok : tok.type ≠ .endOfFile) :
    ∃ before rest, ts = before ++ tok :: rest ∧ ∀ t ∈ before, t.type ≠ .endOfFile := by
  rcases tokenize_spec (⟨[], rfl⟩ : RootBelow (init source).stateStack) with h | ⟨ts', h, body, eof, rfl, heof, hbody⟩ <;>
    rw [hs] at h <;> cases h
  obtain ⟨before, rest, rfl⟩ : ∃ before rest, body = before ++ tok :: rest := by
    rcases List.mem_append.mp ht with hb | he
    · exact List.append_of_mem hb
    · exact absurd (List.mem_singleton.mp he ▸ heof) htok
  exact ⟨before, rest ++ [eof], by simp, fun t h => hbody t (by simp [h])⟩

private theorem positionAt_add {source read rest : List Char} {i : Nat} (hdrop : source.drop i = read ++ rest) :
    positionAt source (i + read.length) = read.foldl advancePos (positionAt source i) := by
  rw [positionAt, positionAt, List.take_add, hdrop, List.take_left, List.foldl_append]

/-- Where the tokens of `tokenize` sit, for every source text and every token but END_OF_FILE,
`i` being the index of the token's first character. An INTEGER, FLOAT, IDENTIFIER or keyword token
spells the text at `i` and sits at its position, and so does a string in quotes. An operator or
delimiter token spells the text at `i` but sits at the position after that text, and a string in
backticks at the position after the text it read: neither sits at `i`. -/
theorem tokenize_token_positions {source : List Char} {ts : List Token} {tok : Token}
    (hs : (init source).tokenize = .ok ts) (ht : tok ∈ ts) (htok : tok.type ≠ .endOfFile) :
    ∃ i, (tok.type.isWord → tok.lexeme <+: source.drop i ∧ tok.location = positionAt source i) ∧
      (tok.type.isOperator → tok.lexeme <+: source.drop i ∧
        tok.location = positionAt source (i + tok.lexeme.length) ∧ tok.location ≠ positionAt source i) ∧
      (tok.type = .string →
        ((source.drop i).head? = some doubleQuote ∨ (source.drop i).head? = some singleQuote) ∧
          tok.location = positionAt source i ∨
        (source.drop i).head? = some backtick ∧ ∃ read, read <+: source.drop i ∧
          tok.location = positionAt source (i + read.length) ∧ tok.location ≠ positionAt source i) := by
  obtain ⟨before, rest, hts, hbefore⟩ := tokenize_split_of_mem hs ht htok
  obtain ⟨lx, lx₁, hread, hnext⟩ := (tokenize_prefix_iff_reads hs hbefore htok).mp ⟨rest, hts⟩
  obtain ⟨lxs, hskip, hmoves, hword, hop, hstr⟩ := nextToken_located hnext
  obtain ⟨i, hdrop, hpos⟩ := (hread.moves.trans hskip).init_position
  /- a token at the end of a nonempty text read from `i` sits after it, not at `i` -/
  have after : ∀ {read : List Char}, read ≠ [] → lxs.rest = read ++ lx₁.rest → tok.location = lx₁.location →
      tok.location = positionAt source (i + read.length) ∧ tok.location ≠ positionAt source i :=
    fun hne hr hl => by
      rw [hl, hmoves.location_eq hr, positionAt_add (hdrop.trans hr), hpos]
      exact ⟨rfl, foldl_advancePos_ne hne _⟩
  refine ⟨i, fun hw => ?_, fun ho => ?_, fun hst => ?_⟩
  · obtain ⟨hr, hl⟩ := hword hw
    exact ⟨⟨_, by rw [hdrop, hr]⟩, hl.trans hpos⟩
  · obtain ⟨hr, hne, hl⟩ := hop ho
    exact ⟨⟨_, by rw [hdrop, hr]⟩, after hne hr hl⟩
  · rw [hdrop]
    rcases hstr hst with ⟨hq, hl⟩ | ⟨hb, read, hne, hr, hl⟩
    · exact .inl ⟨hq, hl.trans hpos⟩
    · exact .inr ⟨hb, read, ⟨_, hr.symm⟩, after hne hr hl⟩

/-- `x += 1`: the `+=` at column 3 is reported at column 5. -/
theorem tokenize_token_positions_plus_assign :
    (init "x += 1".toList).tokenize = .ok [⟨.identifier, ['x'], ⟨1, 1⟩, 0⟩,
      ⟨.plusAssign, ['+', '='], ⟨1, 5⟩, 0⟩, ⟨.integer, ['1'], ⟨1, 6⟩, 1⟩, ⟨.endOfFile, [], ⟨1, 7⟩, 0⟩] ∧
    ∃ i, ['+', '='] <+: "x += 1".toList.drop i ∧
      (⟨1, 5⟩ : SourceLocation) = positionAt "x += 1".toList (i + 2) ∧
      (⟨1, 5⟩ : SourceLocation) ≠ positionAt "x += 1".toList i := by
  have hs : (init "x += 1".toList).tokenize = .ok [⟨.identifier, ['x'], ⟨1, 1⟩, 0⟩,
      ⟨.plusAssign, ['+', '='], ⟨1, 5⟩, 0⟩, ⟨.integer, ['1'], ⟨1, 6⟩, 1⟩, ⟨.endOfFile, [], ⟨1, 7⟩, 0⟩] := by
    rfl
  obtain ⟨i, -, ho, -⟩ := tokenize_token_positions hs (List.mem_cons_of_mem _ (List.mem_cons_self _ _))
    (by decide)
  exact ⟨hs, i, ho rfl⟩

end AriaShell.Parser
