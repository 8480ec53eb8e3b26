import Mathlib.Algebra.Order.Ring.Nat
import AriaShell.Parser.Token
/-! `ShellLexer` of `parser/lexer.cpp`: the scanners over the unread text, the stack of lexer
states that backtick templates and `&{` interpolations push, and `tokenize`. -/
namespace AriaShell.Parser

inductive LexerState where
  | root | string | stringTemplate | interpolation
  deriving DecidableEq, Repr

/-- The C++ exceptions and undefined operations the lexer can reach. -/
inductive LexFault where
  /-- `std::out_of_range`, from `std::stoll` or `std::stod` -/
  | outOfRange
  /-- `top()` or `pop()` on an empty `std::stack` -/
  | emptyStack
  /-- the model's fuel for the loop of `tokenize` ran out -/
  | outOfFuel
  deriving DecidableEq, Repr

/-- The double quote, the single quote and the backtick. -/
def doubleQuote : Char := Char.ofNat 34
def singleQuote : Char := Char.ofNat 39
def backtick : Char := Char.ofNat 96

/-- A `ShellLexer`: `source_` from `current_` on, `line_` and `column_`, and `stateStack_` with
its top first. -/
structure ShellLexer where
  rest : List Char
  location : SourceLocation
  stateStack : List LexerState
  deriving DecidableEq, Repr

def top : List LexerState → Except LexFault LexerState
  | [] => .error .emptyStack
  | s :: _ => .ok s

def pop : List LexerState → Except LexFault (List LexerState)
  | [] => .error .emptyStack
  | _ :: ss => .ok ss

/-- The position after `advance` reads `c`. -/
def advancePos (loc : SourceLocation) (c : Char) : SourceLocation :=
  if c = '\n' then ⟨loc.line + 1, 1⟩ else { loc with column := loc.column + 1 }

def isWhitespace (c : Char) : Bool := c == ' ' || c == '\t' || c == '\r' || c == '\n'

/-- The escape table of `scanString`: `\n`, `\t` and `\r`; any other character stands for
itself. -/
def escapeChar : Char → Char
  | 'n' => '\n'
  | 't' => '\t'
  | 'r' => '\r'
  | c => c

/-- The value of a run of decimal digits. -/
def digitsValue (ds : List Char) : Nat := ds.foldl (fun n d => 10 * n + (d.toNat - '0'.toNat)) 0

/-- `std::stoll` on a run of digits: `std::out_of_range` above `LLONG_MAX`. -/
def stoll (value : List Char) : Except LexFault Int :=
  if digitsValue value < 2 ^ 63 then .ok (digitsValue value) else .error .outOfRange

/-- `2^1024 - 2^970`: halfway between `DBL_MAX` and `2^1024`, the least value `strtod` rounds to
infinity. -/
def dblOverflow : Nat := 2 ^ 1024 - 2 ^ 970

/-- `2^-1022 - 2^-1076` in units of `2^-1076`: a value below it rounds, to nearest with an unbounded
exponent, below `DBL_MIN`, so it is tiny (x86-64 detects tininess after rounding). -/
def dblTiny : Nat := 2 ^ 54 - 1

/-- The range check of `std::stod` on `whole.frac`, whose value is `v / 10^k`: `strtod` sets
`ERANGE`, and `std::stod` throws `std::out_of_range`, when the literal rounds past the largest
double, or when it is tiny and not a multiple of `2^-1074`, the spacing of the subnormals. The
double itself is not modelled. -/
def stod (whole frac : List Char) : Except LexFault Unit :=
  if dblOverflow * 10 ^ frac.length ≤ digitsValue (whole ++ frac) ∨
      (digitsValue (whole ++ frac) * 2 ^ 1076 < dblTiny * 10 ^ frac.length ∧
        ¬10 ^ frac.length ∣ digitsValue (whole ++ frac) * 2 ^ 1074) then .error .outOfRange
  else .ok ()

set_option exponentiation.threshold 1100 in
set_option maxRecDepth 4000 in
example : (stod ['0'] (List.replicate 400 '0' ++ ['1'])).toBool = false := by decide

set_option exponentiation.threshold 1100 in
example : (stod ['0'] ['5']).toBool = true := by decide

/-- The loop of `scanString` after the opening quote, up to the closing quote or the end: the
value read, with the text and the position after it. -/
def scanStringBody (quote : Char) :
    List Char → SourceLocation → List Char → List Char × List Char × SourceLocation
  | [], loc, value => (value, [], loc)
  | c :: cs, loc, value =>
    if c = quote then (value, c :: cs, loc)
    else if c = '\\' then
      match cs with
      | [] => (value, [], advancePos loc c)
      | e :: cs' => scanStringBody quote cs' (advancePos (advancePos loc c) e) (value ++ [escapeChar e])
    else scanStringBody quote cs (advancePos loc c) (value ++ [c])

/-! ## What every call leaves: the stack keeps ROOT, and each token but END_OF_FILE reads text -/

/-- ROOT is still at the bottom of the state stack: the constructor pushes it, and only states
pushed above it are popped. -/
def RootBelow (st : List LexerState) : Prop := ∃ above, st = above ++ [.root]

theorem RootBelow.top_ok {st : List LexerState} (h : RootBelow st) : ∃ s, top st = .ok s := by
  obtain ⟨above, rfl⟩ := h
  cases above <;> exact ⟨_, rfl⟩

theorem RootBelow.cons {st : List LexerState} (h : RootBelow st) (s : LexerState) :
    RootBelow (s :: st) :=
  let ⟨above, h⟩ := h; ⟨s :: above, by rw [h, List.cons_append]⟩

theorem RootBelow.pop_of_top {st : List LexerState} {s : LexerState} (h : RootBelow st)
    (ht : top st = .ok s) (hs : s ≠ .root) : ∃ st', pop st = .ok st' ∧ RootBelow st' := by
  obtain ⟨above, rfl⟩ := h
  cases above with
  | nil => cases ht; exact absurd rfl hs
  | cons a above => exact ⟨_, rfl, above, rfl⟩

private theorem length_dropWhile_le (p : Char → Bool) (l : List Char) : (l.dropWhile p).length ≤ l.length := by
  have h := congrArg List.length (List.takeWhile_append_dropWhile p l)
  rw [List.length_append] at h
  omega

theorem length_dropWhile_lt {p : Char → Bool} {c : Char} (hc : p c = true) (cs : List Char) :
    ((c :: cs).dropWhile p).length < (c :: cs).length := by
  rw [List.dropWhile_cons_of_pos hc, List.length_cons]
  exact Nat.lt_succ_of_le (length_dropWhile_le p cs)

private theorem length_scanStringBody_le (quote : Char) (cs : List Char) (loc : SourceLocation)
    (value : List Char) : (scanStringBody quote cs loc value).2.1.length ≤ cs.length := by
  induction cs, loc, value using scanStringBody.induct quote with
  | case1 => simp [scanStringBody]
  | case2 => rw [scanStringBody.eq_def]; simp
  | case3 _ _ h => simp [scanStringBody, h]
  | case4 _ _ _ _ h ih =>
    rw [scanStringBody.eq_3, if_neg h, if_pos rfl, List.length_cons, List.length_cons]; omega
  | case5 _ _ _ _ h₁ h₂ ih =>
    rw [scanStringBody.eq_def]; simp only [h₁, h₂, if_false, List.length_cons]; omega

namespace ShellLexer

/-- The constructor: at the start of `source`, on line 1, column 1, in state ROOT. -/
def init (source : List Char) : ShellLexer := ⟨source, {}, [.root]⟩

/-- `peek`: `'\0'` at the end. -/
def peek (lx : ShellLexer) : Char := lx.rest.headD '\x00'

def peekNext (lx : ShellLexer) : Char := (lx.rest.drop 1).headD '\x00'

/-- `advance`: reads one character. At the end it reads the string's terminating `'\0'`; every
caller checks for the end first. -/
def advance (lx : ShellLexer) : Char × ShellLexer :=
  (lx.peek, { lx with rest := lx.rest.drop 1, location := advancePos lx.location lx.peek })

/-- `match(expected)` -/
def matchChar (lx : ShellLexer) (expected : Char) : Bool × ShellLexer :=
  if lx.rest ≠ [] ∧ lx.peek = expected then (true, lx.advance.2) else (false, lx)

/-- `makeToken`: a token at the current position. -/
def makeToken (lx : ShellLexer) (type : TokenType) (lexeme : List Char) : Token :=
  ⟨type, lexeme, lx.location, 0⟩

/-- `while (!isAtEnd() && p(peek())) value += advance();`, the loop of `skipWhitespace`,
`scanNumber`, `scanIdentifier` and `scanTemplateString`. -/
def scanWhile (lx : ShellLexer) (p : Char → Bool) : List Char × ShellLexer :=
  (lx.rest.takeWhile p,
    { lx with rest := lx.rest.dropWhile p, location := (lx.rest.takeWhile p).foldl advancePos lx.location })

def skipWhitespace (lx : ShellLexer) : ShellLexer := (lx.scanWhile isWhitespace).2

/-- `scanString(quote)`, at the opening quote. -/
def scanString (lx : ShellLexer) (quote : Char) : Token × ShellLexer :=
  let body := scanStringBody quote lx.advance.2.rest lx.advance.2.location []
  let lx' := { lx with rest := body.2.1, location := body.2.2 }
  (⟨.string, body.1, lx.location, 0⟩, if lx'.rest ≠ [] then lx'.advance.2 else lx')

/-- `scanTemplateString`, after `nextToken` has pushed STRING_TEMPLATE and read the backtick:
the state is popped only when the closing backtick is there. -/
def scanTemplateString (lx : ShellLexer) : Except LexFault (List Char × ShellLexer) := do
  let scanned := lx.scanWhile (· != backtick)
  if scanned.2.rest ≠ [] then
    let stateStack ← pop scanned.2.stateStack
    pure (scanned.1, { scanned.2.advance.2 with stateStack })
  else pure scanned

/-- `scanNumber`, at a digit: `std::stod` for a literal with a fractional part, `std::stoll`
otherwise. -/
def scanNumber (lx : ShellLexer) : Except LexFault (Token × ShellLexer) :=
  let whole := lx.scanWhile Char.isDigit
  if whole.2.peek = '.' ∧ whole.2.peekNext.isDigit then
    let frac := whole.2.advance.2.scanWhile Char.isDigit
    do stod whole.1 frac.1; pure (⟨.float, whole.1 ++ '.' :: frac.1, lx.location, 0⟩, frac.2)
  else do
    let intValue ← stoll whole.1
    pure (⟨.integer, whole.1, lx.location, intValue⟩, whole.2)

/-- `scanIdentifier`, at a letter or `_`. -/
def scanIdentifier (lx : ShellLexer) : Token × ShellLexer :=
  let (value, lx') := lx.scanWhile (fun c => c.isAlphanum || c == '_')
  (⟨identifierType value, value, lx.location, 0⟩, lx')

/-- `if (match(second)) return makeToken(long, ..); return makeToken(short, ..);`, after `c`. -/
def matchEither (lx : ShellLexer) (c second : Char) (long short : TokenType) : Token × ShellLexer :=
  match lx.matchChar second with
  | (true, lx) => (lx.makeToken long [c, second], lx)
  | (false, lx) => (lx.makeToken short [c], lx)

/-- `scanOperator`: `}` pops an INTERPOLATION state that `&{` pushed. -/
def scanOperator (lx : ShellLexer) : Except LexFault (Token × ShellLexer) :=
  let (c, lx) := lx.advance
  let single (type : TokenType) : Except LexFault (Token × ShellLexer) := .ok (lx.makeToken type [c], lx)
  match c with
  | '+' => .ok (lx.matchEither c '=' .plusAssign .plus)
  | '-' => .ok (lx.matchEither c '=' .minusAssign .minus)
  | '*' => single .star
  | '/' => single .slash
  | '%' => single .percent
  | '=' => .ok (lx.matchEither c '=' .eq .assign)
  | '!' => .ok (lx.matchEither c '=' .ne .not)
  | '<' => .ok (lx.matchEither c '=' .le .lt)
  | '>' =>
    match lx.matchChar '=' with
    | (true, lx) => .ok (lx.makeToken .ge ['>', '='], lx)
    | (false, lx) => .ok (lx.matchEither c '>' .redirectAppend .gt)
  | '&' =>
    match lx.matchChar '{' with
    | (true, lx) =>
      let lx := { lx with stateStack := .interpolation :: lx.stateStack }
      .ok (lx.makeToken .interpStart ['&', '{'], lx)
    | (false, lx) => .ok (lx.matchEither c '&' .and .background)
  | '|' => .ok (lx.matchEither c '|' .or .pipe)
  | '(' => single .lparen
  | ')' => single .rparen
  | '{' => single .lbrace
  | '}' => do
    let state ← top lx.stateStack
    let stateStack ← if state = .interpolation then pop lx.stateStack else pure lx.stateStack
    pure (lx.makeToken .rbrace [c], { lx with stateStack })
  | '[' => single .lbracket
  | ']' => single .rbracket
  | ';' => single .semicolon
  | ',' => single .comma
  | '.' => single .dot
  | ':' => single .colon
  | _ => single .unknown

/-- `nextToken`: whitespace is skipped in the ROOT and INTERPOLATION states. -/
def nextToken (lx : ShellLexer) : Except LexFault (Token × ShellLexer) := do
  let state ← top lx.stateStack
  let lx := if state = .root ∨ state = .interpolation then lx.skipWhitespace else lx
  match lx.rest with
  | [] => pure (lx.makeToken .endOfFile [], lx)
  | c :: _ =>
    if c = doubleQuote ∨ c = singleQuote then pure (lx.scanString c)
    else if c = backtick then do
      let (value, lx) ← { lx with stateStack := .stringTemplate :: lx.stateStack }.advance.2.scanTemplateString
      pure (lx.makeToken .string value, lx)
    else if c.isDigit then lx.scanNumber
    else if c.isAlpha ∨ c = '_' then pure lx.scanIdentifier
    else lx.scanOperator

/-- The loop of `tokenize`, with fuel for the calls of `nextToken`. -/
def tokenizeLoop : Nat → ShellLexer → List Token → Except LexFault (List Token × ShellLexer)
  | 0, _, _ => .error .outOfFuel
  | n + 1, lx, tokens =>
    if lx.rest = [] then .ok (tokens, lx)
    else do
      let (token, lx) ← lx.nextToken
      if token.type = .endOfFile then pure (tokens ++ [token], lx)
      else tokenizeLoop n lx (tokens ++ [token])

/-- `tokenize`: END_OF_FILE is appended unless the loop ended on it (`getLast?` is `none` on the
empty vector). Every call of `nextToken` but the last reads a character, so `rest.length + 1`
calls are enough (`tokenize_total`). -/
def tokenize (lx : ShellLexer) : Except LexFault (List Token) := do
  let (tokens, lx) ← tokenizeLoop (lx.rest.length + 1) lx []
  if tokens.getLast?.map Token.type ≠ some .endOfFile then pure (tokens ++ [lx.makeToken .endOfFile []])
  else pure tokens

@[simp] theorem advance_rest (lx : ShellLexer) : lx.advance.2.rest = lx.rest.drop 1 := rfl
@[simp] private theorem advance_stateStack (lx : ShellLexer) : lx.advance.2.stateStack = lx.stateStack := rfl
@[simp] theorem scanWhile_rest (lx : ShellLexer) (p : Char → Bool) :
    (lx.scanWhile p).2.rest = lx.rest.dropWhile p := rfl
@[simp] private theorem scanWhile_stateStack (lx : ShellLexer) (p : Char → Bool) :
    (lx.scanWhile p).2.stateStack = lx.stateStack := rfl

theorem matchChar_spec (lx : ShellLexer) (expected : Char) :
    (lx.matchChar expected).2.rest.length ≤ lx.rest.length ∧
      (lx.matchChar expected).2.stateStack = lx.stateStack := by
  unfold matchChar
  split <;> simp

/-- What a scanner called at a character leaves: `std::out_of_range`, or a token other than
END_OF_FILE after reading at least one character, with ROOT still at the bottom of the stack. -/
def Scanned (lx : ShellLexer) (r : Except LexFault (Token × ShellLexer)) : Prop :=
  r = .error .outOfRange ∨ ∃ t lx', r = .ok (t, lx') ∧
    t.type ≠ .endOfFile ∧ lx'.rest.length < lx.rest.length ∧ RootBelow lx'.stateStack

private theorem scanned_of_advance {lx lx' : ShellLexer} {t : Token} (hne : lx.rest ≠ [])
    (hlen : lx'.rest.length ≤ lx.advance.2.rest.length) (hst : RootBelow lx'.stateStack)
    (ht : t.type ≠ .endOfFile) : Scanned lx (.ok (t, lx')) := by
  refine .inr ⟨t, lx', rfl, ht, ?_, hst⟩
  rw [advance_rest, List.length_drop] at hlen
  have := List.length_pos.mpr hne
  omega

private theorem scanString_scanned {lx : ShellLexer} (hne : lx.rest ≠ []) (hst : RootBelow lx.stateStack)
    (quote : Char) : Scanned lx (.ok (lx.scanString quote)) := by
  unfold scanString
  refine scanned_of_advance hne ?_ ?_ (by simp)
  · have h := length_scanStringBody_le quote lx.advance.2.rest lx.advance.2.location []
    split
    · simp only [advance_rest, List.length_drop] at h ⊢; omega
    · exact h
  · split <;> exact hst

private theorem scanIdentifier_scanned {lx : ShellLexer} {c : Char} {cs : List Char} (hr : lx.rest = c :: cs)
    (hc : c.isAlpha ∨ c = '_') (hst : RootBelow lx.stateStack) : Scanned lx (.ok lx.scanIdentifier) := by
  have hp : (c.isAlphanum || c == '_') = true := by
    rcases hc with hc | rfl
    · simp [Char.isAlphanum, hc]
    · rfl
  refine .inr ⟨_, _, rfl, identifierType_ne_endOfFile _, ?_, hst⟩
  simp only [scanIdentifier, scanWhile_rest, hr]
  exact length_dropWhile_lt hp cs

theorem stoll_ok_or (value : List Char) :
    ∃ v, stoll value = .ok v ∨ stoll value = .error .outOfRange := by
  unfold stoll
  split
  · exact ⟨_, .inl rfl⟩
  · exact ⟨0, .inr rfl⟩

theorem stod_ok_or (whole frac : List Char) :
    stod whole frac = .ok () ∨ stod whole frac = .error .outOfRange := by
  unfold stod
  split
  · exact .inr rfl
  · exact .inl rfl

private theorem stoll_bind {α : Type} (value : List Char) (k : Int → Except LexFault α) :
    (stoll value >>= k) = .error .outOfRange ∨ ∃ v, (stoll value >>= k) = k v := by
  obtain ⟨v, h | h⟩ := stoll_ok_or value
  · exact .inr ⟨v, by rw [h]; rfl⟩
  · exact .inl (by rw [h]; rfl)

private theorem stod_bind {α : Type} (whole frac : List Char) (k : Unit → Except LexFault α) :
    (stod whole frac >>= k) = .error .outOfRange ∨ (stod whole frac >>= k) = k () := by
  rcases stod_ok_or whole frac with h | h
  · exact .inr (by rw [h]; rfl)
  · exact .inl (by rw [h]; rfl)

private theorem scanNumber_scanned {lx : ShellLexer} {c : Char} {cs : List Char} (hr : lx.rest = c :: cs)
    (hc : c.isDigit = true) (hst : RootBelow lx.stateStack) : Scanned lx lx.scanNumber := by
  have hlt : (lx.scanWhile Char.isDigit).2.rest.length < lx.rest.length := by
    rw [scanWhile_rest, hr]; exact length_dropWhile_lt hc cs
  unfold scanNumber
  dsimp only
  split
  · rcases stod_bind _ _ _ with h | h <;> rw [h]
    · exact .inl rfl
    · refine .inr ⟨_, _, rfl, by simp, ?_, hst⟩
      have := length_dropWhile_le Char.isDigit ((lx.scanWhile Char.isDigit).2.rest.drop 1)
      simp only [scanWhile_rest, advance_rest, List.length_drop] at this hlt ⊢
      omega
  · obtain h | ⟨v, h⟩ := stoll_bind _ _ <;> rw [h]
    · exact .inl rfl
    · exact .inr ⟨_, _, rfl, by simp, hlt, hst⟩

@[simp] theorem makeToken_type (lx : ShellLexer) (type : TokenType) (lexeme : List Char) :
    (lx.makeToken type lexeme).type = type := rfl

private theorem scanTemplateString_spec {lx : ShellLexer} {s : LexerState} {st : List LexerState}
    (hs : lx.stateStack = s :: st) (hst : RootBelow st) :
    ∃ value lx', lx.scanTemplateString = .ok (value, lx') ∧ lx'.rest.length ≤ lx.rest.length ∧
      RootBelow lx'.stateStack := by
  have hle := length_dropWhile_le (· != backtick) lx.rest
  unfold scanTemplateString
  dsimp only
  split
  · rw [scanWhile_stateStack, hs]
    exact ⟨_, _, rfl, by simp only [advance_rest, scanWhile_rest, List.length_drop]; omega, hst⟩
  · exact ⟨_, _, rfl, hle, hs ▸ hst.cons s⟩

theorem matchEither_spec (lx : ShellLexer) (c second : Char) (long short : TokenType) :
    ((lx.matchEither c second long short).1.type = long ∨
      (lx.matchEither c second long short).1.type = short) ∧
    (lx.matchEither c second long short).2.rest.length ≤ lx.rest.length ∧
    (lx.matchEither c second long short).2.stateStack = lx.stateStack := by
  have h := matchChar_spec lx second
  unfold matchEither
  split <;> rename_i heq <;> rw [heq] at h
  · exact ⟨.inl rfl, h⟩
  · exact ⟨.inr rfl, h⟩

private theorem scanned_matchEither {lx lx₁ : ShellLexer} (hne : lx.rest ≠ [])
    (hlen : lx₁.rest.length ≤ lx.advance.2.rest.length) (hst : RootBelow lx₁.stateStack)
    {long short : TokenType} (hl : long ≠ .endOfFile) (hs : short ≠ .endOfFile) (c second : Char) :
    Scanned lx (.ok (lx₁.matchEither c second long short)) := by
  obtain ⟨ht, hlen', hst'⟩ := matchEither_spec lx₁ c second long short
  have ht' : (lx₁.matchEither c second long short).1.type ≠ .endOfFile := by
    rcases ht with h | h <;> rwa [h]
  exact scanned_of_advance hne (hlen'.trans hlen) (hst' ▸ hst) ht'

/-- `scanOperator` on two lexers that read the same first character `c` takes the same branch on
both: a one-character token, a `matchEither`, or one of `>`, `&` and `}`, which look further or
touch the stack. Every type the first two build satisfies `Q` when the listed ones do. -/
theorem scanOperator_cases {lx lx' lxa lxa' : ShellLexer} {c : Char} (ha : lx.advance = (c, lxa))
    (ha' : lx'.advance = (c, lxa'))
    (P : Except LexFault (Token × ShellLexer) → Except LexFault (Token × ShellLexer) → Prop)
    (Q : TokenType → Prop)
    (hQ : ∀ t ∈ [TokenType.star, .slash, .percent, .lparen, .rparen, .lbrace, .lbracket, .rbracket,
      .semicolon, .comma, .dot, .colon, .unknown, .plusAssign, .plus, .minusAssign, .minus, .eq,
      .assign, .ne, .not, .le, .lt, .or, .pipe], Q t)
    (single : ∀ t, Q t → P (.ok (lxa.makeToken t [c], lxa)) (.ok (lxa'.makeToken t [c], lxa')))
    (either : ∀ second long short, isWhitespace second = false → Q long → Q short →
      P (.ok (lxa.matchEither c second long short)) (.ok (lxa'.matchEither c second long short)))
    (gt : c = '>' → P
      (match lxa.matchChar '=' with
        | (true, lx) => .ok (lx.makeToken .ge ['>', '='], lx)
        | (false, lx) => .ok (lx.matchEither c '>' .redirectAppend .gt))
      (match lxa'.matchChar '=' with
        | (true, lx) => .ok (lx.makeToken .ge ['>', '='], lx)
        | (false, lx) => .ok (lx.matchEither c '>' .redirectAppend .gt)))
    (amp : c = '&' → P
      (match lxa.matchChar '{' with
        | (true, lx) => .ok (lx.makeToken .interpStart ['&', '{'],
            { lx with stateStack := .interpolation :: lx.stateStack })
        | (false, lx) => .ok (lx.matchEither c '&' .and .background))
      (match lxa'.matchChar '{' with
        | (true, lx) => .ok (lx.makeToken .interpStart ['&', '{'],
            { lx with stateStack := .interpolation :: lx.stateStack })
        | (false, lx) => .ok (lx.matchEither c '&' .and .background)))
    (brace : c = '}' → P
      (do
        let state ← top lxa.stateStack
        let stateStack ← if state = .interpolation then pop lxa.stateStack else pure lxa.stateStack
        pure (lxa.makeToken .rbrace [c], { lxa with stateStack }))
      (do
        let state ← top lxa'.stateStack
        let stateStack ← if state = .interpolation then pop lxa'.stateStack else pure lxa'.stateStack
        pure (lxa'.makeToken .rbrace [c], { lxa' with stateStack }))) :
    P lx.scanOperator lx'.scanOperator := by
  unfold scanOperator
  rw [ha, ha']
  dsimp only
  split
  all_goals first
    | exact single _ (hQ _ (by decide))
    | exact either _ _ _ rfl (hQ _ (by decide)) (hQ _ (by decide))
    | exact gt rfl
    | exact amp rfl
    | exact brace rfl
private theorem scanOperator_scanned {lx : ShellLexer} (hne : lx.rest ≠ []) (hst : RootBelow lx.stateStack) :
    Scanned lx lx.scanOperator := by
  have after : ∀ {b lx₁}, lx.advance.2.matchChar '=' = (b, lx₁) ∨ lx.advance.2.matchChar '{' = (b, lx₁) →
      lx₁.rest.length ≤ lx.advance.2.rest.length ∧ lx₁.stateStack = lx.stateStack := by
    rintro b lx₁ (h | h)
    · simpa [h] using matchChar_spec lx.advance.2 '='
    · simpa [h] using matchChar_spec lx.advance.2 '{'
  refine @scanOperator_cases lx lx lx.advance.2 lx.advance.2 lx.advance.1 rfl rfl (fun R _ => Scanned lx R) (· ≠ .endOfFile) (by decide)
    (fun _ ht => scanned_of_advance hne le_rfl hst ht)
    (fun _ _ _ _ hl hs => scanned_matchEither hne le_rfl hst hl hs _ _) (fun _ => ?_) (fun _ => ?_) (fun _ => ?_)
  · -- '>'
    split <;> rename_i h <;> obtain ⟨hlen, hstk⟩ := after (.inl h)
    · exact scanned_of_advance hne hlen (hstk ▸ hst) (by simp)
    · exact scanned_matchEither hne hlen (hstk ▸ hst) (by decide) (by decide) _ _
  · -- '&'
    split <;> rename_i h <;> obtain ⟨hlen, hstk⟩ := after (.inr h)
    · exact scanned_of_advance hne hlen ((hstk ▸ hst).cons _) (by simp)
    · exact scanned_matchEither hne hlen (hstk ▸ hst) (by decide) (by decide) _ _
  · -- '}'
    obtain ⟨s, hs⟩ := hst.top_ok
    rw [advance_stateStack, hs]
    dsimp only [bind, Except.bind]
    split
    · obtain ⟨st', hpop, hst'⟩ := hst.pop_of_top hs (by rintro rfl; contradiction)
      rw [hpop]
      exact scanned_of_advance hne le_rfl hst' (by simp)
    · exact scanned_of_advance hne le_rfl hst (by simp)

/-- What one call of `nextToken` may leave: `std::out_of_range`, END_OF_FILE with the text all
read, or another token after reading text, with ROOT still at the bottom of the stack. -/
def Next (lx : ShellLexer) (r : Except LexFault (Token × ShellLexer)) : Prop :=
  r = .error .outOfRange ∨ ∃ t lx', r = .ok (t, lx') ∧ RootBelow lx'.stateStack ∧
    (t.type = .endOfFile ∧ lx'.rest = [] ∨ t.type ≠ .endOfFile ∧ lx'.rest.length < lx.rest.length)

theorem Scanned.next {lx lx₁ : ShellLexer} {r : Except LexFault (Token × ShellLexer)}
    (h : Scanned lx₁ r) (hlen : lx₁.rest.length ≤ lx.rest.length) : Next lx r := by
  rcases h with h | ⟨t, lx', h, ht, hlt, hst⟩
  · exact .inl h
  · exact .inr ⟨t, lx', h, hst, .inr ⟨ht, by omega⟩⟩

/-- The part of `nextToken` after the whitespace: END_OF_FILE at the end of the text, otherwise
the scanner that the next character selects. -/
def scanAt (lx : ShellLexer) : Except LexFault (Token × ShellLexer) :=
  match lx.rest with
  | [] => pure (lx.makeToken .endOfFile [], lx)
  | c :: _ =>
    if c = doubleQuote ∨ c = singleQuote then pure (lx.scanString c)
    else if c = backtick then do
      let (value, lx) ← { lx with stateStack := .stringTemplate :: lx.stateStack }.advance.2.scanTemplateString
      pure (lx.makeToken .string value, lx)
    else if c.isDigit then lx.scanNumber
    else if c.isAlpha ∨ c = '_' then pure lx.scanIdentifier
    else lx.scanOperator

theorem nextToken_eq (lx : ShellLexer) : lx.nextToken = top lx.stateStack >>= fun state =>
    (if state = .root ∨ state = .interpolation then lx.skipWhitespace else lx).scanAt := rfl

theorem scanAt_nil {lx : ShellLexer} (hr : lx.rest = []) : lx.scanAt = .ok (lx.makeToken .endOfFile [], lx) := by
  unfold scanAt
  rw [hr]
  rfl

theorem scanAt_scanned {lx : ShellLexer} (hne : lx.rest ≠ []) (hst : RootBelow lx.stateStack) :
    Scanned lx lx.scanAt := by
  unfold scanAt
  split
  · contradiction
  rename_i c cs hr
  split
  · exact scanString_scanned hne hst c
  split
  · obtain ⟨value, lx', h, hlen', hst'⟩ :=
      @scanTemplateString_spec ({ lx with stateStack := .stringTemplate :: lx.stateStack }.advance.2)
        _ _ rfl hst
    rw [h]
    exact scanned_of_advance hne hlen' hst' (by simp)
  split
  · exact scanNumber_scanned hr ‹_› hst
  split
  · exact scanIdentifier_scanned hr ‹_› hst
  · exact scanOperator_scanned hne hst

theorem nextToken_next {lx : ShellLexer} (hst : RootBelow lx.stateStack) : Next lx lx.nextToken := by
  obtain ⟨s, hs⟩ := hst.top_ok
  rw [nextToken_eq, hs]
  dsimp only [bind, Except.bind]
  generalize hlx₁ : (if s = .root ∨ s = .interpolation then lx.skipWhitespace else lx) = lx₁
  have hlen : lx₁.rest.length ≤ lx.rest.length := by
    subst hlx₁; split
    · exact length_dropWhile_le _ _
    · exact le_rfl
  have hst₁ : RootBelow lx₁.stateStack := by subst hlx₁; split <;> exact hst
  by_cases hr : lx₁.rest = []
  · rw [scanAt_nil hr]
    exact .inr ⟨_, _, rfl, hst₁, .inl ⟨rfl, hr⟩⟩
  · exact (scanAt_scanned hr hst₁).next hlen

/-- The tokens of a finished `tokenize`: the last one is END_OF_FILE, and no other is. -/
def SingleEnd (ts : List Token) : Prop :=
  ∃ body eof, ts = body ++ [eof] ∧ eof.type = .endOfFile ∧ ∀ t ∈ body, t.type ≠ .endOfFile

private theorem tokenizeLoop_spec (n : Nat) : ∀ (lx : ShellLexer) (tokens : List Token),
    lx.rest.length < n → RootBelow lx.stateStack → (∀ t ∈ tokens, t.type ≠ .endOfFile) →
    tokenizeLoop n lx tokens = .error .outOfRange ∨ ∃ ts lx', tokenizeLoop n lx tokens = .ok (ts, lx') ∧
      ((∀ t ∈ ts, t.type ≠ .endOfFile) ∨ SingleEnd ts) := by
  induction n with
  | zero => intro _ _ h; omega
  | succ n ih =>
    intro lx tokens hlen hst htok
    unfold tokenizeLoop
    split
    · exact .inr ⟨tokens, lx, rfl, .inl htok⟩
    rcases nextToken_next hst with h | ⟨t, lx', h, hst', hcase⟩ <;> rw [h]
    · exact .inl rfl
    dsimp only [bind, Except.bind]
    split
    · exact .inr ⟨_, _, rfl, .inr ⟨tokens, t, rfl, ‹_›, htok⟩⟩
    · rcases hcase with ⟨h, -⟩ | ⟨ht, hlt⟩
      · contradiction
      refine ih lx' _ (by omega) hst' ?_
      simpa [or_imp, forall_and] using ⟨htok, ht⟩

theorem tokenize_spec {lx : ShellLexer} (hst : RootBelow lx.stateStack) :
    lx.tokenize = .error .outOfRange ∨ ∃ ts, lx.tokenize = .ok ts ∧ SingleEnd ts := by
  unfold tokenize
  rcases tokenizeLoop_spec _ lx [] (Nat.lt_succ_self _) hst (by simp) with h | ⟨ts, lx', h, hts⟩ <;>
    rw [h]
  · exact .inl rfl
  dsimp only [bind, Except.bind]
  rcases hts with hts | ⟨body, eof, rfl, heof, hbody⟩
  · have hlast : ts.getLast?.map Token.type ≠ some .endOfFile := by
      cases hl : ts.getLast? with
      | none => simp
      | some t => simpa using hts t (List.mem_of_getLast?_eq_some hl)
    rw [if_pos hlast]
    exact .inr ⟨_, rfl, ts, _, rfl, rfl, hts⟩
  · rw [if_neg (by simp [heof])]
    exact .inr ⟨_, rfl, body, eof, rfl, heof, hbody⟩

/-! ## Numerals out of range -/

private theorem ne_of_isDigit {c d : Char} (hc : c.isDigit = true) (hd : d.isDigit = false) : c ≠ d := by
  rintro rfl
  rw [hc] at hd
  cases hd

private theorem nextToken_init_of_isDigit {c : Char} {cs : List Char} (hc : c.isDigit = true) :
    (init (c :: cs)).nextToken = (init (c :: cs)).scanNumber := by
  have hws : isWhitespace c = false := by
    simp only [isWhitespace, Bool.or_eq_false_iff, beq_eq_false_iff_ne]
    exact ⟨⟨⟨ne_of_isDigit hc rfl, ne_of_isDigit hc rfl⟩, ne_of_isDigit hc rfl⟩, ne_of_isDigit hc rfl⟩
  have hskip : skipWhitespace ⟨c :: cs, {}, [.root]⟩ = ⟨c :: cs, {}, [.root]⟩ := by
    simp [skipWhitespace, scanWhile, List.takeWhile_cons_of_neg, List.dropWhile_cons_of_neg, hws]
  have hq : ¬(c = doubleQuote ∨ c = singleQuote) := by
    rintro (h | h) <;> exact absurd h (ne_of_isDigit hc rfl)
  have hb : ¬c = backtick := ne_of_isDigit hc rfl
  simp only [nextToken, top, init, bind, Except.bind, true_or, if_true, hskip, hq, hb, hc, if_false]

private theorem scanWhile_isDigit {lx : ShellLexer} {ds rest : List Char} (hr : lx.rest = ds ++ rest)
    (hds : ∀ c ∈ ds, c.isDigit = true) (hrest : ∀ c ∈ rest.head?, c.isDigit = false) :
    (lx.scanWhile Char.isDigit).1 = ds ∧ (lx.scanWhile Char.isDigit).2.rest = rest := by
  have hnil : rest.takeWhile Char.isDigit = [] ∧ rest.dropWhile Char.isDigit = rest := by
    cases rest with
    | nil => simp
    | cons c cs =>
      have hc : ¬c.isDigit = true := by simp [hrest c rfl]
      exact ⟨List.takeWhile_cons_of_neg hc, List.dropWhile_cons_of_neg hc⟩
  simp only [scanWhile, hr, List.takeWhile_append_of_pos hds, List.dropWhile_append_of_pos hds, hnil,
    List.append_nil, and_self]

private theorem tokenize_init_of_nextToken {source : List Char} {e : LexFault} (hne : source ≠ [])
    (h : (init source).nextToken = .error e) : (init source).tokenize = .error e := by
  simp only [tokenize, tokenizeLoop, init] at h ⊢
  rw [if_neg hne, h]
  rfl

private theorem scanNumber_of_integer_out_of_range {lx : ShellLexer} {ds rest : List Char}
    (hr : lx.rest = ds ++ rest) (hds : ∀ c ∈ ds, c.isDigit = true) (hbig : 2 ^ 63 ≤ digitsValue ds)
    (hrest : ∀ c ∈ rest.head?, c.isDigit = false ∧ c ≠ '.') : lx.scanNumber = .error .outOfRange := by
  obtain ⟨h1, h2⟩ := scanWhile_isDigit hr hds (fun c hc => (hrest c hc).1)
  have hpeek : (lx.scanWhile Char.isDigit).2.peek ≠ '.' := by
    rw [peek, h2]
    cases rest with
    | nil => decide
    | cons c cs => exact (hrest c rfl).2
  unfold scanNumber
  dsimp only
  rw [if_neg (fun h => hpeek h.1), h1, show stoll ds = .error .outOfRange from if_neg (Nat.not_lt.mpr hbig)]
  rfl

private theorem scanNumber_of_decimal_out_of_range {lx : ShellLexer} {whole frac rest : List Char}
    (hr : lx.rest = whole ++ '.' :: frac ++ rest) (hw : ∀ c ∈ whole, c.isDigit = true)
    (hf : ∀ c ∈ frac, c.isDigit = true) (hfne : frac ≠ [])
    (hbig : dblOverflow * 10 ^ frac.length ≤ digitsValue (whole ++ frac))
    (hrest : ∀ c ∈ rest.head?, c.isDigit = false) : lx.scanNumber = .error .outOfRange := by
  obtain ⟨h1, h2⟩ := @scanWhile_isDigit lx whole ('.' :: (frac ++ rest)) (by rw [hr]; simp) hw
    (by simp only [List.head?_cons, Option.mem_def, Option.some.injEq, forall_eq']; rfl)
  obtain ⟨f, fs, rfl⟩ := List.exists_cons_of_ne_nil hfne
  have hpeek : (lx.scanWhile Char.isDigit).2.peek = '.' ∧ (lx.scanWhile Char.isDigit).2.peekNext.isDigit := by
    simp only [peek, peekNext, h2, List.headD_cons, List.drop_one, List.tail_cons, List.cons_append]
    exact ⟨trivial, hf f (List.mem_cons_self _ _)⟩
  obtain ⟨h3, -⟩ := @scanWhile_isDigit (lx.scanWhile Char.isDigit).2.advance.2 (f :: fs) rest
    (by rw [advance_rest, h2]; rfl) hf hrest
  unfold scanNumber
  dsimp only
  rw [if_pos hpeek, h1, h3, show stod whole (f :: fs) = .error .outOfRange from if_pos (.inl hbig)]
  rfl

/-- `tokenize` never reads or pops an empty state stack and never runs out of text: it either
throws `std::out_of_range` or returns tokens whose last is END_OF_FILE, with no other
END_OF_FILE among them. It does throw: from `std::stoll` on a numeral above `LLONG_MAX`, and from
`std::stod` on a decimal literal past the largest double. -/
theorem tokenize_single_eof_or_out_of_range :
    (∀ source : List Char, (init source).tokenize = .error .outOfRange ∨
      ∃ ts, (init source).tokenize = .ok ts ∧ SingleEnd ts) ∧
    (∀ ds rest : List Char, ds ≠ [] → (∀ c ∈ ds, c.isDigit = true) → 2 ^ 63 ≤ digitsValue ds →
      (∀ c ∈ rest.head?, c.isDigit = false ∧ c ≠ '.') →
      (init (ds ++ rest)).tokenize = .error .outOfRange) ∧
    (∀ whole frac rest : List Char, whole ≠ [] → frac ≠ [] → (∀ c ∈ whole ++ frac, c.isDigit = true) →
      dblOverflow * 10 ^ frac.length ≤ digitsValue (whole ++ frac) → (∀ c ∈ rest.head?, c.isDigit = false) →
      (init (whole ++ '.' :: frac ++ rest)).tokenize = .error .outOfRange) := by
  refine ⟨fun source => tokenize_spec ⟨[], rfl⟩, ?_, ?_⟩
  · intro ds rest hne hds hbig hrest
    obtain ⟨c, cs, rfl⟩ := List.exists_cons_of_ne_nil hne
    refine tokenize_init_of_nextToken (by simp) ?_
    rw [List.cons_append, nextToken_init_of_isDigit (hds c (List.mem_cons_self _ _))]
    exact scanNumber_of_integer_out_of_range (List.cons_append _ _ _).symm hds hbig hrest
  · intro whole frac rest hne hfne hds hbig hrest
    obtain ⟨c, cs, rfl⟩ := List.exists_cons_of_ne_nil hne
    have hdig : ∀ x ∈ c :: cs, x.isDigit = true := fun x hx => hds x (List.mem_append_left _ hx)
    refine tokenize_init_of_nextToken (by simp) ?_
    rw [List.cons_append, List.cons_append, nextToken_init_of_isDigit (hdig c (List.mem_cons_self _ _))]
    exact scanNumber_of_decimal_out_of_range (by simp [init]) hdig
      (fun x hx => hds x (List.mem_append_right _ hx)) hfne hbig hrest

/-- `9223372036854775808`, one above `LLONG_MAX`, typed on its own. -/
theorem tokenize_single_eof_or_out_of_range_llong_max :
    (init "9223372036854775808".toList).tokenize = .error .outOfRange :=
  tokenize_single_eof_or_out_of_range.2.1 "9223372036854775808".toList [] (by decide) (by decide)
    (by decide) (by decide)

end ShellLexer

example : ((ShellLexer.init "x = 42;".toList).tokenize.map (·.map Token.type)).toOption =
    some [.identifier, .assign, .integer, .semicolon, .endOfFile] := by decide

end AriaShell.Parser
