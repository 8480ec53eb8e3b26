import AriaShell.Parser.LexerRun
import AriaShell.Parser.Spec
import AriaShell.Executor.Bindings
import AriaShell.Repl.InputLoop
/-! The scripting REPL: the `main` that drives `InputEngine` with an `onSubmit` callback. A
submission is trimmed of blanks, of trailing semicolons and of the blanks before them, matched
against the built-ins `exit`, `quit`, `help` and `clear`, and otherwise lexed, parsed and run by a
fresh `Executor` on the one global `Environment` of the session; `exit` and `quit` call
`requestExit`, so `InputEngine::run` stops after the pass that submitted them. The texts of
`printBanner` and `printHelp` are left out. A word, a blank, a dash and a word, the help's example of a command
(`ls -la`), never reaches `executeCommand`: the parser reads it as a subtraction. -/
namespace AriaShell.Parser.ShellLexer

private theorem isDigit_of_isAlpha {c : Char} (h : c.isAlpha = true) : c.isDigit = false := by
  simp only [Char.isAlpha, Char.isUpper, Char.isLower, Char.isDigit, Bool.or_eq_true, Bool.and_eq_true,
    decide_eq_true_eq, Bool.and_eq_false_iff, decide_eq_false_iff_not] at h ⊢
  rcases h with ⟨h1, -⟩ | ⟨h1, -⟩ <;> exact .inr fun h3 => absurd (UInt32.le_trans h1 h3) (by decide)

private theorem takeWhile_dropWhile_of_head {p : Char → Bool} {l : List Char} (h : ∀ c ∈ l.head?, p c = false) :
    l.takeWhile p = [] ∧ l.dropWhile p = l := by
  cases l with
  | nil => exact ⟨rfl, rfl⟩
  | cons c l => simp [List.takeWhile_cons, List.dropWhile_cons, h c rfl]

private theorem skipWhitespace_of_head {lx : ShellLexer} (h : ∀ c ∈ lx.rest.head?, isWhitespace c = false) :
    lx.skipWhitespace = lx := by
  obtain ⟨h₁, h₂⟩ := takeWhile_dropWhile_of_head h
  simp only [skipWhitespace, scanWhile, h₁, h₂, List.foldl_nil]

private theorem nextToken_identifier {lx : ShellLexer} (hs : lx.stateStack = [.root]) {c : Char} {cs r : List Char}
    (hr : lx.rest = c :: cs ++ r) (hc : c.isAlpha = true) (hcs : ∀ d ∈ cs, (d.isAlphanum || d == '_') = true)
    (hstop : ∀ d ∈ r.head?, (d.isAlphanum || d == '_') = false) :
    lx.nextToken = .ok (⟨identifierType (c :: cs), c :: cs, lx.location, 0⟩,
      { lx with rest := r, location := (c :: cs).foldl advancePos lx.location }) := by
  have hne : ∀ d, d.isAlpha = false → c ≠ d := fun d hd h => by rw [h, hd] at hc; cases hc
  have hws : isWhitespace c = false := Bool.eq_false_iff.mpr fun hw => by
    simp only [isWhitespace, Bool.or_eq_true, beq_iff_eq] at hw
    rcases hw with ((rfl | rfl) | rfl) | rfl <;> cases hc
  have hident : ∀ d ∈ c :: cs, (d.isAlphanum || d == '_') = true := by
    simp only [List.mem_cons, forall_eq_or_imp]
    exact ⟨by simp [Char.isAlphanum, hc], hcs⟩
  obtain ⟨h₁, h₂⟩ := takeWhile_dropWhile_of_head hstop
  rw [nextToken_eq, hs]
  show (if LexerState.root = .root ∨ LexerState.root = .interpolation then lx.skipWhitespace else lx).scanAt = _
  rw [if_pos (.inl rfl), skipWhitespace_of_head (by rw [hr]; simpa using hws), scanAt, hr, List.cons_append]
  simp only [hne _ (by decide : doubleQuote.isAlpha = false), hne _ (by decide : singleQuote.isAlpha = false),
    hne _ (by decide : backtick.isAlpha = false), isDigit_of_isAlpha hc, hc, or_self, if_false, true_or, if_true,
    Bool.false_eq_true]
  simp only [scanIdentifier, scanWhile, hr, List.takeWhile_append_of_pos hident, List.dropWhile_append_of_pos hident,
    h₁, h₂, List.append_nil, hs]
  rfl

private theorem nextToken_minus {lx : ShellLexer} (hs : lx.stateStack = [.root]) {d : Char} {ds : List Char}
    (hr : lx.rest = ' ' :: '-' :: d :: ds) (hd : d ≠ '=') :
    lx.nextToken = .ok (⟨.minus, ['-'], advancePos (advancePos lx.location ' ') '-', 0⟩,
      { lx with rest := d :: ds, location := advancePos (advancePos lx.location ' ') '-' }) := by
  rw [nextToken_eq, hs]
  show (if LexerState.root = .root ∨ LexerState.root = .interpolation then lx.skipWhitespace else lx).scanAt = _
  rw [if_pos (.inl rfl)]
  have hskip : lx.skipWhitespace = { lx with rest := '-' :: d :: ds, location := advancePos lx.location ' ' } := by
    simp only [skipWhitespace, scanWhile, hr]
    rfl
  rw [hskip, scanAt]
  simp only [scanOperator, advance, peek, matchEither, matchChar, List.headD, List.drop, hd, and_false, if_false]
  rw [if_neg (by decide), if_neg (by decide), if_neg (by decide), if_neg (by decide), hs]
  rfl

private theorem tokenize_word_minus_word {c d : Char} {cs ds : List Char} (hc : c.isAlpha = true)
    (hcs : ∀ x ∈ cs, (x.isAlphanum || x == '_') = true) (hd : d.isAlpha = true)
    (hds : ∀ x ∈ ds, (x.isAlphanum || x == '_') = true) :
    ∃ l₂ l₃ l₄, (init (c :: cs ++ ' ' :: '-' :: d :: ds)).tokenize = .ok
      [⟨identifierType (c :: cs), c :: cs, {}, 0⟩, ⟨.minus, ['-'], l₂, 0⟩,
        ⟨identifierType (d :: ds), d :: ds, l₃, 0⟩, ⟨.endOfFile, [], l₄, 0⟩] := by
  have h₁ := @nextToken_identifier (init (c :: cs ++ ' ' :: '-' :: d :: ds)) rfl c cs _ rfl hc hcs (by simp)
  have h₂ := @nextToken_minus ⟨' ' :: '-' :: d :: ds, (c :: cs).foldl advancePos {}, [.root]⟩ rfl d ds rfl
    (fun h => by rw [h] at hd; cases hd)
  have h₃ := @nextToken_identifier ⟨d :: ds, advancePos (advancePos ((c :: cs).foldl advancePos {}) ' ') '-', [.root]⟩
    rfl d ds [] (List.append_nil _).symm hd hds (by simp)
  have hfuel : (init (c :: cs ++ ' ' :: '-' :: d :: ds)).rest.length + 1 = cs.length + ds.length + 1 + 1 + 1 + 1 + 1 := by
    simp only [init, List.length_append, List.length_cons]; omega
  have hloop : tokenizeLoop (cs.length + ds.length + 1 + 1 + 1 + 1 + 1) (init (c :: cs ++ ' ' :: '-' :: d :: ds)) [] =
      _ := (tokenizeLoop_next (by simp [init]) h₁ (identifierType_ne_endOfFile _)).trans
    ((tokenizeLoop_next (by simp) h₂ nofun).trans
      ((tokenizeLoop_next (by simp) h₃ (identifierType_ne_endOfFile _)).trans (tokenizeLoop_nil rfl)))
  refine ⟨advancePos (advancePos ((c :: cs).foldl advancePos {}) ' ') '-',
    advancePos (advancePos ((c :: cs).foldl advancePos {}) ' ') '-',
    (d :: ds).foldl advancePos (advancePos (advancePos ((c :: cs).foldl advancePos {}) ' ') '-'), ?_⟩
  rw [tokenize, hfuel, hloop]
  show (if _ then _ else _) = _
  rw [if_pos (by simp [identifierType_ne_endOfFile])]
  rfl

end AriaShell.Parser.ShellLexer

namespace AriaShell.Parser

private theorem parse_identifier_minus_identifier (a b : List Char) (l₁ l₂ l₃ l₄ : SourceLocation) :
    parse [⟨.identifier, a, l₁, 0⟩, ⟨.minus, ['-'], l₂, 0⟩, ⟨.identifier, b, l₃, 0⟩, ⟨.endOfFile, [], l₄, 0⟩] =
      .ok ⟨[.exprStmt (.binaryOpExpr .minus (.variableExpr a l₁) (.variableExpr b l₃) l₂) l₂], l₁⟩ :=
  rfl

end AriaShell.Parser

namespace AriaShell.Repl.Script

open AriaShell.Parser AriaShell.Executor

/-! ## Trimming -/

/-- `find_first_not_of(" \t\n\r")` and `substr(start)`; none for a blank submission. -/
def trimLeading (input : List Char) : Option (List Char) :=
  (input.findIdx? fun c => !isTrailingSpace c).map input.drop

/-- `end = s.find_last_not_of(" \t\n\r"); if (end != npos) s = s.substr(0, end + 1);` -/
def trimTrailing (s : List Char) : List Char :=
  match findLastNotSpace s s.length with
  | some e => s.take (e + 1)
  | none => s

/-- `while (!s.empty() && s.back() == ';') s.pop_back();` -/
def popSemicolons (s : List Char) : List Char := (s.reverse.dropWhile (· == ';')).reverse

/-- The text `onSubmit` matches against the built-ins and runs. -/
def trimSubmission (input : List Char) : Option (List Char) :=
  (trimLeading input).map fun s => trimTrailing (popSemicolons (trimTrailing s))

private theorem trimLeading_blank_append {pre w : List Char} (hpre : ∀ c ∈ pre, isTrailingSpace c = true)
    {x : Char} (hx : isTrailingSpace x = false) : trimLeading (pre ++ x :: w) = some (x :: w) := by
  have hnone : pre.findIdx? (fun c => !isTrailingSpace c) = none :=
    List.findIdx?_eq_none_iff.mpr fun c hc => by simp [hpre c hc]
  simp [trimLeading, hnone, hx]

private theorem findLastNotSpace_length (s : List Char) :
    findLastNotSpace s s.length = (s.reverse.findIdx? fun c => !isTrailingSpace c).map (s.length - 1 - ·) := by
  simp [findLastNotSpace, List.take_of_length_le]

private theorem trimTrailing_append_blank {s post : List Char} {x : Char} (hx : isTrailingSpace x = false)
    (hpost : ∀ c ∈ post, isTrailingSpace c = true) : trimTrailing (s ++ x :: post) = s ++ [x] := by
  have hnone : post.reverse.findIdx? (fun c => !isTrailingSpace c) = none :=
    List.findIdx?_eq_none_iff.mpr fun c hc => by simp [hpost c (List.mem_reverse.mp hc)]
  rw [trimTrailing, findLastNotSpace_length]
  simp only [List.reverse_append, List.reverse_cons, List.append_assoc,
    List.singleton_append, List.findIdx?_append, hnone, List.findIdx?_cons, hx, Bool.not_false, if_true,
    Option.none_or, Option.map_some', List.length_append, List.length_cons, List.length_reverse]
  rw [show s.length + (post.length + 1) - 1 - (0 + post.length) + 1 = s.length + 1 by omega]
  simp [List.take_append_eq_append_take]

private theorem popSemicolons_append_replicate {t : List Char} (ht : ∀ c ∈ t.getLast?, c ≠ ';') (n : Nat) :
    popSemicolons (t ++ List.replicate n ';') = t := by
  rcases List.eq_nil_or_concat t with rfl | ⟨s, y, rfl⟩
  · simp [popSemicolons]
  · have hy : y ≠ ';' := ht y (by simp)
    simp [popSemicolons, List.dropWhile_cons, hy]

private theorem ne_semicolon_of_blank {c : Char} (h : isTrailingSpace c = true) : c ≠ ';' := by
  rintro rfl; cases h

private theorem trimSubmission_padded {pre w mid post : List Char} (n : Nat) (hpre : ∀ c ∈ pre, isTrailingSpace c = true)
    (hhead : ∀ c ∈ w.head?, isTrailingSpace c = false) (hlast : ∀ c ∈ w.getLast?, isTrailingSpace c = false ∧ c ≠ ';')
    (hne : w ≠ []) (hmid : ∀ c ∈ mid, isTrailingSpace c = true) (hpost : ∀ c ∈ post, isTrailingSpace c = true) :
    trimSubmission (pre ++ w ++ mid ++ List.replicate n ';' ++ post) = some w := by
  obtain ⟨x, w', rfl⟩ := List.exists_cons_of_ne_nil hne
  obtain ⟨s, y, hw⟩ := (List.eq_nil_or_concat (x :: w')).resolve_left hne
  rw [List.concat_eq_append] at hw
  obtain ⟨hy, hsemi⟩ := hlast y (by simp [hw])
  have hlead : trimLeading (pre ++ x :: w' ++ mid ++ List.replicate n ';' ++ post) =
      some (x :: w' ++ mid ++ List.replicate n ';' ++ post) := by
    simpa only [List.append_assoc, List.cons_append] using trimLeading_blank_append hpre (hhead x rfl)
  rw [trimSubmission, hlead, Option.map_some', hw]
  have hword : trimTrailing (s ++ [y] ++ mid) = s ++ [y] := by
    simpa only [List.append_assoc, List.singleton_append] using trimTrailing_append_blank hy hmid
  refine congrArg some ?_
  cases n with
  | zero =>
    have h₁ : trimTrailing (s ++ [y] ++ mid ++ [] ++ post) = s ++ [y] := by
      simpa only [List.append_assoc, List.singleton_append, List.nil_append] using
        @trimTrailing_append_blank s (mid ++ post) y hy fun c hc => (List.mem_append.mp hc).elim (hmid c) (hpost c)
    rw [List.replicate_zero, h₁, show popSemicolons (s ++ [y]) = s ++ [y] by simp [popSemicolons, hsemi]]
    simpa using @trimTrailing_append_blank s [] y hy nofun
  | succ n =>
    have h₁ : trimTrailing (s ++ [y] ++ mid ++ List.replicate (n + 1) ';' ++ post) =
        s ++ [y] ++ mid ++ List.replicate (n + 1) ';' := by
      simpa only [List.replicate_succ', List.append_assoc, List.singleton_append] using
        trimTrailing_append_blank (s := s ++ [y] ++ mid ++ List.replicate n ';') (by decide) hpost
    have hlast : ∀ c ∈ (s ++ [y] ++ mid).getLast?, c ≠ ';' := by
      rcases List.eq_nil_or_concat mid with rfl | ⟨m, z, rfl⟩
      · simpa using hsemi
      · rw [List.concat_eq_append, ← List.append_assoc, List.getLast?_concat]
        simpa using ne_semicolon_of_blank (hmid z (by simp))
    rw [h₁, popSemicolons_append_replicate hlast, hword]

private theorem trimSubmission_of_ends {w : List Char} (hhead : ∀ c ∈ w.head?, isTrailingSpace c = false)
    (hlast : ∀ c ∈ w.getLast?, isTrailingSpace c = false ∧ c ≠ ';') (hne : w ≠ []) : trimSubmission w = some w := by
  simpa using @trimSubmission_padded [] w [] [] 0 nofun hhead hlast hne nofun nofun

/-! ## Submissions -/

/-- A word `scanIdentifier` reads whole: a letter, then letters, digits and underscores. -/
def isIdentifierWord : List Char → Bool
  | [] => false
  | c :: cs => c.isAlpha && cs.all fun d => d.isAlphanum || d == '_'

private theorem isTrailingSpace_of_identifierChar {c : Char} (h : (c.isAlphanum || c == '_') = true) :
    isTrailingSpace c = false :=
  Bool.eq_false_iff.mpr fun hc => by
    simp only [isTrailingSpace, Bool.or_eq_true, beq_iff_eq] at hc
    rcases hc with ((rfl | rfl) | rfl) | rfl <;> cases h

/-- What `onSubmit` does with one submission. -/
inductive Reaction where
  /-- a blank submission: nothing -/
  | blank
  /-- `exit` or `quit`: "Goodbye!" and `requestExit` -/
  | exit
  /-- `help`: `printHelp` -/
  | help
  /-- `clear`: the screen is cleared and the banner printed again -/
  | clear
  /-- `tokenize` threw -/
  | lexFault (fault : LexFault)
  /-- `parseProgram` threw -/
  | parseFault (fault : ParseFault)
  /-- a program without statements: no `Executor` is made -/
  | noStatements
  /-- an `Executor` on the global environment ran the program: how the run ended, and its members
  after it -/
  | ran (result : Except ExecFault Unit) (final : State)

/-- What a reaction writes to `std::cout` and to `std::cerr`. A lexer fault (`std::out_of_range`
from `stoll` or `stod`, or an empty `std::stack`), an index outside the token vector, a null
statement and the `SIGFPE` of `INT64_MIN / -1` are undefined behaviour, a library text or the end of
the process, and add no text of their own. -/
def Reaction.output : Reaction → List Char × List Char
  | .exit => ("Goodbye!\n".toList, [])
  | .parseFault (.parseError message location) =>
    ([], "Parse error: Parse error at line ".toList ++ (toString location.line).toList ++ ", column ".toList ++
      (toString location.column).toList ++ ": ".toList ++ message ++ ['\n'])
  | .ran (.ok ()) final =>
    (final.stdout ++ (match final.lastResult with
      | some v => "=> ".toList ++ valueToString v ++ ['\n']
      | none => []), [])
  | .ran (.error (.runtimeError e)) final => (final.stdout, "Error: ".toList ++ e.what ++ ['\n'])
  | .ran (.error _) final => (final.stdout, [])
  | _ => ([], [])

section Submit

/- `commandResult` is what `executeCommand` records for a command, `fuel` the executor's. -/
variable (commandResult : CommandStmt → Int) (fuel : Nat)

/-- The `onSubmit` callback: its reaction, and the global environment after it. -/
def onSubmit (env : Environment) (input : List Char) : Reaction × Environment :=
  match trimSubmission input with
  | none => (.blank, env)
  | some trimmed =>
    if trimmed = "exit".toList ∨ trimmed = "quit".toList then (.exit, env)
    else if trimmed = "help".toList then (.help, env)
    else if trimmed = "clear".toList then (.clear, env)
    else match (ShellLexer.init trimmed).tokenize with
      | .error e => (.lexFault e, env)
      | .ok tokens => match parse tokens with
        | .error e => (.parseFault e, env)
        | .ok program =>
          if program.statements.isEmpty then (.noStatements, env)
          else
            let (result, final) := (execute commandResult fuel program).run.run { env := env }
            (.ran result final, final.env)

private theorem execute_subtraction (n : Nat) (env : Environment) (a b : List Char) (l₁ l₂ l₃ location : SourceLocation) :
    (execute commandResult (n + 1)
        ⟨[.exprStmt (.binaryOpExpr .minus (.variableExpr a l₁) (.variableExpr b l₃) l₂) l₂], location⟩).run.run
        { env := env } =
      match (do
          let l ← (env.get a).mapError ExecFault.runtimeError
          binaryOp .minus l (← (env.get b).mapError ExecFault.runtimeError)) with
      | .ok v => (.ok (), { env := env, lastResult := some v })
      | .error f => (.error f, { env := env }) := by
  rcases h₁ : env.get a with e | va <;> rcases h₂ : env.get b with e | vb <;>
    simp [execute, executeAll, visit, evaluateExpr, liftRuntime, liftFault, run_bind, run_get, h₁, h₂] <;> try rfl
  show _ = match binaryOp .minus va vb with | .ok v => _ | .error f => _
  rcases binaryOp .minus va vb with f | v <;> rfl

private theorem ne_semicolon_of_identifierChar {c : Char} (h : (c.isAlphanum || c == '_') = true) : c ≠ ';' := by
  rintro rfl; cases h

/-- A word, a blank, a dash and a word, as the help's example command `ls -la`, is run as the
subtraction of two variables: nothing is launched, the global environment is unchanged, and the
submission ends with the difference or with the runtime error of the lookup or of the operator. -/
theorem onSubmit_word_dash_word (env : Environment) {a b : List Char} (ha : isIdentifierWord a = true)
    (hb : isIdentifierWord b = true) (hka : identifierType a = .identifier) (hkb : identifierType b = .identifier)
    (hfuel : 0 < fuel) :
    onSubmit commandResult fuel env (a ++ ' ' :: '-' :: b) =
      match (do
          let l ← (env.get a).mapError ExecFault.runtimeError
          binaryOp .minus l (← (env.get b).mapError ExecFault.runtimeError)) with
      | .ok v => (.ran (.ok ()) { env := env, lastResult := some v }, env)
      | .error f => (.ran (.error f) { env := env }, env) := by
  obtain ⟨n, rfl⟩ : ∃ n, fuel = n + 1 := ⟨fuel - 1, by omega⟩
  match a, b, ha, hb with
  | c :: cs, d :: ds, ha, hb =>
  simp only [isIdentifierWord, Bool.and_eq_true, List.all_eq_true] at ha hb
  obtain ⟨⟨hc, hcs⟩, hd, hds⟩ := And.intro ha hb
  have hident : ∀ x ∈ d :: ds, (x.isAlphanum || x == '_') = true := by
    simp only [List.mem_cons, forall_eq_or_imp]
    exact ⟨by simp [Char.isAlphanum, hd], hds⟩
  have hlast : ∀ x ∈ (c :: cs ++ ' ' :: '-' :: d :: ds).getLast?, isTrailingSpace x = false ∧ x ≠ ';' := by
    intro x hx
    simp only [List.getLast?_append, List.getLast?_cons_cons, List.getLast?_eq_getLast _ (List.cons_ne_nil d ds),
      Option.or_some, Option.mem_def, Option.some.injEq] at hx
    subst hx
    have h := hident _ (List.getLast_mem (List.cons_ne_nil d ds))
    exact ⟨isTrailingSpace_of_identifierChar h, ne_semicolon_of_identifierChar h⟩
  have htrim := trimSubmission_of_ends (w := c :: cs ++ ' ' :: '-' :: d :: ds)
    (by simpa using isTrailingSpace_of_identifierChar (by simp [Char.isAlphanum, hc])) hlast (by simp)
  have hblank : ∀ w : String, ' ' ∉ w.toList → c :: cs ++ ' ' :: '-' :: d :: ds ≠ w.toList :=
    fun w hw h => hw (h ▸ by simp)
  obtain ⟨l₂, l₃, l₄, htok⟩ := ShellLexer.tokenize_word_minus_word hc hcs hd hds
  rw [hka, hkb] at htok
  rw [onSubmit, htrim]
  dsimp only
  rw [if_neg (not_or.mpr ⟨hblank _ (by decide), hblank _ (by decide)⟩), if_neg (hblank _ (by decide)),
    if_neg (hblank _ (by decide)), htok]
  dsimp only
  rw [parse_identifier_minus_identifier]
  dsimp only
  rw [if_neg nofun, execute_subtraction]
  rcases (do
      let l ← (env.get (c :: cs)).mapError ExecFault.runtimeError
      binaryOp .minus l (← (env.get (d :: ds)).mapError ExecFault.runtimeError) : Except ExecFault Value) with
    f | v <;> rfl

/-- In a fresh session `ls -la` stops at the lookup of `ls`. -/
theorem onSubmit_ls_la :
    (onSubmit (fun _ => 0) 1 {} "ls -la".toList).1.output = ([], "Error: Undefined variable: ls\n".toList) := by
  rw [show "ls -la".toList = "ls".toList ++ ' ' :: '-' :: "la".toList from rfl,
    @onSubmit_word_dash_word (fun _ => 0) 1 {} "ls".toList "la".toList rfl rfl rfl rfl (by decide)]
  rfl

/-- Blanks before a submission, and blanks, a run of semicolons and blanks after it, do not change
what `onSubmit` does with it: `exit;` as an EDIT-mode `;;` leaves it exits, as `exit` does. -/
theorem onSubmit_padded (env : Environment) (pre w mid post : List Char) (n : Nat)
    (hpre : ∀ c ∈ pre, isTrailingSpace c = true) (hhead : ∀ c ∈ w.head?, isTrailingSpace c = false)
    (hlast : ∀ c ∈ w.getLast?, isTrailingSpace c = false ∧ c ≠ ';') (hne : w ≠ [])
    (hmid : ∀ c ∈ mid, isTrailingSpace c = true) (hpost : ∀ c ∈ post, isTrailingSpace c = true) :
    onSubmit commandResult fuel env (pre ++ w ++ mid ++ List.replicate n ';' ++ post) =
      onSubmit commandResult fuel env w := by
  rw [onSubmit, onSubmit, trimSubmission_padded n hpre hhead hlast hne hmid hpost,
    trimSubmission_of_ends hhead hlast hne]

/-- A blank, `exit`, the semicolon an EDIT-mode `;;` leaves, and a blank: the shell exits. -/
theorem onSubmit_exit_after_edit_mode :
    onSubmit (fun _ => 0) 0 {} " exit; ".toList = (.exit, {}) := by
  rw [show " exit; ".toList = [' '] ++ "exit".toList ++ [] ++ List.replicate 1 ';' ++ [' '] from rfl,
    onSubmit_padded (fun _ => 0) 0 {} [' '] "exit".toList [] [' '] 1 (by decide) (by decide) (by decide)
      (by decide) (by decide) (by decide)]
  rfl

private theorem onSubmit_keepsBound (env : Environment) (input : List Char) {name : List Char}
    (h : env.exists name = true) : (onSubmit commandResult fuel env input).2.exists name = true := by
  unfold onSubmit
  split
  · exact h
  split_ifs
  iterate 3 exact h
  split
  · exact h
  split
  · exact h
  split_ifs
  · exact h
  · exact execute_keepsBound commandResult fuel _ { env := env } name h

/-- `inputEngine.run()` with `onSubmit`: the submissions in order, until one asks to exit; the
reactions, and the global environment at the end. -/
def replay (env : Environment) : List (List Char) → List Reaction × Environment
  | [] => ([], env)
  | input :: rest =>
    match onSubmit commandResult fuel env input with
    | (.exit, env') => ([.exit], env')
    | (r, env') =>
      let (rs, env'') := replay env' rest
      (r :: rs, env'')

/-- Over a whole session a name once bound in the global environment stays bound: a block opens no
scope, nothing unbinds, and a submission that throws keeps what it bound before the throw. -/
theorem replay_keeps_bound (env : Environment) (inputs : List (List Char)) {name : List Char}
    (h : env.exists name = true) : (replay commandResult fuel env inputs).2.exists name = true := by
  induction inputs generalizing env with
  | nil => exact h
  | cons input rest ih =>
    have hstep := onSubmit_keepsBound commandResult fuel env input h
    unfold replay
    split <;> rename_i heq <;> rw [heq] at hstep
    · exact hstep
    · exact ih _ hstep

/-- A binding made before a session survives a block that declares the same name. -/
theorem replay_keeps_bound_through_block :
    (⟨[(['x'], .int 1)]⟩ : Environment).exists ['x'] = true ∧
      (replay (fun _ => 0) 8 ⟨[(['x'], .int 1)]⟩ ["{ int64 x = 2; }".toList, "exit".toList]).2.exists ['x'] = true :=
  ⟨rfl, replay_keeps_bound (fun _ => 0) 8 _ _ rfl⟩

/-! ### The loop of `inputEngine.run()` with `onSubmit` -/

end Submit

end AriaShell.Repl.Script
