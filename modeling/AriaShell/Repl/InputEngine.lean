import AriaShell.Repl.EditBuffer
import AriaShell.Repl.Terminal
import AriaShell.Parser.Lexer
/-! `InputEngine` of `repl/main.cpp`, as far as it changes the edit buffer and submits it: the
handler of editing keys and `handleSubmission`, whose gate is the bracket counter of the buffer.
In EDIT mode an ENTER on a buffer ending in `;;` calls `backspace` before the gate, which deletes
the character before the cursor wherever the cursor is; and the bracket counter reads string
literals otherwise than the lexer. -/
namespace AriaShell.Repl

open EditBuffer

inductive InputState where
  | idle | bufferManipulation | chordAnalysis | submission
  deriving DecidableEq, Repr

/-- The fields of `InputEngine` the handlers read or write (the terminal and the prompt are left
out): the texts passed to the submission callback and the messages `showError` printed are
recorded in order. -/
structure InputEngine where
  buffer : EditBuffer
  state : InputState
  continuationMode : Bool
  editMode : Bool
  submitted : List (List Char)
  errors : List String
  deriving Repr

namespace InputEngine

/-- `handleSubmission`: the buffer goes to the callback only when its bracket depth is zero. -/
def handleSubmission (e : InputEngine) : InputEngine :=
  let code := e.buffer.getContent
  if e.buffer.hasSyntaxError then
    { e with errors := e.errors ++ ["Syntax Error: Unbalanced braces"], state := .idle }
  else if !e.buffer.isBalanced then
    { e with errors := e.errors ++ ["Incomplete: Missing closing brace"], state := .idle }
  else
    { e with
      submitted := e.submitted ++ [code]
      buffer := e.buffer.clear
      continuationMode := false
      state := .idle }

/-- `applyAutoIndent`: two spaces per open bracket, typed into the buffer. -/
def applyAutoIndent (e : InputEngine) : Option InputEngine := do
  let indent := max 0 e.buffer.getBraceDepth
  let buffer ← (List.replicate (2 * indent.toNat) ' ').foldlM (fun b c => b.insertChar c.toNat) e.buffer
  pure { e with buffer }

/-- The state `handleBufferManipulation` leaves after an edit: CHORD_ANALYSIS under CTRL. -/
def afterEdit (event : KeyEvent) (e : InputEngine) : InputEngine :=
  { e with state := if event.modifiers.has .ctrl then .chordAnalysis else .idle }

def handleBufferManipulation (event : KeyEvent) (e : InputEngine) : Option InputEngine :=
  let edit (op : EditBuffer → Option EditBuffer) : Option InputEngine := do
    let buffer ← op e.buffer
    pure (afterEdit event { e with buffer })
  match event.type with
  | .character => edit (insertChar event.codepoint)
  | .enter =>
    if e.editMode then
      if e.buffer.endsWithDoubleSemicolon then do
        let buffer ← e.buffer.backspace
        pure (handleSubmission { e with buffer, state := .submission })
      else do
        let buffer ← e.buffer.insertNewline
        let e ← applyAutoIndent { e with buffer, continuationMode := true }
        pure (afterEdit event e)
    else pure (handleSubmission { e with state := .submission })
  | .backspace => edit backspace
  | .delete => edit deleteChar
  | .arrowLeft => edit moveCursorLeft
  | .arrowRight => edit moveCursorRight
  | .arrowUp => edit moveCursorUp
  | .arrowDown => edit moveCursorDown
  | .home => edit fun b => some b.moveCursorToLineStart
  | .«end» => edit moveCursorToLineEnd
  | .ctrlC => pure (afterEdit event { e with buffer := e.buffer.clear, continuationMode := false })
  | _ => pure (afterEdit event e)

private theorem handleSubmission_accepts {e : InputEngine} (h : e.buffer.getBraceDepth = 0) :
    handleSubmission e =
      { e with
        submitted := e.submitted ++ [e.buffer.getContent]
        buffer := init
        continuationMode := false
        state := .idle } := by
  simp [handleSubmission, hasSyntaxError, isBalanced, h, clear]

private theorem handleSubmission_rejects {e : InputEngine} (h : e.buffer.getBraceDepth ≠ 0) :
    (handleSubmission e).buffer = e.buffer ∧ (handleSubmission e).submitted = e.submitted := by
  unfold handleSubmission
  split_ifs <;> simp_all [isBalanced]

/-- In EDIT mode, ENTER on a buffer that ends in `;;` deletes the character before the cursor (the
last `;` only when the cursor is right after it) and then gates the result: with bracket depth
zero that text is submitted and the buffer cleared, otherwise the buffer keeps it. -/
theorem edit_enter_deletes_before_cursor (e : InputEngine) (hv : e.buffer.Valid)
    (hedit : e.editMode = true) (hsemi : e.buffer.endsWithDoubleSemicolon = true)
    (mods : KeyModifiers) (codepoint : Nat) :
    ∃ e', handleBufferManipulation ⟨.enter, mods, codepoint⟩ e = some e' ∧
      if calculateBraceDepth (toFlat e.buffer).deleteBefore.text = 0 then
        e'.submitted = e.submitted ++ [(toFlat e.buffer).deleteBefore.text] ∧ e'.buffer = init
      else e'.submitted = e.submitted ∧ toFlat e'.buffer = (toFlat e.buffer).deleteBefore := by
  obtain ⟨pre, cur, post, col, hb, hcol⟩ := hv.zipper
  obtain ⟨b', hback, -, hs⟩ := @backspace_step pre post cur col hcol
  rw [← hb] at hback hs
  simp only [Op.Sound, Op.flat] at hs
  have hdepth : b'.getBraceDepth = calculateBraceDepth (toFlat e.buffer).deleteBefore.text := by
    rw [← hs]; rfl
  simp only [handleBufferManipulation]
  rw [if_pos hedit, if_pos hsemi, hback]
  refine ⟨_, rfl, ?_⟩
  split_ifs with h0
  · rw [handleSubmission_accepts (hdepth.trans h0)]
    exact ⟨by rw [← hs]; rfl, rfl⟩
  · obtain ⟨h1, h2⟩ := @handleSubmission_rejects { e with buffer := b', state := .submission }
      (hdepth.trans_ne h0)
    exact ⟨h2, by rw [h1, hs]⟩


/-- `;; ` typed in EDIT mode, then ENTER: the trailing space is deleted, not the last `;`, and `;;`
is submitted. -/
theorem edit_enter_deletes_before_cursor_trailing_space :
    ∃ e', handleBufferManipulation ⟨.enter, .none, 13⟩
        ⟨⟨[";; ".toList], ⟨0, 3⟩⟩, .idle, false, true, [], []⟩ = some e' ∧
      e'.submitted = [";;".toList] := by
  obtain ⟨e', h, hif⟩ := edit_enter_deletes_before_cursor
    ⟨⟨[";; ".toList], ⟨0, 3⟩⟩, .idle, false, true, [], []⟩ ⟨by decide, by decide⟩ rfl (by decide) .none 13
  rw [if_pos (by decide)] at hif
  exact ⟨e', h, hif.1.trans (by decide)⟩

end InputEngine

open AriaShell.Parser

/-- The brackets among a token sequence: LBRACE, LBRACKET, LPAREN and INTERP_START count `+1`,
RBRACE, RBRACKET and RPAREN `-1`. -/
def bracketBalance (tokens : List Token) : Int :=
  (tokens.map fun t => match t.type with
    | .lbrace | .lbracket | .lparen | .interpStart => (1 : Int)
    | .rbrace | .rbracket | .rparen => -1
    | _ => 0).sum

/-- Three sources on which the editor's bracket counter and the lexer disagree: a `//` inside a
string literal starts a comment for the counter; a quote after an escaped backslash closes the
literal for the lexer but not for the counter; and so does a backtick after a backslash. -/
theorem brace_depth_disagrees_with_lexer :
    calculateBraceDepth "print(\"a//b\")".toList = 1 ∧
      (ShellLexer.init "print(\"a//b\")".toList).tokenize.map bracketBalance = .ok 0 ∧
    calculateBraceDepth "print(\"\\\\\")".toList = 1 ∧
      (ShellLexer.init "print(\"\\\\\")".toList).tokenize.map bracketBalance = .ok 0 ∧
    calculateBraceDepth "`\\`(".toList = 0 ∧
      (ShellLexer.init "`\\`(".toList).tokenize.map bracketBalance = .ok 1 :=
  ⟨by decide, rfl, by decide, rfl, by decide, rfl⟩

end AriaShell.Repl
