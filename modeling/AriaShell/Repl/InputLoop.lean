import AriaShell.Repl.InputEngine
/-! The loop of `InputEngine::run` in `repl/main.cpp`: each event `readEvent` returns goes to the
handler of the current state, `handleIdle`, `handleBufferManipulation` or `handleChordAnalysis`,
until CTRL_D on an empty buffer or `requestExit` clears `running_`. Over every sequence of events no
edit fails, the loop only ever finds the state IDLE or CHORD_ANALYSIS, and each pass hands the
submission callback at most one text. -/
namespace AriaShell.Repl

open EditBuffer

/-- `running_` beside the fields of `InputEngine` the handlers change; the exit callback is called
exactly when `running_` is cleared. -/
structure Session where
  engine : InputEngine
  running : Bool
  deriving Repr

namespace Session

/-- CTRL_D: on an empty buffer the exit callback runs and `running_` is cleared. -/
def ctrlD (s : Session) : Session :=
  if s.engine.buffer.isEmpty then { s with running := false } else s

/-- `handleChordAnalysis`: CTRL+ENTER, ALT+ENTER or CTRL+J submits; CTRL_C clears the buffer;
CTRL_D exits on an empty buffer; any other event is dropped. Each leaves the state IDLE. -/
def handleChordAnalysis (event : KeyEvent) (s : Session) : Session :=
  let e := s.engine
  if event.type = .ctrlEnter ∨ event.type = .altEnter then
    { s with engine := InputEngine.handleSubmission { e with state := .submission } }
  else if event.type = .character ∧ event.codepoint = 10 ∧ event.modifiers.has .ctrl then
    { s with engine := InputEngine.handleSubmission { e with state := .submission } }
  else if event.type = .ctrlC then
    { s with engine := { e with buffer := e.buffer.clear, continuationMode := false, state := .idle } }
  else if event.type = .ctrlD then
    { ctrlD s with engine := { e with state := .idle } }
  else { s with engine := { e with state := .idle } }

/-- `handleIdle`: ESCAPE toggles EDIT mode; CHARACTER, ENTER and BACKSPACE go to
`handleBufferManipulation` and a CTRL chord to `handleChordAnalysis`; CTRL_C clears the buffer and
CTRL_D exits on an empty buffer. -/
def handleIdle (event : KeyEvent) (s : Session) : Option Session :=
  let e := s.engine
  if event.type = .escape then some { s with engine := { e with editMode := !e.editMode } }
  else if event.type = .character ∨ event.type = .enter ∨ event.type = .backspace then
    (InputEngine.handleBufferManipulation event { e with state := .bufferManipulation }).map
      fun e => { s with engine := e }
  else if event.modifiers.has .ctrl then
    some (handleChordAnalysis event { s with engine := { e with state := .chordAnalysis } })
  else if event.type = .ctrlC then some { s with engine := { e with buffer := e.buffer.clear } }
  else if event.type = .ctrlD then some (ctrlD s)
  else some s

/-- One pass of the loop of `run` on what `readEvent` returned: a timeout is skipped and an event
goes to the handler of the current state, except that SUBMISSION submits without reading it. -/
def dispatch (event : Option KeyEvent) (s : Session) : Option Session :=
  match event with
  | none => some s
  | some event =>
    match s.engine.state with
    | .idle => handleIdle event s
    | .bufferManipulation =>
      (InputEngine.handleBufferManipulation event s.engine).map fun e => { s with engine := e }
    | .chordAnalysis => some (handleChordAnalysis event s)
    | .submission => some { s with engine := s.engine.handleSubmission }

/-- `while (running_)` over the results of `readEvent`; those after the loop stopped are not
read. -/
def runEvents : List (Option KeyEvent) → Session → Option Session
  | [], s => some s
  | event :: events, s => if s.running then (dispatch event s).bind (runEvents events) else some s

/-- `run` once `enterRawMode` succeeded: RUN mode, the state IDLE and an empty buffer. -/
def start : Session := ⟨⟨init, .idle, false, false, [], []⟩, true⟩

end Session

/-! ## What every handler keeps -/

theorem valid_init : init.Valid := ⟨by decide, by decide⟩

theorem EditBuffer.Valid.exec {b : EditBuffer} (hv : b.Valid) (op : Op) : ∃ b', op.exec b = some b' ∧ b'.Valid := by
  obtain ⟨pre, cur, post, col, rfl, hcol⟩ := hv.zipper
  obtain ⟨b', h, hv', -⟩ := exec_step hcol op
  exact ⟨b', h, hv'⟩

namespace InputEngine

/-- What the handlers keep of an engine. -/
structure Good (e : InputEngine) : Prop where
  /-- the cursor is on a line and within it -/
  valid : e.buffer.Valid

theorem Good.congr {e e' : InputEngine} (h : e.Good) (hb : e'.buffer = e.buffer) : e'.Good :=
  ⟨hb ▸ h.valid⟩

/-- The states the loop of `run` may find. -/
def AtHead (e : InputEngine) : Prop := e.state = .idle ∨ e.state = .chordAnalysis

private theorem afterEdit_atHead (event : KeyEvent) (e : InputEngine) : (afterEdit event e).AtHead := by
  unfold afterEdit AtHead
  split <;> simp

private theorem foldlM_insertChar (cs : List Char) {b : EditBuffer} (hv : b.Valid) :
    ∃ b', cs.foldlM (fun b c => b.insertChar c.toNat) b = some b' ∧ b'.Valid := by
  induction cs generalizing b with
  | nil => exact ⟨b, rfl, hv⟩
  | cons c cs ih =>
    obtain ⟨b₁, h₁, hv₁⟩ := hv.exec (.insertChar c.toNat)
    obtain ⟨b', h', hv'⟩ := ih hv₁
    exact ⟨b', by rw [List.foldlM_cons]; exact (Option.bind_eq_some.mpr ⟨b₁, h₁, h'⟩), hv'⟩

private theorem applyAutoIndent_good {e : InputEngine} (h : e.Good) :
    ∃ b, applyAutoIndent e = some { e with buffer := b } ∧ b.Valid := by
  obtain ⟨b, hb, hv⟩ := foldlM_insertChar (List.replicate (2 * (max 0 e.buffer.getBraceDepth).toNat) ' ')
    h.valid
  exact ⟨b, by simp only [applyAutoIndent, hb]; rfl, hv⟩

private theorem handleSubmission_good {e : InputEngine} (h : e.Good) :
    (handleSubmission e).Good ∧ (handleSubmission e).state = .idle := by
  unfold handleSubmission
  split_ifs
  · exact ⟨h.congr rfl, rfl⟩
  · exact ⟨h.congr rfl, rfl⟩
  · exact ⟨⟨valid_init⟩, rfl⟩

private theorem edit_good {e : InputEngine} (h : e.Good) (event : KeyEvent) (op : Op) :
    ∃ e', (do let buffer ← op.exec e.buffer; pure (afterEdit event { e with buffer })) = some e' ∧
      e'.Good ∧ e'.AtHead := by
  obtain ⟨b, hb, hv⟩ := h.valid.exec op
  exact ⟨afterEdit event { e with buffer := b }, by rw [hb]; rfl, ⟨hv⟩, afterEdit_atHead _ _⟩

private theorem handleBufferManipulation_good {e : InputEngine} (h : e.Good) (event : KeyEvent) :
    ∃ e', handleBufferManipulation event e = some e' ∧ e'.Good ∧ e'.AtHead := by
  unfold handleBufferManipulation
  split
  case h_1 => exact edit_good h event (.insertChar _)
  case h_2 =>
    split_ifs
    · obtain ⟨b, hb, hv⟩ := h.valid.exec .backspace
      obtain ⟨hg, hs⟩ := handleSubmission_good (e := { e with buffer := b, state := .submission })
        ⟨hv⟩
      exact ⟨_, by rw [show e.buffer.backspace = some b from hb]; rfl, hg, .inl hs⟩
    · obtain ⟨b, hb, hv⟩ := h.valid.exec .insertNewline
      obtain ⟨b', hb', hv'⟩ := applyAutoIndent_good (e := { e with buffer := b, continuationMode := true })
        ⟨hv⟩
      refine ⟨afterEdit event { e with buffer := b', continuationMode := true }, ?_, ⟨hv'⟩,
        afterEdit_atHead _ _⟩
      rw [show e.buffer.insertNewline = some b from hb]
      exact congrArg (fun o => o.bind fun e => some (afterEdit event e)) hb'
    · obtain ⟨hg, hs⟩ := handleSubmission_good (e := { e with state := .submission }) (h.congr rfl)
      exact ⟨_, rfl, hg, .inl hs⟩
  case h_3 => exact edit_good h event .backspace
  case h_4 => exact edit_good h event .deleteChar
  case h_5 => exact edit_good h event .moveCursorLeft
  case h_6 => exact edit_good h event .moveCursorRight
  case h_7 => exact edit_good h event .moveCursorUp
  case h_8 => exact edit_good h event .moveCursorDown
  case h_9 => exact edit_good h event .moveCursorToLineStart
  case h_10 => exact edit_good h event .moveCursorToLineEnd
  case h_11 => exact ⟨_, rfl, ⟨valid_init⟩, afterEdit_atHead _ _⟩
  case h_12 => exact ⟨_, rfl, h.congr rfl, afterEdit_atHead _ _⟩

/-! ## What the submission callback receives -/

end InputEngine

namespace Session

open InputEngine

/-- What holds at the head of the loop of `run`. -/
structure Inv (s : Session) : Prop where
  /-- the buffer is valid -/
  good : s.engine.Good
  /-- the loop's switch only meets IDLE and CHORD_ANALYSIS -/
  head : s.engine.AtHead

theorem inv_start : start.Inv := ⟨⟨valid_init⟩, .inl rfl⟩

private theorem ctrlD_engine (s : Session) : (ctrlD s).engine = s.engine := by
  unfold ctrlD
  split_ifs <;> rfl

theorem Inv.ctrlD {s : Session} (hi : s.Inv) : (ctrlD s).Inv :=
  ⟨ctrlD_engine s ▸ hi.good, ctrlD_engine s ▸ hi.head⟩

private theorem handleChordAnalysis_inv {s : Session} (hi : s.Inv) (event : KeyEvent) :
    (handleChordAnalysis event s).Inv := by
  have hsub := handleSubmission_good (e := { s.engine with state := .submission }) (hi.good.congr rfl)
  unfold handleChordAnalysis
  split_ifs
  · exact ⟨hsub.1, .inl hsub.2⟩
  · exact ⟨hsub.1, .inl hsub.2⟩
  · exact ⟨⟨valid_init⟩, .inl rfl⟩
  · exact ⟨hi.good.congr rfl, .inl rfl⟩
  · exact ⟨hi.good.congr rfl, .inl rfl⟩

private theorem handleIdle_inv {s : Session} (hi : s.Inv) (event : KeyEvent) :
    ∃ s', handleIdle event s = some s' ∧ s'.Inv := by
  unfold handleIdle
  split_ifs
  · exact ⟨_, rfl, hi.good.congr rfl, hi.head⟩
  · obtain ⟨e', he, hg, hh⟩ := handleBufferManipulation_good
      (e := { s.engine with state := .bufferManipulation }) (hi.good.congr rfl) event
    refine ⟨{ s with engine := e' }, ?_, hg, hh⟩
    dsimp only at he ⊢
    rw [he]
    rfl
  · exact ⟨_, rfl, handleChordAnalysis_inv (s := { s with engine := { s.engine with state := .chordAnalysis } })
      ⟨hi.good.congr rfl, .inr rfl⟩ event⟩
  · exact ⟨_, rfl, ⟨valid_init⟩, hi.head⟩
  · exact ⟨_, rfl, hi.ctrlD⟩
  · exact ⟨_, rfl, hi⟩

/-- One pass of the loop keeps the invariant and never fails. -/
theorem dispatch_inv {s : Session} (hi : s.Inv) (event : Option KeyEvent) :
    ∃ s', dispatch event s = some s' ∧ s'.Inv := by
  cases event with
  | none => exact ⟨s, rfl, hi⟩
  | some event =>
    unfold dispatch
    dsimp only
    split
    · exact handleIdle_inv hi event
    · obtain ⟨e', he, hg, hh⟩ := handleBufferManipulation_good hi.good event
      exact ⟨{ s with engine := e' }, by rw [he]; rfl, hg, hh⟩
    · exact ⟨_, rfl, handleChordAnalysis_inv hi event⟩
    · obtain ⟨hg, hs⟩ := handleSubmission_good hi.good
      exact ⟨_, rfl, hg, .inl hs⟩

private theorem runEvents_inv (events : List (Option KeyEvent)) {s : Session} (hi : s.Inv) :
    ∃ s', runEvents events s = some s' ∧ s'.Inv := by
  induction events generalizing s with
  | nil => exact ⟨s, rfl, hi⟩
  | cons event events ih =>
    unfold runEvents
    split_ifs with hr
    · obtain ⟨s₁, h₁, hi₁⟩ := dispatch_inv hi event
      obtain ⟨s', h', hi'⟩ := ih hi₁
      exact ⟨s', by rw [h₁]; exact h', hi'⟩
    · exact ⟨s, rfl, hi⟩

/-- Over every sequence of results of `readEvent`, no edit of the loop fails (no line is indexed
past its end, no `std::string` member throws) and the loop only ever finds IDLE or
CHORD_ANALYSIS: the BUFFER_MANIPULATION and SUBMISSION branches of the switch in `run` are never
taken. -/
theorem runEvents_never_fails (events : List (Option KeyEvent)) :
    ∃ s, runEvents events start = some s ∧ s.engine.buffer.Valid ∧
      (s.engine.state = .idle ∨ s.engine.state = .chordAnalysis) := by
  obtain ⟨s, h, hi⟩ := runEvents_inv events inv_start
  exact ⟨s, h, hi.good.valid, hi.head⟩

/-! ## Typing a line -/

/-- What `insertChar` keeps of typed codepoints: the ASCII ones, as characters. -/
def typedLine (cs : List Nat) : List Char := (cs.filter (· < 128)).map Char.ofNat

private theorem typedLine_append (a b : List Nat) : typedLine (a ++ b) = typedLine a ++ typedLine b := by
  simp [typedLine]

/-- The one-line buffer holding `line` with the cursor at its end. -/
def lineBuffer (line : List Char) : EditBuffer := ⟨[line], ⟨0, line.length⟩⟩

private theorem insertChar_lineBuffer (line : List Char) (c : Nat) :
    insertChar c (lineBuffer line) = some (lineBuffer (line ++ typedLine [c])) := by
  have h := insertChar_mk [] [] line line.length le_rfl c
  simp only [List.nil_append, List.length_nil, List.take_length, List.drop_length] at h
  rw [lineBuffer, h]
  by_cases hc : c < 128 <;> simp [hc, typedLine, lineBuffer]

private theorem dispatch_character {e : InputEngine} {line : List Char} (he : e.state = .idle) (r : Bool) (c : Nat) :
    dispatch (some ⟨.character, .none, c⟩) ⟨{ e with buffer := lineBuffer line }, r⟩ =
      some ⟨{ e with buffer := lineBuffer (line ++ typedLine [c]) }, r⟩ := by
  obtain ⟨buffer, state, cm, em, sub, err⟩ := e
  cases he
  simp [dispatch, handleIdle, handleBufferManipulation, afterEdit, insertChar_lineBuffer]
  rfl

private theorem runEvents_typing {e : InputEngine} (he : e.state = .idle) (line : List Char) (cs : List Nat)
    (rest : List (Option KeyEvent)) :
    runEvents (cs.map (fun c => some ⟨.character, .none, c⟩) ++ rest) ⟨{ e with buffer := lineBuffer line }, true⟩ =
      runEvents rest ⟨{ e with buffer := lineBuffer (line ++ typedLine cs) }, true⟩ := by
  induction cs generalizing line with
  | nil => simp [typedLine]
  | cons c cs ih =>
    rw [List.map_cons, List.cons_append, runEvents, if_pos rfl, dispatch_character he, Option.some_bind, ih,
      List.append_assoc, ← typedLine_append]
    rfl

private theorem getContent_lineBuffer (line : List Char) : (lineBuffer line).getContent = line := by
  simp [getContent, lineBuffer, List.intercalate]

private theorem dispatch_enter {e : InputEngine} (he : e.state = .idle) (hm : e.editMode = false) (r : Bool) :
    dispatch (some ⟨.enter, .none, 0⟩) ⟨e, r⟩ = some ⟨handleSubmission { e with state := .submission }, r⟩ := by
  obtain ⟨buffer, state, cm, em, sub, err⟩ := e
  cases he
  cases hm
  simp [dispatch, handleIdle, handleBufferManipulation]

/-- In RUN mode, typing codepoints at the prompt and pressing ENTER submits exactly the ASCII ones
typed when their bracket depth is zero; otherwise the text stays in the buffer, nothing is
submitted, and the error names the kind of imbalance. The loop keeps running. -/
theorem runEvents_submits_typed_line (cs : List Nat) :
    ∃ s, runEvents (cs.map (fun c => some ⟨.character, .none, c⟩) ++ [some ⟨.enter, .none, 0⟩]) start = some s ∧
      s.running = true ∧ s.engine.state = .idle ∧
      (calculateBraceDepth (typedLine cs) = 0 →
        s.engine.submitted = [typedLine cs] ∧ s.engine.buffer = init ∧ s.engine.errors = []) ∧
      (calculateBraceDepth (typedLine cs) < 0 →
        s.engine.submitted = [] ∧ s.engine.buffer.getContent = typedLine cs ∧
          s.engine.errors = ["Syntax Error: Unbalanced braces"]) ∧
      (0 < calculateBraceDepth (typedLine cs) →
        s.engine.submitted = [] ∧ s.engine.buffer.getContent = typedLine cs ∧
          s.engine.errors = ["Incomplete: Missing closing brace"]) := by
  have h := runEvents_typing (e := start.engine) rfl [] cs [some ⟨.enter, .none, 0⟩]
  rw [List.nil_append] at h
  refine ⟨_, h.trans (by rw [runEvents, if_pos rfl, dispatch_enter rfl rfl]; rfl), rfl, ?_⟩
  simp only [handleSubmission, hasSyntaxError, isBalanced, getBraceDepth, getContent_lineBuffer,
    decide_eq_true_eq, Bool.not_eq_true', decide_eq_false_iff_not]
  split_ifs
  · exact ⟨rfl, fun _ => by omega, fun _ => ⟨rfl, getContent_lineBuffer _, rfl⟩, fun _ => by omega⟩
  · exact ⟨rfl, fun _ => ⟨rfl, rfl, rfl⟩, fun _ => by omega, fun _ => by omega⟩
  · exact ⟨rfl, fun _ => by omega, fun _ => by omega, fun _ => ⟨rfl, getContent_lineBuffer _, rfl⟩⟩

end Session

end AriaShell.Repl
