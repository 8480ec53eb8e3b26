import Mathlib.Algebra.Order.Ring.Nat
import Mathlib.Data.List.Basic
/-! `EditBuffer` of `repl/main.cpp`: the lines of a multi-line edit and a cursor. Its operations
index `lines_` at the cursor without a check and call `std::string` members that throw past the
end; here either is `none`. From the constructor, every sequence of public operations keeps the
cursor on a line and within it, and each operation acts on the text and the cursor's offset in
it as the flat counterpart `Flat` states. -/
namespace AriaShell.Repl

structure BufferPosition where
  line : Nat
  column : Nat
  deriving DecidableEq, Repr

/-- `EditBuffer`: `lines_` and `cursor_`. -/
structure EditBuffer where
  lines : List (List Char)
  cursor : BufferPosition
  deriving DecidableEq, Repr

/-- `s.insert(pos, 1, c)`: `std::out_of_range` past the end. -/
def insertAt (s : List Char) (pos : Nat) (c : Char) : Option (List Char) :=
  if pos ≤ s.length then some (s.take pos ++ c :: s.drop pos) else none

/-- `s.erase(pos, 1)`: `std::out_of_range` past the end. -/
def eraseAt (s : List Char) (pos : Nat) : Option (List Char) :=
  if pos ≤ s.length then some (s.take pos ++ s.drop (pos + 1)) else none

/-- `s.substr(pos)`: `std::out_of_range` past the end. -/
def substrFrom (s : List Char) (pos : Nat) : Option (List Char) :=
  if pos ≤ s.length then some (s.drop pos) else none

/-- The characters `find_last_not_of(" \t\n\r")` passes over. -/
def isTrailingSpace (c : Char) : Bool := c == ' ' || c == '\t' || c == '\n' || c == '\r'

/-- `s.find_last_not_of(" \t\n\r", upTo)`: the last position at most `upTo` of another character. -/
def findLastNotSpace (s : List Char) (upTo : Nat) : Option Nat :=
  let t := s.take (upTo + 1)
  (t.reverse.findIdx? fun c => !isTrailingSpace c).map (t.length - 1 - ·)

/-- The loop of `calculateBraceDepth` from position `i` on, with `prev = content[i - 1]` (none at
`0`): a comment runs from `//` to the end of the line, and a quote closes its string unless a
backslash is right before it. -/
def braceDepthLoop : List Char → Option Char → Int → Bool → Char → Bool → Int
  | [], _, depth, _, _, _ => depth
  | c :: rest, _, depth, inString, quoteChar, true =>
    braceDepthLoop rest (some c) depth inString quoteChar (c ≠ '\n')
  | '/' :: '/' :: rest, _, depth, inString, quoteChar, false =>
    braceDepthLoop rest (some '/') depth inString quoteChar true
  | c :: rest, prev, depth, true, quoteChar, false =>
    braceDepthLoop rest (some c) depth (!(c = quoteChar ∧ prev ≠ some '\\')) quoteChar false
  | c :: rest, _, depth, false, quoteChar, false =>
    if c = '\x22' ∨ c = '\x27' ∨ c = '\x60' then braceDepthLoop rest (some c) depth true c false
    else if c = '\x7b' ∨ c = '[' ∨ c = '(' then
      braceDepthLoop rest (some c) (depth + 1) false quoteChar false
    else if c = '\x7d' ∨ c = ']' ∨ c = ')' then
      braceDepthLoop rest (some c) (depth - 1) false quoteChar false
    else braceDepthLoop rest (some c) depth false quoteChar false

def calculateBraceDepth (content : List Char) : Int := braceDepthLoop content none 0 false '\x00' false

namespace EditBuffer

/-- The constructor: one empty line, the cursor at its start. -/
def init : EditBuffer := ⟨[[]], ⟨0, 0⟩⟩

/-- `lines_[cursor_.line]` -/
def current (b : EditBuffer) : Option (List Char) := b.lines[b.cursor.line]?

/-- `if (cursor_.line >= lines_.size()) lines_.resize(cursor_.line + 1);` -/
def resizeToCursor (b : EditBuffer) : EditBuffer :=
  if b.lines.length ≤ b.cursor.line then
    { b with lines := b.lines ++ List.replicate (b.cursor.line + 1 - b.lines.length) [] }
  else b

/-- `insertChar`: a character below 128 goes in at the cursor, any other is dropped. -/
def insertChar (ch : Nat) (b : EditBuffer) : Option EditBuffer := do
  let b := b.resizeToCursor
  let line ← b.current
  if ch < 128 then
    let line ← insertAt line b.cursor.column (Char.ofNat ch)
    pure ⟨b.lines.set b.cursor.line line, { b.cursor with column := b.cursor.column + 1 }⟩
  else pure b

/-- `insertNewline`: the line is split at the cursor. -/
def insertNewline (b : EditBuffer) : Option EditBuffer := do
  let b := b.resizeToCursor
  let currentLine ← b.current
  let remainder ← substrFrom currentLine b.cursor.column
  let lines := b.lines.set b.cursor.line (currentLine.take b.cursor.column)
  pure ⟨lines.take (b.cursor.line + 1) ++ remainder :: lines.drop (b.cursor.line + 1),
    ⟨b.cursor.line + 1, 0⟩⟩

/-- `backspace`: at the start of a line, the line is joined to the one before. -/
def backspace (b : EditBuffer) : Option EditBuffer :=
  if 0 < b.cursor.column then do
    let line ← b.current
    let line ← eraseAt line (b.cursor.column - 1)
    pure ⟨b.lines.set b.cursor.line line, { b.cursor with column := b.cursor.column - 1 }⟩
  else if 0 < b.cursor.line then do
    let currentLine ← b.current
    let lines := b.lines.eraseIdx b.cursor.line
    let previous ← lines[b.cursor.line - 1]?
    pure ⟨lines.set (b.cursor.line - 1) (previous ++ currentLine), ⟨b.cursor.line - 1, previous.length⟩⟩
  else pure b

/-- `deleteChar`: at the end of a line, the next line is joined to it. -/
def deleteChar (b : EditBuffer) : Option EditBuffer := do
  let line ← b.current
  if b.cursor.column < line.length then
    let line ← eraseAt line b.cursor.column
    pure { b with lines := b.lines.set b.cursor.line line }
  else if b.cursor.line < b.lines.length - 1 then do
    let next ← b.lines[b.cursor.line + 1]?
    pure { b with lines := (b.lines.set b.cursor.line (line ++ next)).eraseIdx (b.cursor.line + 1) }
  else pure b

def clear (_ : EditBuffer) : EditBuffer := init

def moveCursorLeft (b : EditBuffer) : Option EditBuffer :=
  if 0 < b.cursor.column then pure { b with cursor := { b.cursor with column := b.cursor.column - 1 } }
  else if 0 < b.cursor.line then do
    let previous ← b.lines[b.cursor.line - 1]?
    pure { b with cursor := ⟨b.cursor.line - 1, previous.length⟩ }
  else pure b

def moveCursorRight (b : EditBuffer) : Option EditBuffer := do
  let line ← b.current
  if b.cursor.column < line.length then
    pure { b with cursor := { b.cursor with column := b.cursor.column + 1 } }
  else if b.cursor.line < b.lines.length - 1 then pure { b with cursor := ⟨b.cursor.line + 1, 0⟩ }
  else pure b

def moveCursorUp (b : EditBuffer) : Option EditBuffer :=
  if 0 < b.cursor.line then do
    let previous ← b.lines[b.cursor.line - 1]?
    pure { b with cursor := ⟨b.cursor.line - 1, min b.cursor.column previous.length⟩ }
  else pure b

def moveCursorDown (b : EditBuffer) : Option EditBuffer :=
  if b.cursor.line < b.lines.length - 1 then do
    let next ← b.lines[b.cursor.line + 1]?
    pure { b with cursor := ⟨b.cursor.line + 1, min b.cursor.column next.length⟩ }
  else pure b

def moveCursorToStart (b : EditBuffer) : EditBuffer := { b with cursor := ⟨0, 0⟩ }

def moveCursorToEnd (b : EditBuffer) : Option EditBuffer := do
  let last ← b.lines[b.lines.length - 1]?
  pure { b with cursor := ⟨b.lines.length - 1, last.length⟩ }

def moveCursorToLineStart (b : EditBuffer) : EditBuffer :=
  { b with cursor := { b.cursor with column := 0 } }

def moveCursorToLineEnd (b : EditBuffer) : Option EditBuffer := do
  let line ← b.current
  pure { b with cursor := { b.cursor with column := line.length } }

/-- `getContent`: the lines joined by `'\n'`. -/
def getContent (b : EditBuffer) : List Char := ['\n'].intercalate b.lines

def isEmpty (b : EditBuffer) : Bool :=
  match b.lines with
  | [line] => line.isEmpty
  | _ => false

def getBraceDepth (b : EditBuffer) : Int := calculateBraceDepth b.getContent

def isBalanced (b : EditBuffer) : Bool := b.getBraceDepth = 0

def hasSyntaxError (b : EditBuffer) : Bool := b.getBraceDepth < 0

/-- `endsWithDoubleSemicolon`: the last two characters other than trailing white space are `;`. -/
def endsWithDoubleSemicolon (b : EditBuffer) : Bool :=
  let content := b.getContent
  match findLastNotSpace content content.length with
  | none => false
  | some e =>
    if e < 1 then false
    else if content.getD e ' ' ≠ ';' then false
    else match findLastNotSpace content (e - 1) with
      | none => false
      | some p => content.getD p ' ' = ';'

/-- The public operations that change the buffer. -/
inductive Op where
  | insertChar (ch : Nat)
  | insertNewline | deleteChar | backspace | clear
  | moveCursorLeft | moveCursorRight | moveCursorUp | moveCursorDown
  | moveCursorToStart | moveCursorToEnd | moveCursorToLineStart | moveCursorToLineEnd
  deriving DecidableEq, Repr

def Op.exec : Op → EditBuffer → Option EditBuffer
  | .insertChar ch => EditBuffer.insertChar ch
  | .insertNewline => EditBuffer.insertNewline
  | .deleteChar => EditBuffer.deleteChar
  | .backspace => EditBuffer.backspace
  | .clear => fun b => some (EditBuffer.clear b)
  | .moveCursorLeft => EditBuffer.moveCursorLeft
  | .moveCursorRight => EditBuffer.moveCursorRight
  | .moveCursorUp => EditBuffer.moveCursorUp
  | .moveCursorDown => EditBuffer.moveCursorDown
  | .moveCursorToStart => fun b => some (EditBuffer.moveCursorToStart b)
  | .moveCursorToEnd => EditBuffer.moveCursorToEnd
  | .moveCursorToLineStart => fun b => some (EditBuffer.moveCursorToLineStart b)
  | .moveCursorToLineEnd => EditBuffer.moveCursorToLineEnd

/-- The buffers the constructor and the public operations reach. -/
inductive Reachable : EditBuffer → Prop
  | init : Reachable init
  | step {b b' : EditBuffer} (op : Op) : Reachable b → op.exec b = some b' → Reachable b'

/-! ## The buffer around its cursor -/

section Zipper

variable (pre post : List (List Char)) (cur : List Char) (col : Nat) {α : Type}

@[simp] private theorem getElem?_zip (x : α) (xs ys : List α) : (xs ++ x :: ys)[xs.length]? = some x := by
  rw [List.getElem?_append_right (le_refl _), Nat.sub_self, List.getElem?_cons_zero]

@[simp] private theorem getElem_zip (x : α) (xs ys : List α) (h : xs.length < (xs ++ x :: ys).length) :
    (xs ++ x :: ys)[xs.length] = x := by
  simp [List.getElem_append_right]

@[simp] private theorem getElem?_zip_succ (x y : α) (xs ys : List α) : (xs ++ x :: y :: ys)[xs.length + 1]? = some y := by
  rw [List.getElem?_append_right (by omega), Nat.add_sub_cancel_left]
  simp

@[simp] private theorem getElem_zip_succ (x y : α) (xs ys : List α) (h : xs.length + 1 < (xs ++ x :: y :: ys).length) :
    (xs ++ x :: y :: ys)[xs.length + 1] = y := by
  simp [List.getElem_append_right]

@[simp] private theorem take_zip_succ (x : α) (xs ys : List α) : (xs ++ x :: ys).take (xs.length + 1) = xs ++ [x] := by
  simp [List.take_append_eq_append_take]

@[simp] private theorem drop_zip_succ (x : α) (xs ys : List α) : (xs ++ x :: ys).drop (xs.length + 1) = ys := by
  simp [List.drop_append_eq_append_drop]

@[simp] private theorem eraseIdx_zip_succ (x y : α) (xs ys : List α) :
    (xs ++ x :: y :: ys).eraseIdx (xs.length + 1) = xs ++ x :: ys := by
  simp [List.eraseIdx_append_of_length_le]

@[simp] private theorem set_zip (x y : α) (xs ys : List α) : (xs ++ x :: ys).set xs.length y = xs ++ y :: ys := by
  simp [List.set_append_right]

@[simp] private theorem eraseIdx_zip (x : α) (xs ys : List α) : (xs ++ x :: ys).eraseIdx xs.length = xs ++ ys := by
  simp [List.eraseIdx_append_of_length_le]

private theorem resizeToCursor_mk : resizeToCursor ⟨pre ++ cur :: post, ⟨pre.length, col⟩⟩ = ⟨pre ++ cur :: post, ⟨pre.length, col⟩⟩ := by
  simp [resizeToCursor]

theorem insertChar_mk (hcol : col ≤ cur.length) (ch : Nat) :
    insertChar ch ⟨pre ++ cur :: post, ⟨pre.length, col⟩⟩ =
      some (if ch < 128 then ⟨pre ++ (cur.take col ++ Char.ofNat ch :: cur.drop col) :: post, ⟨pre.length, col + 1⟩⟩
        else ⟨pre ++ cur :: post, ⟨pre.length, col⟩⟩) := by
  simp only [insertChar, resizeToCursor_mk, current, getElem?_zip]
  split_ifs <;> simp [insertAt, hcol]

private theorem insertNewline_mk (hcol : col ≤ cur.length) :
    insertNewline ⟨pre ++ cur :: post, ⟨pre.length, col⟩⟩ =
      some ⟨(pre ++ [cur.take col]) ++ cur.drop col :: post, ⟨(pre ++ [cur.take col]).length, 0⟩⟩ := by
  simp [insertNewline, resizeToCursor_mk, current, substrFrom, hcol, List.take_append_of_le_length,
    List.drop_append_of_le_length]

private theorem backspace_mk_pos (hcol : col ≤ cur.length) (h0 : 0 < col) :
    backspace ⟨pre ++ cur :: post, ⟨pre.length, col⟩⟩ =
      some ⟨pre ++ (cur.take (col - 1) ++ cur.drop col) :: post, ⟨pre.length, col - 1⟩⟩ := by
  simp [backspace, h0, current, eraseAt, show col ≤ cur.length + 1 by omega, Nat.sub_add_cancel h0]

private theorem backspace_mk_join (p : List Char) :
    backspace ⟨pre ++ p :: cur :: post, ⟨pre.length + 1, 0⟩⟩ =
      some ⟨pre ++ (p ++ cur) :: post, ⟨pre.length, p.length⟩⟩ := by
  simp [backspace, current]

private theorem backspace_mk_start : backspace ⟨cur :: post, ⟨0, 0⟩⟩ = some ⟨cur :: post, ⟨0, 0⟩⟩ := by
  simp [backspace]

private theorem deleteChar_mk_lt (h : col < cur.length) :
    deleteChar ⟨pre ++ cur :: post, ⟨pre.length, col⟩⟩ =
      some ⟨pre ++ (cur.take col ++ cur.drop (col + 1)) :: post, ⟨pre.length, col⟩⟩ := by
  simp [deleteChar, current, h, eraseAt, h.le]

private theorem deleteChar_mk_join (next : List Char) :
    deleteChar ⟨pre ++ cur :: next :: post, ⟨pre.length, cur.length⟩⟩ =
      some ⟨pre ++ (cur ++ next) :: post, ⟨pre.length, cur.length⟩⟩ := by
  simp [deleteChar, current]

private theorem deleteChar_mk_end : deleteChar ⟨pre ++ [cur], ⟨pre.length, cur.length⟩⟩ =
    some ⟨pre ++ [cur], ⟨pre.length, cur.length⟩⟩ := by
  simp [deleteChar, current]

private theorem moveCursorLeft_mk_pos (h0 : 0 < col) :
    moveCursorLeft ⟨pre ++ cur :: post, ⟨pre.length, col⟩⟩ =
      some ⟨pre ++ cur :: post, ⟨pre.length, col - 1⟩⟩ := by
  simp [moveCursorLeft, h0]

private theorem moveCursorLeft_mk_join (p : List Char) :
    moveCursorLeft ⟨pre ++ p :: cur :: post, ⟨pre.length + 1, 0⟩⟩ =
      some ⟨pre ++ p :: cur :: post, ⟨pre.length, p.length⟩⟩ := by
  simp [moveCursorLeft]

private theorem moveCursorRight_mk_lt (h : col < cur.length) :
    moveCursorRight ⟨pre ++ cur :: post, ⟨pre.length, col⟩⟩ =
      some ⟨pre ++ cur :: post, ⟨pre.length, col + 1⟩⟩ := by
  simp [moveCursorRight, current, h]

private theorem moveCursorRight_mk_join (next : List Char) :
    moveCursorRight ⟨pre ++ cur :: next :: post, ⟨pre.length, cur.length⟩⟩ =
      some ⟨pre ++ cur :: next :: post, ⟨pre.length + 1, 0⟩⟩ := by
  simp [moveCursorRight, current]

private theorem moveCursorRight_mk_end : moveCursorRight ⟨pre ++ [cur], ⟨pre.length, cur.length⟩⟩ =
    some ⟨pre ++ [cur], ⟨pre.length, cur.length⟩⟩ := by
  simp [moveCursorRight, current]

private theorem moveCursorUp_mk (p : List Char) :
    moveCursorUp ⟨pre ++ p :: cur :: post, ⟨pre.length + 1, col⟩⟩ =
      some ⟨pre ++ p :: cur :: post, ⟨pre.length, min col p.length⟩⟩ := by
  simp [moveCursorUp]

private theorem moveCursorDown_mk (next : List Char) :
    moveCursorDown ⟨pre ++ cur :: next :: post, ⟨pre.length, col⟩⟩ =
      some ⟨pre ++ cur :: next :: post, ⟨pre.length + 1, min col next.length⟩⟩ := by
  simp [moveCursorDown]

private theorem moveCursorDown_mk_end : moveCursorDown ⟨pre ++ [cur], ⟨pre.length, col⟩⟩ =
    some ⟨pre ++ [cur], ⟨pre.length, col⟩⟩ := by
  simp [moveCursorDown]

private theorem moveCursorToEnd_mk (c : BufferPosition) : moveCursorToEnd ⟨pre ++ [cur], c⟩ =
    some ⟨pre ++ [cur], ⟨pre.length, cur.length⟩⟩ := by
  simp [moveCursorToEnd]

private theorem moveCursorToLineEnd_mk : moveCursorToLineEnd ⟨pre ++ cur :: post, ⟨pre.length, col⟩⟩ =
    some ⟨pre ++ cur :: post, ⟨pre.length, cur.length⟩⟩ := by
  simp [moveCursorToLineEnd, current]

end Zipper

/-! ## The flat text -/

/-- A text and a cursor offset in it: what an `EditBuffer` stands for. -/
structure Flat where
  text : List Char
  pos : Nat
  deriving DecidableEq, Repr

namespace Flat

/-- The text `B ++ A` with the cursor between the two. -/
def ofGap (B A : List Char) : Flat := ⟨B ++ A, B.length⟩

/-- `c` inserted at the cursor, the cursor after it. -/
def insert (c : Char) (f : Flat) : Flat := ⟨f.text.take f.pos ++ c :: f.text.drop f.pos, f.pos + 1⟩

/-- The character before the cursor deleted, if there is one. -/
def deleteBefore (f : Flat) : Flat :=
  if 0 < f.pos then ⟨f.text.take (f.pos - 1) ++ f.text.drop f.pos, f.pos - 1⟩ else f

/-- The character at the cursor deleted, if there is one. -/
def deleteAt (f : Flat) : Flat :=
  if f.pos < f.text.length then ⟨f.text.take f.pos ++ f.text.drop (f.pos + 1), f.pos⟩ else f

def left (f : Flat) : Flat := ⟨f.text, f.pos - 1⟩

def right (f : Flat) : Flat := ⟨f.text, min (f.pos + 1) f.text.length⟩

def toStart (f : Flat) : Flat := ⟨f.text, 0⟩

def toEnd (f : Flat) : Flat := ⟨f.text, f.text.length⟩

private theorem insert_ofGap (c : Char) (B A : List Char) : (ofGap B A).insert c = ofGap (B ++ [c]) A := by
  simp [ofGap, insert]

private theorem deleteBefore_ofGap (x : Char) (B A : List Char) : (ofGap (B ++ [x]) A).deleteBefore = ofGap B A := by
  simp [ofGap, deleteBefore, List.take_append_eq_append_take, List.drop_append_eq_append_drop]

private theorem deleteBefore_ofGap_nil (A : List Char) : (ofGap [] A).deleteBefore = ofGap [] A := by
  simp [ofGap, deleteBefore]

private theorem deleteAt_ofGap (x : Char) (B A : List Char) : (ofGap B (x :: A)).deleteAt = ofGap B A := by
  simp [ofGap, deleteAt, List.take_append_eq_append_take, List.drop_append_eq_append_drop]

private theorem deleteAt_ofGap_nil (B : List Char) : (ofGap B []).deleteAt = ofGap B [] := by
  simp [ofGap, deleteAt]

private theorem left_ofGap (x : Char) (B A : List Char) : (ofGap (B ++ [x]) A).left = ofGap B (x :: A) := by
  simp [ofGap, left]

private theorem left_ofGap_nil (A : List Char) : (ofGap [] A).left = ofGap [] A := rfl

private theorem right_ofGap (x : Char) (B A : List Char) : (ofGap B (x :: A)).right = ofGap (B ++ [x]) A := by
  simp [ofGap, right]

private theorem right_ofGap_nil (B : List Char) : (ofGap B []).right = ofGap B [] := by
  simp [ofGap, right]

end Flat

/-! ## The buffer as a flat text -/

/-- The text of lines above the cursor's line: each line followed by its `'\n'`. -/
def joinBefore (pre : List (List Char)) : List Char := (pre.map (· ++ ['\n'])).flatten

/-- The text of lines below the cursor's line: each line preceded by its `'\n'`. -/
def joinAfter (post : List (List Char)) : List Char := (post.map ('\n' :: ·)).flatten

/-- `k`: the lengths plus one of the lines above the cursor, and its column. -/
def cursorOffset (b : EditBuffer) : Nat :=
  ((b.lines.take b.cursor.line).map (·.length + 1)).sum + b.cursor.column

/-- The buffer as its content and the cursor's offset in it. -/
def toFlat (b : EditBuffer) : Flat := ⟨b.getContent, b.cursorOffset⟩

/-- The cursor is on one of the lines, and within that line. -/
structure Valid (b : EditBuffer) : Prop where
  line_lt : b.cursor.line < b.lines.length
  column_le : b.cursor.column ≤ (b.lines.getD b.cursor.line []).length

@[simp] private theorem joinBefore_nil : joinBefore [] = [] := rfl

@[simp] private theorem joinBefore_append_singleton (pre : List (List Char)) (p : List Char) :
    joinBefore (pre ++ [p]) = joinBefore pre ++ p ++ ['\n'] := by
  simp [joinBefore]

@[simp] private theorem joinAfter_nil : joinAfter [] = [] := rfl

@[simp] private theorem joinAfter_cons (n : List Char) (post : List (List Char)) :
    joinAfter (n :: post) = '\n' :: n ++ joinAfter post := by
  simp [joinAfter]

private theorem intercalate_cons (cur : List Char) (post : List (List Char)) :
    ['\n'].intercalate (cur :: post) = cur ++ joinAfter post := by
  induction post generalizing cur with
  | nil => simp [List.intercalate]
  | cons n post ih =>
    have h := ih n
    simp only [List.intercalate, List.intersperse, List.flatten] at h ⊢
    rw [h, joinAfter_cons]
    rfl

private theorem getContent_mk (pre post : List (List Char)) (cur : List Char) (c : BufferPosition) :
    getContent ⟨pre ++ cur :: post, c⟩ = joinBefore pre ++ cur ++ joinAfter post := by
  induction pre with
  | nil => exact intercalate_cons cur post
  | cons p pre ih =>
    obtain ⟨x, r, hr⟩ := List.exists_cons_of_ne_nil (List.append_ne_nil_of_right_ne_nil pre (List.cons_ne_nil cur post))
    have hstep : ['\n'].intercalate (p :: (pre ++ cur :: post)) = p ++ '\n' :: ['\n'].intercalate (pre ++ cur :: post) := by
      rw [hr]; simp only [List.intercalate, List.intersperse, List.flatten]; rfl
    simp only [getContent] at ih ⊢
    rw [List.cons_append, hstep, ih]
    simp [joinBefore]


private theorem length_joinBefore (pre : List (List Char)) :
    (joinBefore pre).length = (pre.map (·.length + 1)).sum := by
  induction pre with
  | nil => rfl
  | cons p pre ih => simp [joinBefore] at ih ⊢; omega

private theorem toFlat_mk {pre post : List (List Char)} {cur : List Char} {col : Nat} (hcol : col ≤ cur.length) :
    toFlat ⟨pre ++ cur :: post, ⟨pre.length, col⟩⟩ =
      Flat.ofGap (joinBefore pre ++ cur.take col) (cur.drop col ++ joinAfter post) := by
  simp only [toFlat, Flat.ofGap, getContent_mk, cursorOffset, List.take_left', length_joinBefore,
    List.length_append, List.length_take, min_eq_left hcol, List.append_assoc]
  rw [← List.append_assoc (cur.take col), List.take_append_drop]

private theorem valid_mk {pre post : List (List Char)} {cur : List Char} {col : Nat} (hcol : col ≤ cur.length) :
    Valid ⟨pre ++ cur :: post, ⟨pre.length, col⟩⟩ :=
  ⟨by simp, by simpa [List.getD_eq_getElem?_getD] using hcol⟩

theorem Valid.zipper {b : EditBuffer} (hv : Valid b) :
    ∃ pre cur post col, b = ⟨pre ++ cur :: post, ⟨pre.length, col⟩⟩ ∧ col ≤ cur.length := by
  obtain ⟨lines, ⟨line, col⟩⟩ := b
  obtain ⟨hl, hc⟩ := hv
  refine ⟨lines.take line, lines[line], lines.drop (line + 1), col, ?_, ?_⟩
  · simp only [List.getElem_cons_drop, List.take_append_drop, List.length_take, min_eq_left hl.le]
  · simpa [List.getD_eq_getElem?_getD, hl] using hc


/-- The flat counterpart of each operation. The moves to another line and to either end of a line
have none: they keep the text. -/
def Op.flat : Op → Option (Flat → Flat)
  | .insertChar ch => some fun f => if ch < 128 then f.insert (Char.ofNat ch) else f
  | .insertNewline => some (Flat.insert '\n')
  | .deleteChar => some Flat.deleteAt
  | .backspace => some Flat.deleteBefore
  | .clear => some fun _ => ⟨[], 0⟩
  | .moveCursorLeft => some Flat.left
  | .moveCursorRight => some Flat.right
  | .moveCursorToStart => some Flat.toStart
  | .moveCursorToEnd => some Flat.toEnd
  | .moveCursorUp | .moveCursorDown | .moveCursorToLineStart | .moveCursorToLineEnd => none

/-- `b'` is what the flat counterpart of `op` makes of `b`, or keeps its text. -/
def Op.Sound (op : Op) (b b' : EditBuffer) : Prop :=
  match op.flat with
  | some g => toFlat b' = g (toFlat b)
  | none => b'.getContent = b.getContent

section Steps

variable {pre post : List (List Char)} {cur : List Char} {col : Nat}

private theorem insertChar_step (hcol : col ≤ cur.length) (ch : Nat) :
    ∃ b', insertChar ch ⟨pre ++ cur :: post, ⟨pre.length, col⟩⟩ = some b' ∧ Valid b' ∧
      (Op.insertChar ch).Sound ⟨pre ++ cur :: post, ⟨pre.length, col⟩⟩ b' := by
  rw [insertChar_mk _ _ _ _ hcol]
  split_ifs with hch
  · have hlen : col + 1 ≤ (cur.take col ++ Char.ofNat ch :: cur.drop col).length := by simp; omega
    refine ⟨_, rfl, valid_mk hlen, ?_⟩
    simp only [Op.Sound, Op.flat, if_pos hch, toFlat_mk hlen, toFlat_mk hcol, Flat.insert_ofGap]
    have ht : (cur.take col).length ≤ col + 1 := by rw [List.length_take]; omega
    simp [List.take_append_eq_append_take, List.drop_append_eq_append_drop, min_eq_left hcol,
      List.take_of_length_le ht, List.drop_of_length_le ht]
  · exact ⟨_, rfl, valid_mk hcol, by simp only [Op.Sound, Op.flat, if_neg hch]⟩

private theorem insertNewline_step (hcol : col ≤ cur.length) :
    ∃ b', insertNewline ⟨pre ++ cur :: post, ⟨pre.length, col⟩⟩ = some b' ∧ Valid b' ∧
      Op.insertNewline.Sound ⟨pre ++ cur :: post, ⟨pre.length, col⟩⟩ b' := by
  rw [insertNewline_mk _ _ _ _ hcol]
  refine ⟨_, rfl, valid_mk (Nat.zero_le _), ?_⟩
  simp only [Op.Sound, Op.flat, toFlat_mk (Nat.zero_le _), toFlat_mk hcol, Flat.insert_ofGap]
  simp

private theorem toFlat_start (cur : List Char) (post : List (List Char)) :
    toFlat ⟨cur :: post, ⟨0, 0⟩⟩ = Flat.ofGap [] (cur ++ joinAfter post) := by
  simpa using @toFlat_mk [] post cur 0 (Nat.zero_le _)

theorem backspace_step (hcol : col ≤ cur.length) :
    ∃ b', backspace ⟨pre ++ cur :: post, ⟨pre.length, col⟩⟩ = some b' ∧ Valid b' ∧
      Op.backspace.Sound ⟨pre ++ cur :: post, ⟨pre.length, col⟩⟩ b' := by
  rcases col with _ | k
  · rcases List.eq_nil_or_concat pre with rfl | ⟨pre, p, rfl⟩
    · refine ⟨_, backspace_mk_start _ _, @valid_mk [] post cur 0 (Nat.zero_le _), ?_⟩
      simp only [Op.Sound, Op.flat, List.nil_append, List.length_nil, toFlat_start,
        Flat.deleteBefore_ofGap_nil]
    · rw [List.concat_eq_append]
      have hb : (⟨(pre ++ [p]) ++ cur :: post, ⟨(pre ++ [p]).length, 0⟩⟩ : EditBuffer) =
          ⟨pre ++ p :: cur :: post, ⟨pre.length + 1, 0⟩⟩ := by simp
      have hlen : p.length ≤ (p ++ cur).length := by simp
      refine ⟨_, hb ▸ backspace_mk_join _ _ _ _, valid_mk hlen, ?_⟩
      simp only [Op.Sound, Op.flat, toFlat_mk hlen, toFlat_mk (Nat.zero_le _), joinBefore_append_singleton,
        List.take_zero, List.drop_zero, List.append_nil, List.take_left, List.drop_left,
        Flat.deleteBefore_ofGap]
  · have hk : (cur.take k).length = k := by simp; omega
    have hlen : k ≤ (cur.take k ++ cur.drop (k + 1)).length := by simp; omega
    refine ⟨_, backspace_mk_pos _ _ _ _ hcol (Nat.succ_pos k), valid_mk hlen, ?_⟩
    simp only [Op.Sound, Op.flat, toFlat_mk hlen, toFlat_mk hcol, Nat.add_sub_cancel,
      List.take_left' hk, List.drop_left' hk,
      List.take_succ, List.getElem?_eq_getElem (show k < cur.length by omega), Option.toList_some]
    rw [← List.append_assoc, Flat.deleteBefore_ofGap]

private theorem deleteChar_step (hcol : col ≤ cur.length) :
    ∃ b', deleteChar ⟨pre ++ cur :: post, ⟨pre.length, col⟩⟩ = some b' ∧ Valid b' ∧
      Op.deleteChar.Sound ⟨pre ++ cur :: post, ⟨pre.length, col⟩⟩ b' := by
  rcases Nat.lt_or_ge col cur.length with h | h
  · have hk : (cur.take col).length = col := by simp; omega
    have hlen : col ≤ (cur.take col ++ cur.drop (col + 1)).length := by simp; omega
    refine ⟨_, deleteChar_mk_lt _ _ _ _ h, valid_mk hlen, ?_⟩
    simp only [Op.Sound, Op.flat, toFlat_mk hlen, toFlat_mk hcol, List.take_left' hk, List.drop_left' hk,
      List.drop_eq_getElem_cons h, List.cons_append, Flat.deleteAt_ofGap]
  · obtain rfl : col = cur.length := by omega
    rcases post with _ | ⟨next, post⟩
    · refine ⟨_, deleteChar_mk_end _ _, valid_mk hcol, ?_⟩
      simp only [Op.Sound, Op.flat, toFlat_mk hcol, List.drop_length, joinAfter_nil, List.append_nil,
        Flat.deleteAt_ofGap_nil]
    · have hlen : cur.length ≤ (cur ++ next).length := by simp
      refine ⟨_, deleteChar_mk_join _ _ _ _, valid_mk hlen, ?_⟩
      simp only [Op.Sound, Op.flat, toFlat_mk hlen, toFlat_mk hcol, List.take_left, List.drop_left,
        List.take_length, List.drop_length, joinAfter_cons, List.nil_append, List.cons_append,
        Flat.deleteAt_ofGap]

private theorem moveCursorLeft_step (hcol : col ≤ cur.length) :
    ∃ b', moveCursorLeft ⟨pre ++ cur :: post, ⟨pre.length, col⟩⟩ = some b' ∧ Valid b' ∧
      Op.moveCursorLeft.Sound ⟨pre ++ cur :: post, ⟨pre.length, col⟩⟩ b' := by
  rcases col with _ | k
  · rcases List.eq_nil_or_concat pre with rfl | ⟨pre, p, rfl⟩
    · refine ⟨_, rfl, @valid_mk [] post cur 0 (Nat.zero_le _), ?_⟩
      simp only [Op.Sound, Op.flat, List.nil_append, List.length_nil, toFlat_start, Flat.left_ofGap_nil]
    · rw [List.concat_eq_append]
      have hb : (⟨(pre ++ [p]) ++ cur :: post, ⟨(pre ++ [p]).length, 0⟩⟩ : EditBuffer) =
          ⟨pre ++ p :: cur :: post, ⟨pre.length + 1, 0⟩⟩ := by simp
      refine ⟨_, hb ▸ moveCursorLeft_mk_join _ _ _ _, valid_mk (le_refl p.length), ?_⟩
      simp only [Op.Sound, Op.flat, toFlat_mk (le_refl p.length), toFlat_mk (Nat.zero_le _),
        joinBefore_append_singleton, List.take_zero, List.drop_zero, List.append_nil, List.take_length,
        List.drop_length, joinAfter_cons, List.nil_append, List.cons_append, Flat.left_ofGap]
  · have hk : k ≤ cur.length := by omega
    refine ⟨_, moveCursorLeft_mk_pos _ _ _ _ (Nat.succ_pos k), valid_mk hk, ?_⟩
    simp only [Op.Sound, Op.flat, toFlat_mk hk, toFlat_mk hcol, Nat.add_sub_cancel, List.take_succ,
      List.getElem?_eq_getElem (show k < cur.length by omega), Option.toList_some,
      List.drop_eq_getElem_cons (show k < cur.length by omega), ← List.append_assoc, Flat.left_ofGap,
      List.cons_append]

private theorem moveCursorRight_step (hcol : col ≤ cur.length) :
    ∃ b', moveCursorRight ⟨pre ++ cur :: post, ⟨pre.length, col⟩⟩ = some b' ∧ Valid b' ∧
      Op.moveCursorRight.Sound ⟨pre ++ cur :: post, ⟨pre.length, col⟩⟩ b' := by
  rcases Nat.lt_or_ge col cur.length with h | h
  · refine ⟨_, moveCursorRight_mk_lt _ _ _ _ h, valid_mk h, ?_⟩
    simp only [Op.Sound, Op.flat, toFlat_mk h, toFlat_mk hcol, List.take_succ,
      List.getElem?_eq_getElem h, Option.toList_some, List.drop_eq_getElem_cons h, ← List.append_assoc,
      List.cons_append, Flat.right_ofGap]
  · obtain rfl : col = cur.length := by omega
    rcases post with _ | ⟨next, post⟩
    · refine ⟨_, moveCursorRight_mk_end _ _, valid_mk hcol, ?_⟩
      simp only [Op.Sound, Op.flat, toFlat_mk hcol, List.drop_length, joinAfter_nil, List.append_nil,
        Flat.right_ofGap_nil]
    · have hb : (⟨pre ++ cur :: next :: post, ⟨pre.length + 1, 0⟩⟩ : EditBuffer) =
          ⟨(pre ++ [cur]) ++ next :: post, ⟨(pre ++ [cur]).length, 0⟩⟩ := by simp
      refine ⟨_, (moveCursorRight_mk_join _ _ _ _).trans (congrArg some hb), valid_mk (Nat.zero_le _), ?_⟩
      simp only [Op.Sound, Op.flat, toFlat_mk (Nat.zero_le _), toFlat_mk hcol, joinBefore_append_singleton,
        List.take_zero, List.drop_zero, List.append_nil, List.take_length, List.drop_length, joinAfter_cons,
        List.nil_append, List.cons_append, Flat.right_ofGap]

private theorem moveCursorUp_step (hcol : col ≤ cur.length) :
    ∃ b', moveCursorUp ⟨pre ++ cur :: post, ⟨pre.length, col⟩⟩ = some b' ∧ Valid b' ∧
      Op.moveCursorUp.Sound ⟨pre ++ cur :: post, ⟨pre.length, col⟩⟩ b' := by
  rcases List.eq_nil_or_concat pre with rfl | ⟨pre, p, rfl⟩
  · exact ⟨_, by simp [moveCursorUp], valid_mk hcol, rfl⟩
  · rw [List.concat_eq_append]
    have hb : (⟨(pre ++ [p]) ++ cur :: post, ⟨(pre ++ [p]).length, col⟩⟩ : EditBuffer) =
        ⟨pre ++ p :: cur :: post, ⟨pre.length + 1, col⟩⟩ := by simp
    exact ⟨_, hb ▸ moveCursorUp_mk _ _ _ _ _, valid_mk (min_le_right _ _), by simp [Op.Sound, Op.flat, getContent]⟩

private theorem moveCursorDown_step (hcol : col ≤ cur.length) :
    ∃ b', moveCursorDown ⟨pre ++ cur :: post, ⟨pre.length, col⟩⟩ = some b' ∧ Valid b' ∧
      Op.moveCursorDown.Sound ⟨pre ++ cur :: post, ⟨pre.length, col⟩⟩ b' := by
  rcases post with _ | ⟨next, post⟩
  · exact ⟨_, moveCursorDown_mk_end _ _ _, valid_mk hcol, rfl⟩
  · have hb : (⟨pre ++ cur :: next :: post, ⟨pre.length + 1, min col next.length⟩⟩ : EditBuffer) =
        ⟨(pre ++ [cur]) ++ next :: post, ⟨(pre ++ [cur]).length, min col next.length⟩⟩ := by simp
    exact ⟨_, (moveCursorDown_mk _ _ _ _ _).trans (congrArg some hb), valid_mk (min_le_right _ _),
      by simp [Op.Sound, Op.flat, getContent]⟩

private theorem moveCursorToStart_step :
    Valid (moveCursorToStart ⟨pre ++ cur :: post, ⟨pre.length, col⟩⟩) ∧
      Op.moveCursorToStart.Sound ⟨pre ++ cur :: post, ⟨pre.length, col⟩⟩
        (moveCursorToStart ⟨pre ++ cur :: post, ⟨pre.length, col⟩⟩) :=
  ⟨⟨by simp only [moveCursorToStart, List.length_append, List.length_cons]; omega, by simp [moveCursorToStart]⟩,
    by simp [Op.Sound, Op.flat, toFlat, Flat.toStart, moveCursorToStart, cursorOffset, getContent]⟩

private theorem moveCursorToEnd_step :
    ∃ b', moveCursorToEnd ⟨pre ++ cur :: post, ⟨pre.length, col⟩⟩ = some b' ∧ Valid b' ∧
      Op.moveCursorToEnd.Sound ⟨pre ++ cur :: post, ⟨pre.length, col⟩⟩ b' := by
  obtain ⟨init, last, hlines⟩ : ∃ init last, pre ++ cur :: post = init ++ [last] :=
    (List.eq_nil_or_concat (pre ++ cur :: post)).resolve_left (by simp) |>.imp fun _ h => by
      simpa using h
  rw [hlines, moveCursorToEnd_mk]
  refine ⟨_, rfl, valid_mk (le_refl _), ?_⟩
  simp only [Op.Sound, Op.flat]
  rw [@toFlat_mk init [] last _ (le_refl _)]
  simp only [Flat.toEnd, toFlat, getContent_mk, Flat.ofGap, List.take_length, List.drop_length,
    joinAfter_nil, List.append_nil]

/-- Every operation from a buffer whose cursor is in range succeeds, keeps the cursor in range, and
acts on the flat text as `Op.flat` says. -/
theorem exec_step (hcol : col ≤ cur.length) (op : Op) :
    ∃ b', op.exec ⟨pre ++ cur :: post, ⟨pre.length, col⟩⟩ = some b' ∧ Valid b' ∧
      op.Sound ⟨pre ++ cur :: post, ⟨pre.length, col⟩⟩ b' := by
  cases op with
  | insertChar ch => exact insertChar_step hcol ch
  | insertNewline => exact insertNewline_step hcol
  | deleteChar => exact deleteChar_step hcol
  | backspace => exact backspace_step hcol
  | clear => exact ⟨init, rfl, ⟨by decide, by decide⟩, rfl⟩
  | moveCursorLeft => exact moveCursorLeft_step hcol
  | moveCursorRight => exact moveCursorRight_step hcol
  | moveCursorUp => exact moveCursorUp_step hcol
  | moveCursorDown => exact moveCursorDown_step hcol
  | moveCursorToStart => exact ⟨_, rfl, moveCursorToStart_step⟩
  | moveCursorToEnd => exact moveCursorToEnd_step
  | moveCursorToLineStart => exact ⟨_, rfl, valid_mk (Nat.zero_le _), rfl⟩
  | moveCursorToLineEnd => exact ⟨_, moveCursorToLineEnd_mk _ _ _ _, valid_mk (le_refl _), rfl⟩

private theorem isEmpty_mk (c : BufferPosition) :
    isEmpty ⟨pre ++ cur :: post, c⟩ = true ↔ getContent ⟨pre ++ cur :: post, c⟩ = [] := by
  rw [getContent_mk]
  rcases pre with _ | ⟨p, pre⟩
  · rcases post with _ | ⟨n, post⟩ <;> simp [isEmpty]
  · simp [isEmpty, joinBefore]

end Steps

theorem Reachable.valid {b : EditBuffer} (hb : Reachable b) : Valid b := by
  induction hb with
  | init => exact ⟨by decide, by decide⟩
  | step op _ hexec ih =>
    obtain ⟨pre, cur, post, col, rfl, hcol⟩ := ih.zipper
    obtain ⟨b', h, hv, -⟩ := exec_step hcol op
    exact (Option.some.inj (hexec.symm.trans h)) ▸ hv

/-- Every buffer the constructor and the public operations reach has its cursor on a line and
within it, so its offset `k` lies in the content; every public operation from it succeeds and acts
on `(getContent, k)` as its flat counterpart, or keeps the content; and `isEmpty` holds exactly
when the content is empty. -/
theorem editBuffer_refines_flat {b : EditBuffer} (hb : Reachable b) :
    b.lines ≠ [] ∧ b.cursor.line < b.lines.length ∧
      b.cursor.column ≤ (b.lines.getD b.cursor.line []).length ∧
      b.cursorOffset ≤ b.getContent.length ∧ (b.isEmpty = true ↔ b.getContent = []) ∧
      ∀ op : Op, ∃ b', op.exec b = some b' ∧ op.Sound b b' := by
  have hv := hb.valid
  obtain ⟨pre, cur, post, col, hb', hcol⟩ := hv.zipper
  refine ⟨List.ne_nil_of_length_pos (by have := hv.line_lt; omega), hv.line_lt, hv.column_le, ?_, ?_,
    fun op => ?_⟩
  · have h := @toFlat_mk pre post cur _ hcol
    rw [hb']
    simp only [toFlat, Flat.ofGap, Flat.mk.injEq] at h
    rw [h.1, h.2]
    simp
  · rw [hb']; exact isEmpty_mk _
  · rw [hb']
    obtain ⟨b', h, -, hs⟩ := exec_step hcol op
    exact ⟨b', h, hs⟩



/-- Backspace at the start of the second line of `a⏎` joins the lines: the flat text `a\n` with
the cursor after the newline becomes `a` with the cursor after the `a`. -/
theorem editBuffer_refines_flat_join :
    ∃ b', Op.backspace.exec ⟨[['a'], []], ⟨1, 0⟩⟩ = some b' ∧ toFlat b' = ⟨['a'], 1⟩ := by
  obtain ⟨-, -, -, -, -, h⟩ := editBuffer_refines_flat
    (@Reachable.step _ ⟨[['a'], []], ⟨1, 0⟩⟩ .insertNewline
      (@Reachable.step _ ⟨[['a']], ⟨0, 1⟩⟩ (.insertChar 97) .init (by decide)) (by decide))
  obtain ⟨b', hx, hs⟩ := h .backspace
  exact ⟨b', hx, hs.trans (by decide)⟩

end EditBuffer

end AriaShell.Repl
