import Mathlib.Data.Int.Bitwise
import AriaShell.Bootstrap.Text
/-! The key decoders of `PlatformTerminal` and `readEvent`, which calls them. An escape sequence is
the `ESC` followed by the bytes one `read` returns; `parseKittySequence` and `parseXTermSequence`
cut it at a `;` and read both fields with `std::stoi`, whose exceptions no caller catches. Against
the protocols' own encodings (at the end), the Kitty decoder reads the modifier field as a bit
mask without taking off its `1`, and the xterm decoder starts its first field one byte late, at
the `;`. -/
namespace AriaShell.Repl

open AriaShell.Bootstrap

inductive KeyType
  | character | enter | ctrlEnter | altEnter | backspace | delete
  | arrowUp | arrowDown | arrowLeft | arrowRight | home | «end» | pageUp | pageDown | tab
  | ctrlC | ctrlD | ctrlZ | ctrlL | escape
  | f1 | f2 | f3 | f4 | f5 | f6 | f7 | f8 | f9 | f10 | f11 | f12
  | unknown
  deriving DecidableEq, Repr

/-- `KeyModifiers`, a `uint8_t` bit mask. -/
structure KeyModifiers where
  bits : Nat
  deriving DecidableEq, Repr

namespace KeyModifiers

def none : KeyModifiers := ⟨0⟩
def shift : KeyModifiers := ⟨1⟩
def ctrl : KeyModifiers := ⟨2⟩
def alt : KeyModifiers := ⟨4⟩

/-- `operator|` -/
def or (a b : KeyModifiers) : KeyModifiers := ⟨a.bits ||| b.bits⟩

/-- `operator&`: whether the two masks share a bit. -/
def has (a b : KeyModifiers) : Bool := a.bits &&& b.bits != 0

end KeyModifiers

/-- `KeyEvent`; its constructor defaults the modifiers to `NONE` and the codepoint to `0`. -/
structure KeyEvent where
  type : KeyType
  modifiers : KeyModifiers := .none
  codepoint : Nat := 0
  deriving DecidableEq, Repr

inductive ProtocolLevel
  | legacy | xtermModifyKeys | kittyProgressive
  deriving DecidableEq, Repr

/-- The exceptions of `std::stoi`. -/
inductive StoiFault
  | invalidArgument
  | outOfRange
  deriving DecidableEq, Repr

/-- `std::stoi(s)`: leading white space, an optional sign and the longest run of decimal digits;
`std::invalid_argument` without a digit, `std::out_of_range` outside `int`. -/
def stoi (s : List Char) : Except StoiFault Int :=
  let (neg, t) := splitSign (s.dropWhile isSpace)
  let ds := t.takeWhile Char.isDigit
  if ds = [] then .error .invalidArgument
  else
    let v : Int := if neg then -(decValue ds : Int) else decValue ds
    if -2 ^ 31 ≤ v ∧ v < 2 ^ 31 then .ok v else .error .outOfRange

/-- `std::string::find(ch, pos)`. -/
def findChar (ch : Char) (pos : Nat) (s : List Char) : Option Nat :=
  ((s.drop pos).findIdx? (· == ch)).map (· + pos)

/-- `s.substr(pos, count)`, for a `pos` within `s`: the decoders pass no other. -/
def substr (s : List Char) (pos count : Nat) : List Char := (s.drop pos).take count

/-- `static_cast<char32_t>` of an `int`. -/
def toChar32 (v : Int) : Nat := (v % 2 ^ 32).toNat

/-- The modifier tests of `parseKittySequence`: bit 0 of the field sets SHIFT, bit 1 ALT, bit 2
CTRL. -/
def decodeKittyModifiers (modBits : Int) : KeyModifiers :=
  let mods := KeyModifiers.none
  let mods := if modBits.testBit 0 then mods.or .shift else mods
  let mods := if modBits.testBit 1 then mods.or .alt else mods
  if modBits.testBit 2 then mods.or .ctrl else mods

/-- The event `parseKittySequence` builds from its two fields: CTRL_ENTER, with no codepoint, for
`13` under CTRL. -/
def kittyKeyEvent (codepoint : Int) (mods : KeyModifiers) : KeyEvent :=
  if codepoint = 13 ∧ mods.has .ctrl then { type := .ctrlEnter, modifiers := mods }
  else ⟨if codepoint = 13 then .enter else .character, mods, toChar32 codepoint⟩

/-- `parseKittySequence`: `CSI codepoint ; modifiers u`. -/
def parseKittySequence (seq : List Char) : Except StoiFault (Option KeyEvent) :=
  if seq.length < 5 ∨ seq.getD 0 ' ' ≠ '\x1B' ∨ seq.getD 1 ' ' ≠ '[' then .ok none
  else if seq.getLast? ≠ some 'u' then .ok none
  else match findChar ';' 2 seq with
    | none => .ok none
    | some semicolon => do
      let codepoint ← stoi (substr seq 2 (semicolon - 2))
      let modBits ← stoi (substr seq (semicolon + 1) (seq.length - semicolon - 2))
      pure (some (kittyKeyEvent codepoint (decodeKittyModifiers modBits)))

/-- The modifier tests of `parseXTermSequence`: fields 5, 3 and 2 give CTRL, ALT and SHIFT. -/
def decodeXTermModifiers (modBits : Int) : KeyModifiers :=
  let mods := KeyModifiers.none
  let mods := if modBits = 5 then .ctrl else mods
  let mods := if modBits = 3 then .alt else mods
  if modBits = 2 then .shift else mods

/-- The event `parseXTermSequence` builds from its two fields. -/
def xtermKeyEvent (codepoint : Int) (mods : KeyModifiers) : KeyEvent :=
  if codepoint = 13 ∧ mods.has .ctrl then { type := .ctrlEnter, modifiers := mods }
  else ⟨.character, mods, toChar32 codepoint⟩

/-- `parseXTermSequence`: `CSI 27 ; modifiers ; codepoint ~`, its first field read from offset
`semi1 = 6`. -/
def parseXTermSequence (seq : List Char) : Except StoiFault (Option KeyEvent) :=
  if seq.length < 8 ∨ seq.getD 0 ' ' ≠ '\x1B' ∨ seq.getD 1 ' ' ≠ '[' then .ok none
  else if !"\x1B[27;".toList.isPrefixOf seq then .ok none
  else
    let semi1 := 6
    match findChar ';' semi1 seq with
    | none => .ok none
    | some semi2 => do
      let modBits ← stoi (substr seq semi1 (semi2 - semi1))
      let codepoint ← stoi (substr seq (semi2 + 1) (seq.length - semi2 - 2))
      pure (some (xtermKeyEvent codepoint (decodeXTermModifiers modBits)))

/-- The sequences `parseAnsiSequence` recognises, in the order it tests them. -/
def ansiSequences : List (String × KeyType) :=
  [("\x1B[A", .arrowUp), ("\x1B[B", .arrowDown), ("\x1B[C", .arrowRight), ("\x1B[D", .arrowLeft),
    ("\x1B[H", .home), ("\x1B[1~", .home), ("\x1B[F", .«end»), ("\x1B[4~", .«end»),
    ("\x1B[5~", .pageUp), ("\x1B[6~", .pageDown), ("\x1B[3~", .delete),
    ("\x1BOP", .f1), ("\x1BOQ", .f2), ("\x1BOR", .f3), ("\x1BOS", .f4),
    ("\x1B[15~", .f5), ("\x1B[17~", .f6), ("\x1B[18~", .f7), ("\x1B[19~", .f8),
    ("\x1B[20~", .f9), ("\x1B[21~", .f10), ("\x1B[23~", .f11), ("\x1B[24~", .f12),
    ("\x1B\x0D", .altEnter), ("\x1B\x0A", .altEnter)]

def parseAnsiSequence (seq : List Char) : Option KeyEvent :=
  (ansiSequences.find? fun p => p.1.toList == seq).map fun p => { type := p.2 }

/-- A protocol decoder's event if it gives one, else `fallback`. -/
def orElseAnsi (decoded : Except StoiFault (Option KeyEvent)) (fallback : Option KeyEvent) :
    Except StoiFault (Option KeyEvent) :=
  decoded.map fun ev => ev.orElse fun _ => fallback

/-- `parseEscapeSequence`, given the bytes the `read` after `ESC` returned (none on a timeout). -/
def parseEscapeSequence (level : ProtocolLevel) (buf : List Char) : Except StoiFault (Option KeyEvent) :=
  if buf = [] then .ok (some { type := .escape })
  else
    let seq := '\x1B' :: buf
    match level with
    | .kittyProgressive => orElseAnsi (parseKittySequence seq) (parseAnsiSequence seq)
    | .xtermModifyKeys => orElseAnsi (parseXTermSequence seq) (parseAnsiSequence seq)
    | .legacy => .ok (parseAnsiSequence seq)

/-- `readEvent`, given the bytes of its `read` (none on a timeout) and, after a lone `ESC`, what
follows the 50 ms `poll`: `none` when it timed out, else the bytes `parseEscapeSequence` reads. -/
def readEvent (level : ProtocolLevel) (bytes : List Char) (followUp : Option (List Char)) :
    Except StoiFault (Option KeyEvent) :=
  match bytes with
  | [] => .ok none
  | [c] =>
    if c.toNat = 0x03 then .ok (some { type := .ctrlC })
    else if c.toNat = 0x04 then .ok (some { type := .ctrlD })
    else if c.toNat = 0x0C then .ok (some { type := .ctrlL })
    else if c.toNat = 0x1A then .ok (some { type := .ctrlZ })
    else if c.toNat = 0x0D ∨ c.toNat = 0x0A then .ok (some { type := .enter })
    else if c.toNat = 0x7F ∨ c.toNat = 0x08 then .ok (some { type := .backspace })
    else if c.toNat = 0x09 then .ok (some { type := .tab })
    else if c.toNat = 0x1B then
      match followUp with
      | none => .ok (some { type := .escape })
      | some buf => parseEscapeSequence level buf
    else if 32 ≤ c.toNat ∧ c.toNat < 127 then .ok (some ⟨.character, .none, c.toNat⟩)
    else if 0x80 ≤ c.toNat then .ok (some ⟨.character, .none, c.toNat⟩)
    else .ok none
  | c :: rest => if c = '\x1B' then .ok (parseAnsiSequence (c :: rest)) else .ok none

/-! ## Decoding lemmas -/

private theorem isSpace_of_isDigit {c : Char} (h : c.isDigit = true) : isSpace c = false := by
  cases hs : isSpace c
  · rfl
  · simp only [isSpace, Bool.or_eq_true, beq_iff_eq] at hs
    rcases hs with (((((rfl | rfl) | rfl) | rfl) | rfl) | rfl) <;> cases h

private theorem splitSign_of_isDigit {c : Char} {t : List Char} (h : c.isDigit = true) :
    splitSign (c :: t) = (false, c :: t) := by
  have hm : c ≠ '-' := by rintro rfl; cases h
  have hp : c ≠ '+' := by rintro rfl; cases h
  unfold splitSign
  split <;> simp_all

private theorem stoi_digits {ds : List Char} (hne : ds ≠ []) (hd : ∀ ch ∈ ds, ch.isDigit)
    (hv : decValue ds < 2 ^ 31) : stoi ds = .ok (decValue ds) := by
  obtain ⟨c, t, rfl⟩ := List.exists_cons_of_ne_nil hne
  have hc := hd c (List.mem_cons_self _ _)
  have hdrop : (c :: t).dropWhile isSpace = c :: t :=
    List.dropWhile_cons_of_neg (by simp [isSpace_of_isDigit hc])
  simp only [stoi, hdrop, splitSign_of_isDigit hc, List.takeWhile_eq_self_iff.mpr hd]
  simp only [reduceCtorEq, if_false, Bool.false_eq_true]
  rw [if_pos ⟨by omega, by omega⟩]

private theorem findChar_append {ch : Char} (pre a rest : List Char) (ha : ch ∉ a) :
    findChar ch pre.length (pre ++ a ++ ch :: rest) = some (a.length + pre.length) := by
  have hnone : a.findIdx? (· == ch) = none :=
    List.findIdx?_eq_none_iff.mpr fun c hc => beq_false_of_ne (by rintro rfl; exact ha hc)
  simp [findChar, hnone]

private theorem substr_append (pre x rest : List Char) :
    substr (pre ++ x ++ rest) pre.length x.length = x := by
  simp [substr]

private theorem fields_cut {pre a b : List Char} {last : Char} (ha : ';' ∉ a) :
    findChar ';' pre.length (pre ++ a ++ ';' :: (b ++ [last])) = some (a.length + pre.length) ∧
      substr (pre ++ a ++ ';' :: (b ++ [last])) pre.length a.length = a ∧
      substr (pre ++ a ++ ';' :: (b ++ [last])) (a.length + pre.length + 1)
        ((pre ++ a ++ ';' :: (b ++ [last])).length - (a.length + pre.length) - 2) = b := by
  refine ⟨findChar_append pre a _ ha, substr_append pre a _, ?_⟩
  have h := substr_append (pre ++ a ++ [';']) b [last]
  simp only [List.append_assoc, List.singleton_append, List.cons_append, List.nil_append] at h
  rw [show (pre ++ a ++ ';' :: (b ++ [last])).length - (a.length + pre.length) - 2 = b.length by
    simp; omega, show a.length + pre.length + 1 = (pre ++ a ++ [';']).length by simp; omega]
  simpa only [List.append_assoc] using h

private theorem parseKittySequence_fields {a b : List Char} (ha : ';' ∉ a) (hlen : 0 < a.length + b.length) :
    parseKittySequence ('\x1B' :: '[' :: (a ++ ';' :: (b ++ ['u']))) = (do
      let codepoint ← stoi a
      let modBits ← stoi b
      pure (some (kittyKeyEvent codepoint (decodeKittyModifiers modBits)))) := by
  obtain ⟨hf, h1, h2⟩ := @fields_cut ['\x1B', '['] a b 'u' ha
  unfold parseKittySequence
  rw [if_neg (by simp; omega), if_neg (by simp [List.getLast?_cons])]
  erw [hf]
  dsimp only
  erw [Nat.add_sub_cancel, h1, h2]

private theorem parseXTermSequence_fields {m t : Char} {a b : List Char} (ha : ';' ∉ a) :
    parseXTermSequence ("\x1B[27;".toList ++ m :: (a ++ ';' :: (b ++ [t]))) = (do
      let modBits ← stoi a
      let codepoint ← stoi b
      pure (some (xtermKeyEvent codepoint (decodeXTermModifiers modBits)))) := by
  obtain ⟨hf, h1, h2⟩ := @fields_cut ("\x1B[27;".toList ++ [m]) a b t ha
  unfold parseXTermSequence
  rw [if_neg (by simp; omega), if_neg (by simp [List.isPrefixOf_iff_prefix])]
  dsimp only
  erw [hf]
  dsimp only
  erw [Nat.add_sub_cancel, h1, h2]

private theorem parseEscapeSequence_of_kitty {buf : List Char} {ev : KeyEvent} (hbuf : buf ≠ [])
    (h : parseKittySequence ('\x1B' :: buf) = .ok (some ev)) :
    parseEscapeSequence .kittyProgressive buf = .ok (some ev) := by
  simp only [parseEscapeSequence, if_neg hbuf, orElseAnsi, h]
  rfl

private theorem parseEscapeSequence_of_xterm {buf : List Char} {e : StoiFault} (hbuf : buf ≠ [])
    (h : parseXTermSequence ('\x1B' :: buf) = .error e) :
    parseEscapeSequence .xtermModifyKeys buf = .error e := by
  simp only [parseEscapeSequence, if_neg hbuf, orElseAnsi, h]
  rfl

private theorem readEvent_escape (level : ProtocolLevel) (buf : List Char) :
    readEvent level ['\x1B'] (some buf) = parseEscapeSequence level buf := rfl

/-- The decoders call `std::stoi` unguarded. Every `ESC [ a ; b u` and every `ESC [ 2 7 ; m a ; b t`
whose field `a` (without a `;`) `std::stoi` rejects, empty, not numeric or out of `int` range,
throws out of its decoder, out of `parseEscapeSequence` and out of `readEvent`, which
`InputEngine::run` calls outside any `try`. -/
theorem key_decoders_throw {a b : List Char} {e : StoiFault} (ha : ';' ∉ a)
    (he : stoi a = .error e) (hlen : 0 < a.length + b.length) (m t : Char) :
    parseKittySequence ('\x1B' :: '[' :: (a ++ ';' :: (b ++ ['u']))) = .error e ∧
      readEvent .kittyProgressive ['\x1B'] (some ('[' :: (a ++ ';' :: (b ++ ['u'])))) = .error e ∧
      parseXTermSequence ("\x1B[27;".toList ++ m :: (a ++ ';' :: (b ++ [t]))) = .error e ∧
      readEvent .xtermModifyKeys ['\x1B'] (some ("[27;".toList ++ m :: (a ++ ';' :: (b ++ [t])))) =
        .error e := by
  have hk : parseKittySequence ('\x1B' :: '[' :: (a ++ ';' :: (b ++ ['u']))) = .error e := by
    rw [parseKittySequence_fields ha hlen, he]; rfl
  have hx : parseXTermSequence ("\x1B[27;".toList ++ m :: (a ++ ';' :: (b ++ [t]))) = .error e := by
    rw [parseXTermSequence_fields ha, he]; rfl
  refine ⟨hk, ?_, hx, ?_⟩
  · rw [readEvent_escape, parseEscapeSequence, if_neg (List.cons_ne_nil _ _)]
    simp only [hk, orElseAnsi]; rfl
  · rw [readEvent_escape, parseEscapeSequence, if_neg (by simp)]
    simp only [orElseAnsi]
    erw [hx]; rfl

/-- An empty first field: Kitty `ESC [ ; 5 u`, and xterm's Ctrl+Enter `ESC [ 2 7 ; 5 ; 1 3 ~`,
whose first field the decoder reads from the byte after the `5`. -/
theorem key_decoders_throw_empty_field :
    readEvent .kittyProgressive ['\x1B'] (some "[;5u".toList) = .error .invalidArgument ∧
      readEvent .xtermModifyKeys ['\x1B'] (some "[27;5;13~".toList) = .error .invalidArgument :=
  have h := key_decoders_throw (List.not_mem_nil ';') rfl (b := "13".toList) (by decide) '5' '~'
  ⟨(key_decoders_throw (List.not_mem_nil ';') rfl (b := ['5']) (by decide) '5' '~').2.1, h.2.2.2⟩

private theorem kittyKeyEvent_modifiers (codepoint : Int) (mods : KeyModifiers) :
    (kittyKeyEvent codepoint mods).modifiers = mods := by
  unfold kittyKeyEvent; split <;> rfl

private theorem kittyKeyEvent_type (codepoint : Int) (mods : KeyModifiers) :
    (kittyKeyEvent codepoint mods).type = .ctrlEnter ↔ codepoint = 13 ∧ mods.has .ctrl := by
  unfold kittyKeyEvent
  by_cases h13 : codepoint = 13 <;> by_cases hc : mods.has .ctrl <;> simp [h13, hc]

private theorem kittyKeyEvent_codepoint (codepoint : Int) (mods : KeyModifiers) :
    (kittyKeyEvent codepoint mods).codepoint =
      if (kittyKeyEvent codepoint mods).type = .ctrlEnter then 0 else toChar32 codepoint := by
  unfold kittyKeyEvent; split <;> simp; split <;> simp

/-! ## The protocols' encodings

Written from the two protocols, not from the code: a codepoint and a modifier field, each in
decimal without leading zeros, where the field is one more than the bits of the modifiers. -/

/-- A set of the modifiers the protocols encode. -/
structure ModifierSet where
  shift : Bool
  alt : Bool
  ctrl : Bool
  deriving DecidableEq, Repr

/-- The protocols' modifier field: one more than the bits shift = 1, alt = 2, ctrl = 4. -/
def ModifierSet.field (S : ModifierSet) : Nat :=
  1 + (if S.shift then 1 else 0) + (if S.alt then 2 else 0) + (if S.ctrl then 4 else 0)

/-- The `KeyModifiers` mask holding exactly `S`. -/
def ModifierSet.toKeyModifiers (S : ModifierSet) : KeyModifiers :=
  let mods := KeyModifiers.none
  let mods := if S.shift then mods.or .shift else mods
  let mods := if S.alt then mods.or .alt else mods
  if S.ctrl then mods.or .ctrl else mods

/-- The decimal digits of `n`, most significant first, with at most `fuel` of them. -/
def decDigits : Nat → Nat → List Char
  | 0, _ => []
  | fuel + 1, n =>
    if n < 10 then [Nat.digitChar n] else decDigits fuel (n / 10) ++ [Nat.digitChar (n % 10)]

/-- `dec(n)`: the decimal numeral of `n`, without leading zeros. -/
def decimal (n : Nat) : List Char := decDigits (n + 1) n

/-- Kitty: `ESC [ dec(c) ; dec(field) u`. -/
def kittyEncoding (S : ModifierSet) (c : Nat) : List Char :=
  "\x1B[".toList ++ decimal c ++ ';' :: (decimal S.field ++ ['u'])

/-- xterm modifyOtherKeys: `ESC [ 27 ; dec(field) ; dec(c) ~`. -/
def xtermEncoding (S : ModifierSet) (c : Nat) : List Char :=
  "\x1B[27;".toList ++ decimal S.field ++ ';' :: (decimal c ++ ['~'])

private theorem digitChar_spec : ∀ d < 10, (Nat.digitChar d).isDigit ∧ (Nat.digitChar d).toNat - '0'.toNat = d := by
  decide

private theorem decDigits_spec {fuel n : Nat} (h : n < fuel) :
    decDigits fuel n ≠ [] ∧ (∀ ch ∈ decDigits fuel n, ch.isDigit) ∧ decValue (decDigits fuel n) = n := by
  induction fuel generalizing n with
  | zero => omega
  | succ fuel ih =>
    rw [decDigits]
    split_ifs with h10
    · simpa [decValue] using digitChar_spec n h10
    · obtain ⟨-, hd, hv⟩ := ih (n := n / 10) (by omega)
      have hm := digitChar_spec (n % 10) (Nat.mod_lt _ (by decide))
      refine ⟨by simp, fun ch hch => ?_, ?_⟩
      · rcases List.mem_append.mp hch with hch | hch
        · exact hd ch hch
        · rw [List.mem_singleton.mp hch]; exact hm.1
      · simp only [decValue, List.foldl_append, List.foldl_cons, List.foldl_nil] at hv ⊢
        rw [hv, hm.2]
        omega

private theorem decimal_spec (n : Nat) :
    decimal n ≠ [] ∧ (∀ ch ∈ decimal n, ch.isDigit) ∧ decValue (decimal n) = n :=
  decDigits_spec n.lt_succ_self

private theorem stoi_decimal {n : Nat} (h : n < 2 ^ 31) : stoi (decimal n) = .ok n := by
  obtain ⟨hne, hd, hv⟩ := decimal_spec n
  have := stoi_digits hne hd (by rw [hv]; exact h)
  rwa [hv] at this

private theorem decimal_of_lt_ten {n : Nat} (h : n < 10) : decimal n = [Nat.digitChar n] := by
  simp [decimal, decDigits, h]

private theorem field_lt_ten (S : ModifierSet) : S.field < 10 := by
  unfold ModifierSet.field; split_ifs <;> omega

private theorem decodeKittyModifiers_ne (S : ModifierSet) :
    decodeKittyModifiers S.field ≠ S.toKeyModifiers := by
  obtain ⟨_ | _, _ | _, _ | _⟩ := S <;> decide

example : decodeKittyModifiers (ModifierSet.mk false false true).field = KeyModifiers.shift.or .ctrl := by
  decide

private theorem not_semicolon_mem_decimal (n : Nat) : ';' ∉ decimal n :=
  fun h => absurd ((decimal_spec n).2.1 _ h) (by decide)

private theorem parseKittySequence_kittyEncoding (S : ModifierSet) (c : Nat) (hc : c < 2 ^ 31) :
    parseKittySequence (kittyEncoding S c) =
      .ok (some (kittyKeyEvent c (decodeKittyModifiers S.field))) := by
  have := List.length_pos.mpr (decimal_spec c).1
  have h := @parseKittySequence_fields _ (decimal S.field) (not_semicolon_mem_decimal c) (by omega)
  rw [stoi_decimal hc, stoi_decimal (by have := field_lt_ten S; omega)] at h
  exact h

private theorem parseXTermSequence_xtermEncoding (S : ModifierSet) (c : Nat) :
    parseXTermSequence (xtermEncoding S c) = .error .invalidArgument := by
  have hx : xtermEncoding S c =
      "\x1B[27;".toList ++ Nat.digitChar S.field :: ([] ++ ';' :: (decimal c ++ ['~'])) := by
    rw [xtermEncoding, decimal_of_lt_ten (field_lt_ten S)]; rfl
  rw [hx, parseXTermSequence_fields (List.not_mem_nil _)]
  rfl

/-- Against the protocols' encodings, for every modifier set and every codepoint: the Kitty
decoder returns an event, but with modifiers other than the set (the field's `1` is read as
SHIFT), with its type following those modifiers, and with codepoint `0` when it is CTRL_ENTER; the
xterm decoder throws `std::invalid_argument`, and so does `parseEscapeSequence` in xterm mode. -/
theorem key_decoders_misread_encodings (S : ModifierSet) (c : Nat) (hc : c ≤ 0x10FFFF) :
    (∃ ev, parseKittySequence (kittyEncoding S c) = .ok (some ev) ∧
        parseEscapeSequence .kittyProgressive (kittyEncoding S c).tail = .ok (some ev) ∧
        ev.modifiers = decodeKittyModifiers S.field ∧ ev.modifiers ≠ S.toKeyModifiers ∧
        (ev.type = .ctrlEnter ↔ c = 13 ∧ (decodeKittyModifiers S.field).has .ctrl) ∧
        ev.codepoint = if ev.type = .ctrlEnter then 0 else c) ∧
      parseXTermSequence (xtermEncoding S c) = .error .invalidArgument ∧
      parseEscapeSequence .xtermModifyKeys (xtermEncoding S c).tail = .error .invalidArgument := by
  have hk := parseKittySequence_kittyEncoding S c (by omega)
  have hx := parseXTermSequence_xtermEncoding S c
  refine ⟨⟨_, hk, parseEscapeSequence_of_kitty (by simp [kittyEncoding]) hk,
    kittyKeyEvent_modifiers _ _, (kittyKeyEvent_modifiers _ _).symm ▸ decodeKittyModifiers_ne S,
    by rw [kittyKeyEvent_type]; norm_cast, ?_⟩, hx, parseEscapeSequence_of_xterm (by simp [xtermEncoding]) hx⟩
  rw [kittyKeyEvent_codepoint, toChar32]
  split <;> omega

/-- Ctrl+Enter, `CSI 13;5u` and `CSI 27;5;13~` in the protocols' own examples: the first is not
read as CTRL alone, the second throws. -/
theorem key_decoders_misread_encodings_ctrl_enter :
    (∃ ev, parseKittySequence "\x1B[13;5u".toList = .ok (some ev) ∧ ev.modifiers ≠ .ctrl) ∧
      parseXTermSequence "\x1B[27;5;13~".toList = .error .invalidArgument := by
  obtain ⟨⟨ev, h, -, -, hne, -⟩, hx, -⟩ :=
    key_decoders_misread_encodings ⟨false, false, true⟩ 13 (by decide)
  exact ⟨⟨ev, h, hne⟩, hx⟩

end AriaShell.Repl
