import Mathlib.Data.UInt
import Mathlib.Data.List.GetD

/-! The C and C++ library text routines the Windows bootstrap calls, as the standards describe
them in the "C" locale: hexadecimal output through a stream in `std::hex` and `std::uppercase`
mode, `wcstoull` in base 16, `_wtoi`, `std::getline` with a delimiter and `std::wstring::find`.
A wide string is the list of its characters. -/
namespace AriaShell.Bootstrap

/-- `iswspace` in the "C" locale. -/
def isSpace (c : Char) : Bool :=
  c == ' ' || c == '\t' || c == '\n' || c == '\x0b' || c == '\x0c' || c == '\r'

/-- The value of a hexadecimal digit of either case. -/
def hexDigitValue (c : Char) : Option Nat :=
  if '0' ≤ c ∧ c ≤ '9' then some (c.toNat - '0'.toNat)
  else if 'a' ≤ c ∧ c ≤ 'f' then some (c.toNat - 'a'.toNat + 10)
  else if 'A' ≤ c ∧ c ≤ 'F' then some (c.toNat - 'A'.toNat + 10)
  else none

def isHexDigit (c : Char) : Bool := (hexDigitValue c).isSome

/-- The value of a run of hexadecimal digits, most significant first. -/
def hexValue (ds : List Char) : Nat :=
  ds.foldl (fun acc c => 16 * acc + (hexDigitValue c).getD 0) 0

/-- The value of a run of decimal digits, most significant first. -/
def decValue (ds : List Char) : Nat :=
  ds.foldl (fun acc c => 10 * acc + (c.toNat - '0'.toNat)) 0

def upperHexAlphabet : List Char := "0123456789ABCDEF".toList

/-- The digit `std::uppercase` writes for a value below 16. -/
def upperHexDigit (d : Nat) : Char := upperHexAlphabet.getD d '0'

/-- The hexadecimal digits of `n`, most significant first, with at most `fuel` of them. -/
def hexDigits : Nat → Nat → List Char
  | 0, _ => []
  | fuel + 1, n =>
    if n < 16 then [upperHexDigit n] else hexDigits fuel (n / 16) ++ [upperHexDigit (n % 16)]

/-- What `os << std::hex << std::uppercase << n` writes: the digits of `n` without leading zeros,
and `0` for zero (`n + 1` digits are always enough). -/
def formatHex (n : Nat) : List Char := hexDigits (n + 1) n

/-- The optional sign `wcstoull` and `_wtoi` accept: whether it is a minus, and what follows. -/
def splitSign : List Char → Bool × List Char
  | '-' :: t => (true, t)
  | '+' :: t => (false, t)
  | t => (false, t)

/-- The optional `0x` or `0X` that `wcstoull` accepts in base 16. -/
def dropHexPrefix : List Char → List Char
  | '0' :: 'x' :: t => t
  | '0' :: 'X' :: t => t
  | t => t

/-- `wcstoull(s, &end, 16)`: leading white space, an optional sign, an optional `0x`, then the
longest run of hexadecimal digits. No digits converts to 0 (also after a bare `0x`, whose `0` is
then the number), a value past `ULLONG_MAX` gives `ULLONG_MAX`, and a minus sign negates the
result in the unsigned type. -/
def wcstoull16 (s : List Char) : UInt64 :=
  let (neg, t) := splitSign (s.dropWhile isSpace)
  let v := hexValue ((dropHexPrefix t).takeWhile isHexDigit)
  if v < UInt64.size then (if neg then -UInt64.ofNat v else UInt64.ofNat v)
  else UInt64.ofNat (UInt64.size - 1)

/-- `_wtoi`: leading white space, an optional sign, then the longest run of decimal digits, as an
`int`; out of range it gives `INT_MAX` or `INT_MIN`. -/
def wtoi (s : List Char) : Int :=
  let (neg, t) := splitSign (s.dropWhile isSpace)
  let v : Int := decValue (t.takeWhile Char.isDigit)
  max (-2 ^ 31) (min (if neg then -v else v) (2 ^ 31 - 1))

/-- The pieces successive `std::getline(stream, piece, d)` calls return: the text between
delimiters, where a delimiter at the very end opens no further piece. -/
def getlinePieces (d : Char) (s : List Char) : List (List Char) :=
  let ps := s.splitOn d
  if ps.getLastD [] = [] then ps.dropLast else ps

/-- `std::wstring::find(pat)`: the first position at which `pat` occurs. -/
def findSubstring (pat : List Char) : List Char → Option Nat
  | [] => if pat.isPrefixOf [] then some 0 else none
  | c :: t => if pat.isPrefixOf (c :: t) then some 0 else (findSubstring pat t).map (· + 1)

/-! ### Hexadecimal output reads back -/

private theorem hexDigitValue_upperHexDigit : ∀ d < 16, hexDigitValue (upperHexDigit d) = some d := by
  decide

private theorem upperHexDigit_mem (d : Nat) (h : d < 16) : upperHexDigit d ∈ upperHexAlphabet := by
  unfold upperHexDigit
  rw [List.getD_eq_getElem _ _ (by simpa [upperHexAlphabet] using h)]
  exact List.getElem_mem _

private theorem hexDigits_mem (fuel n : Nat) : ∀ c ∈ hexDigits fuel n, c ∈ upperHexAlphabet := by
  induction fuel generalizing n with
  | zero => simp [hexDigits]
  | succ fuel ih =>
    rw [hexDigits]
    split_ifs with h
    · simpa using upperHexDigit_mem n h
    · intro c hc
      rcases List.mem_append.mp hc with hc | hc
      · exact ih (n / 16) c hc
      · exact List.mem_singleton.mp hc ▸ upperHexDigit_mem _ (Nat.mod_lt _ (by decide))

theorem formatHex_mem (n : Nat) : ∀ c ∈ formatHex n, c ∈ upperHexAlphabet := hexDigits_mem _ n

private theorem isHexDigit_of_mem {c : Char} (h : c ∈ upperHexAlphabet) : isHexDigit c = true := by
  simp only [upperHexAlphabet] at h
  revert c
  decide

private theorem hexValue_hexDigits {fuel n : Nat} (h : n < fuel) : hexValue (hexDigits fuel n) = n := by
  induction fuel generalizing n with
  | zero => omega
  | succ fuel ih =>
    rw [hexDigits]
    split_ifs with h16
    · simp [hexValue, hexDigitValue_upperHexDigit n h16]
    · have hq := ih (n := n / 16) (by omega)
      simp only [hexValue, List.foldl_append, List.foldl_cons, List.foldl_nil] at hq ⊢
      rw [hq, hexDigitValue_upperHexDigit _ (Nat.mod_lt _ (by decide)), Option.getD_some]
      omega

private theorem hexValue_formatHex (n : Nat) : hexValue (formatHex n) = n := hexValue_hexDigits n.lt_succ_self

/-- `wcstoull` in base 16 reads `0x` followed by what the stream wrote for `h` back as `h`. -/
theorem wcstoull16_formatHex (h : UInt64) :
    wcstoull16 ('0' :: 'x' :: formatHex h.toNat) = h := by
  have hs : List.dropWhile isSpace ('0' :: 'x' :: formatHex h.toNat) = '0' :: 'x' :: formatHex h.toNat :=
    List.dropWhile_cons_of_neg (by decide)
  have hall : (formatHex h.toNat).takeWhile isHexDigit = formatHex h.toNat :=
    List.takeWhile_eq_self_iff.mpr fun c hc => isHexDigit_of_mem (formatHex_mem _ c hc)
  have hsign : splitSign ('0' :: 'x' :: formatHex h.toNat) = (false, '0' :: 'x' :: formatHex h.toNat) := rfl
  rw [wcstoull16, hs, hsign]
  simp only [dropHexPrefix, hall, hexValue_formatHex, h.toNat_lt_size, if_true, Bool.false_eq_true,
    if_false]
  exact UInt64.toNat.inj (UInt64.toNat_ofNat_of_lt h.toNat_lt_size)

/-! ### What the readers make of a text without digits -/

private theorem splitSign_suffix (s : List Char) : (splitSign s).2 <:+ s := by
  unfold splitSign
  split
  all_goals first | exact List.suffix_cons _ _ | exact List.suffix_refl _

private theorem dropHexPrefix_suffix (s : List Char) : dropHexPrefix s <:+ s := by
  unfold dropHexPrefix
  split
  all_goals first
    | exact (List.suffix_cons _ _).trans (List.suffix_cons _ _)
    | exact List.suffix_refl _

private theorem takeWhile_eq_nil_of_forall {p : Char → Bool} {l : List Char} (h : ∀ c ∈ l, p c = false) :
    l.takeWhile p = [] := by
  cases l with
  | nil => rfl
  | cons c l => exact List.takeWhile_cons_of_neg (by simp [h c (List.mem_cons_self _ _)])

/-- `_wtoi` reads a text without decimal digits as `0`. -/
theorem wtoi_of_no_digit {s : List Char} (h : ∀ c ∈ s, c.isDigit = false) : wtoi s = 0 := by
  have hsuf := (splitSign_suffix (s.dropWhile isSpace)).trans (List.dropWhile_suffix _)
  unfold wtoi
  generalize splitSign (s.dropWhile isSpace) = p at hsuf
  obtain ⟨neg, t⟩ := p
  dsimp only at hsuf ⊢
  rw [takeWhile_eq_nil_of_forall fun c hc => h c (hsuf.subset hc)]
  cases neg <;> rfl

/-- `wcstoull` reads a text without hexadecimal digits as `0`. -/
theorem wcstoull16_of_no_hexDigit {s : List Char} (h : ∀ c ∈ s, isHexDigit c = false) :
    wcstoull16 s = 0 := by
  have hsuf := ((dropHexPrefix_suffix _).trans (splitSign_suffix (s.dropWhile isSpace))).trans
    (List.dropWhile_suffix _)
  unfold wcstoull16
  generalize splitSign (s.dropWhile isSpace) = p at hsuf
  obtain ⟨neg, t⟩ := p
  dsimp only at hsuf ⊢
  rw [takeWhile_eq_nil_of_forall fun c hc => h c (hsuf.subset hc)]
  cases neg <;> rfl

/-! ### `getline` undoes joining with the delimiter -/

section Getline
variable {d : Char}

/-- Successive `getline` calls on pieces joined by the delimiter return the pieces, when none is
empty or holds the delimiter. -/
theorem getlinePieces_intercalate {ps : List (List Char)} (hps : ∀ p ∈ ps, p ≠ [] ∧ d ∉ p) :
    getlinePieces d ([d].intercalate ps) = ps := by
  rcases List.eq_nil_or_concat ps with rfl | ⟨qs, p, rfl⟩
  · rfl
  · have hp := hps p (by simp)
    rw [getlinePieces, List.splitOn_intercalate _ d (fun l hl => (hps l hl).2) (by simp)]
    simp [hp.1]

/-- A text without the delimiter is one piece. -/
theorem getlinePieces_single {p : List Char} (hp : p ≠ []) (hd : d ∉ p) : getlinePieces d p = [p] := by
  have h := @getlinePieces_intercalate d [p] (by simpa using ⟨hp, hd⟩)
  simpa [List.intercalate] using h

end Getline

/-! ### `find` on a text with a separator it cannot match across -/

theorem findSubstring_eq_some_zero {pat s : List Char} (h : pat.isPrefixOf s = true) :
    findSubstring pat s = some 0 := by
  cases s <;> simp [findSubstring, h]

private theorem isPrefixOf_append_of_not_mem {pat L R : List Char} {c : Char} (hc : c ∉ pat) :
    pat.isPrefixOf (L ++ c :: R) = pat.isPrefixOf L := by
  induction L generalizing pat with
  | nil =>
    cases pat with
    | nil => rfl
    | cons y pat =>
      have hy : (y == c) = false := beq_false_of_ne fun h => hc (h ▸ List.mem_cons_self _ _)
      simp [List.isPrefixOf, hy]
  | cons x L ih =>
    cases pat with
    | nil => rfl
    | cons y pat => simp [List.isPrefixOf, ih (fun h => hc (List.mem_cons_of_mem _ h))]

/-- A pattern without the separator `c` is found in `L ++ c :: R` at its first occurrence in `L`,
and only where `L` has none, in `R`. -/
theorem findSubstring_append {pat L R : List Char} {c : Char} (hne : pat ≠ []) (hc : c ∉ pat) :
    findSubstring pat (L ++ c :: R) =
      (findSubstring pat L).or ((findSubstring pat R).map (· + (L.length + 1))) := by
  induction L with
  | nil =>
    obtain ⟨y, pat, rfl⟩ := List.exists_cons_of_ne_nil hne
    have hy : (y == c) = false := beq_false_of_ne fun h => hc (h ▸ List.mem_cons_self _ _)
    simp [findSubstring, List.isPrefixOf, hy, Function.comp_def]
  | cons x L ih =>
    have hpre := isPrefixOf_append_of_not_mem (L := x :: L) (R := R) hc
    rw [List.cons_append] at hpre
    rw [List.cons_append, findSubstring, findSubstring, hpre]
    split_ifs
    · rfl
    · rw [ih]
      cases findSubstring pat L <;> simp [Function.comp_def, Nat.add_assoc, Nat.add_comm 1]

/-- A character is found at its first occurrence. -/
theorem findSubstring_singleton_append {c : Char} {A : List Char} (hA : c ∉ A) (R : List Char) :
    findSubstring [c] (A ++ c :: R) = some A.length := by
  induction A with
  | nil => simp [findSubstring, List.isPrefixOf]
  | cons x A ih =>
    have hx : (c == x) = false := beq_false_of_ne fun h => hA (h ▸ List.mem_cons_self _ _)
    simp [findSubstring, List.isPrefixOf, hx, ih fun h => hA (List.mem_cons_of_mem _ h)]

/-- An occurrence `find` reports lies inside the text. -/
theorem findSubstring_bound {pat s : List Char} {i : Nat} (h : findSubstring pat s = some i) :
    i + pat.length ≤ s.length := by
  induction s generalizing i with
  | nil =>
    cases pat <;> simp [findSubstring, List.isPrefixOf] at h ⊢
    omega
  | cons c t ih =>
    rw [findSubstring] at h
    split_ifs at h with hp
    · cases h
      simpa using (List.isPrefixOf_iff_prefix.mp hp).length_le
    · obtain ⟨j, hj, rfl⟩ := Option.map_eq_some'.mp h
      simpa [Nat.add_right_comm] using ih hj

/-- Taking up to the first `c`, or to the end, is taking while the characters differ from `c`. -/
theorem take_findSubstring_singleton (s : List Char) (c : Char) :
    s.take ((findSubstring [c] s).getD s.length) = s.takeWhile (· ≠ c) := by
  induction s with
  | nil => rfl
  | cons x s ih =>
    by_cases hx : x = c
    · subst hx
      simp [findSubstring, List.isPrefixOf]
    · have hxc : [c].isPrefixOf (x :: s) = false := by simp [List.isPrefixOf, Ne.symm hx]
      rw [findSubstring, hxc, if_neg Bool.false_ne_true, List.takeWhile_cons_of_pos (by simpa using hx),
        ← ih]
      cases findSubstring [c] s <;> simp

/-- Taking while the characters differ from `c` stops at a `c` that follows. -/
theorem takeWhile_append_cons_of_eq (A R : List Char) (c : Char) :
    (A ++ c :: R).takeWhile (· ≠ c) = A.takeWhile (· ≠ c) := by
  induction A with
  | nil => simp
  | cons x A ih =>
    by_cases hx : x = c
    · simp [hx]
    · have hp : decide (x ≠ c) = true := decide_eq_true hx
      rw [List.cons_append, List.takeWhile_cons, List.takeWhile_cons, if_pos hp, if_pos hp, ih]

end AriaShell.Bootstrap
