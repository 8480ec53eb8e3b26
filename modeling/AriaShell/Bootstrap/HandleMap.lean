import AriaShell.Bootstrap.Text

/-! `WindowsHandleMap`: the six stream handles a child starts with, and the `__ARIA_FD_MAP` text
that carries streams 3 to 5 to it. -/
namespace AriaShell.Bootstrap

/-- A `HANDLE`, through the `uintptr_t` the map writes and reads (64-bit Windows). -/
abbrev Handle := UInt64

/-- `INVALID_HANDLE_VALUE`, that is `(HANDLE)(LONG_PTR)-1`. -/
def invalidHandleValue : Handle := -1

structure WindowsHandleMap where
  hStdIn : Handle := invalidHandleValue
  hStdOut : Handle := invalidHandleValue
  hStdErr : Handle := invalidHandleValue
  hStdDbg : Handle := invalidHandleValue
  hStdDatI : Handle := invalidHandleValue
  hStdDatO : Handle := invalidHandleValue
  deriving DecidableEq, Repr

namespace WindowsHandleMap

/-- One block of `serialize`: a present handle appends, after a `;` unless nothing is written
yet, its stream index, `:0x` and its digits. -/
def appendEntry (acc : List Char × Bool) (index : Char) (h : Handle) : List Char × Bool :=
  if h ≠ invalidHandleValue then
    ((if acc.2 then acc.1 else acc.1 ++ [';']) ++ index :: ':' :: '0' :: 'x' :: formatHex h.toNat,
      false)
  else acc

/-- `WindowsHandleMap::serialize`: streams 3, 4 and 5, each only when its handle is not
`INVALID_HANDLE_VALUE`. The source's first block omits the `;` test and its last block does not
clear `first`; with `first` set before the one and unread after the other, all three are
`appendEntry`. -/
def serialize (m : WindowsHandleMap) : List Char :=
  (appendEntry (appendEntry (appendEntry ([], true) '3' m.hStdDbg) '4' m.hStdDatI) '5' m.hStdDatO).1

/-- The `switch` of `parse`: indices 0 to 5 name the six streams, any other is skipped. -/
def setStream (m : WindowsHandleMap) (index : Int) (h : Handle) : WindowsHandleMap :=
  match index with
  | 0 => { m with hStdIn := h }
  | 1 => { m with hStdOut := h }
  | 2 => { m with hStdErr := h }
  | 3 => { m with hStdDbg := h }
  | 4 => { m with hStdDatI := h }
  | 5 => { m with hStdDatO := h }
  | _ => m

/-- One pass of the loop of `parse`: a pair without `:` is skipped; otherwise the text before the
first `:` is the index (`_wtoi`) and the text after it the handle (`wcstoull` in base 16). -/
def parsePair (m : WindowsHandleMap) (pair : List Char) : WindowsHandleMap :=
  match findSubstring [':'] pair with
  | none => m
  | some colonPos =>
    m.setStream (wtoi (pair.take colonPos)) (wcstoull16 (pair.drop (colonPos + 1)))

/-- `WindowsHandleMap::parse` on the map it is called on: `false` for an empty string, otherwise
`true`, with every `;`-separated pair applied in turn. -/
def parse (m : WindowsHandleMap) (mapString : List Char) : Bool × WindowsHandleMap :=
  if mapString = [] then (false, m) else (true, (getlinePieces ';' mapString).foldl parsePair m)

/-! ### What the text says -/

/-- The streams `serialize` writes, in the order it writes them. -/
def presentEntries (m : WindowsHandleMap) : List (Char × Handle) :=
  [('3', m.hStdDbg), ('4', m.hStdDatI), ('5', m.hStdDatO)].filter (·.2 ≠ invalidHandleValue)

/-- One entry of the map text: stream index, `:0x`, uppercase hexadecimal digits. -/
def formatEntry (e : Char × Handle) : List Char := e.1 :: ':' :: '0' :: 'x' :: formatHex e.2.toNat

private theorem serialize_eq (m : WindowsHandleMap) :
    serialize m = [';'].intercalate ((presentEntries m).map formatEntry) := by
  unfold serialize presentEntries appendEntry
  by_cases h₃ : m.hStdDbg = invalidHandleValue <;> by_cases h₄ : m.hStdDatI = invalidHandleValue <;>
    by_cases h₅ : m.hStdDatO = invalidHandleValue <;>
    simp [h₃, h₄, h₅, formatEntry, List.intercalate]

private theorem parse_snd (m : WindowsHandleMap) (s : List Char) :
    (parse m s).2 = (getlinePieces ';' s).foldl parsePair m := by
  unfold parse
  split_ifs with h
  · subst h; rfl
  · rfl

private theorem parsePair_formatEntry (m : WindowsHandleMap) {c : Char} (hc : c ∈ ['3', '4', '5'])
    (h : Handle) : parsePair m (formatEntry (c, h)) = m.setStream (wtoi [c]) h := by
  have hc' : c ≠ ':' := by
    simp only [List.mem_cons, List.mem_singleton, List.not_mem_nil, or_false] at hc
    rcases hc with rfl | rfl | rfl <;> decide
  have hcolon : findSubstring [':'] (formatEntry (c, h)) = some 1 := by
    simp [formatEntry, findSubstring, List.isPrefixOf, Ne.symm hc']
  rw [parsePair, hcolon]
  simp [formatEntry, wcstoull16_formatHex]

private theorem formatEntry_ok {e : Char × Handle} (he : e.1 ∈ ['3', '4', '5']) :
    formatEntry e ≠ [] ∧ ';' ∉ formatEntry e := by
  refine ⟨List.cons_ne_nil _ _, fun hmem => ?_⟩
  simp only [formatEntry, List.mem_cons] at hmem
  rcases hmem with h | h | h | h | h
  · simp only [List.mem_cons, List.mem_singleton, List.not_mem_nil, or_false] at he
    rcases he with h' | h' | h' <;> rw [h'] at h <;> exact absurd h (by decide)
  all_goals first
    | exact absurd h (by decide)
    | exact absurd (formatHex_mem _ _ h) (by decide)

private theorem presentEntries_sublist (m : WindowsHandleMap) :
    List.Sublist ((presentEntries m).map Prod.fst) ['3', '4', '5'] :=
  (List.filter_sublist _).map Prod.fst

private theorem presentEntries_index (m : WindowsHandleMap) : ∀ e ∈ presentEntries m, e.1 ∈ ['3', '4', '5'] :=
  fun _ he => (presentEntries_sublist m).subset (List.mem_map_of_mem Prod.fst he)

private theorem foldl_parsePair_formatEntry {es : List (Char × Handle)}
    (hes : ∀ e ∈ es, e.1 ∈ ['3', '4', '5']) (m : WindowsHandleMap) :
    (es.map formatEntry).foldl parsePair m = es.foldl (fun acc e => acc.setStream (wtoi [e.1]) e.2) m := by
  induction es generalizing m with
  | nil => rfl
  | cons e es ih =>
    rw [List.map_cons, List.foldl_cons, List.foldl_cons,
      parsePair_formatEntry m (hes e (List.mem_cons_self _ _)),
      ih (fun e' he' => hes e' (List.mem_cons_of_mem _ he'))]

/-- The characters the map text is made of. -/
def mapAlphabet : List Char := upperHexAlphabet ++ [':', 'x', ';']

private theorem appendEntry_mem {acc : List Char × Bool} (hacc : ∀ c ∈ acc.1, c ∈ mapAlphabet)
    {index : Char} (hi : index ∈ mapAlphabet) (h : Handle) :
    ∀ c ∈ (appendEntry acc index h).1, c ∈ mapAlphabet := by
  unfold appendEntry
  by_cases hh : h ≠ invalidHandleValue
  · rw [if_pos hh]
    have hpre : ∀ c ∈ (if acc.2 then acc.1 else acc.1 ++ [';']), c ∈ mapAlphabet := by
      split_ifs
      · exact hacc
      · intro c hc
        rcases List.mem_append.mp hc with hc | hc
        · exact hacc c hc
        · exact List.mem_singleton.mp hc ▸ by decide
    intro c hc
    rcases List.mem_append.mp hc with hc | hc
    · exact hpre c hc
    simp only [List.mem_cons] at hc
    rcases hc with rfl | rfl | rfl | rfl | hc
    · exact hi
    all_goals first | decide | exact List.mem_append_left _ (formatHex_mem _ c hc)
  · rw [if_neg hh]
    exact hacc

theorem serialize_mem (m : WindowsHandleMap) : ∀ c ∈ serialize m, c ∈ mapAlphabet :=
  have hnil : ∀ c ∈ ([] : List Char), c ∈ mapAlphabet := fun _ h => (List.not_mem_nil _ h).elim
  appendEntry_mem (appendEntry_mem (appendEntry_mem hnil (by decide) _) (by decide) _) (by decide) _

private theorem parse_serialize (m : WindowsHandleMap) :
    (parse {} (serialize m)).2 =
      { hStdDbg := m.hStdDbg, hStdDatI := m.hStdDatI, hStdDatO := m.hStdDatO } := by
  have hidx := presentEntries_index m
  have hok : ∀ p ∈ (presentEntries m).map formatEntry, p ≠ [] ∧ ';' ∉ p := by
    intro p hp
    obtain ⟨e, he, rfl⟩ := List.mem_map.mp hp
    exact formatEntry_ok (hidx e he)
  rw [parse_snd, serialize_eq, getlinePieces_intercalate hok, foldl_parsePair_formatEntry hidx]
  unfold presentEntries
  by_cases h₃ : m.hStdDbg = invalidHandleValue <;> by_cases h₄ : m.hStdDatI = invalidHandleValue <;>
    by_cases h₅ : m.hStdDatO = invalidHandleValue <;> simp [h₃, h₄, h₅] <;> rfl

/-- Decoding undoes encoding: the text `serialize` writes lists the present streams among 3, 4, 5
in increasing order, as `index:0xHEX` joined by `;`, and `parse` on a default-constructed map
gives back streams 3 to 5 of the map and leaves streams 0 to 2 `INVALID_HANDLE_VALUE`. -/
theorem serialize_parse_round_trip (m : WindowsHandleMap) :
    List.Sublist ((presentEntries m).map Prod.fst) ['3', '4', '5'] ∧
    serialize m = [';'].intercalate ((presentEntries m).map formatEntry) ∧
    (parse {} (serialize m)).2 =
      { hStdDbg := m.hStdDbg, hStdDatI := m.hStdDatI, hStdDatO := m.hStdDatO } :=
  ⟨presentEntries_sublist m, serialize_eq m, parse_serialize m⟩

/-! ### Pairs `parse` does not check -/

private theorem parsePair_split (m : WindowsHandleMap) {idx : List Char} (hidx : ':' ∉ idx) (hd : List Char) :
    parsePair m (idx ++ ':' :: hd) = m.setStream (wtoi idx) (wcstoull16 hd) := by
  rw [parsePair, findSubstring_singleton_append hidx]
  simp

private theorem parse_single (m : WindowsHandleMap) {p : List Char} (hp : p ≠ []) (hsemi : ';' ∉ p) :
    (parse m p).2 = parsePair m p := by
  rw [parse_snd, getlinePieces_single hp hsemi]
  rfl

/-- `parse` does not skip a malformed pair: an index without a decimal digit reads as stream 0 and
a handle without a hexadecimal digit as handle 0, so a pair such as `x:zz` (or `:`) sets `hStdIn`
to 0 on any map. -/
theorem parse_applies_malformed_pairs (m : WindowsHandleMap) {idx hd : List Char}
    (hidx : ':' ∉ idx ∧ ∀ c ∈ idx, c.isDigit = false) (hhd : ∀ c ∈ hd, isHexDigit c = false)
    (hsemi : ';' ∉ idx ++ ':' :: hd) :
    (parse m (idx ++ ':' :: hd)).2 = { m with hStdIn := 0 } := by
  rw [parse_single m (by simp) hsemi, parsePair_split m hidx.1, wtoi_of_no_digit hidx.2,
    wcstoull16_of_no_hexDigit hhd]
  rfl

/-- The pair `x:zz` on a default-constructed map replaces the invalid `hStdIn` by 0. -/
theorem parse_applies_malformed_pairs_x_zz :
    (parse {} (['x'] ++ ':' :: ['z', 'z'])).2 = { hStdIn := 0 } ∧
      ({} : WindowsHandleMap).hStdIn ≠ 0 :=
  ⟨parse_applies_malformed_pairs {} ⟨by decide, by decide⟩ (by decide) (by decide), by decide⟩

end WindowsHandleMap

end AriaShell.Bootstrap
