import Mathlib.Data.List.Basic

/-! `RingBuffer` of `stream_controller.cpp`: the two-part copies of `write`, `read` and `peek`,
the modulo index updates, and the bounded FIFO byte queue of capacity `C - 1` they implement. -/
namespace AriaShell.Stream

/-- `RingBuffer`: the `std::vector<uint8_t>` storage, the two atomic indices and `capacity`.
Indices are `Nat`; no `size_t` expression of the class wraps once `capacity ≥ 1`. -/
structure RingBuffer where
  buffer : Nat → UInt8
  readPos : Nat
  writePos : Nat
  capacity : Nat

/-- `memcpy(buffer + dst, src, src.size())` on the storage. -/
def copyIn (buf : Nat → UInt8) (dst : Nat) (src : List UInt8) (j : Nat) : UInt8 :=
  if dst ≤ j ∧ j < dst + src.length then src.getD (j - dst) 0 else buf j

/-- `memcpy(out, buffer + src, n)`: the `n` stored bytes from `src` on. -/
def copyOut (buf : Nat → UInt8) (src n : Nat) : List UInt8 :=
  (List.range n).map fun k => buf (src + k)

/-- The expression of `available()` on the loaded indices `w` and `r`. -/
def availableFrom (capacity w r : Nat) : Nat :=
  if w ≥ r then w - r else capacity - r + w

/-- First `memcpy` of `write`: `firstPart` bytes of `data` at `wpos`. -/
def writeFirstPart (buf : Nat → UInt8) (wpos firstPart : Nat) (data : List UInt8) : Nat → UInt8 :=
  copyIn buf wpos (data.take firstPart)

/-- Second `memcpy` of `write`, taken when the copy wraps: the rest of `data` at slot 0. -/
def writeSecondPart (buf : Nat → UInt8) (firstPart toWrite : Nat) (data : List UInt8) :
    Nat → UInt8 :=
  if toWrite > firstPart then copyIn buf 0 ((data.drop firstPart).take (toWrite - firstPart))
  else buf

/-- First `memcpy` of `read` and `peek`. -/
def readFirstPart (buf : Nat → UInt8) (rpos firstPart : Nat) : List UInt8 :=
  copyOut buf rpos firstPart

/-- Second `memcpy` of `read` and `peek`, taken when the copy wraps. -/
def readSecondPart (buf : Nat → UInt8) (firstPart toRead : Nat) : List UInt8 :=
  if toRead > firstPart then copyOut buf 0 (toRead - firstPart) else []

/-- The bytes of `t` consecutive slots walking from `pos`, wrapping at `cap`. -/
def slots (buf : Nat → UInt8) (cap pos t : Nat) : List UInt8 :=
  (List.range t).map fun k => buf ((pos + k) % cap)

namespace RingBuffer

/-- `RingBuffer(cap)`: zeroed storage, both indices at 0. -/
def init (cap : Nat) : RingBuffer := ⟨fun _ => 0, 0, 0, cap⟩

def available (rb : RingBuffer) : Nat := availableFrom rb.capacity rb.writePos rb.readPos

/-- `capacity - available() - 1`: one slot tells full from empty. -/
def freeSpace (rb : RingBuffer) : Nat := rb.capacity - rb.available - 1

def empty (rb : RingBuffer) : Bool := decide (rb.available = 0)

def full (rb : RingBuffer) : Bool := decide (rb.freeSpace = 0)

def clear (rb : RingBuffer) : RingBuffer := { rb with readPos := 0, writePos := 0 }

/-- `write(data, size)`: the new ring and the count `toWrite` it returns. -/
def write (rb : RingBuffer) (data : List UInt8) : RingBuffer × Nat :=
  let toWrite := min data.length rb.freeSpace
  if toWrite = 0 then (rb, 0) else
  let wpos := rb.writePos
  let firstPart := min toWrite (rb.capacity - wpos)
  let buf := writeSecondPart (writeFirstPart rb.buffer wpos firstPart data) firstPart toWrite data
  ({ rb with buffer := buf, writePos := (wpos + toWrite) % rb.capacity }, toWrite)

/-- `read(data, maxSize)`: the new ring and the bytes copied out. -/
def read (rb : RingBuffer) (maxSize : Nat) : RingBuffer × List UInt8 :=
  let toRead := min maxSize rb.available
  if toRead = 0 then (rb, []) else
  let rpos := rb.readPos
  let firstPart := min toRead (rb.capacity - rpos)
  ({ rb with readPos := (rpos + toRead) % rb.capacity },
    readFirstPart rb.buffer rpos firstPart ++ readSecondPart rb.buffer firstPart toRead)

/-- `peek(data, maxSize)`, a `const` method. -/
def peek (rb : RingBuffer) (maxSize : Nat) : List UInt8 :=
  let toPeek := min maxSize rb.available
  if toPeek = 0 then [] else
  let rpos := rb.readPos
  let firstPart := min toPeek (rb.capacity - rpos)
  readFirstPart rb.buffer rpos firstPart ++ readSecondPart rb.buffer firstPart toPeek

/-- The queued bytes, oldest first. -/
def contents (rb : RingBuffer) : List UInt8 := slots rb.buffer rb.capacity rb.readPos rb.available

/-- The ring invariant: positive capacity, both indices inside the storage. -/
structure Valid (rb : RingBuffer) : Prop where
  capacity_pos : 0 < rb.capacity
  readPos_lt : rb.readPos < rb.capacity
  writePos_lt : rb.writePos < rb.capacity

end RingBuffer

/-! Index arithmetic. -/

private theorem mod_eq_sub_of_le {x c : Nat} (h1 : c ≤ x) (h2 : x < 2 * c) : x % c = x - c := by
  rw [Nat.mod_eq_sub_mod h1, Nat.mod_eq_of_lt (by omega)]

private theorem availableFrom_lt {cap w r : Nat} (hr : r < cap) (hw : w < cap) :
    availableFrom cap w r < cap := by
  unfold availableFrom; split <;> omega

private theorem add_availableFrom_mod {cap w r : Nat} (hr : r < cap) (hw : w < cap) :
    (r + availableFrom cap w r) % cap = w := by
  unfold availableFrom
  split
  · rw [Nat.add_sub_cancel' ‹_›, Nat.mod_eq_of_lt hw]
  · rw [mod_eq_sub_of_le (by omega) (by omega)]; omega

/-- `available()` is the unique offset `a < cap` with `(r + a) % cap = w`. -/
theorem availableFrom_of_mod {cap w r a : Nat} (hr : r < cap) (hw : w < cap) (ha : a < cap)
    (h : (r + a) % cap = w) : availableFrom cap w r = a := by
  unfold availableFrom
  by_cases hc : r + a < cap
  · rw [Nat.mod_eq_of_lt hc] at h; split <;> omega
  · rw [mod_eq_sub_of_le (by omega) (by omega)] at h; split <;> omega

private theorem getD_take_of_lt {data : List UInt8} {f j : Nat} (h : j < f) :
    (data.take f).getD j 0 = data.getD j 0 := by
  simp [List.getD_eq_getElem?_getD, List.getElem?_take, h]

private theorem getD_drop {data : List UInt8} {f j : Nat} :
    (data.drop f).getD j 0 = data.getD (f + j) 0 := by
  simp [List.getD_eq_getElem?_getD, List.getElem?_drop]

/-- The first copy of `write` stores `data[j]` at the `j`-th slot after `wpos` for `j` below
`firstPart` and leaves every other slot alone. -/
theorem firstPart_slot {buf : Nat → UInt8} {wpos cap t j : Nat} {data : List UInt8}
    (hw : wpos < cap) (hd : t ≤ data.length) (hj : j < cap) :
    writeFirstPart buf wpos (min t (cap - wpos)) data ((wpos + j) % cap) =
      if j < min t (cap - wpos) then data.getD j 0 else buf ((wpos + j) % cap) := by
  unfold writeFirstPart copyIn
  by_cases hc : wpos + j < cap
  · rw [Nat.mod_eq_of_lt hc]
    simp only [List.length_take]
    split_ifs <;> first | omega | rfl | rw [Nat.add_sub_cancel_left, getD_take_of_lt (by omega)]
  · rw [mod_eq_sub_of_le (by omega) (by omega)]
    simp only [List.length_take]
    split_ifs <;> first | omega | rfl

/-- The second copy of `write` stores `data[j]` at the `j`-th slot after `wpos` for `j` from
`firstPart` below `t` and leaves every other slot alone. -/
theorem secondPart_slot {buf : Nat → UInt8} {wpos cap t j : Nat} {data : List UInt8}
    (hw : wpos < cap) (ht : t ≤ cap) (hd : t ≤ data.length) (hj : j < cap) :
    writeSecondPart buf (min t (cap - wpos)) t data ((wpos + j) % cap) =
      if min t (cap - wpos) ≤ j ∧ j < t then data.getD j 0 else buf ((wpos + j) % cap) := by
  unfold writeSecondPart
  by_cases h1 : t > min t (cap - wpos)
  · rw [if_pos h1]
    unfold copyIn
    simp only [List.length_take, List.length_drop]
    by_cases hc : wpos + j < cap
    · rw [Nat.mod_eq_of_lt hc, if_neg (by omega), if_neg (by omega)]
    · rw [mod_eq_sub_of_le (by omega) (by omega)]
      split_ifs <;> first | omega | rfl |
        (rw [Nat.sub_zero, getD_take_of_lt (by omega), getD_drop]; congr 1; omega)
  · rw [if_neg h1, if_neg (by omega)]

private theorem write_slot {buf : Nat → UInt8} {wpos cap t j : Nat} {data : List UInt8}
    (hw : wpos < cap) (ht : t ≤ cap) (hd : t ≤ data.length) (hj : j < cap) :
    writeSecondPart (writeFirstPart buf wpos (min t (cap - wpos)) data) (min t (cap - wpos)) t data
      ((wpos + j) % cap) = if j < t then data.getD j 0 else buf ((wpos + j) % cap) := by
  rw [secondPart_slot hw ht hd hj, firstPart_slot hw hd hj]
  split_ifs <;> first | rfl | omega

theorem slots_take {buf : Nat → UInt8} {cap pos n t : Nat} (h : t ≤ n) :
    (slots buf cap pos n).take t = slots buf cap pos t := by
  rw [slots, ← List.map_take, List.take_range, min_eq_left h, slots]

theorem slots_drop {buf : Nat → UInt8} {cap pos n t : Nat} :
    (slots buf cap pos n).drop t = slots buf cap ((pos + t) % cap) (n - t) := by
  apply List.ext_getElem (by simp [slots])
  intro k _ _
  simp only [slots, List.getElem_drop, List.getElem_map, List.getElem_range, Nat.mod_add_mod,
    Nat.add_assoc]

private theorem take_eq_slots {data : List UInt8} {t : Nat} (h : t ≤ data.length) :
    data.take t = (List.range t).map fun k => data.getD k 0 := by
  apply List.ext_getElem (by simp; omega)
  intro k h1 _
  simp only [List.length_take] at h1
  simp [List.getD_eq_getElem?_getD, List.getElem?_eq_getElem (show k < data.length by omega)]

theorem slots_append {buf : Nat → UInt8} {cap r n t : Nat} :
    slots buf cap r (n + t) = slots buf cap r n ++ slots buf cap ((r + n) % cap) t := by
  rw [slots, List.range_add, List.map_append, List.map_map]
  congr 1
  refine List.map_congr_left fun k _ => ?_
  simp only [Function.comp, Nat.mod_add_mod, Nat.add_assoc]

theorem slots_congr {buf buf' : Nat → UInt8} {cap r n m : Nat} (hm : m ≤ n)
    (h : ∀ k < n, buf' ((r + k) % cap) = buf ((r + k) % cap)) :
    slots buf' cap r m = slots buf cap r m :=
  List.map_congr_left fun k hk => h k (by simp at hk; omega)

theorem slots_eq_take {buf : Nat → UInt8} {cap w t : Nat} {data : List UInt8} (hd : t ≤ data.length)
    (h : ∀ j < t, buf ((w + j) % cap) = data.getD j 0) : slots buf cap w t = data.take t := by
  rw [take_eq_slots hd]
  exact List.map_congr_left fun j hj => h j (List.mem_range.mp hj)

theorem copyOut_eq_slots {buf : Nat → UInt8} {c r n : Nat} (hn : r + n ≤ c) :
    copyOut buf r n = slots buf c r n :=
  List.map_congr_left fun k hk => by rw [Nat.mod_eq_of_lt (by simp at hk; omega)]

/-- The `k`-th queued slot sits `cap - n + k` slots after `w = (r + n) % cap`: past any write of
fewer than `cap - n` bytes at `w`. -/
theorem queued_slot {cap r n w : Nat} (k : Nat) (hn : (r + n) % cap = w) (hnc : n ≤ cap) :
    (r + k) % cap = (w + (cap - n + k)) % cap := by
  rw [← hn, Nat.mod_add_mod, show r + n + (cap - n + k) = r + k + cap by omega, Nat.add_mod_right]

private theorem slots_write {buf : Nat → UInt8} {cap r n w t : Nat} {data : List UInt8} (hr : r < cap)
    (hn : (r + n) % cap = w) (hnt : n + t < cap) (hd : t ≤ data.length) :
    slots (writeSecondPart (writeFirstPart buf w (min t (cap - w)) data) (min t (cap - w)) t data)
      cap r (n + t) = slots buf cap r n ++ data.take t := by
  have hw : w < cap := hn ▸ Nat.mod_lt _ (by omega)
  rw [slots_append, hn, slots_eq_take hd fun j hj => by
    rw [write_slot hw (by omega) hd (by omega), if_pos hj]]
  congr 1
  exact slots_congr le_rfl fun k hk => by
    rw [queued_slot k hn (by omega), write_slot hw (by omega) hd (by omega), if_neg (by omega)]

/-- The two copies of `read` return the `t` slots from `rpos`. -/
theorem read_parts {buf : Nat → UInt8} {rpos cap t : Nat} (hr : rpos < cap) (ht : t ≤ cap) :
    readFirstPart buf rpos (min t (cap - rpos)) ++ readSecondPart buf (min t (cap - rpos)) t =
      slots buf cap rpos t := by
  by_cases hw : t ≤ cap - rpos
  · simp [readFirstPart, readSecondPart, min_eq_left hw,
      copyOut_eq_slots (c := cap) (r := rpos) (n := t) (by omega)]
  · obtain ⟨e, rfl⟩ : ∃ e, t = cap - rpos + e := ⟨t - (cap - rpos), by omega⟩
    rw [min_eq_right (by omega), readFirstPart, readSecondPart, if_pos (by omega),
      copyOut_eq_slots (c := cap) (by omega), slots, slots, List.range_add, List.map_append, List.map_map]
    rw [copyOut, Nat.add_sub_cancel_left]
    congr 1
    refine List.map_congr_left fun k hk => ?_
    simp only [Function.comp, List.mem_range] at hk ⊢
    rw [show rpos + (cap - rpos + k) = k + cap by omega, Nat.add_mod_right,
      Nat.mod_eq_of_lt (by omega), Nat.zero_add]

namespace RingBuffer
variable {rb : RingBuffer}

@[simp] private theorem available_mk (b : Nat → UInt8) (r w c : Nat) :
    (RingBuffer.mk b r w c).available = availableFrom c w r := rfl

@[simp] theorem length_contents (rb : RingBuffer) : rb.contents.length = rb.available := by
  simp [contents, slots]

@[simp] theorem contents_init (C : Nat) : (init C).contents = [] := by
  simp [init, contents, available, availableFrom, slots]

theorem valid_init {C : Nat} (hC : 1 ≤ C) : (init C).Valid := ⟨hC, hC, hC⟩

theorem Valid.available_lt (hv : rb.Valid) : rb.available < rb.capacity :=
  availableFrom_lt hv.readPos_lt hv.writePos_lt

theorem Valid.read_add_available (hv : rb.Valid) :
    (rb.readPos + rb.available) % rb.capacity = rb.writePos :=
  add_availableFrom_mod hv.readPos_lt hv.writePos_lt

private theorem drop_min_length (l : List UInt8) (m : Nat) : l.drop (min m l.length) = l.drop m := by
  rcases le_total m l.length with h | h
  · rw [min_eq_left h]
  · rw [min_eq_right h, List.drop_of_length_le h, List.drop_of_length_le (by omega)]

/-- `write` accepts `min (size, C - 1 - |q|)` bytes and appends exactly those. -/
theorem Valid.write_spec (hv : rb.Valid) (data : List UInt8) :
    (rb.write data).2 = min data.length (rb.capacity - 1 - rb.contents.length) ∧
    (rb.write data).1.Valid ∧ (rb.write data).1.capacity = rb.capacity ∧
    (rb.write data).1.contents = rb.contents ++ data.take (rb.write data).2 := by
  have hn := hv.available_lt
  simp only [write, freeSpace]
  split
  · exact ⟨by dsimp only; rw [length_contents]; omega, hv, rfl, by rw [List.take_zero, List.append_nil]⟩
  · rename_i h0
    set t := min data.length (rb.capacity - rb.available - 1) with ht
    have hnew : availableFrom rb.capacity ((rb.writePos + t) % rb.capacity) rb.readPos =
        rb.available + t :=
      availableFrom_of_mod hv.readPos_lt (Nat.mod_lt _ hv.capacity_pos) (by omega)
        (by rw [← Nat.add_assoc, ← Nat.mod_add_mod, hv.read_add_available])
    refine ⟨by dsimp only; rw [length_contents]; omega, ⟨hv.capacity_pos, hv.readPos_lt, Nat.mod_lt _ hv.capacity_pos⟩,
      rfl, ?_⟩
    simp only [contents, available_mk, hnew]
    exact slots_write hv.readPos_lt hv.read_add_available (by omega) (by omega)

/-- `read` returns and removes exactly the first `min (maxSize, |q|)` bytes. -/
theorem Valid.read_spec (hv : rb.Valid) (maxSize : Nat) :
    (rb.read maxSize).2 = rb.contents.take maxSize ∧
    (rb.read maxSize).1.contents = rb.contents.drop maxSize ∧
    (rb.read maxSize).1.Valid ∧ (rb.read maxSize).1.capacity = rb.capacity := by
  have hn := hv.available_lt
  have htake : rb.contents.take maxSize = rb.contents.take (min maxSize rb.available) :=
    List.take_eq_take.mpr (by simp)
  rw [htake, ← drop_min_length, length_contents]
  simp only [read]
  split
  · rename_i h0
    exact ⟨by simp [h0], by simp [h0], hv, rfl⟩
  · rename_i h0
    set t := min maxSize rb.available with ht
    have hnew : availableFrom rb.capacity rb.writePos ((rb.readPos + t) % rb.capacity) =
        rb.available - t :=
      availableFrom_of_mod (Nat.mod_lt _ hv.capacity_pos) hv.writePos_lt (by omega)
        (by rw [Nat.mod_add_mod, Nat.add_assoc, Nat.add_sub_cancel' (by omega),
          hv.read_add_available])
    refine ⟨?_, ?_, ⟨hv.capacity_pos, Nat.mod_lt _ hv.capacity_pos, hv.writePos_lt⟩, rfl⟩
    · rw [contents, slots_take (by omega), read_parts hv.readPos_lt (by omega)]
    · simp only [contents, available_mk, hnew, slots_drop]

theorem peek_eq_read (rb : RingBuffer) (maxSize : Nat) : rb.peek maxSize = (rb.read maxSize).2 := by
  simp only [peek, read]; split <;> rfl

theorem Valid.clear (hv : rb.Valid) : rb.clear.Valid ∧ rb.clear.contents = [] := by
  refine ⟨⟨hv.capacity_pos, hv.capacity_pos, hv.capacity_pos⟩, ?_⟩
  simp [RingBuffer.clear, contents, available, availableFrom, slots]

end RingBuffer

end AriaShell.Stream
