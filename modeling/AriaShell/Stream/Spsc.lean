import Mathlib.Data.Nat.ModEq
import AriaShell.Stream.RingBuffer

/-! `RingBuffer::write` and `RingBuffer::read` split at their atomic loads, their copies and
their index stores, run by one producer and one consumer under every interleaving. -/
namespace AriaShell.Stream

/-- Where the producer thread is inside `write(data)`; the arguments are its locals. -/
inductive Producer where
  | idle
  | loadedWrite (data : List UInt8) (w : Nat)
  | sized (data : List UInt8) (toWrite : Nat)
  | copying (data : List UInt8) (toWrite wpos : Nat)
  | wrapping (data : List UInt8) (toWrite wpos : Nat)
  | storing (data : List UInt8) (toWrite wpos : Nat)

/-- Where the consumer thread is inside `read(out, maxSize)`. -/
inductive Consumer where
  | idle
  | loadedWrite (maxSize w : Nat)
  | sized (toRead : Nat)
  | copying (toRead rpos : Nat)
  | wrapping (toRead rpos : Nat) (out : List UInt8)
  | storing (toRead rpos : Nat) (out : List UInt8)

/-- The shared ring, both threads, and the bytes every finished `write` accepted and every
finished `read` returned. -/
structure Spsc where
  ring : RingBuffer
  producer : Producer
  consumer : Consumer
  accepted : List UInt8
  delivered : List UInt8

/-- A scheduler choice: a thread calls `write`/`read`, or takes its next atomic step. -/
inductive Step where
  | write (data : List UInt8)
  | produce
  | read (maxSize : Nat)
  | consume

namespace Spsc

def init (C : Nat) : Spsc := ⟨RingBuffer.init C, .idle, .idle, [], []⟩

/-- One atomic step of `write`: the load of `readPos` in `freeSpace()` and the early return,
the reload of `writePos`, the two copies, the store of `writePos`. -/
def produce (s : Spsc) : Producer → Option Spsc
  | .idle => none
  | .loadedWrite data w =>
    let toWrite := min data.length
      (s.ring.capacity - availableFrom s.ring.capacity w s.ring.readPos - 1)
    some { s with producer := if toWrite = 0 then .idle else .sized data toWrite }
  | .sized data toWrite => some { s with producer := .copying data toWrite s.ring.writePos }
  | .copying data toWrite wpos =>
    some { s with
      ring := { s.ring with
        buffer := writeFirstPart s.ring.buffer wpos (min toWrite (s.ring.capacity - wpos)) data }
      producer := .wrapping data toWrite wpos }
  | .wrapping data toWrite wpos =>
    some { s with
      ring := { s.ring with
        buffer := writeSecondPart s.ring.buffer (min toWrite (s.ring.capacity - wpos)) toWrite data }
      producer := .storing data toWrite wpos }
  | .storing data toWrite wpos =>
    some { s with
      ring := { s.ring with writePos := (wpos + toWrite) % s.ring.capacity }
      producer := .idle
      accepted := s.accepted ++ data.take toWrite }

/-- One atomic step of `read`, symmetric to `produce`. -/
def consume (s : Spsc) : Consumer → Option Spsc
  | .idle => none
  | .loadedWrite maxSize w =>
    let toRead := min maxSize (availableFrom s.ring.capacity w s.ring.readPos)
    some { s with consumer := if toRead = 0 then .idle else .sized toRead }
  | .sized toRead => some { s with consumer := .copying toRead s.ring.readPos }
  | .copying toRead rpos =>
    let out := readFirstPart s.ring.buffer rpos (min toRead (s.ring.capacity - rpos))
    some { s with consumer := .wrapping toRead rpos out }
  | .wrapping toRead rpos out =>
    let rest := readSecondPart s.ring.buffer (min toRead (s.ring.capacity - rpos)) toRead
    some { s with consumer := .storing toRead rpos (out ++ rest) }
  | .storing toRead rpos out =>
    some { s with
      ring := { s.ring with readPos := (rpos + toRead) % s.ring.capacity }
      consumer := .idle
      delivered := s.delivered ++ out }

/-- A call starts with the load of `writePos` in `available()`. -/
def step (s : Spsc) : Step → Option Spsc
  | .write data => match s.producer with
    | .idle => some { s with producer := .loadedWrite data s.ring.writePos }
    | _ => none
  | .produce => s.produce s.producer
  | .read maxSize => match s.consumer with
    | .idle => some { s with consumer := .loadedWrite maxSize s.ring.writePos }
    | _ => none
  | .consume => s.consume s.consumer

/-- The states some interleaving reaches from `RingBuffer(C)` with both threads idle. -/
inductive Reachable (C : Nat) : Spsc → Prop where
  | init : Reachable C (init C)
  | step {s s' : Spsc} (e : Step) : Reachable C s → s.step e = some s' → Reachable C s'

/-- The slots the producer's current `write` copies into, from its reload of `writePos` on. -/
def producerSlots (s : Spsc) : List Nat :=
  match s.producer with
  | .copying _ t wpos | .wrapping _ t wpos | .storing _ t wpos =>
    (List.range t).map fun j => (wpos + j) % s.ring.capacity
  | _ => []

/-- The slots the consumer's current `read` copies from, from its reload of `readPos` on. -/
def consumerSlots (s : Spsc) : List Nat :=
  match s.consumer with
  | .copying t rpos | .wrapping t rpos _ | .storing t rpos _ =>
    (List.range t).map fun k => (rpos + k) % s.ring.capacity
  | _ => []

/-- What the producer's locals promise about the shared ring. -/
def ProducerInv (rb : RingBuffer) : Producer → Prop
  | .idle => True
  | .loadedWrite _ w => w = rb.writePos
  | .sized data t => t ≤ data.length ∧ rb.available + t < rb.capacity
  | .copying data t wpos => wpos = rb.writePos ∧ t ≤ data.length ∧ rb.available + t < rb.capacity
  | .wrapping data t wpos => wpos = rb.writePos ∧ t ≤ data.length ∧ rb.available + t < rb.capacity ∧
      ∀ j < min t (rb.capacity - wpos), rb.buffer ((wpos + j) % rb.capacity) = data.getD j 0
  | .storing data t wpos => wpos = rb.writePos ∧ t ≤ data.length ∧ rb.available + t < rb.capacity ∧
      ∀ j < t, rb.buffer ((wpos + j) % rb.capacity) = data.getD j 0

/-- What the consumer's locals promise about the shared ring. -/
def ConsumerInv (rb : RingBuffer) : Consumer → Prop
  | .idle => True
  | .loadedWrite _ w => w < rb.capacity ∧ availableFrom rb.capacity w rb.readPos ≤ rb.available
  | .sized t => t ≤ rb.available
  | .copying t rpos => rpos = rb.readPos ∧ t ≤ rb.available
  | .wrapping t rpos out => rpos = rb.readPos ∧ t ≤ rb.available ∧
      out = slots rb.buffer rb.capacity rpos (min t (rb.capacity - rpos))
  | .storing t rpos out => rpos = rb.readPos ∧ t ≤ rb.available ∧
      out = slots rb.buffer rb.capacity rpos t

/-- The protocol invariant: the queued bytes are what was accepted and not yet delivered, and
each thread's locals are consistent with the ring. -/
structure Inv (s : Spsc) : Prop where
  valid : s.ring.Valid
  fifo : s.delivered ++ s.ring.contents = s.accepted
  producer : ProducerInv s.ring s.producer
  consumer : ConsumerInv s.ring s.consumer

/-! Frame lemmas: what each thread's stores do to the other thread's promises. -/

theorem ConsumerInv.buffer {rb : RingBuffer} {b : Nat → UInt8} {c : Consumer}
    (hc : ConsumerInv rb c)
    (hb : ∀ k < rb.available, b ((rb.readPos + k) % rb.capacity) = rb.buffer ((rb.readPos + k) % rb.capacity)) :
    ConsumerInv { rb with buffer := b } c := by
  cases c with
  | wrapping t rpos out =>
    obtain ⟨rfl, ht, rfl⟩ := hc
    exact ⟨rfl, ht, (slots_congr (by omega) hb).symm⟩
  | storing t rpos out =>
    obtain ⟨rfl, ht, rfl⟩ := hc
    exact ⟨rfl, ht, (slots_congr ht hb).symm⟩
  | _ => exact hc

theorem ConsumerInv.advance_write {rb : RingBuffer} {w' : Nat} {c : Consumer}
    (hc : ConsumerInv rb c) (ha : rb.available ≤ availableFrom rb.capacity w' rb.readPos) :
    ConsumerInv { rb with writePos := w' } c := by
  cases c with
  | idle => trivial
  | loadedWrite _ w => exact ⟨hc.1, hc.2.trans ha⟩
  | sized t => exact Nat.le_trans hc ha
  | copying t rpos => exact ⟨hc.1, hc.2.trans ha⟩
  | wrapping t rpos out => exact ⟨hc.1, hc.2.1.trans ha, hc.2.2⟩
  | storing t rpos out => exact ⟨hc.1, hc.2.1.trans ha, hc.2.2⟩

theorem ProducerInv.advance_read {rb : RingBuffer} {r' : Nat} {p : Producer}
    (hp : ProducerInv rb p) (ha : availableFrom rb.capacity rb.writePos r' ≤ rb.available) :
    ProducerInv { rb with readPos := r' } p := by
  have ha : RingBuffer.available { rb with readPos := r' } ≤ rb.available := ha
  have hc : RingBuffer.capacity { rb with readPos := r' } = rb.capacity := rfl
  cases p with
  | idle => trivial
  | loadedWrite _ w => exact hp
  | sized data t => exact ⟨hp.1, by have := hp.2; omega⟩
  | copying data t wpos => exact ⟨hp.1, hp.2.1, by have := hp.2.2; omega⟩
  | wrapping data t wpos => exact ⟨hp.1, hp.2.1, by have := hp.2.2.1; omega, hp.2.2.2⟩
  | storing data t wpos => exact ⟨hp.1, hp.2.1, by have := hp.2.2.1; omega, hp.2.2.2⟩

private theorem valid_buffer {rb : RingBuffer} (b : Nat → UInt8) (hv : rb.Valid) :
    RingBuffer.Valid { rb with buffer := b } :=
  ⟨hv.capacity_pos, hv.readPos_lt, hv.writePos_lt⟩

private theorem contents_buffer {rb : RingBuffer} {b : Nat → UInt8}
    (hb : ∀ k < rb.available, b ((rb.readPos + k) % rb.capacity) = rb.buffer ((rb.readPos + k) % rb.capacity)) :
    RingBuffer.contents { rb with buffer := b } = rb.contents :=
  slots_congr le_rfl hb

/-- The producer's copies leave every queued slot alone. -/
private theorem copy_keeps_queue {rb : RingBuffer} {data : List UInt8} {t : Nat} (hv : rb.Valid)
    (hd : t ≤ data.length) (hnt : rb.available + t < rb.capacity) :
    (∀ k < rb.available, writeFirstPart rb.buffer rb.writePos (min t (rb.capacity - rb.writePos)) data
      ((rb.readPos + k) % rb.capacity) = rb.buffer ((rb.readPos + k) % rb.capacity)) ∧
    (∀ k < rb.available, writeSecondPart rb.buffer (min t (rb.capacity - rb.writePos)) t data
      ((rb.readPos + k) % rb.capacity) = rb.buffer ((rb.readPos + k) % rb.capacity)) := by
  constructor <;> intro k hk <;> rw [queued_slot k hv.read_add_available (by omega)]
  · rw [firstPart_slot hv.writePos_lt hd (by omega), if_neg (by omega)]
  · rw [secondPart_slot hv.writePos_lt (by omega) hd (by omega), if_neg (by omega)]

theorem Inv.produce {s s' : Spsc} (hi : s.Inv) (h : s.produce s.producer = some s') : s'.Inv := by
  obtain ⟨rb, p, c, acc, del⟩ := s
  obtain ⟨hv, hf, hp, hc⟩ := hi
  dsimp only at hv hf hp hc h
  have hn := hv.available_lt
  cases p with
  | idle => cases h
  | loadedWrite data w =>
    cases h
    refine ⟨hv, hf, ?_, hc⟩
    subst hp
    dsimp only
    split
    · trivial
    · exact ⟨Nat.min_le_left _ _, by unfold RingBuffer.available at *; omega⟩
  | sized data t => cases h; exact ⟨hv, hf, ⟨rfl, hp⟩, hc⟩
  | copying data t wpos =>
    cases h
    obtain ⟨rfl, hd, hnt⟩ := hp
    have hkeep := (copy_keeps_queue hv hd hnt).1
    refine ⟨valid_buffer _ hv, (contents_buffer hkeep).symm ▸ hf, ⟨rfl, hd, hnt, fun j hj => ?_⟩,
      hc.buffer hkeep⟩
    dsimp only
    rw [firstPart_slot hv.writePos_lt hd (by omega), if_pos hj]
  | wrapping data t wpos =>
    cases h
    obtain ⟨rfl, hd, hnt, hfirst⟩ := hp
    have hkeep := (copy_keeps_queue hv hd hnt).2
    refine ⟨valid_buffer _ hv, (contents_buffer hkeep).symm ▸ hf, ⟨rfl, hd, hnt, fun j hj => ?_⟩,
      hc.buffer hkeep⟩
    dsimp only
    rw [secondPart_slot hv.writePos_lt (by omega) hd (by omega)]
    split_ifs with h
    · rfl
    · exact hfirst j (by omega)
  | storing data t wpos =>
    cases h
    obtain ⟨rfl, hd, hnt, hdata⟩ := hp
    have hnew : availableFrom rb.capacity ((rb.writePos + t) % rb.capacity) rb.readPos =
        rb.available + t :=
      availableFrom_of_mod hv.readPos_lt (Nat.mod_lt _ hv.capacity_pos) hnt
        (by rw [← Nat.add_assoc, ← Nat.mod_add_mod, hv.read_add_available])
    refine ⟨⟨hv.capacity_pos, hv.readPos_lt, Nat.mod_lt _ hv.capacity_pos⟩, ?_, trivial,
      hc.advance_write (hnew ▸ Nat.le_add_right _ _)⟩
    show del ++ slots rb.buffer rb.capacity rb.readPos (availableFrom _ _ _) = acc ++ data.take t
    rw [hnew, slots_append, hv.read_add_available, slots_eq_take hd hdata, ← List.append_assoc]
    exact congrArg (· ++ data.take t) hf

theorem Inv.consume {s s' : Spsc} (hi : s.Inv) (h : s.consume s.consumer = some s') : s'.Inv := by
  obtain ⟨rb, p, c, acc, del⟩ := s
  obtain ⟨hv, hf, hp, hc⟩ := hi
  dsimp only at hv hf hp hc h
  have hn := hv.available_lt
  have hr := hv.readPos_lt
  cases c with
  | idle => cases h
  | loadedWrite maxSize w =>
    cases h
    refine ⟨hv, hf, hp, ?_⟩
    dsimp only
    split
    · trivial
    · exact (Nat.min_le_right _ _).trans hc.2
  | sized t => cases h; exact ⟨hv, hf, hp, rfl, hc⟩
  | copying t rpos =>
    cases h
    dsimp only
    obtain ⟨rfl, ht⟩ := hc
    exact ⟨hv, hf, hp, rfl, ht, copyOut_eq_slots (c := rb.capacity) (by omega)⟩
  | wrapping t rpos out =>
    cases h
    dsimp only
    obtain ⟨rfl, ht, rfl⟩ := hc
    refine ⟨hv, hf, hp, rfl, ht, ?_⟩
    rw [← copyOut_eq_slots (c := rb.capacity) (by omega)]
    exact read_parts hv.readPos_lt (by omega)
  | storing t rpos out =>
    cases h
    obtain ⟨rfl, ht, rfl⟩ := hc
    have hnew : availableFrom rb.capacity rb.writePos ((rb.readPos + t) % rb.capacity) =
        rb.available - t :=
      availableFrom_of_mod (Nat.mod_lt _ hv.capacity_pos) hv.writePos_lt (by omega)
        (by rw [Nat.mod_add_mod, Nat.add_assoc, Nat.add_sub_cancel' ht, hv.read_add_available])
    refine ⟨⟨hv.capacity_pos, Nat.mod_lt _ hv.capacity_pos, hv.writePos_lt⟩, ?_,
      hp.advance_read (hnew ▸ Nat.sub_le _ _), trivial⟩
    show del ++ slots rb.buffer rb.capacity rb.readPos t ++
      slots rb.buffer rb.capacity ((rb.readPos + t) % rb.capacity) (availableFrom _ _ _) = acc
    rw [hnew, ← slots_drop, ← slots_take ht, List.append_assoc, List.take_append_drop]
    exact hf

theorem Inv.step {s s' : Spsc} {e : Step} (hi : s.Inv) (h : s.step e = some s') : s'.Inv := by
  cases e with
  | produce => exact hi.produce h
  | consume => exact hi.consume h
  | write data =>
    simp only [Spsc.step] at h
    split at h
    · cases h; exact ⟨hi.valid, hi.fifo, rfl, hi.consumer⟩
    · cases h
  | read maxSize =>
    simp only [Spsc.step] at h
    split at h
    · cases h
      exact ⟨hi.valid, hi.fifo, hi.producer, hi.valid.writePos_lt, le_of_eq rfl⟩
    · cases h

theorem Reachable.inv {C : Nat} (hC : 1 ≤ C) {s : Spsc} (h : Reachable C s) : s.Inv := by
  induction h with
  | init =>
    exact ⟨⟨hC, hC, hC⟩, by simp [Spsc.init, RingBuffer.init, RingBuffer.contents, availableFrom, slots],
      trivial, trivial⟩
  | step _ _ hs ih => exact ih.step hs

private theorem regions_disjoint {C r n w t t' : Nat} (hn : (r + n) % C = w) (hnt : n + t < C)
    (ht' : t' ≤ n) :
    ((List.range t).map fun j => (w + j) % C).Disjoint ((List.range t').map fun k => (r + k) % C) := by
  intro p hp hq
  obtain ⟨j, hj, rfl⟩ := List.mem_map.mp hp
  obtain ⟨k, hk, hjk⟩ := List.mem_map.mp hq
  rw [List.mem_range] at hj hk
  rw [← hn, Nat.mod_add_mod, Nat.add_assoc] at hjk
  have := Nat.ModEq.add_left_cancel' r hjk
  rw [Nat.ModEq, Nat.mod_eq_of_lt (by omega), Nat.mod_eq_of_lt (by omega)] at this
  omega

private theorem producerSlots_eq {s : Spsc} (hv : s.ring.Valid) (hp : ProducerInv s.ring s.producer) :
    ∃ t, s.ring.available + t < s.ring.capacity ∧
      s.producerSlots = (List.range t).map fun j => (s.ring.writePos + j) % s.ring.capacity := by
  unfold producerSlots
  split
  all_goals first
    | exact ⟨0, by simpa using hv.available_lt, rfl⟩
    | next h => rw [h] at hp; exact ⟨_, hp.2.2.1, by rw [hp.1]⟩
    | next h => rw [h] at hp; exact ⟨_, hp.2.2, by rw [hp.1]⟩

private theorem consumerSlots_eq {s : Spsc} (hc : ConsumerInv s.ring s.consumer) :
    ∃ t, t ≤ s.ring.available ∧
      s.consumerSlots = (List.range t).map fun k => (s.ring.readPos + k) % s.ring.capacity := by
  unfold consumerSlots
  split
  all_goals first
    | exact ⟨0, Nat.zero_le _, rfl⟩
    | next h => rw [h] at hc; exact ⟨_, hc.2.1, by rw [hc.1]⟩
    | next h => rw [h] at hc; exact ⟨_, hc.2, by rw [hc.1]⟩

end Spsc

/-- Under every interleaving of one producer's `write`s and one consumer's `read`s on a ring of
capacity `C ≥ 1`, the slots the producer is copying into are never slots the consumer is copying
from, and the bytes the consumer's reads returned are a prefix of what the writes accepted. -/
theorem spsc_disjoint_and_prefix {C : Nat} (hC : 1 ≤ C) {s : Spsc} (h : Spsc.Reachable C s) :
    (Spsc.producerSlots s).Disjoint (Spsc.consumerSlots s) ∧ s.delivered <+: s.accepted := by
  have hi := h.inv hC
  obtain ⟨t, hnt, hps⟩ := Spsc.producerSlots_eq hi.valid hi.producer
  obtain ⟨t', ht', hcs⟩ := Spsc.consumerSlots_eq hi.consumer
  rw [hps, hcs]
  exact ⟨Spsc.regions_disjoint hi.valid.read_add_available hnt ht', _, hi.fifo⟩

/-- On a ring of four slots the producer writes two bytes, the consumer reads one, and both copy at
once: the producer into slot 2, the consumer out of slot 0. -/
theorem spsc_disjoint_and_prefix_mid_copy :
    ∃ s, Spsc.Reachable 4 s ∧ s.producerSlots = [2] ∧ s.consumerSlots = [0] ∧ s.accepted = [1, 2] ∧
      1 ≤ 4 ∧ (Spsc.producerSlots s).Disjoint (Spsc.consumerSlots s) ∧ s.delivered <+: s.accepted := by
  have hw := Spsc.Reachable.step (C := 4) (.write [1, 2]) .init rfl
  have hw' := (((((hw.step .produce rfl).step .produce rfl).step .produce rfl).step .produce rfl).step
    .produce rfl)
  have hr := ((hw'.step (.read 1) rfl).step .consume rfl).step .consume rfl
  have h := ((hr.step (.write [3]) rfl).step .produce rfl).step .produce rfl
  exact ⟨_, h, rfl, rfl, rfl, by decide, spsc_disjoint_and_prefix (by decide) h⟩

end AriaShell.Stream
