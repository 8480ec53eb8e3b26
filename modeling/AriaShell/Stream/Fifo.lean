import AriaShell.Stream.RingBuffer

/-! The bounded FIFO byte queue a `RingBuffer` of capacity `C` stands for, and the simulation
of every sequential call sequence on the ring by the queue. -/
namespace AriaShell.Stream

/-- The public calls of `RingBuffer`. -/
inductive Op where
  | write (data : List UInt8)
  | read (maxSize : Nat)
  | peek (maxSize : Nat)
  | available
  | freeSpace
  | empty
  | full
  | clear

/-- What a call returns: a count, the bytes copied out, or a flag. -/
inductive Reply where
  | count (n : Nat)
  | bytes (data : List UInt8)
  | flag (b : Bool)
  | unit
  deriving DecidableEq, Repr

namespace RingBuffer

def exec (rb : RingBuffer) : Op → RingBuffer × Reply
  | .write data => ((rb.write data).1, .count (rb.write data).2)
  | .read maxSize => ((rb.read maxSize).1, .bytes (rb.read maxSize).2)
  | .peek maxSize => (rb, .bytes (rb.peek maxSize))
  | .available => (rb, .count rb.available)
  | .freeSpace => (rb, .count rb.freeSpace)
  | .empty => (rb, .flag rb.empty)
  | .full => (rb, .flag rb.full)
  | .clear => (rb.clear, .unit)

def run (rb : RingBuffer) : List Op → RingBuffer × List Reply
  | [] => (rb, [])
  | op :: ops => ((rb.exec op).1.run ops).map id ((rb.exec op).2 :: ·)

end RingBuffer

/-- A queue of at most `C - 1` bytes: `write` keeps what fits, `read` takes from the front. -/
def Fifo.exec (C : Nat) (q : List UInt8) : Op → List UInt8 × Reply
  | .write data => (q ++ data.take (C - 1 - q.length), .count (min data.length (C - 1 - q.length)))
  | .read maxSize => (q.drop maxSize, .bytes (q.take maxSize))
  | .peek maxSize => (q, .bytes (q.take maxSize))
  | .available => (q, .count q.length)
  | .freeSpace => (q, .count (C - 1 - q.length))
  | .empty => (q, .flag (decide (q.length = 0)))
  | .full => (q, .flag (decide (q.length = C - 1)))
  | .clear => ([], .unit)

def Fifo.run (C : Nat) (q : List UInt8) : List Op → List UInt8 × List Reply
  | [] => (q, [])
  | op :: ops => (Fifo.run C (Fifo.exec C q op).1 ops).map id ((Fifo.exec C q op).2 :: ·)

namespace RingBuffer
variable {rb : RingBuffer}

theorem Valid.exec_refines (hv : rb.Valid) (op : Op) :
    (rb.exec op).2 = (Fifo.exec rb.capacity rb.contents op).2 ∧
    (rb.exec op).1.contents = (Fifo.exec rb.capacity rb.contents op).1 ∧
    (rb.exec op).1.Valid ∧ (rb.exec op).1.capacity = rb.capacity := by
  have hn := hv.available_lt
  cases op with
  | write data =>
    obtain ⟨hc, hv', hcap, hq⟩ := hv.write_spec data
    refine ⟨by simp [exec, Fifo.exec, hc], ?_, hv', hcap⟩
    rw [exec, hq, hc]
    simp only [Fifo.exec, List.append_cancel_left_eq, List.take_eq_take]
    omega
  | read maxSize =>
    obtain ⟨hb, hq, hv', hcap⟩ := hv.read_spec maxSize
    exact ⟨by simp [exec, Fifo.exec, hb], hq, hv', hcap⟩
  | peek maxSize => exact ⟨by simp [exec, Fifo.exec, peek_eq_read, (hv.read_spec maxSize).1], rfl, hv, rfl⟩
  | available => exact ⟨by simp [exec, Fifo.exec], rfl, hv, rfl⟩
  | freeSpace => exact ⟨by simp [exec, Fifo.exec, freeSpace]; omega, rfl, hv, rfl⟩
  | empty => exact ⟨by simp [exec, Fifo.exec, empty], rfl, hv, rfl⟩
  | full => exact ⟨by simp [exec, Fifo.exec, full, freeSpace]; omega, rfl, hv, rfl⟩
  | clear => exact ⟨rfl, hv.clear.2, hv.clear.1, rfl⟩

theorem Valid.run_refines (hv : rb.Valid) (ops : List Op) :
    (rb.run ops).2 = (Fifo.run rb.capacity rb.contents ops).2 ∧
    (rb.run ops).1.contents = (Fifo.run rb.capacity rb.contents ops).1 ∧
    (rb.run ops).1.Valid ∧ (rb.run ops).1.capacity = rb.capacity := by
  induction ops generalizing rb with
  | nil => exact ⟨rfl, rfl, hv, rfl⟩
  | cons op ops ih =>
    obtain ⟨hr, hq, hv', hcap⟩ := hv.exec_refines op
    obtain ⟨hr', hq', hv'', hcap'⟩ := ih hv'
    rw [hcap, hq] at hr' hq'
    refine ⟨?_, ?_, hv'', hcap'.trans hcap⟩ <;> simp [RingBuffer.run, Fifo.run, hr, hr', hq']

theorem Valid.available_eq_emod (hv : rb.Valid) :
    (rb.available : Int) = ((rb.writePos : Int) - rb.readPos) % rb.capacity := by
  have hr := hv.readPos_lt
  have hw := hv.writePos_lt
  simp only [available, availableFrom]
  split
  · rw [Int.emod_eq_of_lt (by omega) (by omega)]; omega
  · rw [← Int.add_emod_self, Int.emod_eq_of_lt (by omega) (by omega)]; omega

end RingBuffer

/-- Every sequential call sequence on `RingBuffer(C)`, `C ≥ 1`, replies exactly as the queue of
capacity `C - 1` does, with the queue equal to the ring's contents and the indices in range. -/
theorem ringBuffer_refines_fifo (C : Nat) (hC : 1 ≤ C) (ops : List Op) :
    ((RingBuffer.init C).run ops).2 = (Fifo.run C [] ops).2 ∧
    ((RingBuffer.init C).run ops).1.contents = (Fifo.run C [] ops).1 ∧
    ((RingBuffer.init C).run ops).1.readPos < C ∧ ((RingBuffer.init C).run ops).1.writePos < C ∧
    (((RingBuffer.init C).run ops).1.available : Int) =
      ((((RingBuffer.init C).run ops).1.writePos : Int) - ((RingBuffer.init C).run ops).1.readPos) % C ∧
    ((RingBuffer.init C).run ops).1.available = ((RingBuffer.init C).run ops).1.contents.length := by
  have hv : (RingBuffer.init C).Valid := ⟨hC, hC, hC⟩
  have h0 : (RingBuffer.init C).contents = [] := by
    simp [RingBuffer.init, RingBuffer.contents, availableFrom, slots]
  obtain ⟨hr, hq, hv', hcap⟩ := hv.run_refines ops
  change _ = C at hcap
  rw [h0] at hr hq
  refine ⟨hr, hq, by simpa [hcap] using hv'.readPos_lt, by simpa [hcap] using hv'.writePos_lt, ?_, by simp⟩
  simpa [hcap] using hv'.available_eq_emod

theorem ringBuffer_refines_fifo_four :
    1 ≤ 4 ∧ ((RingBuffer.init 4).run [.write [1, 2, 3, 4], .read 2, .write [5, 6], .peek 8]).2 =
      (Fifo.run 4 [] [.write [1, 2, 3, 4], .read 2, .write [5, 6], .peek 8]).2 :=
  ⟨by decide, (ringBuffer_refines_fifo 4 (by decide) _).1⟩

end AriaShell.Stream
