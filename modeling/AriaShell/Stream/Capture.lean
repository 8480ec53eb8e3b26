import AriaShell.Stream.Drainer

/-! The stdout channel of `Executor::executeCommand` while `process.wait()` blocks: the child
writes into a pipe of bounded capacity or exits, the block-mode worker drains the pipe into the
ring, and nothing reads the ring, since `flushBuffers` only runs after `wait` returns. -/
namespace AriaShell.Stream

private theorem RingBuffer.write_capacity (rb : RingBuffer) (data : List UInt8) :
    (rb.write data).1.capacity = rb.capacity := by
  unfold RingBuffer.write
  dsimp only
  split <;> rfl

/-- The moves possible before `wait` returns: `write(2)` of the child blocks while the pipe holds
`pipeCapacity` bytes, the worker runs, the child exits; the application neither reads the ring
nor stops the worker. -/
def Act.duringWait (pipeCapacity : Nat) (c : Channel) : Act → Prop
  | .childWrite bytes => c.pipe.queue.length + bytes.length ≤ pipeCapacity
  | .childClose => True
  | .drain => True
  | .consume _ => False
  | .requestStop => False

namespace Channel

/-- The channels reachable from a fresh stdout channel, a ring of capacity `C`, before `wait`
returns. -/
inductive WaitReachable (C pipeCapacity : Nat) : Channel → Prop
  | init : WaitReachable C pipeCapacity (Channel.init (RingBuffer.init C) false)
  | step {c c' : Channel} (a : Act) : WaitReachable C pipeCapacity c → a.duringWait pipeCapacity c →
      c.step a = some c' → WaitReachable C pipeCapacity c'

private theorem drainStep_bounds {c c' : Channel} {l : DrainLoop} (h : c.drainStep l = some c') (hcl : c.loop = l)
    (hl : (inFlight l).length ≤ readBufferSize) :
    c'.pipe.queue.length ≤ c.pipe.queue.length ∧ c'.ring.capacity = c.ring.capacity ∧
      (inFlight c'.loop).length ≤ readBufferSize := by
  cases l with
  | top =>
    simp only [drainStep] at h
    split_ifs at h <;> cases h <;> simp [inFlight, hcl]
  | polled ev =>
    have := List.length_take_le readBufferSize c.pipe.queue
    simp only [drainStep, Pipe.read] at h
    split_ifs at h <;> cases h <;>
      simp only [inFlight, RingBuffer.write_capacity, List.length_drop, List.length_nil, Nat.zero_le,
        Nat.sub_le, le_refl, and_self, true_and, and_true]
    all_goals omega
  | blocking remaining n ev =>
    simp only [inFlight] at hl
    simp only [drainStep] at h
    split_ifs at h <;> cases h <;>
      simp only [inFlight, RingBuffer.write_capacity, List.length_drop, List.length_nil, Nat.zero_le,
        le_refl, and_self, true_and, and_true]
    all_goals omega
  | hangupCheck ev =>
    cases h
    exact ⟨le_rfl, rfl, by split <;> simp [inFlight]⟩
  | exited => cases h

/-- What holds before `wait` returns. -/
structure WaitInv (C pipeCapacity : Nat) (c : Channel) : Prop where
  block : c.dropOnOverflow = false
  running : c.stopRequested = false
  unread : c.consumed = []
  capacity : c.ring.capacity = C
  pipe : c.pipe.queue.length ≤ pipeCapacity
  inFlight : (inFlight c.loop).length ≤ readBufferSize
  conserved : c.Conserved

theorem WaitInv.step {C pipeCapacity : Nat} {c c' : Channel} {a : Act} (hi : WaitInv C pipeCapacity c)
    (ha : a.duringWait pipeCapacity c) (h : c.step a = some c') : WaitInv C pipeCapacity c' := by
  have hc := hi.conserved.step hi.block h
  cases a with
  | childWrite bytes =>
    simp only [Channel.step] at h
    split at h
    · cases h
    · cases h
      exact ⟨hi.block, hi.running, hi.unread, hi.capacity, by simpa using ha, hi.inFlight, hc hi.running⟩
  | childClose => cases h; exact ⟨hi.block, hi.running, hi.unread, hi.capacity, hi.pipe, hi.inFlight, hc hi.running⟩
  | drain =>
    obtain ⟨hs, hd, -, hu⟩ := drainStep_frame h
    obtain ⟨hp, hcap, hf⟩ := drainStep_bounds h rfl hi.inFlight
    exact ⟨hd.trans hi.block, hs.trans hi.running, hu.trans hi.unread, hcap.trans hi.capacity,
      hp.trans hi.pipe, hf, hc (hs.trans hi.running)⟩
  | consume => exact ha.elim
  | requestStop => exact ha.elim

theorem WaitReachable.inv {C pipeCapacity : Nat} (hC : 1 ≤ C) {c : Channel}
    (h : WaitReachable C pipeCapacity c) : WaitInv C pipeCapacity c := by
  induction h with
  | init =>
    exact ⟨rfl, rfl, rfl, rfl, by simp [Channel.init], by simp [Channel.init, inFlight],
      RingBuffer.valid_init hC, by simp [Channel.init, inFlight]⟩
  | step _ _ ha hs ih => exact ih.step ha hs

/-- Before `process.wait()` returns, the child can have written at most `C - 1` bytes (the ring)
plus one 4096-byte read (held by the blocked worker) plus the pipe's capacity to stdout. A
foreground command that must write more before it exits blocks in `write(2)` for good, so `wait`
never returns and the shell hangs. -/
theorem executeCommand_output_bounded_before_wait {C pipeCapacity : Nat} (hC : 1 ≤ C) {c : Channel}
    (h : WaitReachable C pipeCapacity c) :
    c.produced.length ≤ (C - 1) + readBufferSize + pipeCapacity := by
  have hi := h.inv hC
  have hring : c.ring.contents.length < C := by
    rw [RingBuffer.length_contents, ← hi.capacity]; exact hi.conserved.1.available_lt
  have hlen := congrArg List.length hi.conserved.2
  simp only [List.length_append, hi.unread, List.length_nil] at hlen
  have := hi.pipe
  have := hi.inFlight
  omega

/-- On the stdout channel of a fresh controller (1 MiB ring) over a 64 KiB pipe, the child writes
three bytes, the worker moves them into the ring, and the child writes two more. -/
theorem executeCommand_output_bounded_after_drain :
    ∃ c, WaitReachable (1024 * 1024) 65536 c ∧ c.produced = [1, 2, 3, 4, 5] ∧ c.pipe.queue = [4, 5] ∧
      1 ≤ 1024 * 1024 ∧ c.produced.length ≤ (1024 * 1024 - 1) + readBufferSize + 65536 := by
  have h₀ : WaitReachable (1024 * 1024) 65536 (Channel.init (RingBuffer.init (1024 * 1024)) false) := .init
  have h₁ := h₀.step (.childWrite [1, 2, 3]) (Nat.le_of_ble_eq_true rfl) rfl
  have h₂ := ((h₁.step .drain trivial rfl).step .drain trivial rfl).step .drain trivial rfl
  have h₃ := h₂.step (.childWrite [4, 5]) (Nat.le_of_ble_eq_true rfl) rfl
  exact ⟨_, h₃, rfl, rfl, by decide, executeCommand_output_bounded_before_wait (by decide) h₃⟩

end Channel

end AriaShell.Stream
