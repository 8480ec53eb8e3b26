import AriaShell.Stream.RingBuffer

/-! `StreamDrainer::drainLoop` over one output pipe, with the child writing into the pipe and the
application reading the ring, interleaved in any order. -/
namespace AriaShell.Stream

/-- The read end of a pipe: the bytes written and not yet read, and whether the write end is
closed. -/
structure Pipe where
  queue : List UInt8
  writerClosed : Bool

/-- `pfd.revents` after `poll(&pfd, 1, 100)` with `events = POLLIN`. -/
structure PollEvents where
  pollin : Bool
  pollhup : Bool
  deriving DecidableEq, Repr

/-- `POLLIN` iff bytes are queued, `POLLHUP` iff the write end is closed. -/
def Pipe.poll (p : Pipe) : PollEvents := ⟨!p.queue.isEmpty, p.writerClosed⟩

/-- `read(fd, buf, n)`: up to `n` queued bytes, none at end of file. -/
def Pipe.read (p : Pipe) (n : Nat) : Pipe × List UInt8 := ({ p with queue := p.queue.drop n }, p.queue.take n)

/-- `std::vector<uint8_t> readBuffer(4096)`. -/
def readBufferSize : Nat := 4096

/-- Where the worker is in `drainLoop`. -/
inductive DrainLoop where
  /-- `while (!stoken.stop_requested())` -/
  | top
  /-- `poll` returned a positive count with these events. -/
  | polled (ev : PollEvents)
  /-- BLOCK MODE: `remaining` bytes of an `n`-byte read still to be written. -/
  | blocking (remaining : List UInt8) (n : Nat) (ev : PollEvents)
  /-- `if (pfd.revents & (POLLHUP | POLLERR))` -/
  | hangupCheck (ev : PollEvents)
  | exited
  deriving DecidableEq

/-- One drained channel: the pipe, the drainer with its ring and counter, the child's writes so
far and the application's reads so far. -/
structure Channel where
  pipe : Pipe
  ring : RingBuffer
  loop : DrainLoop
  dropOnOverflow : Bool
  stopRequested : Bool
  bytesTransferred : Nat
  produced : List UInt8
  consumed : List UInt8

/-- What may happen next: the child writes or exits, the drainer takes a step, the application
calls `RingBuffer::read`, or the controller requests stop. -/
inductive Act where
  | childWrite (bytes : List UInt8)
  | childClose
  | drain
  | consume (maxSize : Nat)
  | requestStop

namespace Channel

/-- A drainer started on an open, empty pipe. -/
def init (ring : RingBuffer) (dropOnOverflow : Bool) : Channel :=
  ⟨⟨[], false⟩, ring, .top, dropOnOverflow, false, 0, [], []⟩

/-- One step of `drainLoop`, as the worker thread runs it. -/
def drainStep (c : Channel) : DrainLoop → Option Channel
  | .top =>
    if c.stopRequested then some { c with loop := .exited } else
    let ev := c.pipe.poll
    if !ev.pollin && !ev.pollhup then some c  -- timeout: `continue`
    else some { c with loop := .polled ev }
  | .polled ev =>
    if ev.pollin then
      let r := c.pipe.read readBufferSize
      let n := r.2.length
      if n > 0 then
        let w := c.ring.write r.2
        if w.2 < n ∧ !c.dropOnOverflow then
          some { c with pipe := r.1, ring := w.1, loop := .blocking (r.2.drop w.2) n ev }
        else
          some { c with pipe := r.1, ring := w.1, loop := .hangupCheck ev,
                        bytesTransferred := c.bytesTransferred + n }
      else some { c with pipe := r.1, loop := .exited }  -- EOF
    else some { c with loop := .hangupCheck ev }
  | .blocking remaining n ev =>
    if remaining.length > 0 ∧ !c.stopRequested then
      let w := c.ring.write remaining
      some { c with ring := w.1, loop := .blocking (remaining.drop w.2) n ev }  -- `chunk == 0`: yield
    else some { c with loop := .hangupCheck ev, bytesTransferred := c.bytesTransferred + n }
  | .hangupCheck ev => some { c with loop := if ev.pollhup then .exited else .top }
  | .exited => none

def step (c : Channel) : Act → Option Channel
  | .childWrite bytes =>
    if c.pipe.writerClosed then none
    else some { c with pipe := { c.pipe with queue := c.pipe.queue ++ bytes }, produced := c.produced ++ bytes }
  | .childClose => some { c with pipe := { c.pipe with writerClosed := true } }
  | .drain => c.drainStep c.loop
  | .consume maxSize =>
    some { c with ring := (c.ring.read maxSize).1, consumed := c.consumed ++ (c.ring.read maxSize).2 }
  | .requestStop => some { c with stopRequested := true }

inductive Reachable (c₀ : Channel) : Channel → Prop where
  | init : Reachable c₀ c₀
  | step {c c' : Channel} (a : Act) : Reachable c₀ c → c.step a = some c' → Reachable c₀ c'

/-- Bytes the worker has read from the pipe and not yet written to the ring. -/
def inFlight : DrainLoop → List UInt8
  | .blocking remaining _ _ => remaining
  | _ => []

/-- Every byte the child wrote is, in order, read by the application, queued in the ring, held by
the worker, or still in the pipe. -/
def Conserved (c : Channel) : Prop :=
  c.ring.Valid ∧ c.consumed ++ c.ring.contents ++ inFlight c.loop ++ c.pipe.queue = c.produced

/-- A worker step touches only the pipe, the ring, its place in the loop and its counter. -/
theorem drainStep_frame {c c' : Channel} {l : DrainLoop} (h : c.drainStep l = some c') :
    c'.stopRequested = c.stopRequested ∧ c'.dropOnOverflow = c.dropOnOverflow ∧
    c'.produced = c.produced ∧ c'.consumed = c.consumed := by
  cases l <;> simp only [drainStep] at h <;> (try split_ifs at h) <;> cases h <;>
    exact ⟨rfl, rfl, rfl, rfl⟩

private theorem stopRequested_step {c c' : Channel} {a : Act} (h : c.step a = some c')
    (hs : c.stopRequested = true) : c'.stopRequested = true := by
  cases a with
  | drain => exact (drainStep_frame h).1.trans hs
  | childWrite b => simp only [step] at h; split at h <;> cases h; exact hs
  | _ => simp only [step] at h; cases h; first | exact hs | rfl

private theorem Conserved.of_drainStep {c c' : Channel} {l : DrainLoop} (hc : c.Conserved) (hl : c.loop = l)
    (hd : c.dropOnOverflow = false) (hs : c.stopRequested = false) (h : c.drainStep l = some c') :
    c'.Conserved := by
  obtain ⟨hv, hq⟩ := hc
  cases l with
  | top =>
    simp only [drainStep, hs] at h
    split_ifs at h <;> cases h <;> exact ⟨hv, by simpa [hl, inFlight] using hq⟩
  | polled ev =>
    simp only [drainStep, hd] at h
    simp only [Pipe.read] at h
    obtain ⟨hw', hv', -, hq'⟩ := hv.write_spec (c.pipe.queue.take readBufferSize)
    split_ifs at h with hin hn hw
    · cases h
      refine ⟨hv', ?_⟩
      simp only [inFlight, hq', List.append_assoc, List.take_append_drop]
      simpa [hl, inFlight] using hq
    · cases h
      refine ⟨hv', ?_⟩
      have hall : (c.pipe.queue.take readBufferSize).length ≤
          (c.ring.write (c.pipe.queue.take readBufferSize)).2 :=
        Nat.le_of_not_lt fun hlt => hw ⟨hlt, rfl⟩
      rw [hq', List.take_of_length_le hall]
      simp only [inFlight, List.append_assoc, List.append_nil, List.take_append_drop]
      simpa [hl, inFlight] using hq
    · cases h
      refine ⟨hv, ?_⟩
      rw [← List.take_append_drop readBufferSize c.pipe.queue] at hq
      simpa [hl, inFlight, List.length_eq_zero.mp (Nat.eq_zero_of_not_pos hn)] using hq
    · cases h
      exact ⟨hv, by simpa [hl, inFlight] using hq⟩
  | blocking remaining n ev =>
    simp only [drainStep, hs] at h
    split_ifs at h with hr
    · cases h
      obtain ⟨-, hv', -, hq'⟩ := hv.write_spec remaining
      refine ⟨hv', ?_⟩
      simp only [inFlight, hq', List.append_assoc, List.take_append_drop]
      simpa [hl, inFlight, List.append_assoc] using hq
    · cases h
      have : remaining = [] := by simpa using hr
      exact ⟨hv, by simpa [hl, inFlight, this] using hq⟩
  | hangupCheck ev =>
    cases h
    exact ⟨hv, by split <;> simpa [hl, inFlight] using hq⟩
  | exited => cases h

theorem Conserved.step {c c' : Channel} {a : Act} (hc : c.Conserved) (hd : c.dropOnOverflow = false)
    (h : c.step a = some c') (hs : c'.stopRequested = false) : c'.Conserved := by
  obtain ⟨hv, hq⟩ := hc
  cases a with
  | childWrite b =>
    simp only [Channel.step] at h
    split at h
    · cases h
    · cases h
      exact ⟨hv, by simp only [← hq, List.append_assoc]⟩
  | childClose => cases h; exact ⟨hv, hq⟩
  | drain => exact Conserved.of_drainStep ⟨hv, hq⟩ rfl hd ((drainStep_frame h).1 ▸ hs) h
  | consume maxSize =>
    cases h
    obtain ⟨hb, hq', hv', -⟩ := hv.read_spec maxSize
    refine ⟨hv', ?_⟩
    simp only [hb, hq', List.append_assoc, List.take_append_drop]
    simpa only [List.append_assoc] using hq
  | requestStop => cases h; cases hs

private theorem dropOnOverflow_step {c c' : Channel} {a : Act} (h : c.step a = some c') :
    c'.dropOnOverflow = c.dropOnOverflow := by
  cases a with
  | drain => exact (drainStep_frame h).2.1
  | childWrite b => simp only [step] at h; split at h <;> cases h; rfl
  | _ => cases h; rfl

/-- In block mode and as long as no stop is requested, every interleaving keeps each byte the
child wrote exactly once, in order: read by the application, queued in the ring, held by the
worker, or still in the pipe. -/
theorem Reachable.conserved {C : Nat} (hC : 1 ≤ C) {c : Channel}
    (h : Reachable (Channel.init (RingBuffer.init C) false) c) :
    c.dropOnOverflow = false ∧ (c.stopRequested = false → c.Conserved) := by
  induction h with
  | init => exact ⟨rfl, fun _ => ⟨RingBuffer.valid_init hC, by simp [Channel.init, inFlight]⟩⟩
  | @step c c' a _ hs ih =>
    refine ⟨(dropOnOverflow_step hs).trans ih.1, fun hstop => ?_⟩
    have hstop₀ : c.stopRequested = false := by
      cases h₀ : c.stopRequested
      · rfl
      · simp [stopRequested_step hs h₀] at hstop
    exact (ih.2 hstop₀).step ih.1 hs hstop

/-- When the worker has left its loop, the bytes not delivered are exactly those still in the
pipe. -/
theorem Reachable.exited_loses_pipe {C : Nat} (hC : 1 ≤ C) {c : Channel}
    (h : Reachable (Channel.init (RingBuffer.init C) false) c) (hs : c.stopRequested = false)
    (he : c.loop = .exited) : c.consumed ++ c.ring.contents ++ c.pipe.queue = c.produced := by
  simpa [he, inFlight] using ((h.conserved hC).2 hs).2

end Channel

/-- The child writes 8192 bytes and exits before the worker polls: `poll` reports
`POLLIN | POLLHUP`, the worker reads one 4096-byte chunk and leaves on the hang-up, so the
application and the ring end up with 4096 of the 8192 bytes. -/
theorem drainLoop_leaves_bytes_in_pipe :
    ∃ c, Channel.Reachable (Channel.init (RingBuffer.init (1024 * 1024)) false) c ∧
      c.stopRequested = false ∧ c.loop = .exited ∧
      c.consumed ++ c.ring.contents = List.replicate 4096 65 ∧ c.produced = List.replicate 8192 65 := by
  let data : List UInt8 := List.replicate 8192 65
  have hchunk : data.take readBufferSize = List.replicate 4096 65 := by
    simp only [data, readBufferSize, List.take_replicate]; rfl
  -- the ring after the one write, kept abstract so that no proof evaluates `write`
  have hv : (RingBuffer.init (1024 * 1024)).Valid := RingBuffer.valid_init (by decide)
  obtain ⟨⟨ring₁, w⟩, hwrite⟩ : ∃ r, (RingBuffer.init (1024 * 1024)).write (List.replicate 4096 65) = r :=
    ⟨_, rfl⟩
  obtain ⟨hw, -, -, hcontents⟩ := hv.write_spec (List.replicate 4096 65)
  rw [hwrite] at hw hcontents
  obtain rfl : w = 4096 := hw.trans (by rw [List.length_replicate, RingBuffer.contents_init]; rfl)
  let c₀ := Channel.init (RingBuffer.init (1024 * 1024)) false
  let c₁ : Channel := { c₀ with pipe := ⟨data, false⟩, produced := data }
  let c₂ : Channel := { c₁ with pipe := ⟨data, true⟩ }
  let c₃ : Channel := { c₂ with loop := .polled ⟨true, true⟩ }
  let c₄ : Channel :=
    { c₃ with
      pipe := ⟨data.drop readBufferSize, true⟩
      ring := ring₁
      loop := .hangupCheck ⟨true, true⟩
      bytesTransferred := 4096 }
  have h₄ : c₃.step .drain = some c₄ := by
    simp only [c₃, c₂, c₁, c₀, Channel.init, Channel.step, Channel.drainStep, Pipe.read, hchunk, hwrite,
      List.length_replicate, if_true]
    rfl
  refine ⟨{ c₄ with loop := .exited }, .step .drain (.step .drain (.step .drain (.step .childClose
    (.step (.childWrite data) .init rfl) rfl) rfl) h₄) rfl, rfl, rfl, ?_, rfl⟩
  simp only [c₄, c₃, c₂, c₁, c₀, Channel.init, List.nil_append, hcontents, RingBuffer.contents_init,
    List.take_replicate]
  rfl

end AriaShell.Stream
