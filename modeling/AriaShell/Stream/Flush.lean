import Mathlib.Data.List.FinRange
import Mathlib.Tactic.FinCases
import AriaShell.Stream.Drainer

/-! `StreamController::flushBuffers`: once the child is reaped, the six rings are emptied into the
data callbacks, 4096 bytes at a time, stream after stream. The drain threads are taken to be
stopped, so no ring is written while it is flushed. -/
namespace AriaShell.Stream

/-- `uint8_t buf[4096]` of `flushBuffers`. -/
def flushBufferSize : Nat := 4096

/-- A `notifyData (stream, buf, n)` call: the stream and the `n` bytes of `buf`. Every callback
of `callbacks` receives the same calls, in this order. -/
abbrev Notification := Fin 6 × List UInt8

/-- `while (!buffers[i]->empty())` on one ring, with at most `fuel` rounds; each round's
`notifyData` call is appended to `out`. -/
def flushStream (i : Fin 6) : Nat → RingBuffer → List Notification → Option (RingBuffer × List Notification)
  | 0, rb, out => if rb.empty then some (rb, out) else none
  | fuel + 1, rb, out =>
    if rb.empty then some (rb, out) else
    let (rb', data) := rb.read flushBufferSize
    flushStream i fuel rb' (if 0 < data.length then out ++ [(i, data)] else out)

/-- One pass of the `for` loop of `flushBuffers`: flush `buffers[i]`. -/
def flushIndex (fuel : Nat) (st : (Fin 6 → RingBuffer) × List Notification) (i : Fin 6) :
    Option ((Fin 6 → RingBuffer) × List Notification) :=
  (flushStream i fuel (st.1 i) st.2).map fun (rb, out) => (Function.update st.1 i rb, out)

/-- `flushBuffers`: the loop over `i = 0 … COUNT - 1` on the array `buffers`. -/
def flushBuffers (fuel : Nat) (buffers : Fin 6 → RingBuffer) :
    Option ((Fin 6 → RingBuffer) × List Notification) :=
  (List.finRange 6).foldlM (flushIndex fuel) (buffers, [])

/-- `cs` is what reading `l` `n` elements at a time yields: pieces of `n` elements, the last one
nonempty and possibly shorter. -/
inductive Chunks {α : Type} (n : Nat) : List α → List (List α) → Prop
  | nil : Chunks n [] []
  | cons {l cs} : l ≠ [] → Chunks n (l.drop n) cs → Chunks n l (l.take n :: cs)

namespace Chunks
variable {α : Type} {n : Nat} {l : List α} {cs : List (List α)}

theorem flatten_eq (h : Chunks n l cs) : cs.flatten = l := by
  induction h with
  | nil => rfl
  | cons _ _ ih => rw [List.flatten_cons, ih, List.take_append_drop]

theorem length_le (h : Chunks n l cs) : ∀ c ∈ cs, c.length ≤ n := by
  induction h with
  | nil => simp
  | cons _ _ ih =>
    simp only [List.mem_cons, forall_eq_or_imp, List.length_take]
    exact ⟨min_le_left _ _, ih⟩

theorem ne_nil (h : Chunks n l cs) (hn : 0 < n) : ∀ c ∈ cs, c ≠ [] := by
  induction h with
  | nil => simp
  | cons hl _ ih =>
    simp only [List.mem_cons, forall_eq_or_imp, ne_eq, List.take_eq_nil_iff, not_or]
    exact ⟨⟨by omega, hl⟩, ih⟩

end Chunks

namespace RingBuffer
variable {rb : RingBuffer}

private theorem empty_iff_contents : rb.empty = true ↔ rb.contents = [] := by
  rw [← List.length_eq_zero, length_contents, empty, decide_eq_true_iff]

end RingBuffer

open RingBuffer in
private theorem flushStream_spec (i : Fin 6) (fuel : Nat) {rb : RingBuffer} (hv : rb.Valid)
    (hf : rb.available ≤ fuel) :
    ∃ cs rb', Chunks flushBufferSize rb.contents cs ∧
      (∀ out, flushStream i fuel rb out = some (rb', out ++ cs.map (i, ·))) ∧
      rb'.Valid ∧ rb'.contents = [] := by
  induction fuel generalizing rb with
  | zero =>
    have he : rb.contents = [] := List.length_eq_zero.mp (by rw [length_contents]; omega)
    exact ⟨[], rb, he ▸ .nil, by simp [flushStream, empty_iff_contents.mpr he], hv, he⟩
  | succ fuel ih =>
    by_cases he : rb.contents = []
    · exact ⟨[], rb, he ▸ .nil, by simp [flushStream, empty_iff_contents.mpr he], hv, he⟩
    obtain ⟨hd, hc, hv', -⟩ := hv.read_spec flushBufferSize
    have hpos : 0 < (rb.read flushBufferSize).2.length := by
      rw [hd, List.length_take, length_contents]
      have : 0 < rb.available := by rw [← length_contents]; exact List.length_pos.mpr he
      simp only [flushBufferSize]; omega
    have hf' : (rb.read flushBufferSize).1.available ≤ fuel := by
      rw [← length_contents, hc, List.length_drop, length_contents]; simp only [flushBufferSize]; omega
    obtain ⟨cs, rb', hcs, hrun, hv'', hempty⟩ := ih hv' hf'
    refine ⟨rb.contents.take flushBufferSize :: cs, rb', .cons he (hc ▸ hcs), fun out => ?_, hv'', hempty⟩
    have hne : rb.empty = false := by
      rw [← Bool.not_eq_true, empty_iff_contents]; exact he
    simp only [flushStream, hne, hpos, if_true, Bool.false_eq_true, if_false]
    rw [hrun, ← hd]
    simp

section
variable {fuel : Nat} {buffers rb' : Fin 6 → RingBuffer} {cs : Fin 6 → List (List UInt8)}

private theorem foldlM_flushIndex
    (hrun : ∀ i out, flushStream i fuel (buffers i) out = some (rb' i, out ++ (cs i).map (i, ·))) :
    ∀ (is : List (Fin 6)), is.Nodup → ∀ bs out, (∀ i ∈ is, bs i = buffers i) →
      is.foldlM (flushIndex fuel) (bs, out) =
        some (fun j => if j ∈ is then rb' j else bs j, out ++ is.flatMap fun i => (cs i).map (i, ·))
  | [], _, bs, out, _ => by simp
  | i :: is, hnd, bs, out, hbs => by
    rw [List.nodup_cons] at hnd
    have hbs' : ∀ j ∈ is, Function.update bs i (rb' i) j = buffers j := fun j hj => by
      rw [Function.update_noteq (fun h : j = i => hnd.1 (h ▸ hj))]
      exact hbs j (List.mem_cons_of_mem _ hj)
    simp only [List.foldlM_cons, flushIndex, hbs i (List.mem_cons_self _ _), hrun, Option.map_some',
      Option.bind_eq_bind, Option.some_bind, foldlM_flushIndex hrun is hnd.2 _ _ hbs', List.flatMap_cons, List.append_assoc]
    congr 2
    funext j
    by_cases hj : j = i
    · subst hj; simp
    · simp [hj]

end

private theorem flushBuffers_eq_chunks (fuel : Nat) (buffers : Fin 6 → RingBuffer)
    (hv : ∀ i, (buffers i).Valid) (hf : ∀ i, (buffers i).available ≤ fuel) :
    ∃ cs : Fin 6 → List (List UInt8), (∀ i, Chunks flushBufferSize (buffers i).contents (cs i)) ∧
      ∃ bs, flushBuffers fuel buffers = some (bs, (List.finRange 6).flatMap fun i => (cs i).map (i, ·)) ∧
        ∀ i, (bs i).Valid ∧ (bs i).contents = [] := by
  choose cs rb' hcs hrun hv' he using fun i => flushStream_spec i fuel (hv i) (hf i)
  refine ⟨cs, hcs, rb', ?_, fun i => ⟨hv' i, he i⟩⟩
  rw [flushBuffers, foldlM_flushIndex hrun _ (List.nodup_finRange 6) _ _ (fun _ _ => rfl)]
  simp

private theorem stream_calls (cs : Fin 6 → List (List UInt8)) (i : Fin 6) :
    ((((List.finRange 6).flatMap fun j => (cs j).map (j, ·)).filter (·.1 = i)).map Prod.snd) = cs i := by
  rw [List.filter_flatMap, List.map_flatMap]
  have h : ∀ j, ((((cs j).map (j, ·)).filter (·.1 = i)).map Prod.snd) = if j = i then cs j else [] := by
    intro j
    by_cases hj : j = i <;> simp [hj, List.filter_map, Function.comp_def]
  have hfin : List.finRange 6 = [0, 1, 2, 3, 4, 5] := by decide
  simp only [h, hfin]
  fin_cases i <;> simp

/-- After the child is reaped, `flushBuffers` on valid rings, given a round for every queued byte,
ends, and the callbacks receive of each stream its queued bytes, all of them, once and in order;
every `notifyData` call passes between `1` and `flushBufferSize` bytes; every ring is left valid
and empty. -/
theorem flushBuffers_delivers_all (fuel : Nat) (buffers : Fin 6 → RingBuffer)
    (hv : ∀ i, (buffers i).Valid) (hf : ∀ i, (buffers i).available ≤ fuel) :
    ∃ bs out, flushBuffers fuel buffers = some (bs, out) ∧
      (∀ i, ((out.filter (·.1 = i)).map Prod.snd).flatten = (buffers i).contents) ∧
      (∀ call ∈ out, 0 < call.2.length ∧ call.2.length ≤ flushBufferSize) ∧
      ∀ i, (bs i).Valid ∧ (bs i).contents = [] := by
  obtain ⟨cs, hcs, bs, hrun, hbs⟩ := flushBuffers_eq_chunks fuel buffers hv hf
  refine ⟨bs, _, hrun, fun i => by rw [stream_calls, (hcs i).flatten_eq], ?_, hbs⟩
  simp only [List.mem_flatMap, List.mem_map]
  rintro _ ⟨j, -, c, hc, rfl⟩
  exact ⟨List.length_pos.mpr ((hcs j).ne_nil (by decide) c hc), (hcs j).length_le c hc⟩

/-- Six rings of capacity `8`, each holding two bytes, flushed with two rounds each. -/
theorem flushBuffers_two_bytes_each :
    ∃ bs out, flushBuffers 2 (fun _ => ((RingBuffer.init 8).write [104, 105]).1) = some (bs, out) ∧
      (∀ i, ((out.filter (·.1 = i)).map Prod.snd).flatten = ((RingBuffer.init 8).write [104, 105]).1.contents) ∧
      (∀ call ∈ out, 0 < call.2.length ∧ call.2.length ≤ flushBufferSize) ∧
      ∀ i, (bs i).Valid ∧ (bs i).contents = [] :=
  flushBuffers_delivers_all 2 _ (fun _ => ⟨by decide, by decide, by decide⟩) (fun _ => by decide)

/-- One output pipe drained by `StreamDrainer::drainLoop` in block mode until the worker leaves
its loop, then its ring flushed: what the application read, then what `flushBuffers` hands the
callbacks, then what the worker left in the pipe, is in order what the child wrote. -/
theorem drain_then_flush {C : Nat} (hC : 1 ≤ C) {c : Channel}
    (h : Channel.Reachable (Channel.init (RingBuffer.init C) false) c) (hs : c.stopRequested = false)
    (he : c.loop = .exited) (i : Fin 6) (fuel : Nat) (hf : c.ring.available ≤ fuel) :
    ∃ rb out, flushStream i fuel c.ring [] = some (rb, out) ∧
      c.consumed ++ (out.map Prod.snd).flatten ++ c.pipe.queue = c.produced ∧ rb.contents = [] := by
  obtain ⟨cs, rb, hcs, hrun, -, hempty⟩ := flushStream_spec i fuel ((h.conserved hC).2 hs).1 hf
  refine ⟨rb, _, hrun [], ?_, hempty⟩
  have hflat : ((([] : List Notification) ++ cs.map (i, ·)).map Prod.snd).flatten = c.ring.contents := by
    simpa [Function.comp_def] using hcs.flatten_eq
  rw [hflat]
  exact Channel.Reachable.exited_loses_pipe hC h hs he

/-- The child writes one byte and exits; the worker reads it, leaves on the hang-up, and one
round of the flush hands it to the callbacks. -/
theorem drain_then_flush_one_byte :
    ∃ c : Channel, Channel.Reachable (Channel.init (RingBuffer.init 2) false) c ∧ c.produced = [7] ∧
      ∃ rb out, flushStream 0 1 c.ring [] = some (rb, out) ∧
        c.consumed ++ (out.map Prod.snd).flatten ++ c.pipe.queue = c.produced ∧ rb.contents = [] := by
  have h := (((((@Channel.Reachable.init (Channel.init (RingBuffer.init 2) false)).step (.childWrite [7]) rfl).step
    .childClose rfl).step .drain rfl).step .drain rfl).step .drain rfl
  exact ⟨_, h, rfl, drain_then_flush (by decide) h rfl rfl 0 1 (by decide)⟩

end AriaShell.Stream
