import Mathlib.Data.List.Sort
import AriaShell.Stream.Pipes

/-! A `StreamController` over its lifetime in the parent: every `::close` it makes, with the
descriptors its running drainers poll at that moment, from `createPipes` to the destructor. -/
namespace AriaShell.Stream

/-- The entry of `pipes.fds` that `drainers[i]` polls: `fds[2]`, `fds[4]`, `fds[6]`, `fds[10]`. -/
def drainIdx : Fin 4 → Fin 12
  | 0 => 2
  | 1 => 4
  | 2 => 6
  | 3 => 10

/-- The parent's `StreamController`: its `pipes`, the parent's descriptor table, the descriptor
each of `drainers[0..3]` polls while its thread runs (`none` for a null `unique_ptr`), and every
`::close` call made so far, with the descriptors the running drainers polled at that call. -/
structure ControllerState where
  pipes : HexStreamPipes
  table : FdTable
  drainers : Fin 4 → Option Int
  closes : List (Int × List Int)

namespace ControllerState

/-- A default-constructed controller in a parent whose descriptor table is `t`. -/
def init (t : FdTable) : ControllerState := ⟨.init, t, fun _ => none, []⟩

/-- The descriptors the running drainers poll. -/
def polled (c : ControllerState) : List Int := (List.finRange 4).filterMap c.drainers

/-- `::close(pipes.fds[j]); pipes.fds[j] = -1;` -/
def closeEntry (c : ControllerState) (j : Fin 12) : ControllerState :=
  { c with
    pipes := ⟨Function.update c.pipes.fds j (-1)⟩
    table := Posix.close c.table (c.pipes.fds j)
    closes := c.closes ++ [(c.pipes.fds j, c.polled)] }

/-- The loop of `HexStreamPipes::close()`. -/
def closeStep (c : ControllerState) (j : Fin 12) : ControllerState :=
  if c.pipes.fds j ≥ 0 then c.closeEntry j else c

/-- `HexStreamPipes::close()` on the controller's pipes. -/
def closePipes (c : ControllerState) : ControllerState := (List.finRange 12).foldl closeStep c

/-- `stopDraining`: each `drainers[i].reset()` requests the stop and joins the thread. -/
def stopDraining (c : ControllerState) : ControllerState := { c with drainers := fun _ => none }

/-- `StreamController::close()`. -/
def close (c : ControllerState) : ControllerState := c.stopDraining.closePipes

/-- `~StreamController`. -/
def destroy (c : ControllerState) : ControllerState := c.stopDraining.close

/-- `setupParent`: the six closes are unconditional. -/
def setupParent (c : ControllerState) : ControllerState :=
  StreamController.parentCloses.foldl closeEntry c

def closeStdin (c : ControllerState) : ControllerState :=
  if c.pipes.fds 1 ≥ 0 then c.closeEntry 1 else c

/-- `startDraining`: a new drainer for each polled entry that is `≥ 0`; assigning `drainers[i]`
destroys, so stops and joins, the drainer it held. An entry `< 0` leaves `drainers[i]` as it is. -/
def startDraining (c : ControllerState) : ControllerState :=
  { c with drainers := fun i =>
      if c.pipes.fds (drainIdx i) ≥ 0 then some (c.pipes.fds (drainIdx i)) else c.drainers i }

/-- One pass of the loop of `createPipes`: `pipes.fds[i * 2] = pipefd[0]` and
`pipes.fds[i * 2 + 1] = pipefd[1]` for the pipe `(r, w)` that `pipe2` made. -/
def addPipe (c : ControllerState) (i : Fin 6) (r w : Nat) : ControllerState :=
  { c with
    pipes := ⟨Function.update (Function.update c.pipes.fds (readIdx i) r) (writeIdx i) w⟩
    table := Function.update (Function.update c.table r (some (.pipeRead i))) w (some (.pipeWrite i)) }

/-- The loop of `createPipes` over the channels `is`: whether every `pipe2` succeeded, and the
controller with the pipes made before the first that failed. -/
def makePipes (pipe2 : Fin 6 → Option (Nat × Nat)) : List (Fin 6) → ControllerState → Bool × ControllerState
  | [], c => (true, c)
  | i :: is, c =>
    match pipe2 i with
    | none => (false, c)
    | some (r, w) => makePipes pipe2 is (c.addPipe i r w)

/-- `createPipes`: a failed `pipe2` makes it call `close()` and return `false`. -/
def createPipes (pipe2 : Fin 6 → Option (Nat × Nat)) (c : ControllerState) : Bool × ControllerState :=
  match makePipes pipe2 (List.finRange 6) c with
  | (true, c) => (true, c)
  | (false, c) => (false, c.close)

/-- The calls that may follow `createPipes`; nothing follows the destructor in a real run. -/
inductive Op where
  | setupParent
  | startDraining
  | closeStdin
  | stopDraining
  | close
  | destroy
  deriving DecidableEq, Repr

def Op.run : Op → ControllerState → ControllerState
  | .setupParent => ControllerState.setupParent
  | .startDraining => ControllerState.startDraining
  | .closeStdin => ControllerState.closeStdin
  | .stopDraining => ControllerState.stopDraining
  | .close => ControllerState.close
  | .destroy => ControllerState.destroy

def runOps (c : ControllerState) (ops : List Op) : ControllerState := ops.foldl (fun c op => op.run c) c

/-! ### The descriptor side agrees with `Pipes` -/

/-! ### Each descriptor is closed once, after the drainers stop -/

/-- `pipe2` handing out `num (2i)` and `num (2i+1)` for the first `k` channels and failing on
channel `k`. -/
def pipesUpTo (k : Nat) (num : Fin 12 → Nat) (i : Fin 6) : Option (Nat × Nat) :=
  if i.val < k then numbered num i else none

/-- The channel whose pipe entry `j` of `fds` holds an end of. -/
def channelOf (j : Fin 12) : Fin 6 := ⟨j.val / 2, by omega⟩

private theorem eq_readIdx_or_writeIdx (j : Fin 12) : j = readIdx (channelOf j) ∨ j = writeIdx (channelOf j) := by
  simp only [readIdx, writeIdx, channelOf, Fin.ext_iff]
  omega

section Invariant

variable {num : Fin 12 → Nat} {k : Nat} {c : ControllerState}

/-- What holds of the controller from the moment `createPipes` has run with `pipesUpTo k num`. -/
structure Inv (num : Fin 12 → Nat) (k : Nat) (c : ControllerState) : Prop where
  entries : ∀ j, c.pipes.fds j = -1 ∨ c.pipes.fds j = num j
  openNotClosed : ∀ j, c.pipes.fds j = num j → (num j : Int) ∉ c.closes.map Prod.fst
  closedOnce : ∀ j, (c.closes.map Prod.fst).count (num j : Int) ≤ 1
  created : ∀ j : Fin 12, j.val / 2 < k → c.pipes.fds j = num j ∨ (num j : Int) ∈ c.closes.map Prod.fst
  drainers : ∀ i u, c.drainers i = some u → c.pipes.fds (drainIdx i) = u ∧ 0 ≤ u
  safe : ∀ x ∈ c.closes, 0 ≤ x.1 → x.1 ∉ x.2

theorem Inv.eq_num (hc : Inv num k c) {j : Fin 12} (h : 0 ≤ c.pipes.fds j) : c.pipes.fds j = num j :=
  (hc.entries j).resolve_left (by omega)

private theorem closeEntry_fds (j j' : Fin 12) :
    (c.closeEntry j).pipes.fds j' = if j' = j then -1 else c.pipes.fds j' :=
  Function.update_apply _ _ _ _

private theorem closeEntry_closes (j : Fin 12) :
    (c.closeEntry j).closes.map Prod.fst = c.closes.map Prod.fst ++ [c.pipes.fds j] := by
  simp [closeEntry]

theorem Inv.closeEntry (hinj : Function.Injective num) (hc : Inv num k c) {j : Fin 12}
    (hj : ∀ i, c.drainers i ≠ none → drainIdx i ≠ j) : Inv num k (c.closeEntry j) := by
  have hnum : ∀ j', (num j' : Int) = c.pipes.fds j → c.pipes.fds j = num j ∧ j' = j := fun j' h => by
    have hj' := hc.eq_num (j := j) (by rw [← h]; omega)
    exact ⟨hj', hinj (by rw [← h] at hj'; exact_mod_cast hj')⟩
  constructor
  · intro j'
    rw [closeEntry_fds]
    split_ifs
    exacts [.inl rfl, hc.entries j']
  · intro j' h'
    rw [closeEntry_fds] at h'
    split_ifs at h' with hjj
    rw [closeEntry_closes, List.mem_append, List.mem_singleton, not_or]
    exact ⟨hc.openNotClosed j' h', fun h => hjj (hnum j' h).2⟩
  · intro j'
    rw [closeEntry_closes, List.count_append, List.count_singleton']
    split_ifs with h
    · obtain ⟨hopen, rfl⟩ := hnum j' h.symm
      have := List.count_eq_zero.mpr (hc.openNotClosed j' hopen)
      omega
    · simpa using hc.closedOnce j'
  · intro j' hk
    rw [closeEntry_fds, closeEntry_closes, List.mem_append, List.mem_singleton]
    split_ifs with hjj
    · subst hjj
      rcases hc.created j' hk with h | h
      exacts [.inr (.inr h.symm), .inr (.inl h)]
    · rcases hc.created j' hk with h | h
      exacts [.inl h, .inr (.inl h)]
  · intro i u hu
    have hu' : c.drainers i = some u := hu
    obtain ⟨hfd, hu0⟩ := hc.drainers i u hu'
    refine ⟨?_, hu0⟩
    rw [closeEntry_fds, if_neg (hj i (by simp [hu']))]
    exact hfd
  · intro x hx hx0
    simp only [ControllerState.closeEntry, List.mem_append, List.mem_singleton] at hx
    rcases hx with hx | rfl
    · exact hc.safe x hx hx0
    intro hp
    obtain ⟨i, -, hi⟩ := List.mem_filterMap.mp hp
    obtain ⟨hfd, hv0⟩ := hc.drainers i _ hi
    have hne := hj i (by simp [hi])
    exact hne (hinj (by exact_mod_cast (hc.eq_num (hfd ▸ hv0)).symm.trans (hfd.trans (hc.eq_num hx0))))

private theorem Inv.foldl_closeEntry (hinj : Function.Injective num) (l : List (Fin 12))
    (hl : ∀ j ∈ l, ∀ i, drainIdx i ≠ j) :
    ∀ c, Inv num k c → Inv num k (l.foldl ControllerState.closeEntry c) := by
  induction l with
  | nil => exact fun _ hc => hc
  | cons j l ih =>
    intro c hc
    exact ih (fun j' hj' => hl j' (.tail _ hj')) _
      (hc.closeEntry hinj fun i _ => hl j (.head _) i)

theorem Inv.stopDraining (hc : Inv num k c) : Inv num k c.stopDraining :=
  ⟨hc.entries, hc.openNotClosed, hc.closedOnce, hc.created, (fun _ _ h => nomatch h), hc.safe⟩

theorem Inv.closePipes (hinj : Function.Injective num) (hc : Inv num k c) (hnone : ∀ i, c.drainers i = none) :
    Inv num k c.closePipes := by
  have h : ∀ (l : List (Fin 12)) (c : ControllerState), Inv num k c → (∀ i, c.drainers i = none) →
      Inv num k (l.foldl closeStep c) := by
    intro l
    induction l with
    | nil => exact fun _ hc _ => hc
    | cons j l ih =>
      intro c hc hnone
      refine ih _ ?_ ?_
      · unfold closeStep
        split_ifs
        exacts [hc.closeEntry hinj fun i h => absurd (hnone i) h, hc]
      · unfold closeStep
        split_ifs
        exacts [hnone, hnone]
  exact h _ c hc hnone

theorem Inv.close (hinj : Function.Injective num) (hc : Inv num k c) : Inv num k c.close :=
  hc.stopDraining.closePipes hinj fun _ => rfl

theorem Inv.startDraining (hc : Inv num k c) : Inv num k c.startDraining := by
  refine ⟨hc.entries, hc.openNotClosed, hc.closedOnce, hc.created, fun i u hu => ?_, hc.safe⟩
  simp only [ControllerState.startDraining] at hu
  split_ifs at hu with h
  · cases hu
    exact ⟨rfl, h⟩
  · exact hc.drainers i u hu

private theorem drainIdx_ne : ∀ j ∈ 1 :: StreamController.parentCloses, ∀ i, drainIdx i ≠ j := by decide

theorem Inv.run (hinj : Function.Injective num) (hc : Inv num k c) (op : Op) : Inv num k (op.run c) := by
  cases op with
  | setupParent => exact Inv.foldl_closeEntry hinj _ (fun j hj => drainIdx_ne j (.tail _ hj)) c hc
  | startDraining => exact hc.startDraining
  | closeStdin =>
    simp only [Op.run, ControllerState.closeStdin]
    split_ifs
    exacts [hc.closeEntry hinj fun i _ => drainIdx_ne 1 (.head _) i, hc]
  | stopDraining => exact hc.stopDraining
  | close => exact hc.close hinj
  | destroy =>
    simp only [Op.run, ControllerState.destroy]
    exact hc.stopDraining.close hinj

private theorem Inv.runOps (hinj : Function.Injective num) (ops : List Op) :
    ∀ c, Inv num k c → Inv num k (runOps c ops) := by
  induction ops with
  | nil => exact fun _ hc => hc
  | cons op ops ih => exact fun c hc => ih _ (hc.run hinj op)

end Invariant

/-! ### After `createPipes` -/

section Create

variable {num : Fin 12 → Nat} {k : Nat}

private theorem makePipes_closes (pipe2 : Fin 6 → Option (Nat × Nat)) : ∀ (is : List (Fin 6)) (c : ControllerState),
    (makePipes pipe2 is c).2.closes = c.closes ∧ (makePipes pipe2 is c).2.drainers = c.drainers := by
  intro is
  induction is with
  | nil => exact fun _ => ⟨rfl, rfl⟩
  | cons i is ih =>
    intro c
    unfold makePipes
    rcases pipe2 i with _ | ⟨r, w⟩
    exacts [⟨rfl, rfl⟩, ih _]

private theorem pipesUpTo_of_lt {num : Fin 12 → Nat} {i : Fin 6} (h : i.val < k) :
    pipesUpTo k num i = some (num (readIdx i), num (writeIdx i)) := if_pos h

private theorem addPipe_fds (c : ControllerState) (i : Fin 6) (r w : Nat) (j : Fin 12) :
    (c.addPipe i r w).pipes.fds j =
      if j = writeIdx i then (w : Int) else if j = readIdx i then (r : Int) else c.pipes.fds j := by
  simp only [addPipe, Function.update_apply]

private theorem makePipes_fds : ∀ (is : List (Fin 6)) (c : ControllerState) (j : Fin 12),
    (makePipes (pipesUpTo k num) is c).2.pipes.fds j = c.pipes.fds j ∨
      (makePipes (pipesUpTo k num) is c).2.pipes.fds j = num j := by
  intro is
  induction is with
  | nil => exact fun _ _ => .inl rfl
  | cons i is ih =>
    intro c j
    by_cases hik : i.val < k
    · rw [makePipes, pipesUpTo_of_lt hik]
      rcases ih (c.addPipe i (num (readIdx i)) (num (writeIdx i))) j with h | h
      · rw [h, addPipe_fds]
        split_ifs with h₁ h₂
        exacts [.inr (by rw [h₁]), .inr (by rw [h₂]), .inl rfl]
      · exact .inr h
    · rw [makePipes, pipesUpTo, if_neg hik]
      exact .inl rfl

private theorem makePipes_keeps_num (is : List (Fin 6)) (c : ControllerState) {j : Fin 12}
    (h : c.pipes.fds j = num j) : (makePipes (pipesUpTo k num) is c).2.pipes.fds j = num j :=
  (makePipes_fds is c j).elim (·.trans h) id

private theorem makePipes_created : ∀ (is : List (Fin 6)) (c : ControllerState) (j : Fin 12),
    is.Sorted (· < ·) → channelOf j ∈ is → j.val / 2 < k →
      (makePipes (pipesUpTo k num) is c).2.pipes.fds j = num j := by
  intro is
  induction is with
  | nil => exact fun _ _ _ h => nomatch h
  | cons i is ih =>
    intro c j hs hj hk
    rw [List.sorted_cons] at hs
    have hik : i.val < k := by
      rcases List.mem_cons.mp hj with h | h
      · rw [← h]; exact hk
      · have := hs.1 _ h
        simp only [channelOf, Fin.lt_def] at this
        omega
    rw [makePipes, pipesUpTo_of_lt hik]
    rcases List.mem_cons.mp hj with h | h
    · apply makePipes_keeps_num
      rw [addPipe_fds]
      rcases eq_readIdx_or_writeIdx j with hj' | hj' <;> rw [h] at hj' <;> subst hj'
      · rw [if_neg (by simp [readIdx, writeIdx, Fin.ext_iff]), if_pos rfl]
      · rw [if_pos rfl]
    · exact ih _ j hs.2 h hk

theorem Inv.createPipes (hinj : Function.Injective num) (t : FdTable) :
    Inv num k ((ControllerState.init t).createPipes (pipesUpTo k num)).2 := by
  have hmade : Inv num k (makePipes (pipesUpTo k num) (List.finRange 6) (init t)).2 := by
    obtain ⟨hcl, hdr⟩ := makePipes_closes (pipesUpTo k num) (List.finRange 6) (init t)
    refine ⟨fun j => (makePipes_fds _ _ j).imp_left id, fun _ _ => (by rw [hcl]; simp [init]),
      fun _ => (by rw [hcl]; simp [init]), fun j hk => .inl ?_, fun _ _ h => (by rw [hdr] at h; cases h),
      fun _ h => (by rw [hcl] at h; cases h)⟩
    exact makePipes_created _ _ j (by decide) (List.mem_finRange _) hk
  unfold ControllerState.createPipes
  revert hmade
  rcases makePipes (pipesUpTo k num) (List.finRange 6) (init t) with ⟨_ | _, c'⟩
  · exact fun h => h.close hinj
  · exact id

end Create

private theorem closePipes_neg (c : ControllerState) (j : Fin 12) : c.closePipes.pipes.fds j < 0 := by
  have h : ∀ (l : List (Fin 12)) (c : ControllerState), j ∈ l ∨ c.pipes.fds j < 0 →
      (l.foldl closeStep c).pipes.fds j < 0 := by
    intro l
    induction l with
    | nil => exact fun _ h => h.resolve_left (List.not_mem_nil _)
    | cons j' l ih =>
      intro c h
      refine ih _ ?_
      by_cases hj : j ∈ l
      · exact .inl hj
      refine .inr ?_
      have h' : j = j' ∨ c.pipes.fds j < 0 := by simpa [hj] using h
      unfold closeStep
      split_ifs with hge
      · rw [closeEntry_fds]
        split_ifs with hjj
        · omega
        · exact h'.resolve_left hjj
      · rcases h' with rfl | h'
        · omega
        · exact h'
  exact h _ c (.inl (List.mem_finRange j))

/-- Every run of a `StreamController` from one `createPipes`, whose successful `pipe2` calls
hand out distinct descriptors: the parent passes each of them to `::close` at most once, never
while a drainer polling it runs, and the destructor leaves each pipe end `createPipes` opened
closed. -/
theorem endpoints_closed_once_after_drainers_stop (t : FdTable) (num : Fin 12 → Nat)
    (hnum : Function.Injective num) (k : Nat) (ops : List Op) :
    let c := runOps ((init t).createPipes (pipesUpTo k num)).2 ops
    (∀ j, (c.closes.map Prod.fst).count (num j : Int) ≤ 1) ∧
    (∀ x ∈ c.closes, 0 ≤ x.1 → x.1 ∉ x.2) ∧
    (∀ j : Fin 12, j.val / 2 < k → (num j : Int) ∈ c.destroy.closes.map Prod.fst) := by
  intro c
  have hc : Inv num k c := Inv.runOps hnum ops _ (Inv.createPipes hnum t)
  have hd : Inv num k c.destroy := hc.stopDraining.close hnum
  refine ⟨hc.closedOnce, hc.safe, fun j hk => (hd.created j hk).resolve_left fun h => ?_⟩
  have := closePipes_neg c.stopDraining.stopDraining j
  simp only [ControllerState.destroy, ControllerState.close] at h
  omega

private theorem closePipes_drainers (c : ControllerState) : c.closePipes.drainers = c.drainers := by
  have h : ∀ (l : List (Fin 12)) (c : ControllerState), (l.foldl closeStep c).drainers = c.drainers := by
    intro l
    induction l with
    | nil => exact fun _ => rfl
    | cons j l ih =>
      intro c
      rw [List.foldl_cons, ih]
      unfold closeStep
      split_ifs <;> rfl
  exact h _ c

/-- The destructor stops every drainer and leaves every entry `< 0`. -/
theorem destroy_closed (c : ControllerState) :
    (∀ i, c.destroy.drainers i = none) ∧ ∀ j, c.destroy.pipes.fds j < 0 := by
  simp only [destroy, close, closePipes_drainers]
  exact ⟨fun _ => rfl, closePipes_neg _⟩

theorem makePipes_all (pipe2 : Fin 6 → Option (Nat × Nat)) (h : ∀ i, pipe2 i ≠ none) :
    ∀ (is : List (Fin 6)) (c : ControllerState), (makePipes pipe2 is c).1 = true := by
  intro is
  induction is with
  | nil => exact fun _ => rfl
  | cons i is ih =>
    intro c
    rw [makePipes]
    rcases hi : pipe2 i with _ | ⟨r, w⟩
    · exact absurd hi (h i)
    · exact ih _

/-- A spawn's sequence on descriptors `3 .. 14`: `setupParent`, `startDraining`, `closeStdin`,
`close()`. -/
theorem endpoints_closed_once_after_drainers_stop_spawn :
    Function.Injective (fun j : Fin 12 => j.val + 3) ∧
    let c := runOps ((init (heldBelow 3)).createPipes (pipesUpTo 6 fun j => j.val + 3)).2
      [.setupParent, .startDraining, .closeStdin, .close]
    (∀ j : Fin 12, (c.closes.map Prod.fst).count ((j.val + 3 : Nat) : Int) ≤ 1) ∧
    (∀ x ∈ c.closes, 0 ≤ x.1 → x.1 ∉ x.2) ∧
    (∀ j : Fin 12, j.val / 2 < 6 → ((j.val + 3 : Nat) : Int) ∈ c.destroy.closes.map Prod.fst) :=
  have hinj : Function.Injective (fun j : Fin 12 => j.val + 3) := fun _ _ h => Fin.ext (by simpa using h)
  ⟨hinj, endpoints_closed_once_after_drainers_stop (heldBelow 3) _ hinj 6
    [.setupParent, .startDraining, .closeStdin, .close]⟩

end ControllerState

end AriaShell.Stream
