import Mathlib.Tactic.FinCases
import Mathlib.Algebra.Order.Ring.Cast

/-! Descriptor wiring of a child's six hex-stream channels over a POSIX descriptor table:
`createPipes`, then `setupChild` in the forked child and `setupParent` in the parent. -/
namespace AriaShell.Stream

/-- What a descriptor refers to: an end of channel `i`'s pipe, or a file the process already
held (a terminal, a log). -/
inductive Endpoint where
  | pipeRead (i : Fin 6)
  | pipeWrite (i : Fin 6)
  | other (n : Nat)
  deriving DecidableEq, Repr

/-- A process's descriptor table; `none` is a closed descriptor. -/
def FdTable := Nat → Option Endpoint

namespace Posix

/-- `dup2(oldfd, newfd)`: `-1` (`EBADF`) unless `oldfd` is open; otherwise `newfd` is closed if
open and made to refer to what `oldfd` refers to (nothing changes when the two are equal). -/
def dup2 (t : FdTable) (oldfd : Int) (newfd : Nat) : Option FdTable :=
  if oldfd < 0 then none else (t oldfd.toNat).map fun e => Function.update t newfd (some e)

/-- `close(fd)`; every call site ignores its result. -/
def close (t : FdTable) (fd : Int) : FdTable :=
  if fd < 0 then t else Function.update t fd.toNat none

end Posix

/-- `HexStreamPipes` on POSIX: `fds[2i]` and `fds[2i+1]` are the read and write ends of channel
`i`'s pipe, `-1` when not open. -/
structure HexStreamPipes where
  fds : Fin 12 → Int

namespace HexStreamPipes

def init : HexStreamPipes := ⟨fun _ => -1⟩

/-- `HexStreamPipes::close()`: closes each entry `≥ 0` and marks it `-1`. -/
def close (p : HexStreamPipes) (t : FdTable) : HexStreamPipes × FdTable :=
  (List.finRange 12).foldl (fun (p, t) i =>
    if p.fds i ≥ 0 then (⟨Function.update p.fds i (-1)⟩, Posix.close t (p.fds i)) else (p, t)) (p, t)

end HexStreamPipes

def readIdx (i : Fin 6) : Fin 12 := ⟨i * 2, by omega⟩

def writeIdx (i : Fin 6) : Fin 12 := ⟨i * 2 + 1, by omega⟩

namespace StreamController

/-- `createPipes` on POSIX. `pipe2 i` is what the `i`-th `pipe2(pipefd, O_CLOEXEC)` returns: the
read and write descriptors, or `none` when it fails, after which `close()` releases the pipes
made so far (no drainer runs yet, so `stopDraining` does nothing there). -/
def createPipes (pipe2 : Fin 6 → Option (Nat × Nat)) (p : HexStreamPipes) (t : FdTable) :
    Bool × HexStreamPipes × FdTable :=
  go (List.finRange 6) p t
where
  go : List (Fin 6) → HexStreamPipes → FdTable → Bool × HexStreamPipes × FdTable
    | [], p, t => (true, p, t)
    | i :: is, p, t =>
      match pipe2 i with
      | none => (false, p.close t)
      | some (r, w) =>
        go is ⟨Function.update (Function.update p.fds (readIdx i) r) (writeIdx i) w⟩
          (Function.update (Function.update t r (some (.pipeRead i))) w (some (.pipeWrite i)))

/-- The six `dup2(pipes.fds[k], fd)` calls of `setupChild`, in order, as `(k, fd)`. -/
def childDups : List (Fin 12 × Nat) := [(1, 0), (3, 1), (5, 2), (7, 3), (9, 4), (11, 5)]

/-- The `dup2` calls in order; the first that fails makes `setupChild` return `false`. -/
def dupEach (p : HexStreamPipes) : List (Fin 12 × Nat) → FdTable → Bool × FdTable
  | [], t => (true, t)
  | (k, fd) :: ds, t =>
    match Posix.dup2 t (p.fds k) fd with
    | none => (false, t)
    | some t' => dupEach p ds t'

/-- The loop of `setupChild` closing every original pipe descriptor `≥ 0`. -/
def closeOriginals (p : HexStreamPipes) (t : FdTable) : FdTable :=
  (List.finRange 12).foldl (fun t i => if p.fds i ≥ 0 then Posix.close t (p.fds i) else t) t

/-- `setupChild` on POSIX, run by the forked child on its copy of the parent's table. -/
def setupChild (p : HexStreamPipes) (t : FdTable) : Bool × FdTable :=
  match dupEach p childDups t with
  | (true, t') => (true, closeOriginals p t')
  | (false, t') => (false, t')

/-- The entries `setupParent` closes and marks `-1`, in order: the child's end of each channel
as the comments there name it. -/
def parentCloses : List (Fin 12) := [0, 3, 5, 7, 8, 11]

/-- `setupParent` on POSIX; it always returns `true`. -/
def setupParent (p : HexStreamPipes) (t : FdTable) : HexStreamPipes × FdTable :=
  parentCloses.foldl (fun (p, t) k => (⟨Function.update p.fds k (-1)⟩, Posix.close t (p.fds k))) (p, t)

/-- The drainers `startDraining` creates, as `(stream, descriptor, dropOnOverflow)`: one for each
of `fds[2]`, `fds[4]`, `fds[6]`, `fds[10]` that is `≥ 0`. -/
def startDraining (p : HexStreamPipes) : List (Fin 6 × Int × Bool) :=
  [((1 : Fin 6), (2 : Fin 12), false), (2, 4, false), (3, 6, true), (5, 10, false)].filterMap
    fun (s, k, d) => if p.fds k ≥ 0 then some (s, p.fds k, d) else none

/-- The descriptor `writeStdin` writes to. -/
def writeStdinFd (p : HexStreamPipes) : Int := p.fds 1

/-- `closeStdin` on POSIX. -/
def closeStdin (p : HexStreamPipes) (t : FdTable) : HexStreamPipes × FdTable :=
  if p.fds 1 ≥ 0 then (⟨Function.update p.fds 1 (-1)⟩, Posix.close t (p.fds 1)) else (p, t)

end StreamController

/-- The descriptor side of `HexStreamProcess::spawnLinux` and `JobManager::spawn`: `createPipes`
in the parent, `fork` (the child starts from a copy of the parent's table), `setupChild` in the
child and `setupParent` in the parent; `none` when `createPipes` fails. -/
structure Wiring where
  childOk : Bool
  child : FdTable
  pipes : HexStreamPipes
  parent : FdTable

open StreamController in
def spawnWiring (pipe2 : Fin 6 → Option (Nat × Nat)) (t : FdTable) : Option Wiring :=
  match createPipes pipe2 .init t with
  | (true, p, t) => some ⟨(setupChild p t).1, (setupChild p t).2, (setupParent p t).1, (setupParent p t).2⟩
  | (false, _) => none

/-- Pipe creation handing out the descriptors `num (2i)`, `num (2i+1)` for channel `i`. -/
def numbered (num : Fin 12 → Nat) (i : Fin 6) : Option (Nat × Nat) :=
  some (num (readIdx i), num (writeIdx i))

/-- A parent holding descriptors `0 .. k-1` open on files of its own. -/
def heldBelow (k : Nat) : FdTable := fun n => if n < k then some (.other n) else none

/-- The endpoint entry `j` of `fds` names. -/
def Endpoint.ofIdx (j : Fin 12) : Endpoint :=
  if j.val % 2 = 0 then .pipeRead ⟨j / 2, by omega⟩ else .pipeWrite ⟨j / 2, by omega⟩

/-- The table after pipe creation with numbering `num`. -/
def created (num : Fin 12 → Nat) (t : FdTable) : FdTable :=
  (List.finRange 12).foldl (fun t j => Function.update t (num j) (some (Endpoint.ofIdx j))) t

namespace Posix

@[simp] private theorem close_apply (t : FdTable) (fd : Int) (n : Nat) :
    close t fd n = if fd = n then none else t n := by
  by_cases h : fd < 0
  · simp [close, h, show fd ≠ n by omega]
  · simp only [close, h, if_false, Function.update_apply, show n = fd.toNat ↔ fd = n by omega]

private theorem dup2_of_open {t : FdTable} {fd : Int} {e : Endpoint} (n : Nat) (h0 : 0 ≤ fd)
    (h : t fd.toNat = some e) : dup2 t fd n = some (Function.update t n (some e)) := by
  simp [dup2, h, not_lt.mpr h0]

private theorem foldl_close_apply {α : Type} (f : α → Int) (l : List α) (t : FdTable) (n : Nat) :
    l.foldl (fun t i => close t (f i)) t n = if ∃ i ∈ l, f i = n then none else t n := by
  induction l generalizing t with
  | nil => simp
  | cons i l ih =>
    rw [List.foldl_cons, ih, close_apply]
    by_cases h : f i = n <;> simp [h]

end Posix

private theorem foldl_update_of_forall_ne {α : Type} (f : α → Nat) (v : α → Option Endpoint)
    (n : Nat) (l : List α) (t : FdTable) (h : ∀ j ∈ l, f j ≠ n) :
    l.foldl (fun t j => Function.update t (f j) (v j)) t n = t n := by
  induction l generalizing t with
  | nil => rfl
  | cons j l ih =>
    rw [List.foldl_cons, ih _ fun j' hj' => h j' (.tail _ hj'), Function.update_noteq (h j (.head _)).symm]

private theorem foldl_update_of_mem {α : Type} {f : α → Nat} (hf : Function.Injective f)
    (v : α → Option Endpoint) {j : α} (l : List α) (t : FdTable) (hj : j ∈ l) :
    l.foldl (fun t j => Function.update t (f j) (v j)) t (f j) = v j := by
  induction l generalizing t with
  | nil => cases hj
  | cons a l ih =>
    rw [List.foldl_cons]
    by_cases hl : j ∈ l
    · exact ih _ hl
    · obtain rfl : j = a := by simpa [hl] using hj
      rw [foldl_update_of_forall_ne f v (f j) l _ fun j' hj' h => hl (hf h ▸ hj'), Function.update_same]

section Numbered
variable {num : Fin 12 → Nat}

private theorem created_num (hinj : Function.Injective num) (t : FdTable) (j : Fin 12) :
    created num t (num j) = some (Endpoint.ofIdx j) :=
  foldl_update_of_mem hinj _ _ _ (List.mem_finRange j)

private theorem created_of_forall_ne {t : FdTable} {n : Nat} (h : ∀ j, num j ≠ n) : created num t n = t n :=
  foldl_update_of_forall_ne _ _ _ _ _ fun j _ => h j

end Numbered

private theorem Endpoint.ofIdx_writeIdx (i : Fin 6) : Endpoint.ofIdx (writeIdx i) = .pipeWrite i := by
  fin_cases i <;> rfl

open StreamController

private theorem createPipes_numbered (num : Fin 12 → Nat) (p : HexStreamPipes) (t : FdTable) :
    createPipes (numbered num) p t = (true, ⟨fun j => num j⟩, created num t) := by
  refine Prod.ext rfl (Prod.ext (congrArg HexStreamPipes.mk (funext fun j => ?_)) rfl)
  fin_cases j <;> rfl

private theorem dupEach_of_sources (p : HexStreamPipes) (t₀ : FdTable) (ds : List (Fin 12 × Nat))
    (hds : ∀ d ∈ ds, 0 ≤ p.fds d.1 ∧ (t₀ (p.fds d.1).toNat).isSome ∧ ∀ d' ∈ ds, (p.fds d.1).toNat ≠ d'.2)
    (t : FdTable) (ht : ∀ d ∈ ds, t (p.fds d.1).toNat = t₀ (p.fds d.1).toNat) :
    dupEach p ds t =
      (true, ds.foldl (fun (t : FdTable) (d : Fin 12 × Nat) => Function.update t d.2 (t₀ (p.fds d.1).toNat)) t) := by
  induction ds generalizing t with
  | nil => rfl
  | cons d ds ih =>
    obtain ⟨k, fd⟩ := d
    obtain ⟨h0, hsome, hne⟩ := hds _ (.head _)
    obtain ⟨e, he⟩ := Option.isSome_iff_exists.mp hsome
    rw [dupEach, Posix.dup2_of_open _ h0 ((ht _ (.head _)).trans he)]
    have htail : ∀ d ∈ ds, 0 ≤ p.fds d.1 ∧ (t₀ (p.fds d.1).toNat).isSome ∧
        ∀ d' ∈ ds, (p.fds d.1).toNat ≠ d'.2 := fun d hd =>
      have h := hds d (.tail _ hd); ⟨h.1, h.2.1, fun d' hd' => h.2.2 d' (.tail _ hd')⟩
    refine (ih htail _ fun d hd => ?_).trans (by rw [List.foldl_cons, he])
    rw [Function.update_noteq ((hds d (.tail _ hd)).2.2 _ (.head _)), ht d (.tail _ hd)]

private theorem childDups_eq : childDups = (List.finRange 6).map fun i => (writeIdx i, i.val) := rfl

private theorem dupEach_childDups (p : HexStreamPipes) (t : FdTable)
    (hsrc : ∀ i, 6 ≤ p.fds (writeIdx i) ∧ (t (p.fds (writeIdx i)).toNat).isSome) :
    dupEach p childDups t =
      (true, fun n => if h : n < 6 then t (p.fds (writeIdx ⟨n, h⟩)).toNat else t n) := by
  have hds : ∀ d ∈ childDups, 0 ≤ p.fds d.1 ∧ (t (p.fds d.1).toNat).isSome ∧
      ∀ d' ∈ childDups, (p.fds d.1).toNat ≠ d'.2 := by
    simp only [childDups_eq, List.mem_map, List.mem_finRange, true_and]
    rintro _ ⟨i, rfl⟩
    have h6 := (hsrc i).1
    refine ⟨by dsimp only; omega, (hsrc i).2, ?_⟩
    rintro _ ⟨i', rfl⟩
    dsimp only
    omega
  rw [dupEach_of_sources p t childDups hds t fun _ _ => rfl]
  refine congrArg _ (funext fun n => ?_)
  simp only [childDups, List.foldl_cons, List.foldl_nil, Function.update_apply]
  match n with
  | 0 | 1 | 2 | 3 | 4 | 5 => rfl
  | n + 6 => simp (disch := omega) only [if_neg, dif_neg]

private theorem closeOriginals_apply (p : HexStreamPipes) (t : FdTable) (n : Nat) :
    closeOriginals p t n = if ∃ j, p.fds j = n then none else t n := by
  have hstep : (fun (t : FdTable) (i : Fin 12) => if p.fds i ≥ 0 then Posix.close t (p.fds i) else t) =
      fun t i => Posix.close t (p.fds i) := by
    funext t i
    split_ifs with h
    · rfl
    · simp [Posix.close, show p.fds i < 0 by omega]
  rw [closeOriginals, hstep, Posix.foldl_close_apply]
  simp

private theorem setupParent_eq (p : HexStreamPipes) (t : FdTable) :
    setupParent p t = (⟨fun j => if j ∈ parentCloses then -1 else p.fds j⟩,
      fun (n : Nat) => if ∃ j ∈ parentCloses, p.fds j = n then none else t n) := by
  refine Prod.ext (congrArg HexStreamPipes.mk (funext fun j => ?_)) (funext fun n => ?_)
  · fin_cases j <;> rfl
  · exact Posix.foldl_close_apply p.fds parentCloses t n

section Numbered
variable {num : Fin 12 → Nat} (hinj : Function.Injective num) (hhigh : ∀ j, 6 ≤ num j)
include hinj hhigh

private theorem setupChild_created (t : FdTable) :
    setupChild ⟨fun j => num j⟩ (created num t) =
      (true, fun n => if h : n < 6 then some (.pipeWrite ⟨n, h⟩) else if ∃ j, num j = n then none else t n) := by
  rw [setupChild, dupEach_childDups _ _ fun i => ⟨by simpa using hhigh _, by simp [created_num hinj]⟩]
  dsimp only
  refine congrArg _ (funext fun n => ?_)
  rw [closeOriginals_apply]
  by_cases h : n < 6
  · have hn : ¬∃ j, num j = n := fun ⟨j, hj⟩ => by have := hhigh j; omega
    simp [h, hn, created_num hinj, Endpoint.ofIdx_writeIdx]
  · by_cases hn : ∃ j, num j = n
    · simp [h, hn]
    · simp [h, hn, created_of_forall_ne (not_exists.mp hn)]

private theorem spawnWiring_numbered (t : FdTable) :
    spawnWiring (numbered num) t = some
      { childOk := true
        child := fun n => if h : n < 6 then some (.pipeWrite ⟨n, h⟩) else if ∃ j, num j = n then none else t n
        pipes := ⟨fun j => if j ∈ parentCloses then -1 else num j⟩
        parent := fun n => if ∃ j ∈ parentCloses, num j = n then none else created num t n } := by
  simp only [spawnWiring, createPipes_numbered, setupChild_created hinj hhigh, setupParent_eq, Nat.cast_inj]

/-- For every numbering above the six logical descriptors, the child holds a write end on each of
its descriptors `0 .. 5`, and for channels 0 and 4 the parent keeps the write end of the same
pipe, while neither process keeps either read end. -/
theorem wiring_gives_stdin_two_write_ends (t : FdTable) (hfresh : ∀ n i, t n ≠ some (.pipeRead i)) :
    ∃ w, spawnWiring (numbered num) t = some w ∧ w.childOk = true ∧
      (∀ i : Fin 6, w.child i = some (.pipeWrite i)) ∧
      w.parent (writeStdinFd w.pipes).toNat = some (.pipeWrite 0) ∧
      w.parent (w.pipes.fds 9).toNat = some (.pipeWrite 4) ∧
      ∀ n, ∀ i ∈ [(0 : Fin 6), 4], w.child n ≠ some (.pipeRead i) ∧ w.parent n ≠ some (.pipeRead i) := by
  refine ⟨_, spawnWiring_numbered hinj hhigh t, rfl, fun i => by simp [i.isLt], ?_, ?_, fun n i hi => ⟨?_, ?_⟩⟩
  · simp [writeStdinFd, parentCloses, hinj.eq_iff, created_num hinj]
    rfl
  · simp [parentCloses, hinj.eq_iff, created_num hinj]
    rfl
  · dsimp only
    split_ifs <;> simp [hfresh]
  · dsimp only
    by_cases hn : ∃ j, num j = n
    · obtain ⟨j, rfl⟩ := hn
      simp only [hinj.eq_iff, exists_eq_right, created_num hinj]
      simp only [List.mem_cons, List.mem_singleton, List.not_mem_nil, or_false] at hi
      rcases hi with rfl | rfl <;> fin_cases j <;> decide
    · rw [created_of_forall_ne (not_exists.mp hn)]
      split_ifs <;> simp [hfresh]

end Numbered

theorem wiring_gives_stdin_two_write_ends_six :
    Function.Injective (fun j : Fin 12 => j.val + 6) ∧ (∀ j : Fin 12, 6 ≤ j.val + 6) ∧
      (∀ n i, heldBelow 6 n ≠ some (.pipeRead i)) ∧
      ∃ w, spawnWiring (numbered fun j => j.val + 6) (heldBelow 6) = some w ∧
        w.child 0 = some (.pipeWrite 0) ∧ w.parent (writeStdinFd w.pipes).toNat = some (.pipeWrite 0) := by
  have hinj : Function.Injective (fun j : Fin 12 => j.val + 6) := fun a b h => Fin.ext (by simpa using h)
  have hfresh : ∀ n i, heldBelow 6 n ≠ some (.pipeRead i) := fun n i => by
    unfold heldBelow; split_ifs <;> simp
  obtain ⟨w, hw, -, hc, hp, -⟩ := wiring_gives_stdin_two_write_ends hinj (fun _ => by omega) _ hfresh
  exact ⟨hinj, fun _ => by omega, hfresh, w, hw, hc 0, hp⟩

/-- With only `0 .. 2` open in the parent, pipe creation numbers the ends `3 .. 14`; `setupChild`
reports success, yet its close loop has closed the descriptors `3`, `4`, `5` it had just dup'ed. -/
theorem setupChild_closes_its_own_targets :
    ∃ w, spawnWiring (numbered fun j => j.val + 3) (heldBelow 3) = some w ∧ w.childOk = true ∧
      w.child 3 = none ∧ w.child 4 = none ∧ w.child 5 = none :=
  ⟨_, rfl, by decide, by decide, by decide, by decide⟩

end AriaShell.Stream
