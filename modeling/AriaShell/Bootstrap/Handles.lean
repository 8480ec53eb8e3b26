import Mathlib.Tactic.FinCases
import AriaShell.Bootstrap.HandleMap

/-! The Windows handles of a `HexStreamProcess`, from `spawnWindows` to its destructor: the pipe
ends `WindowsBootstrap::createPipes` opens, the process and thread handles `launchProcess`
receives, and every `CloseHandle` that `~HexStreamProcess` and `WindowsBootstrap::closeAll` call.
The kernel's answers are parameters. -/
namespace AriaShell.Bootstrap

/-- The calls into the kernel's handle table so far: the handles `CreatePipe` and
`CreateProcessW` returned, and the `CloseHandle` calls, oldest first. -/
structure HandleLog where
  opened : List Handle
  closed : List Handle
  deriving DecidableEq, Repr

/-- `if (h != INVALID_HANDLE_VALUE) { CloseHandle(h); h = INVALID_HANDLE_VALUE; }` -/
def closeField (closed : List Handle) (h : Handle) : List Handle :=
  if h ≠ invalidHandleValue then closed ++ [h] else closed

namespace WindowsHandleMap

/-- The six fields, in the order `closeParentHandles` and `closeAll` test them. -/
def fields (m : WindowsHandleMap) : List Handle :=
  [m.hStdIn, m.hStdOut, m.hStdErr, m.hStdDbg, m.hStdDatI, m.hStdDatO]

/-- The handles the map holds open. -/
def held (m : WindowsHandleMap) : List Handle := m.fields.filter (· ≠ invalidHandleValue)

end WindowsHandleMap

/-- `WindowsBootstrap`: the child's and the parent's ends of the six pipes, and `hProcess` and
`hThread` of `processInfo_`. The attribute list is heap memory, not a handle. -/
structure WindowsBootstrap where
  childHandles : WindowsHandleMap
  parentHandles : WindowsHandleMap
  hProcess : Handle
  hThread : Handle
  deriving DecidableEq, Repr

/-- What the kernel answers one `spawnWindows`: the `(read, write)` ends of each `CreatePipe` call
of `createPipes`, and `CreateProcessW`'s `(hProcess, hThread)`; `none` is a failure (a failed
`createStartupInfo` fails the launch the same way). -/
structure WinKernel where
  createPipe : Fin 6 → Option (Handle × Handle)
  createProcess : Option (Handle × Handle)

namespace WindowsBootstrap

/-- The constructor: both maps at `INVALID_HANDLE_VALUE` and `ZeroMemory(&processInfo_, …)`. -/
def init : WindowsBootstrap := ⟨{}, {}, 0, 0⟩

/-- Whether the child reads stream `i`: it reads stdin and stddati and writes the other four. -/
def childReads (i : Fin 6) : Bool := i = 0 ∨ i = 4

/-- A block of `createPipes` whose `CreatePipe` returned `(r, w)`. The parent end's
`SetHandleInformation` changes inheritance only. -/
def addPipe (b : WindowsBootstrap) (i : Fin 6) (r w : Handle) : WindowsBootstrap :=
  if childReads i then
    { b with childHandles := b.childHandles.setStream i.val r, parentHandles := b.parentHandles.setStream i.val w }
  else
    { b with childHandles := b.childHandles.setStream i.val w, parentHandles := b.parentHandles.setStream i.val r }

/-- The blocks of `createPipes` for the streams `is`: `return false` at the first failed
`CreatePipe`. -/
def createPipesFrom (createPipe : Fin 6 → Option (Handle × Handle)) :
    List (Fin 6) → WindowsBootstrap → HandleLog → Bool × WindowsBootstrap × HandleLog
  | [], b, log => (true, b, log)
  | i :: is, b, log =>
    match createPipe i with
    | none => (false, b, log)
    | some (r, w) => createPipesFrom createPipe is (b.addPipe i r w) { log with opened := log.opened ++ [r, w] }

/-- `createPipes`: streams 0 to 5 in turn. -/
def createPipes (createPipe : Fin 6 → Option (Handle × Handle)) (b : WindowsBootstrap) (log : HandleLog) :
    Bool × WindowsBootstrap × HandleLog :=
  createPipesFrom createPipe (List.finRange 6) b log

/-- `launchProcess`: `processInfo_.hProcess` on success, `INVALID_HANDLE_VALUE` otherwise. -/
def launchProcess (createProcess : Option (Handle × Handle)) (b : WindowsBootstrap) (log : HandleLog) :
    Handle × WindowsBootstrap × HandleLog :=
  match createProcess with
  | none => (invalidHandleValue, b, log)
  | some (hp, ht) => (hp, { b with hProcess := hp, hThread := ht }, { log with opened := log.opened ++ [hp, ht] })

def closeParentHandles (b : WindowsBootstrap) (log : HandleLog) : WindowsBootstrap × HandleLog :=
  ({ b with parentHandles := {} }, { log with closed := b.parentHandles.fields.foldl closeField log.closed })

/-- `closeAll`, also the body of `~WindowsBootstrap`: the process handles are tested against
`NULL`, the pipe ends against `INVALID_HANDLE_VALUE`. -/
def closeAll (b : WindowsBootstrap) (log : HandleLog) : WindowsBootstrap × HandleLog :=
  let (b, log) := b.closeParentHandles log
  let closed := b.childHandles.fields.foldl closeField log.closed
  let closed := if b.hProcess ≠ 0 then closed ++ [b.hProcess] else closed
  let closed := if b.hThread ≠ 0 then closed ++ [b.hThread] else closed
  ({ b with childHandles := {}, hProcess := 0, hThread := 0 }, { log with closed := closed })

/-- The handles the bootstrap holds open. -/
def held (b : WindowsBootstrap) : List Handle :=
  b.parentHandles.held ++ b.childHandles.held ++ [b.hProcess, b.hThread].filter (· ≠ 0)

end WindowsBootstrap

/-- The Windows side of `HexStreamProcess`: `windowsBootstrap_` (a `unique_ptr`),
`processHandle_`, `running_`, and the handle calls made so far. -/
structure WinProcess where
  bootstrap : Option WindowsBootstrap
  processHandle : Handle
  running : Bool
  log : HandleLog
  deriving DecidableEq, Repr

namespace WinProcess

def init : WinProcess := ⟨none, invalidHandleValue, false, ⟨[], []⟩⟩

/-- Destroying the bootstrap `windowsBootstrap_` holds, if any. -/
def releaseBootstrap (p : WinProcess) : HandleLog :=
  match p.bootstrap with
  | none => p.log
  | some b => (b.closeAll p.log).2

/-- `spawnWindows`: `make_unique` replaces (so destroys) the bootstrap held before;
`processHandle_` is assigned before its test. -/
def spawnWindows (k : WinKernel) (p : WinProcess) : Bool × WinProcess :=
  match WindowsBootstrap.init.createPipes k.createPipe p.releaseBootstrap with
  | (false, b, log) => (false, { p with bootstrap := some b, log := log })
  | (true, b, log) =>
    let (h, b, log) := b.launchProcess k.createProcess log
    if h = invalidHandleValue then (false, { p with bootstrap := some b, processHandle := h, log := log })
    else (true, { p with bootstrap := some b, processHandle := h, running := true, log := log })

/-- `~HexStreamProcess`: its body closes `processHandle_`, then the member `windowsBootstrap_` is
destroyed. -/
def destroy (p : WinProcess) : HandleLog :=
  let p := if p.processHandle ≠ invalidHandleValue then
    { p with log := { p.log with closed := p.log.closed ++ [p.processHandle] } } else p
  p.releaseBootstrap

end WinProcess

/-! ### Every handle is closed once, the process handle once more -/

/-- The kernel never answers `INVALID_HANDLE_VALUE` or `NULL` for a handle it created. -/
def WinKernel.Valid (k : WinKernel) : Prop :=
  (∀ i r w, k.createPipe i = some (r, w) → r ≠ invalidHandleValue ∧ w ≠ invalidHandleValue) ∧
  ∀ hp ht, k.createProcess = some (hp, ht) → hp ≠ invalidHandleValue ∧ hp ≠ 0 ∧ ht ≠ 0

private theorem foldl_closeField (l closed : List Handle) :
    l.foldl closeField closed = closed ++ l.filter (· ≠ invalidHandleValue) := by
  induction l generalizing closed with
  | nil => simp
  | cons h l ih =>
    by_cases hh : h = invalidHandleValue <;> simp [closeField, hh, ih]

private theorem perm_filter_set {α : Type} {p : α → Bool} {a x : α} (ha : p a = true) (hx : p x = false) :
    ∀ (l : List α) (i : Nat), l[i]? = some x → ((l.set i a).filter p).Perm (a :: l.filter p)
  | [], _, h => by simp at h
  | y :: l, 0, h => by
    obtain rfl : y = x := by simpa using h
    simp [List.filter_cons, ha, hx]
  | y :: l, i + 1, h => by
    have ih := perm_filter_set ha hx l i (by simpa using h)
    rw [List.set_cons_succ, List.filter_cons, List.filter_cons]
    split
    · exact (ih.cons y).trans (List.Perm.swap a y _)
    · exact ih

namespace WindowsHandleMap

private theorem fields_setStream (m : WindowsHandleMap) (i : Fin 6) (h : Handle) :
    (m.setStream i.val h).fields = m.fields.set i h := by
  fin_cases i <;> rfl

private theorem held_setStream {m : WindowsHandleMap} {i : Fin 6} {h : Handle}
    (hi : m.fields[i.val]? = some invalidHandleValue) (hh : h ≠ invalidHandleValue) :
    (m.setStream i.val h).held.Perm (h :: m.held) := by
  rw [held, fields_setStream]
  exact perm_filter_set (by simpa using hh) (by simp) _ _ hi

private theorem fields_setStream_of_ne (m : WindowsHandleMap) {i j : Fin 6} (hij : j ≠ i) (h : Handle) :
    (m.setStream i.val h).fields[j.val]? = m.fields[j.val]? := by
  rw [fields_setStream, List.getElem?_set_ne (fun e => hij (Fin.ext e.symm))]

end WindowsHandleMap

namespace WindowsBootstrap
open WindowsHandleMap

private theorem closeAll_log (b : WindowsBootstrap) (log : HandleLog) :
    (b.closeAll log).2 = { log with closed := log.closed ++ b.held } := by
  simp only [closeAll, closeParentHandles, foldl_closeField, held, WindowsHandleMap.held]
  by_cases hp : b.hProcess = 0 <;> by_cases ht : b.hThread = 0 <;> simp [hp, ht]

/-- A stream not yet created has no end in either map. -/
def Unset (b : WindowsBootstrap) (i : Fin 6) : Prop :=
  b.childHandles.fields[i.val]? = some invalidHandleValue ∧ b.parentHandles.fields[i.val]? = some invalidHandleValue

private theorem held_addPipe {b : WindowsBootstrap} {i : Fin 6} (hi : b.Unset i) {r w : Handle}
    (hr : r ≠ invalidHandleValue) (hw : w ≠ invalidHandleValue) :
    (b.addPipe i r w).held.Perm (b.held ++ [r, w]) := by
  have key : ∀ c p, c ≠ invalidHandleValue → p ≠ invalidHandleValue →
      ((b.parentHandles.setStream i.val p).held ++ (b.childHandles.setStream i.val c).held ++
        [b.hProcess, b.hThread].filter (· ≠ 0)).Perm (b.held ++ [c, p]) := fun c p hc hp => by
    refine (((held_setStream hi.2 hp).append (held_setStream hi.1 hc)).append_right _).trans ?_
    exact List.perm_iff_count.mpr fun a => by simp only [held, List.count_append, List.count_cons, List.count_nil]; omega
  unfold addPipe
  split
  · exact key r w hr hw
  · exact (key w r hw hr).trans (List.Perm.append_left _ (List.Perm.swap r w []))

private theorem addPipe_unset {b : WindowsBootstrap} {i j : Fin 6} (hj : b.Unset j) (hij : j ≠ i) (r w : Handle) :
    (b.addPipe i r w).Unset j := by
  unfold addPipe Unset
  split <;> simpa only [fields_setStream_of_ne _ hij] using hj

private theorem createPipesFrom_held (createPipe : Fin 6 → Option (Handle × Handle))
    (hk : ∀ i r w, createPipe i = some (r, w) → r ≠ invalidHandleValue ∧ w ≠ invalidHandleValue) :
    ∀ (is : List (Fin 6)) (b : WindowsBootstrap) (log : HandleLog), is.Nodup → (∀ i ∈ is, b.Unset i) →
      ∃ fresh, (createPipesFrom createPipe is b log).2.2 = { log with opened := log.opened ++ fresh } ∧
        (createPipesFrom createPipe is b log).2.1.held.Perm (b.held ++ fresh) ∧
        (createPipesFrom createPipe is b log).2.1.hProcess = b.hProcess ∧
        (createPipesFrom createPipe is b log).2.1.hThread = b.hThread
  | [], b, log, _, _ => ⟨[], by simp [createPipesFrom]⟩
  | i :: is, b, log, hnd, hu => by
    rw [List.nodup_cons] at hnd
    unfold createPipesFrom
    split
    · exact ⟨[], by simp⟩
    · rename_i r w hrw
      obtain ⟨hr, hw⟩ := hk i r w hrw
      obtain ⟨fresh, hlog, hheld, hp, ht⟩ := createPipesFrom_held createPipe hk is (b.addPipe i r w)
        { log with opened := log.opened ++ [r, w] } hnd.2
        (fun j hj => addPipe_unset (hu j (List.mem_cons_of_mem _ hj)) (fun e : j = i => hnd.1 (e ▸ hj)) r w)
      refine ⟨[r, w] ++ fresh, by rw [hlog]; simp, ?_, hp.trans ?_, ht.trans ?_⟩
      · rw [← List.append_assoc]
        exact hheld.trans ((held_addPipe (hu i (List.mem_cons_self _ _)) hr hw).append_right _)
      all_goals unfold addPipe; split <;> rfl

private theorem init_unset (i : Fin 6) : init.Unset i := by
  fin_cases i <;> exact ⟨rfl, rfl⟩

end WindowsBootstrap

/-- Every handle of `log.opened` is closed once or in `held`. -/
def Balanced (log : HandleLog) (held : List Handle) : Prop := (log.closed ++ held).Perm log.opened

theorem Balanced.close {log : HandleLog} {held : List Handle} (h : Balanced log held) :
    Balanced { log with closed := log.closed ++ held } [] := by
  simpa [Balanced] using h

theorem Balanced.open {log : HandleLog} {held H F : List Handle} (h : Balanced log held)
    (hh : H.Perm (held ++ F)) : Balanced { log with opened := log.opened ++ F } H := by
  unfold Balanced at h ⊢
  exact (hh.append_left _).trans (by simpa only [List.append_assoc] using h.append_right F)

namespace WinProcess
open WindowsBootstrap

/-- What the process holds open through its bootstrap. -/
def held (p : WinProcess) : List Handle := p.bootstrap.elim [] WindowsBootstrap.held

/-- Every handle opened so far is either closed once or held, and `processHandle_`, when set, is
one the kernel returned. -/
structure Inv (p : WinProcess) : Prop where
  balanced : Balanced p.log p.held
  processHandle_opened : p.processHandle ≠ invalidHandleValue → p.processHandle ∈ p.log.opened

private theorem inv_init : init.Inv := ⟨by simp [Balanced, init, held], fun h => absurd rfl h⟩

private theorem releaseBootstrap_log (p : WinProcess) :
    p.releaseBootstrap = { p.log with closed := p.log.closed ++ p.held } := by
  unfold releaseBootstrap held
  cases p.bootstrap <;> simp [closeAll_log]

private theorem spawnWindows_inv {p : WinProcess} (hi : p.Inv) {k : WinKernel} (hk : k.Valid) :
    (p.spawnWindows k).2.Inv := by
  obtain ⟨fresh, hlog, hheld, hp, ht⟩ := createPipesFrom_held k.createPipe hk.1 (List.finRange 6) WindowsBootstrap.init
    p.releaseBootstrap (List.nodup_finRange 6) (fun i _ => init_unset i)
  have hbal : Balanced p.releaseBootstrap [] := by rw [releaseBootstrap_log]; exact hi.balanced.close
  have hmem : ∀ log : HandleLog, p.releaseBootstrap.opened ⊆ log.opened → p.processHandle ≠ invalidHandleValue →
      p.processHandle ∈ log.opened := fun log hsub h => hsub (by
    rw [releaseBootstrap_log]; exact hi.processHandle_opened h)
  unfold spawnWindows createPipes
  split
  · rename_i b log he
    rw [he] at hlog hheld
    subst hlog
    exact ⟨hbal.open hheld, hmem _ (List.subset_append_left _ _)⟩
  · rename_i b log he
    rw [he] at hlog hheld hp ht
    dsimp only at hp ht
    subst hlog
    have hb := hbal.open hheld
    dsimp only
    cases hc : k.createProcess with
    | none => exact ⟨by simpa [launchProcess, hc, held] using hb, by simp [launchProcess, hc]⟩
    | some hpt =>
      obtain ⟨hpv, hp0, ht0⟩ := hk.2 hpt.1 hpt.2 hc
      have hb' := hb.open (H := ({ b with hProcess := hpt.1, hThread := hpt.2 } : WindowsBootstrap).held)
        (F := [hpt.1, hpt.2]) (by simp [WindowsBootstrap.held, hp, ht, WindowsBootstrap.init, hp0, ht0])
      simp only [launchProcess, hc, hpv, if_false]
      exact ⟨by simpa [held] using hb', fun _ => by simp⟩

/-- Every run of `spawnWindows` calls on kernels that answer real handles. -/
inductive Reachable : WinProcess → Prop where
  | init : Reachable init
  | spawn {p : WinProcess} (k : WinKernel) : k.Valid → Reachable p → Reachable (p.spawnWindows k).2

theorem Reachable.inv {p : WinProcess} (h : p.Reachable) : p.Inv := by
  induction h with
  | init => exact inv_init
  | spawn k hk _ ih => exact spawnWindows_inv ih hk

theorem destroy_closed (p : WinProcess) :
    p.destroy.closed = p.log.closed ++ (if p.processHandle ≠ invalidHandleValue then [p.processHandle] else []) ++ p.held := by
  unfold destroy
  split <;> simp [releaseBootstrap_log, held]

/-- Over every sequence of `spawnWindows` calls, destroying the `HexStreamProcess` closes every
handle the kernel returned exactly as often as it was returned, and `processHandle_` once more:
after a successful launch the process handle is closed by `~HexStreamProcess` and again by
`WindowsBootstrap::closeAll`. -/
theorem destroy_closes_process_handle_twice {p : WinProcess} (h : p.Reachable) :
    p.destroy.closed.Perm (p.log.opened ++ (if p.processHandle ≠ invalidHandleValue then [p.processHandle] else [])) ∧
      (p.processHandle ≠ invalidHandleValue → 2 ≤ p.destroy.closed.count p.processHandle) := by
  have hi := h.inv
  have hperm : p.destroy.closed.Perm (p.log.opened ++
      (if p.processHandle ≠ invalidHandleValue then [p.processHandle] else [])) := by
    rw [destroy_closed, List.append_assoc]
    exact (List.Perm.append_left _ List.perm_append_comm).trans (by
      rw [← List.append_assoc]; exact hi.balanced.append_right _)
  refine ⟨hperm, fun hv => ?_⟩
  have hpos := List.count_pos_iff.mpr (hi.processHandle_opened hv)
  rw [hperm.count_eq, List.count_append, if_pos hv, List.count_singleton_self]
  omega

/-- A kernel that creates the six pipes and the process. -/
def allCreated : WinKernel :=
  ⟨fun i => some (UInt64.ofNat (4 * i.val + 8), UInt64.ofNat (4 * i.val + 10)), some (100, 104)⟩

private theorem allCreated_valid : allCreated.Valid := by
  refine ⟨fun i r w h => ?_, fun hp ht h => ?_⟩ <;>
    simp only [allCreated, Option.some.injEq, Prod.mk.injEq] at h <;> obtain ⟨rfl, rfl⟩ := h
  · fin_cases i <;> decide
  · decide

/-- One successful spawn, then the destructor: the process handle `100` is closed twice. -/
theorem spawn_then_destroy_closes_process_handle_twice :
    2 ≤ (init.spawnWindows allCreated).2.destroy.closed.count 100 :=
  (destroy_closes_process_handle_twice (.spawn allCreated allCreated_valid .init)).2 (by decide)

end WinProcess

end AriaShell.Bootstrap
