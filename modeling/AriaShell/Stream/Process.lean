import AriaShell.Stream.Lifecycle

/-! `HexStreamProcess` on Linux (`spawnLinux`, `wait`, the destructor) and the executor's
`executeCommand`; what the kernel answers to `fork`, `pidfd_open` and `waitpid` is a parameter of
each call. -/
namespace AriaShell.Stream

/-! ### The `status` word of `waitpid` (Linux layout) -/

def wtermsig (status : Nat) : Nat := status % 128

def wifexited (status : Nat) : Bool := wtermsig status = 0

def wexitstatus (status : Nat) : Nat := status / 256 % 256

/-- `WIFSIGNALED(status)`: the low seven bits are neither `0` (an exit) nor `0x7f` (a stop). -/
def wifsignaled (status : Nat) : Bool := wtermsig status ≠ 0 ∧ wtermsig status ≠ 127

/-- The child as the kernel holds it. -/
inductive ChildStatus where
  | running
  | exited (code : Nat)
  | signaled (sig : Nat)
  | reaped
  deriving DecidableEq, Repr

/-- The status word `waitpid` reports for a child that has ended and is not reaped yet. -/
def ChildStatus.word? : ChildStatus → Option Nat
  | .exited code => some (code % 256 * 256)
  | .signaled sig => some (sig % 128)
  | _ => none

/-- What `waitpid(pid_, &status, flags)` returns. -/
inductive WaitpidResult where
  /-- `pid_`, with `status` filled in -/
  | reported (status : Nat)
  /-- `0`: under `WNOHANG`, the child has not ended -/
  | notYet
  /-- `-1` (`EINTR`, `ECHILD`); `status` is left as it was -/
  | failed
  deriving DecidableEq, Repr

/-- The answers the kernel may give, `child` being the child when `waitpid` returns. -/
def WaitpidResult.Allowed (child : ChildStatus) (nohang : Bool) : WaitpidResult → Prop
  | .reported status => child.word? = some status
  | .notYet => nohang = true ∧ child = .running
  | .failed => True

/-- `waitpid` collected the child. -/
def WaitpidResult.reaps : WaitpidResult → Bool
  | .reported _ => true
  | _ => false

/-- The members of `HexStreamProcess` that `spawnLinux`, `wait` and the destructor read or
write. -/
structure HexStreamProcess where
  streamController : ControllerState
  pid : Int
  exitCode : Int
  running : Bool
  pidfd : Int

namespace HexStreamProcess

/-- The constructor, in a parent whose descriptor table is `t`. -/
def init (t : FdTable) : HexStreamProcess := ⟨ControllerState.init t, -1, -1, false, -1⟩

/-- What the kernel answers during `spawnLinux`. -/
structure SpawnEnv where
  pipe2 : Fin 6 → Option (Nat × Nat)
  /-- `fork()` as the parent sees it -/
  forkPid : Int
  /-- `syscall(SYS_pidfd_open, pid_, 0)` -/
  pidfdOpen : Int

/-- `spawnLinux`, the parent's side: `setupParent` and `startDraining` always return `true`. -/
def spawnLinux (env : SpawnEnv) (p : HexStreamProcess) : Bool × HexStreamProcess :=
  match p.streamController.createPipes env.pipe2 with
  | (false, c) => (false, { p with streamController := c })
  | (true, c) =>
    if env.forkPid < 0 then (false, { p with streamController := c, pid := env.forkPid })
    else (true, { p with
      streamController := c.setupParent.startDraining
      pid := env.forkPid
      pidfd := env.pidfdOpen
      running := true })

/-- The exit code `wait` derives from a status word. -/
def exitCodeOf (status : Nat) : Int :=
  if wifexited status then wexitstatus status
  else if wifsignaled status then 128 + wtermsig status
  else -1

/-- `waitpid` runs with `WNOHANG`, after a `poll` on the pidfd whose result is not read, exactly
when `pidfd_ >= 0`; otherwise it blocks. -/
def waitNohang (p : HexStreamProcess) : Bool := decide (0 ≤ p.pidfd)

/-- `wait()` on Linux: `waitpid` answers `r`, and `stale` is what the uninitialised `int status`
holds when `waitpid` does not fill it in. -/
def wait (p : HexStreamProcess) (r : WaitpidResult) (stale : Nat) : HexStreamProcess × Int :=
  if !p.running then (p, p.exitCode)
  else
    let status := match r with
      | .reported s => s
      | _ => stale
    ({ p with exitCode := exitCodeOf status, running := false }, exitCodeOf status)

/-- `~HexStreamProcess`, then the destructor of its member `streamController_`. -/
def destroy (p : HexStreamProcess) : HexStreamProcess :=
  { p with
    pidfd := if p.pidfd ≥ 0 then -1 else p.pidfd
    streamController := p.streamController.destroy }

/-! ### What `wait` reports -/

/-- On the pidfd path `poll` may return before the child ends (`EINTR`: the shell's handlers do
not make `poll` restart), and `waitpid(WNOHANG)` then answers `0`. `wait` still returns: it marks
the process not running and derives the exit code from the uninitialised `status`. -/
theorem wait_returns_while_child_runs (p : HexStreamProcess) (hrun : p.running = true)
    (hfd : 0 ≤ p.pidfd) (stale : Nat) :
    WaitpidResult.notYet.Allowed .running p.waitNohang ∧
      (p.wait .notYet stale).1.running = false ∧ (p.wait .notYet stale).2 = exitCodeOf stale := by
  refine ⟨⟨by simp [waitNohang, hfd], rfl⟩, ?_⟩
  simp [wait, hrun]

/-- A running process with a pidfd and a `status` word that happens to be `0`: `wait` reports
exit code `0` for a child that has not ended. -/
theorem wait_returns_while_child_runs_zero :
    WaitpidResult.notYet.Allowed .running (⟨ControllerState.init fun _ => none, 42, -1, true, 3⟩ :
      HexStreamProcess).waitNohang ∧
      ((⟨ControllerState.init fun _ => none, 42, -1, true, 3⟩ : HexStreamProcess).wait .notYet 0).1.running = false ∧
      ((⟨ControllerState.init fun _ => none, 42, -1, true, 3⟩ : HexStreamProcess).wait .notYet 0).2 = 0 :=
  (wait_returns_while_child_runs ⟨ControllerState.init fun _ => none, 42, -1, true, 3⟩ rfl (by decide) 0)

/-! ### The process object's lifetime in `executeCommand` -/

private theorem spawnLinux_of_ok (env : SpawnEnv) (t : FdTable) (hpipes : ∀ i, env.pipe2 i ≠ none)
    (hfork : 0 ≤ env.forkPid) : ∃ p, (init t).spawnLinux env = (true, p) := by
  have hmade := ControllerState.makePipes_all env.pipe2 hpipes (List.finRange 6) (ControllerState.init t)
  simp only [spawnLinux, ControllerState.createPipes, init]
  revert hmade
  rcases ControllerState.makePipes env.pipe2 (List.finRange 6) (ControllerState.init t) with ⟨_ | _, c⟩
  · exact fun h => nomatch h
  · exact fun _ => ⟨_, by dsimp only; rw [if_neg (not_lt.mpr hfork)]⟩

end HexStreamProcess

namespace Executor

open HexStreamProcess

/-- What `executeCommand` leaves behind: the process object as its destructor leaves it at the
return, whether `wait` collected the child, and `lastResult_`. -/
structure CommandRun where
  process : HexStreamProcess
  reaped : Bool
  lastResult : Int

/-- `Executor::executeCommand`: spawn, then `wait` unless the command ends in `&`; the local
`HexStreamProcess` is destroyed at every return. `r` and `stale` are what `waitpid` answers and
what `status` holds; the sleep and `flushBuffers` touch no descriptor. -/
def executeCommand (background : Bool) (t : FdTable) (env : SpawnEnv) (r : WaitpidResult)
    (stale : Nat) : CommandRun :=
  match (HexStreamProcess.init t).spawnLinux env with
  | (false, p) => ⟨p.destroy, false, -1⟩
  | (true, p) =>
    if background then ⟨p.destroy, false, 0⟩
    else
      let (p, code) := p.wait r stale
      ⟨p.destroy, r.reaps, code⟩

/-- A spawned child that `wait` has not collected, because the command ran in the background or
because `poll` returned early (or `waitpid` failed), outlives the process object: at the return
its output read ends are closed and no drainer runs, whatever the child still writes. -/
theorem executeCommand_abandons_unreaped_child (background : Bool) (t : FdTable) (env : SpawnEnv)
    (hpipes : ∀ i, env.pipe2 i ≠ none) (hfork : 0 ≤ env.forkPid) (r : WaitpidResult) (stale : Nat)
    (hbg : background = true ∨ r.reaps = false) :
    let run := executeCommand background t env r stale
    (∃ p, (HexStreamProcess.init t).spawnLinux env = (true, p)) ∧ run.reaped = false ∧
      (∀ i, run.process.streamController.drainers i = none) ∧
      ∀ i, run.process.streamController.pipes.fds (drainIdx i) < 0 := by
  obtain ⟨p, hp⟩ := spawnLinux_of_ok env t hpipes hfork
  have hclosed : ∀ q : HexStreamProcess, (∀ i, q.destroy.streamController.drainers i = none) ∧
      ∀ i, q.destroy.streamController.pipes.fds (drainIdx i) < 0 := fun q =>
    ⟨(ControllerState.destroy_closed _).1, fun i => (ControllerState.destroy_closed _).2 _⟩
  refine ⟨⟨p, hp⟩, ?_⟩
  unfold executeCommand
  rw [hp]
  rcases hbg with rfl | hr
  · exact ⟨rfl, hclosed p⟩
  · split_ifs
    · exact ⟨rfl, hclosed p⟩
    · exact ⟨hr, hclosed _⟩

/-- `sleep 5 &` on descriptors `3 .. 14`: the spawn succeeds and the command returns at once. -/
theorem executeCommand_abandons_unreaped_child_background :
    let run := executeCommand true (heldBelow 3)
      ⟨ControllerState.pipesUpTo 6 fun j => j.val + 3, 100, 15⟩ .failed 0
    (∃ p, (HexStreamProcess.init (heldBelow 3)).spawnLinux
        ⟨ControllerState.pipesUpTo 6 fun j => j.val + 3, 100, 15⟩ = (true, p)) ∧ run.reaped = false ∧
      (∀ i, run.process.streamController.drainers i = none) ∧
      ∀ i, run.process.streamController.pipes.fds (drainIdx i) < 0 :=
  executeCommand_abandons_unreaped_child true (heldBelow 3) _ (by decide) (by decide) .failed 0 (.inl rfl)

end Executor

end AriaShell.Stream
