import AriaShell.Job.StateMachine

/-! `JobManager` over its job table, with `jobsMutex` as a flag, the observer notifications it
makes, and the two ways `processEvents` learns of children: epoll on pidfds (Linux) or a
`waitpid` sweep (other POSIX hosts). -/
namespace AriaShell.Job

/-- What the kernel holds for a job's child, as `waitpid` sees it. -/
inductive Child where
  /-- forked, still in the shell's process group: its `setpgid(0, 0)` has not run -/
  | forked
  | running
  /-- stopped by `sig`, not yet reported to `waitpid(WUNTRACED)` -/
  | stopped (sig : Nat)
  /-- exited with `code`, status not yet collected -/
  | exited (code : Nat)
  /-- killed by `sig`, status not yet collected -/
  | signaled (sig : Nat)
  | reaped
  deriving DecidableEq, Repr

/-- A pidfd polls readable once its process has terminated, reaped or not. -/
def Child.terminated : Child → Bool
  | .exited _ | .signaled _ | .reaped => true
  | _ => false

/-- The group `jcb->pgid = pid` exists: the child made it with `setpgid(0, 0)`, and it lasts until
the child is reaped. -/
def Child.hasGroup : Child → Bool
  | .forked | .reaped => false
  | _ => true

/-- The fields of `JobControlBlock` the job manager reads or writes, for the one process `spawn`
creates (the command text, timestamps, terminal modes and streams are not modelled). -/
structure JobControlBlock where
  jobId : Nat
  state : JobState
  child : Child
  exitCode : Int
  exitedNormally : Bool
  /-- the child's pidfd is registered with the epoll instance -/
  watched : Bool
  deriving DecidableEq, Repr

/-- The callbacks `onStatusChange` registers: main's reports a job done or stopped and looks the
job up with `getJob` to print its command. -/
inductive StatusCallback where
  | mainReport
  deriving DecidableEq, Repr

/-- One `notifyStatusChange` call, with whether `jobsMutex` was held at that moment. -/
structure Notification where
  jobId : Nat
  oldState : JobState
  newState : JobState
  lockHeld : Bool
  deriving DecidableEq, Repr

structure JobManager where
  /-- `jobs`, in the iteration order of the `unordered_map` -/
  jobs : List JobControlBlock
  nextJobId : Nat
  /-- `jobsMutex` is held -/
  locked : Bool
  statusCallbacks : List StatusCallback
  /-- built for Linux, where `processEvents` waits on epoll -/
  linux : Bool
  /-- `impl->epollFd >= 0` -/
  epollOpen : Bool
  log : List Notification
  /-- `kill(-pgid, sig)` calls, as `(jobId, sig)` -/
  signals : List (Nat × Nat)
  deriving DecidableEq, Repr

/-- `std::mutex::lock` by the thread that already holds the mutex: the call never returns. -/
inductive Fault where
  | relock
  deriving DecidableEq, Repr

abbrev JM := StateT JobManager (Except Fault)

namespace JobManager

/-- After `initialize()`: no jobs, `nextJobId = 1`, epoll open on Linux. -/
def init (linux : Bool) (callbacks : List StatusCallback) : JobManager :=
  ⟨[], 1, false, callbacks, linux, linux, [], []⟩

def findJob (m : JobManager) (jobId : Nat) : Option JobControlBlock :=
  m.jobs.find? (·.jobId = jobId)

def lockJobs : JM Unit := do
  let m ← get
  if m.locked then throw .relock
  set { m with locked := true }

def unlockJobs : JM Unit :=
  modify fun m => { m with locked := false }

def updateJob (jobId : Nat) (f : JobControlBlock → JobControlBlock) : JM Unit :=
  modify fun m => { m with jobs := m.jobs.map fun j => if j.jobId = jobId then f j else j }

/-- `job->state.load()`. -/
def loadState (jobId : Nat) : JM JobState := do
  return (((← get).findJob jobId).map (·.state)).getD .none

/-- `job->state.exchange(s)`. -/
def exchangeState (jobId : Nat) (s : JobState) : JM JobState := do
  let old ← loadState jobId
  updateJob jobId fun j => { j with state := s }
  return old

def getJob (jobId : Nat) : JM (Option JobControlBlock) := do
  lockJobs
  let r := (← get).findJob jobId
  unlockJobs
  return r

def getActiveJobs : JM (List Nat) := do
  lockJobs
  let r := ((← get).jobs.filter (·.state ≠ .terminated)).map (·.jobId)
  unlockJobs
  return r

def getForegroundJob : JM (Option JobControlBlock) := do
  lockJobs
  let r := (← get).jobs.find? (·.state = .foreground)
  unlockJobs
  return r

/-- main's callback: a job entering `TERMINATED` or `STOPPED` from another state is looked up. -/
def runCallback (jobId : Nat) (old new : JobState) : StatusCallback → JM Unit
  | .mainReport => do
    if new = .terminated ∧ old ≠ .terminated then discard (getJob jobId)
    else if new = .stopped ∧ old ≠ .stopped then discard (getJob jobId)

def runCallbacks (jobId : Nat) (old new : JobState) : List StatusCallback → JM Unit
  | [] => pure ()
  | cb :: cbs => do runCallback jobId old new cb; runCallbacks jobId old new cbs

def notifyStatusChange (jobId : Nat) (old new : JobState) : JM Unit := do
  let m ← get
  set { m with log := m.log ++ [(⟨jobId, old, new, m.locked⟩ : Notification)] }
  runCallbacks jobId old new m.statusCallbacks

/-- `sendSignal`: `kill(-pgid, sig) == 0`, which fails with `ESRCH` while no group `pgid` exists.
What the signal does to the child is a move of the environment. -/
def sendSignal (job : JobControlBlock) (sig : Nat) : JM Bool := do
  modify fun m => { m with signals := m.signals ++ [(job.jobId, sig)] }
  return job.child.hasGroup

/-- `jobs[jobId] = std::move(jcb)`: an entry already under the key is replaced in place, a new one
goes last. The list order stands for the `unordered_map`'s iteration order only up to a
permutation, which is how the results that depend on it are stated. -/
def insertJob (jcb : JobControlBlock) : List JobControlBlock → List JobControlBlock
  | [] => [jcb]
  | j :: js => if j.jobId = jcb.jobId then jcb :: js else j :: insertJob jcb js

/-- What the host answers during `spawn`. -/
structure SpawnEnv where
  pipesOk : Bool
  forkOk : Bool
  pidfdOk : Bool

/-- `spawn`, the parent's side (the child's is the pipe wiring and `execvp`). -/
def spawn (background : Bool) (env : SpawnEnv) : JM Nat := do
  lockJobs
  let m ← get
  let jobId := m.nextJobId
  set { m with nextJobId := (jobId + 1) % 2 ^ 32 }
  if !env.pipesOk || !env.forkOk then
    unlockJobs
    return 0
  let m ← get
  set { m with jobs := insertJob (⟨jobId, if background then .background else .foreground, .forked, 0,
    false, m.linux && env.pidfdOk && m.epollOpen⟩ : JobControlBlock) m.jobs }
  unlockJobs
  return jobId

/-- The exchange and notification that end `foreground`, `background` and `handleCtrlZ`. -/
def commitState (jobId : Nat) (s : JobState) : JM Unit := do
  let old ← exchangeState jobId s
  notifyStatusChange jobId old s

/-- `foreground` up to its load of the state and the `SIGCONT` a stopped job gets: the state to
move to, or `none` when it returns `false`. -/
def foregroundLoad (jobId : Nat) : JM (Option JobState) := do
  let some job ← getJob jobId | return none
  let current ← loadState jobId
  let some s := StateMachine.transition current .fgCmd | return none
  if current = .stopped then discard (sendSignal job 18)
  return some s

/-- The end shared by `foreground` and `background`: the exchange to the state their load chose. -/
def loadThenCommit (jobId : Nat) (load : JM (Option JobState)) : JM Bool := do
  let some s ← load | return false
  commitState jobId s
  return true

def foreground (jobId : Nat) : JM Bool := loadThenCommit jobId (foregroundLoad jobId)

/-- `background` up to its load of the state, as `foregroundLoad`. -/
def backgroundLoad (jobId : Nat) (resume : Bool) : JM (Option JobState) := do
  let some job ← getJob jobId | return none
  let current ← loadState jobId
  let some s := StateMachine.transition current .bgCmd | return none
  if resume ∧ current = .stopped then discard (sendSignal job 18)
  return some s

def background (jobId : Nat) (resume : Bool) : JM Bool :=
  loadThenCommit jobId (backgroundLoad jobId resume)

/-- `stop` and `terminate`: look the job up and signal its group. -/
def signalJob (jobId : Nat) (sig : Nat) : JM Bool := do
  let some job ← getJob jobId | return false
  sendSignal job sig

def stop (jobId : Nat) : JM Bool := signalJob jobId 20

def terminate (jobId : Nat) (force : Bool) : JM Bool := signalJob jobId (if force then 9 else 15)

def handleCtrlC : JM Unit := do
  let some job ← getForegroundJob | return
  discard (sendSignal job 2)

/-- `handleCtrlZ` up to its `SIGTSTP`: the job it found in the foreground. -/
def handleCtrlZLoad : JM (Option Nat) := do
  let some job ← getForegroundJob | return none
  discard (sendSignal job 20)
  return some job.jobId

def handleCtrlZ : JM Unit := do
  let some jobId ← handleCtrlZLoad | return
  commitState jobId .stopped

/-- `reapJob`'s `waitpid(pid, &status, WNOHANG)`: an exit or a kill is collected into the block. -/
def collectStatus (j : JobControlBlock) : JobControlBlock :=
  match j.child with
  | .exited code => { j with child := .reaped, exitCode := code, exitedNormally := true }
  | .signaled sig => { j with child := .reaped, exitCode := 128 + sig, exitedNormally := false }
  | _ => j

/-- `reapJob`: the job becomes `TERMINATED` whatever `waitpid` collected. -/
def reapJob (jobId : Nat) : JM Unit := do
  updateJob jobId collectStatus
  commitState jobId .terminated

/-- The epoll branch of `processEvents` over the job ids `epoll_wait` returned. -/
def processEpoll : List Nat → JM Nat
  | [] => return 0
  | jobId :: events => do
    let some _ ← getJob jobId | processEpoll events
    reapJob jobId
    return (← processEpoll events) + 1

/-- One job of the fallback sweep, run with `jobsMutex` held: `waitpid(WNOHANG | WUNTRACED)`
reports an exit or a stop; a kill is collected but matches neither test. -/
def sweepJob (job : JobControlBlock) : JM Nat := do
  if job.state = .terminated then return 0
  match job.child with
  | .exited code =>
    updateJob job.jobId fun j => { j with child := .reaped, exitCode := code, exitedNormally := true }
    commitState job.jobId .terminated
    return 1
  | .stopped _ =>
    updateJob job.jobId fun j => { j with child := .running }
    commitState job.jobId .stopped
    return 1
  | .signaled _ =>
    updateJob job.jobId fun j => { j with child := .reaped }
    return 0
  | _ => return 0

def sweep : List JobControlBlock → JM Nat
  | [] => return 0
  | job :: jobs => do
    let n ← sweepJob job
    return (← sweep jobs) + n

/-- `processEvents`; `events` is what `epoll_wait` returns on the epoll branch. -/
def processEvents (events : List Nat) : JM Nat := do
  let m ← get
  if m.linux then
    if m.epollOpen then processEpoll events else return 0
  else
    lockJobs
    let n ← sweep (← get).jobs
    unlockJobs
    return n

/-- `wait(jobId, 0)`, the form the shell uses: `rounds` are the batches the successive
`processEvents` calls see. `none` means the rounds ran out with the job not `TERMINATED`: the
loop of the code has no timeout and polls again. -/
def waitLoop (jobId : Nat) : List (List Nat) → JM (Option Int)
  | [] => return none
  | events :: rounds => do
    let some job := (← get).findJob jobId | return none
    if job.state = .terminated then return some job.exitCode
    discard (processEvents events)
    waitLoop jobId rounds

def wait (jobId : Nat) (rounds : List (List Nat)) : JM (Option Int) := do
  let some _ ← getJob jobId | return some (-1)
  waitLoop jobId rounds

/-- The loop of `shutdown` over the table's entries: `terminate(id, true)` for each job not
`TERMINATED`. -/
def shutdownJobs : List JobControlBlock → JM Unit
  | [] => pure ()
  | job :: jobs => do
    if job.state ≠ .terminated then discard (terminate job.jobId true)
    shutdownJobs jobs

/-- `shutdown`, also run by the destructor. -/
def shutdown : JM Unit := do
  lockJobs
  shutdownJobs (← get).jobs
  modify fun m => { m with jobs := [], epollOpen := false }
  unlockJobs

def onStatusChange (cb : StatusCallback) : JM Unit :=
  modify fun m => { m with statusCallbacks := m.statusCallbacks ++ [cb] }

/-- The public calls of `JobManager`; the destructor runs `shutdown`. -/
inductive Op where
  | spawn (background : Bool) (env : SpawnEnv)
  | getJob (jobId : Nat)
  | getActiveJobs
  | getForegroundJob
  | foreground (jobId : Nat)
  | background (jobId : Nat) (resume : Bool)
  | stop (jobId : Nat)
  | terminate (jobId : Nat) (force : Bool)
  | wait (jobId : Nat) (rounds : List (List Nat))
  | handleCtrlC
  | handleCtrlZ
  | processEvents (events : List Nat)
  | onStatusChange (cb : StatusCallback)
  | shutdown

def Op.exec : Op → JM Unit
  | .spawn bg env => discard (JobManager.spawn bg env)
  | .getJob jobId => discard (JobManager.getJob jobId)
  | .getActiveJobs => discard JobManager.getActiveJobs
  | .getForegroundJob => discard JobManager.getForegroundJob
  | .foreground jobId => discard (JobManager.foreground jobId)
  | .background jobId resume => discard (JobManager.background jobId resume)
  | .stop jobId => discard (JobManager.stop jobId)
  | .terminate jobId force => discard (JobManager.terminate jobId force)
  | .wait jobId rounds => discard (JobManager.wait jobId rounds)
  | .handleCtrlC => JobManager.handleCtrlC
  | .handleCtrlZ => JobManager.handleCtrlZ
  | .processEvents events => discard (JobManager.processEvents events)
  | .onStatusChange cb => JobManager.onStatusChange cb
  | .shutdown => JobManager.shutdown

end JobManager

end AriaShell.Job
