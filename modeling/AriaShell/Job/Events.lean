import AriaShell.Job.Transitions

/-! What one `processEvents` call does to the job table on each of its paths: the epoll branch
reaps every job whose pidfd `epoll_wait` returned; the fallback sweep acts on the status that
`waitpid(WNOHANG | WUNTRACED)` collects for each job. -/
namespace AriaShell.Job.JobManager

variable {m : JobManager}

private theorem findJob_of_jobs_map {m' : JobManager} {f : JobControlBlock → JobControlBlock}
    (hf : ∀ j, (f j).jobId = j.jobId) (h : m'.jobs = m.jobs.map f) (hids : (m.jobs.map (·.jobId)).Nodup)
    {j : JobControlBlock} (hj : j ∈ m.jobs) : m'.findJob j.jobId = some (f j) :=
  calc m'.findJob j.jobId = (m.findJob j.jobId).map f := by
        simp [findJob, h, List.find?_map, Function.comp_def, hf]
    _ = some (f j) := by rw [findJob_of_mem hids hj]; rfl

private theorem updateJob_run (jobId : Nat) (f : JobControlBlock → JobControlBlock) :
    (updateJob jobId f).run m =
      .ok ((), { m with jobs := m.jobs.map fun j => if j.jobId = jobId then f j else j }) := rfl

private theorem setState_update {f : JobControlBlock → JobControlBlock} (hf : ∀ j, (f j).jobId = j.jobId)
    (jobId : Nat) (s : JobState) (jobs : List JobControlBlock) :
    setState jobId s (jobs.map fun j => if j.jobId = jobId then f j else j) =
      jobs.map fun j => if j.jobId = jobId then { f j with state := s } else j := by
  simp only [setState, List.map_map]
  refine List.map_congr_left fun j _ => ?_
  by_cases h : j.jobId = jobId <;> simp [h, hf]

/-! ### The epoll branch -/

/-- The entry update of `reapJob jobId`: whatever status `waitpid` collects, then `TERMINATED`. -/
def reapEntry (jobId : Nat) (j : JobControlBlock) : JobControlBlock :=
  if j.jobId = jobId then { collectStatus j with state := .terminated } else j

/-- An entry once the epoll branch has handled the pidfds `events`. -/
def epollEntry (events : List Nat) (j : JobControlBlock) : JobControlBlock :=
  if j.jobId ∈ events then { collectStatus j with state := .terminated } else j

@[simp] theorem epollEntry_jobId (events : List Nat) (j : JobControlBlock) :
    (epollEntry events j).jobId = j.jobId := by
  unfold epollEntry; split_ifs <;> simp

private theorem setState_collectOf (jobId : Nat) (jobs : List JobControlBlock) :
    setState jobId .terminated (jobs.map (collectOf jobId)) = jobs.map (reapEntry jobId) :=
  setState_update collectStatus_jobId jobId .terminated jobs

private theorem collectStatus_withState (j : JobControlBlock) (s : JobState) :
    collectStatus { collectStatus j with state := s } = { collectStatus j with state := s } := by
  rcases j with ⟨_, _, _ | _ | _ | _ | _, _, _, _⟩ <;> rfl

private theorem epollEntry_reapEntry (jobId : Nat) (events : List Nat) (j : JobControlBlock) :
    epollEntry events (reapEntry jobId j) = epollEntry (jobId :: events) j := by
  by_cases h : j.jobId = jobId
  · rw [reapEntry, if_pos h, epollEntry, collectStatus_withState]
    simp [epollEntry, h]
  · simp [epollEntry, reapEntry, h]

private theorem processEpoll_run (events : List Nat) : ∀ m : JobManager, m.locked = false →
    ∃ n new, (processEpoll events).run m =
      .ok (n, { m with jobs := m.jobs.map (epollEntry events), log := m.log ++ new }) := by
  induction events with
  | nil =>
    intro m _
    refine ⟨0, [], ?_⟩
    rw [List.map_congr_left (g := id) fun j _ => if_neg (List.not_mem_nil j.jobId), List.map_id,
      List.append_nil]
    rfl
  | cons jobId events ih =>
    intro m hl
    rw [processEpoll, run_bind_ok (getJob_run hl _)]
    rcases hj : m.findJob jobId with _ | j
    · obtain ⟨n, new, h⟩ := ih m hl
      refine ⟨n, new, ?_⟩
      have hno : ∀ j ∈ m.jobs, j.jobId ≠ jobId := by
        simpa [findJob, List.find?_eq_none] using hj
      rw [h, List.map_congr_left fun j hmem => ?_]
      simp [epollEntry, hno j hmem]
    · obtain ⟨n, new, h⟩ := ih { m with
        jobs := m.jobs.map (reapEntry jobId)
        log := m.log ++ [⟨jobId, stateOf m jobId, .terminated, false⟩] } hl
      refine ⟨n + 1, ⟨jobId, stateOf m jobId, .terminated, false⟩ :: new, ?_⟩
      simp only
      rw [run_bind_ok (reapJob_run hl jobId), setState_collectOf, run_bind_ok h]
      simp only [List.map_map, Function.comp_def, epollEntry_reapEntry, List.append_assoc,
        List.singleton_append]
      rfl

theorem processEvents_epoll_run (hlin : m.linux = true) (hep : m.epollOpen = true)
    (hl : m.locked = false) (events : List Nat) :
    ∃ n new, (processEvents events).run m =
      .ok (n, { m with jobs := m.jobs.map (epollEntry events), log := m.log ++ new }) := by
  unfold processEvents
  rw [run_get_bind]
  simpa only [hlin, hep, if_true] using processEpoll_run events m hl

/-! ### The fallback sweep -/

/-- The entry `e` after the sweep has handled the snapshot `job`: an exit becomes
`TERMINATED` with its code, a stop `STOPPED`; a kill is collected and nothing else is written. -/
def sweepEntry (job e : JobControlBlock) : JobControlBlock :=
  if job.state = .terminated then e
  else match job.child with
    | .exited code =>
      { e with child := .reaped, exitCode := code, exitedNormally := true, state := .terminated }
    | .stopped _ => { e with child := .running, state := .stopped }
    | .signaled _ => { e with child := .reaped }
    | _ => e

@[simp] private theorem sweepEntry_jobId (job e : JobControlBlock) : (sweepEntry job e).jobId = e.jobId := by
  unfold sweepEntry
  split_ifs
  · rfl
  · split <;> rfl

/-- The entry `e` after the sweep over the snapshot `js`. -/
def sweptEntry (js : List JobControlBlock) (e : JobControlBlock) : JobControlBlock :=
  match js.find? (·.jobId = e.jobId) with
  | some job => sweepEntry job e
  | none => e

@[simp] private theorem sweptEntry_jobId (js : List JobControlBlock) (e : JobControlBlock) :
    (sweptEntry js e).jobId = e.jobId := by
  unfold sweptEntry; split <;> simp

private theorem commitState_run_of_quiet (hcb : m.statusCallbacks = []) (jobId : Nat) (s : JobState) :
    (commitState jobId s).run m = .ok ((), { m with
      jobs := setState jobId s m.jobs
      log := m.log ++ [⟨jobId, stateOf m jobId, s, m.locked⟩] }) := by
  cases m
  simp only at hcb
  subst hcb
  rfl

private theorem updateCommit_run (hcb : m.statusCallbacks = []) {f : JobControlBlock → JobControlBlock}
    (hf : ∀ j, (f j).jobId = j.jobId) (jobId : Nat) (s : JobState) (k : Nat) :
    ∃ new, (do updateJob jobId f; commitState jobId s; pure k : JM Nat).run m = .ok (k, { m with
      jobs := m.jobs.map fun j => if j.jobId = jobId then { f j with state := s } else j
      log := m.log ++ new }) := by
  let m₁ : JobManager := { m with jobs := m.jobs.map fun j => if j.jobId = jobId then f j else j }
  refine ⟨[⟨jobId, stateOf m₁ jobId, s, m.locked⟩], ?_⟩
  rw [run_bind_ok (updateJob_run jobId f), run_bind_ok (commitState_run_of_quiet (m := m₁) hcb jobId s),
    setState_update hf]
  rfl

private theorem sweepJob_run (hcb : m.statusCallbacks = []) (job : JobControlBlock) :
    ∃ n new, (sweepJob job).run m = .ok (n, { m with
      jobs := m.jobs.map fun e => if e.jobId = job.jobId then sweepEntry job e else e
      log := m.log ++ new }) := by
  unfold sweepJob
  by_cases hs : job.state = .terminated
  · refine ⟨0, [], ?_⟩
    simp [hs, sweepEntry]
    rfl
  simp only [if_neg hs, pure_bind]
  rcases hc : job.child with _ | _ | sig | code | sig | _
  · exact ⟨0, [], by simp [sweepEntry, hs, hc]; rfl⟩
  · exact ⟨0, [], by simp [sweepEntry, hs, hc]; rfl⟩
  · obtain ⟨new, h⟩ := updateCommit_run hcb (f := fun j => { j with child := .running }) (fun _ => rfl)
      job.jobId .stopped 1
    exact ⟨1, new, by simpa [sweepEntry, hs, hc] using h⟩
  · obtain ⟨new, h⟩ := updateCommit_run hcb
      (f := fun j => { j with child := .reaped, exitCode := code, exitedNormally := true }) (fun _ => rfl)
      job.jobId .terminated 1
    exact ⟨1, new, by simpa [sweepEntry, hs, hc] using h⟩
  · exact ⟨0, [], by simp [sweepEntry, hs, hc]; rfl⟩
  · exact ⟨0, [], by simp [sweepEntry, hs, hc]; rfl⟩

private theorem sweep_run (js : List JobControlBlock) (hids : (js.map (·.jobId)).Nodup) :
    ∀ m : JobManager, m.statusCallbacks = [] → ∃ n new, (sweep js).run m =
      .ok (n, { m with jobs := m.jobs.map (sweptEntry js), log := m.log ++ new }) := by
  induction js with
  | nil =>
    intro m _
    refine ⟨0, [], ?_⟩
    rw [List.map_congr_left (f := sweptEntry []) (g := id) fun j _ => rfl, List.map_id, List.append_nil]
    rfl
  | cons job js ih =>
    intro m hcb
    rw [List.map_cons, List.nodup_cons] at hids
    obtain ⟨n₁, new₁, h₁⟩ := sweepJob_run hcb job
    obtain ⟨n₂, new₂, h₂⟩ := ih hids.2 { m with
      jobs := m.jobs.map fun e => if e.jobId = job.jobId then sweepEntry job e else e
      log := m.log ++ new₁ } hcb
    refine ⟨n₂ + n₁, new₁ ++ new₂, ?_⟩
    rw [sweep, run_bind_ok h₁, run_bind_ok h₂, List.map_map, List.append_assoc,
      List.map_congr_left fun e _ => ?_]
    · rfl
    by_cases h : e.jobId = job.jobId
    · have hnone : js.find? (·.jobId = job.jobId) = none :=
        List.find?_eq_none.mpr fun x hx hxe => hids.1 (by
          rw [← of_decide_eq_true hxe]
          exact List.mem_map_of_mem (fun x : JobControlBlock => x.jobId) hx)
      simp [sweptEntry, h, hnone, List.find?_cons_of_pos]
    · simp [sweptEntry, h, List.find?_cons_of_neg, Ne.symm h]

private theorem processEvents_sweep_run (hlin : m.linux = false) (hl : m.locked = false)
    (hcb : m.statusCallbacks = []) (hids : (m.jobs.map (·.jobId)).Nodup) (events : List Nat) :
    ∃ n new, (processEvents events).run m =
      .ok (n, { m with jobs := m.jobs.map (sweptEntry m.jobs), log := m.log ++ new }) := by
  unfold processEvents
  rw [run_get_bind, if_neg (by simp [hlin]), run_bind_ok (lockJobs_run_of_unlocked hl), run_get_bind]
  obtain ⟨n, new, h⟩ := sweep_run m.jobs hids { m with locked := true } hcb
  rw [run_bind_ok h]
  refine ⟨n, new, ?_⟩
  cases m
  simp only at hl
  subst hl
  rfl

private theorem sweptEntry_self {js : List JobControlBlock} (hids : (js.map (·.jobId)).Nodup)
    {j : JobControlBlock} (hj : j ∈ js) : sweptEntry js j = sweepEntry j j := by
  have h : js.find? (·.jobId = j.jobId) = some j := findJob_of_mem (m := ⟨js, 0, false, [], false, false, [], []⟩) hids hj
  simp [sweptEntry, h]

/-! ### Status changes `processEvents` does not reflect -/

/-- On the epoll branch a stopped child is never reported: a pidfd polls readable only once its
process has terminated, so a batch of such pidfds leaves the job of a stopped child as it was.
On the fallback sweep a child killed by a signal is collected by `waitpid` and matches neither
`WIFEXITED` nor `WIFSTOPPED`, so its status is consumed while the job keeps its state and exit
code. -/
theorem processEvents_misses_stops_and_signal_deaths :
    (∀ (m : JobManager) (events : List Nat) (j : JobControlBlock) (s : Nat),
      m.linux = true → m.epollOpen = true → m.locked = false → (m.jobs.map (·.jobId)).Nodup →
      (∀ e ∈ m.jobs, e.jobId ∈ events → e.child.terminated = true) →
      j ∈ m.jobs → j.child = .stopped s →
      ∃ n m', (processEvents events).run m = .ok (n, m') ∧ m'.findJob j.jobId = some j) ∧
    (∀ (m : JobManager) (events : List Nat) (j : JobControlBlock) (s : Nat),
      m.linux = false → m.locked = false → m.statusCallbacks = [] → (m.jobs.map (·.jobId)).Nodup →
      j ∈ m.jobs → j.child = .signaled s → j.state ≠ .terminated →
      ∃ n m', (processEvents events).run m = .ok (n, m') ∧
        m'.findJob j.jobId = some { j with child := .reaped }) := by
  constructor
  · intro m events j s hlin hep hl hids hev hj hc
    obtain ⟨n, new, h⟩ := processEvents_epoll_run hlin hep hl events
    refine ⟨n, _, h, ?_⟩
    have hout : j.jobId ∉ events := fun hin => by simpa [hc, Child.terminated] using hev j hj hin
    rw [findJob_of_jobs_map (epollEntry_jobId events) rfl hids hj]
    simp [epollEntry, hout]
  · intro m events j s hlin hl hcb hids hj hc hs
    obtain ⟨n, new, h⟩ := processEvents_sweep_run hlin hl hcb hids events
    refine ⟨n, _, h, ?_⟩
    rw [findJob_of_jobs_map (sweptEntry_jobId m.jobs) rfl hids hj, sweptEntry_self hids hj]
    simp [sweepEntry, hs, hc]

/-- A foreground job whose child a `SIGTSTP` stopped, on the epoll path, and one whose child a
`SIGKILL` killed, on the fallback path. -/
theorem processEvents_misses_stops_and_signal_deaths_tstp_kill :
    (∃ n m', (processEvents []).run
        ⟨[⟨1, .foreground, .stopped 20, 0, false, true⟩], 2, false, [.mainReport], true, true, [], []⟩ =
          .ok (n, m') ∧ m'.findJob 1 = some ⟨1, .foreground, .stopped 20, 0, false, true⟩) ∧
    (∃ n m', (processEvents []).run
        ⟨[⟨1, .foreground, .signaled 9, 0, false, false⟩], 2, false, [], false, false, [], []⟩ =
          .ok (n, m') ∧ m'.findJob 1 = some ⟨1, .foreground, .reaped, 0, false, false⟩) :=
  ⟨processEvents_misses_stops_and_signal_deaths.1
      ⟨[⟨1, .foreground, .stopped 20, 0, false, true⟩], 2, false, [.mainReport], true, true, [], []⟩ []
      ⟨1, .foreground, .stopped 20, 0, false, true⟩ 20 rfl rfl rfl (by decide) (by decide) (by decide) rfl,
    processEvents_misses_stops_and_signal_deaths.2
      ⟨[⟨1, .foreground, .signaled 9, 0, false, false⟩], 2, false, [], false, false, [], []⟩ []
      ⟨1, .foreground, .signaled 9, 0, false, false⟩ 9 rfl rfl rfl (by decide) (by decide) rfl (by decide)⟩

end AriaShell.Job.JobManager
