import AriaShell.Job.Locking

/-! Job state changes on the epoll path when the `SIGCHLD` and `SIGTSTP` handlers interrupt the
main thread between a load of a job's state and its exchange: which announcements reach the
observers, and how many jobs can be in the foreground. -/
namespace AriaShell.Job.JobManager

variable {m m' : JobManager} {α β : Type}

/-- The state `loadState` reads. -/
def stateOf (m : JobManager) (jobId : Nat) : JobState :=
  ((m.findJob jobId).map (·.state)).getD .none

/-- `job->state = s` for the job `jobId`. -/
def setState (jobId : Nat) (s : JobState) (jobs : List JobControlBlock) : List JobControlBlock :=
  jobs.map fun j => if j.jobId = jobId then { j with state := s } else j

private theorem run_eq_ok_bind {x : JM α} {f : α → JM β} {b : β} (h : (x >>= f).run m = .ok (b, m')) :
    ∃ a m₁, x.run m = .ok (a, m₁) ∧ (f a).run m₁ = .ok (b, m') := by
  rcases hx : x.run m with e | ⟨a, m₁⟩
  · rw [run_bind_error hx] at h; cases h
  · exact ⟨a, m₁, rfl, by rwa [run_bind_ok hx] at h⟩

private theorem lockedRead_run (hl : m.locked = false) {γ : Type} (g : JobManager → γ) :
    (do lockJobs; let r := g (← get); unlockJobs; return r : JM γ).run m =
      .ok (g { m with locked := true }, m) := by
  rw [run_bind_ok (lockJobs_run_of_unlocked hl)]
  cases m
  simp only at hl
  subst hl
  rfl

theorem getJob_run (hl : m.locked = false) (jobId : Nat) : (getJob jobId).run m = .ok (m.findJob jobId, m) :=
  lockedRead_run hl _

private theorem getForegroundJob_run (hl : m.locked = false) :
    getForegroundJob.run m = .ok (m.jobs.find? (·.state = .foreground), m) :=
  lockedRead_run hl _

private theorem discard_getJob_run (hl : m.locked = false) (jobId : Nat) :
    (discard (getJob jobId)).run m = .ok ((), m) := by
  show (Function.const _ PUnit.unit <$> getJob jobId).run m = _
  rw [StateT.run_map, getJob_run hl]; rfl

private theorem runCallbacks_run (hl : m.locked = false) (jobId : Nat) (old new : JobState)
    (cbs : List StatusCallback) : (runCallbacks jobId old new cbs).run m = .ok ((), m) := by
  induction cbs with
  | nil => rfl
  | cons cb cbs ih =>
    have hcb : (runCallback jobId old new cb).run m = .ok ((), m) := by
      cases cb
      unfold runCallback
      split_ifs <;> first | rfl | exact discard_getJob_run hl _
    rw [runCallbacks, run_bind_ok hcb, ih]

private theorem commitState_run (hl : m.locked = false) (jobId : Nat) (s : JobState) :
    (commitState jobId s).run m = .ok ((), { m with
      jobs := setState jobId s m.jobs
      log := m.log ++ [⟨jobId, stateOf m jobId, s, false⟩] }) := by
  cases m
  simp only at hl
  subst hl
  exact runCallbacks_run rfl _ _ _ _

theorem getActiveJobs_run (hl : m.locked = false) :
    getActiveJobs.run m = .ok (((m.jobs.filter (·.state ≠ .terminated)).map (·.jobId)), m) :=
  lockedRead_run hl _

/-! ### Entries rewritten in place -/

section Entries
variable {f : JobControlBlock → JobControlBlock} (hf : ∀ j, (f j).jobId = j.jobId)
include hf

private theorem ids_map (jobs : List JobControlBlock) : (jobs.map f).map (·.jobId) = jobs.map (·.jobId) := by
  simp [List.map_map, Function.comp_def, hf]

theorem findJob_map (jobId : Nat) :
    ({ m with jobs := m.jobs.map f } : JobManager).findJob jobId = (m.findJob jobId).map f := by
  simp [findJob, List.find?_map, Function.comp_def, hf]

private theorem exists_id_map {jobId : Nat} :
    (∃ j ∈ m.jobs.map f, j.jobId = jobId) ↔ ∃ j ∈ m.jobs, j.jobId = jobId := by
  simp [hf]

end Entries

private theorem setState_jobId (jobId : Nat) (s : JobState) (j : JobControlBlock) :
    (if j.jobId = jobId then { j with state := s } else j).jobId = j.jobId := by
  split_ifs <;> rfl

theorem findJob_mem {jobId : Nat} {j : JobControlBlock} (h : m.findJob jobId = some j) :
    j ∈ m.jobs ∧ j.jobId = jobId := by
  unfold findJob at h
  exact ⟨List.mem_of_find?_eq_some h, by simpa using List.find?_some h⟩

private theorem findJob_isSome {jobId : Nat} (h : ∃ j ∈ m.jobs, j.jobId = jobId) : ∃ j, m.findJob jobId = some j := by
  obtain ⟨j, hj, hid⟩ := h
  exact Option.isSome_iff_exists.mp (List.find?_isSome.mpr ⟨j, hj, by simpa using hid⟩)

/-- With distinct ids, the entry found for `j`'s id is `j`. -/
theorem findJob_of_mem (hids : (m.jobs.map (·.jobId)).Nodup) {j : JobControlBlock} (hj : j ∈ m.jobs) :
    m.findJob j.jobId = some j := by
  obtain ⟨j', hj'⟩ := findJob_isSome ⟨j, hj, rfl⟩
  obtain ⟨hmem, hid⟩ := findJob_mem hj'
  rw [hj', List.inj_on_of_nodup_map hids hmem hj hid]

private theorem stateOf_setState_of_ne {jobId jobId' : Nat} (s : JobState) (h : jobId' ≠ jobId) :
    stateOf { m with jobs := setState jobId s m.jobs } jobId' = stateOf m jobId' := by
  unfold stateOf
  rw [setState, findJob_map (setState_jobId jobId s)]
  rcases hj : m.findJob jobId' with _ | j
  · rfl
  · simp [(findJob_mem hj).2, h]

private theorem stateOf_map {f : JobControlBlock → JobControlBlock} (hf : ∀ j, (f j).jobId = j.jobId)
    (hs : ∀ j, (f j).state = j.state) (jobId : Nat) :
    stateOf { m with jobs := m.jobs.map f } jobId = stateOf m jobId := by
  simp [stateOf, findJob_map hf, Option.map_map, Function.comp_def, hs]

@[simp] theorem collectStatus_jobId (j : JobControlBlock) : (collectStatus j).jobId = j.jobId := by
  unfold collectStatus; split <;> rfl

@[simp] private theorem collectStatus_state (j : JobControlBlock) : (collectStatus j).state = j.state := by
  unfold collectStatus; split <;> rfl

private theorem mem_ids_insertJob {jcb : JobControlBlock} {jobs : List JobControlBlock} {x : Nat}
    (h : x ∈ (insertJob jcb jobs).map (·.jobId)) : x = jcb.jobId ∨ x ∈ jobs.map (·.jobId) := by
  induction jobs with
  | nil => simpa [insertJob] using h
  | cons j js ih =>
    unfold insertJob at h
    split_ifs at h with hj
    · simp only [List.map_cons, List.mem_cons] at h ⊢
      rcases h with h | h <;> simp [h]
    · simp only [List.map_cons, List.mem_cons] at h ⊢
      rcases h with h | h
      · exact .inr (.inl h)
      · rcases ih h with h | h <;> simp [h]

private theorem insertJob_ids {jcb : JobControlBlock} {jobs : List JobControlBlock}
    (h : (jobs.map (·.jobId)).Nodup) : ((insertJob jcb jobs).map (·.jobId)).Nodup := by
  induction jobs with
  | nil => simp [insertJob]
  | cons j js ih =>
    rw [List.map_cons, List.nodup_cons] at h
    unfold insertJob
    split_ifs with hj
    · rwa [List.map_cons, List.nodup_cons, ← hj]
    · refine List.nodup_cons.mpr ⟨fun hm => ?_, ih h.2⟩
      rcases mem_ids_insertJob hm with h' | h'
      exacts [hj h', h.1 h']

theorem mem_insertJob {jcb j : JobControlBlock} {jobs : List JobControlBlock}
    (h : j ∈ insertJob jcb jobs) : j = jcb ∨ j ∈ jobs := by
  induction jobs with
  | nil => simpa [insertJob] using h
  | cons k ks ih =>
    unfold insertJob at h
    split_ifs at h
    · rcases List.mem_cons.mp h with h | h
      exacts [.inl h, .inr (.tail _ h)]
    · rcases List.mem_cons.mp h with h | h
      · exact .inr (h ▸ .head _)
      · exact (ih h).imp_right (.tail _)

/-! ### What the epoll path keeps -/

/-- An announcement the transition table allows, those from `TERMINATED` set apart. -/
def Announced (n : Notification) : Prop :=
  n.oldState ≠ .terminated → ValidChange n.oldState n.newState

/-- What every state of the epoll path reached from `initialize` satisfies. -/
structure Good (m : JobManager) : Prop where
  linux : m.linux = true
  unlocked : m.locked = false
  ids : (m.jobs.map (·.jobId)).Nodup
  live : ∀ j ∈ m.jobs, j.state ≠ .none

/-- `m'` holds the jobs of `m`, each in its state or `TERMINATED`. -/
def Evolves (m m' : JobManager) : Prop :=
  (∀ jobId, (∃ j ∈ m'.jobs, j.jobId = jobId) ↔ ∃ j ∈ m.jobs, j.jobId = jobId) ∧
    ∀ jobId, stateOf m' jobId = stateOf m jobId ∨ stateOf m' jobId = .terminated

theorem Evolves.refl (m : JobManager) : Evolves m m := ⟨fun _ => .rfl, fun _ => .inl rfl⟩

theorem Evolves.trans {m₁ m₂ m₃ : JobManager} (h₁ : Evolves m₁ m₂) (h₂ : Evolves m₂ m₃) :
    Evolves m₁ m₃ := by
  refine ⟨fun jobId => (h₂.1 jobId).trans (h₁.1 jobId), fun jobId => ?_⟩
  rcases h₂.2 jobId with h | h
  · rw [h]; exact h₁.2 jobId
  · exact .inr h

theorem Good.withState (hm : Good m) {s : JobState} (hs : s ≠ .none) (jobId : Nat)
    (log : List Notification) : Good { m with jobs := setState jobId s m.jobs, log := log } := by
  refine ⟨hm.linux, hm.unlocked, by rw [JobManager.setState, ids_map (setState_jobId jobId s)]; exact hm.ids, ?_⟩
  simp only [JobManager.setState, List.mem_map]
  rintro _ ⟨j, hj, rfl⟩
  split_ifs
  exacts [hs, hm.live j hj]

private theorem announced_exit (hm : Good m) {jobId : Nat} (h : ∃ j ∈ m.jobs, j.jobId = jobId) :
    Announced ⟨jobId, stateOf m jobId, .terminated, false⟩ := by
  obtain ⟨j, hj⟩ := findJob_isSome h
  intro ht
  refine validChange_childExit ?_ ht
  simp only [stateOf, hj, Option.map_some', Option.getD_some]
  exact hm.live j (findJob_mem hj).1

theorem Good.map {f : JobControlBlock → JobControlBlock} (hm : Good m) (hf : ∀ j, (f j).jobId = j.jobId)
    (hs : ∀ j, (f j).state = j.state) : Good { m with jobs := m.jobs.map f } :=
  ⟨hm.linux, hm.unlocked, by rw [ids_map hf]; exact hm.ids,
    by simp only [List.mem_map]; rintro _ ⟨j, hj, rfl⟩; rw [hs]; exact hm.live j hj⟩

private theorem evolves_map {f : JobControlBlock → JobControlBlock} (hf : ∀ j, (f j).jobId = j.jobId)
    (hs : ∀ j, (f j).state = j.state) : Evolves m { m with jobs := m.jobs.map f } :=
  ⟨fun _ => exists_id_map hf, fun k => .inl (stateOf_map hf hs k)⟩

private theorem evolves_terminate (jobId : Nat) (log : List Notification) :
    Evolves m { m with jobs := setState jobId .terminated m.jobs, log := log } := by
  refine ⟨fun _ => exists_id_map (setState_jobId jobId _), fun k => ?_⟩
  show stateOf { m with jobs := setState jobId .terminated m.jobs } k = stateOf m k ∨
    stateOf { m with jobs := setState jobId .terminated m.jobs } k = .terminated
  unfold stateOf
  rw [setState, findJob_map (setState_jobId jobId _)]
  rcases m.findJob k with _ | j
  · exact .inl rfl
  · by_cases h : j.jobId = jobId <;> simp [h]

/-- The entry update of `reapJob`. -/
def collectOf (jobId : Nat) (j : JobControlBlock) : JobControlBlock :=
  if j.jobId = jobId then collectStatus j else j

@[simp] private theorem collectOf_jobId (jobId : Nat) (j : JobControlBlock) : (collectOf jobId j).jobId = j.jobId := by
  unfold collectOf; split_ifs <;> simp

@[simp] private theorem collectOf_state (jobId : Nat) (j : JobControlBlock) : (collectOf jobId j).state = j.state := by
  unfold collectOf; split_ifs <;> simp

theorem reapJob_run (hl : m.locked = false) (jobId : Nat) :
    (reapJob jobId).run m = .ok ((), { m with
      jobs := setState jobId .terminated (m.jobs.map (collectOf jobId))
      log := m.log ++ [⟨jobId, stateOf m jobId, .terminated, false⟩] }) := by
  rw [reapJob, run_bind_ok (rfl : (updateJob jobId collectStatus).run m =
    .ok ((), { m with jobs := m.jobs.map (collectOf jobId) }))]
  exact (commitState_run (m := { m with jobs := m.jobs.map (collectOf jobId) }) hl _ _).trans
    (by rw [stateOf_map (collectOf_jobId jobId) (collectOf_state jobId)])

private theorem processEpoll_spec (events : List Nat) : ∀ m n m', Good m →
    (processEpoll events).run m = .ok (n, m') →
    Good m' ∧ (∃ new, m'.log = m.log ++ new ∧ ∀ x ∈ new, Announced x) ∧ Evolves m m' := by
  induction events with
  | nil =>
    intro m n m' hm h
    cases h
    exact ⟨hm, ⟨[], by simp, by simp⟩, .refl m⟩
  | cons jobId events ih =>
    intro m n m' hm h
    rw [processEpoll, run_bind_ok (getJob_run hm.unlocked _)] at h
    rcases hj : m.findJob jobId with _ | j
    · simp only [hj] at h
      exact ih m n m' hm h
    simp only [hj] at h
    have hX : ∃ j ∈ m.jobs, j.jobId = jobId := ⟨j, findJob_mem hj⟩
    rw [run_bind_ok (reapJob_run hm.unlocked jobId)] at h
    obtain ⟨n₁, m₁, h₁, h₂⟩ := run_eq_ok_bind h
    have hmc := hm.map (collectOf_jobId jobId) (collectOf_state jobId)
    obtain ⟨hm', ⟨new, hlog, hnew⟩, hev⟩ := ih _ _ _ (hmc.withState (s := .terminated) (by decide) jobId
      (m.log ++ [⟨jobId, stateOf m jobId, .terminated, false⟩])) h₁
    cases h₂
    refine ⟨hm', ⟨⟨jobId, stateOf m jobId, .terminated, false⟩ :: new, by simp [hlog], ?_⟩,
      ((evolves_map (collectOf_jobId jobId) (collectOf_state jobId)).trans (evolves_terminate _ _)).trans hev⟩
    rintro x (_ | ⟨_, hx⟩)
    exacts [announced_exit hm hX, hnew x hx]

private theorem processEvents_spec (events : List Nat) {n : Nat} (hm : Good m)
    (h : (processEvents events).run m = .ok (n, m')) :
    Good m' ∧ (∃ new, m'.log = m.log ++ new ∧ ∀ x ∈ new, Announced x) ∧ Evolves m m' := by
  unfold processEvents at h
  rw [run_get_bind] at h
  simp only [hm.linux, if_true] at h
  split_ifs at h
  · exact processEpoll_spec events m n m' hm h
  · cases h
    exact ⟨hm, ⟨[], by simp, by simp⟩, .refl m⟩

/-- `m'` differs from `m` at most in the signals sent and the callbacks and counters that no
invariant here reads. -/
structure SameJobs (m m' : JobManager) : Prop where
  jobs : m'.jobs = m.jobs
  log : m'.log = m.log
  locked : m'.locked = m.locked
  linux : m'.linux = m.linux

theorem Good.sameJobs (hm : Good m) (h : SameJobs m m') : Good m' :=
  ⟨h.linux ▸ hm.linux, h.locked ▸ hm.unlocked, h.jobs ▸ hm.ids, h.jobs ▸ hm.live⟩

theorem SameJobs.stateOf (h : SameJobs m m') (jobId : Nat) : stateOf m' jobId = stateOf m jobId := by
  simp [JobManager.stateOf, findJob, h.jobs]

theorem SameJobs.findJob (h : SameJobs m m') (jobId : Nat) : m'.findJob jobId = m.findJob jobId := by
  simp [JobManager.findJob, h.jobs]

/-- What `foregroundLoad` and `backgroundLoad` promise the exchange that follows them. -/
def LoadsFor (m : JobManager) (jobId : Nat) (e : JobEvent) (r : Option JobState) : Prop :=
  ∀ s, r = some s → (∃ j ∈ m.jobs, j.jobId = jobId) ∧ StateMachine.transition (stateOf m jobId) e = some s

private theorem foregroundLoad_run (hl : m.locked = false) (jobId : Nat) :
    ∃ r m', (foregroundLoad jobId).run m = .ok (r, m') ∧ SameJobs m m' ∧ LoadsFor m jobId .fgCmd r := by
  unfold foregroundLoad
  rw [run_bind_ok (getJob_run hl _)]
  rcases hj : m.findJob jobId with _ | j
  · exact ⟨none, m, rfl, ⟨rfl, rfl, rfl, rfl⟩, fun _ h => by cases h⟩
  dsimp only
  rw [run_bind_ok (rfl : (loadState jobId).run m = .ok (stateOf m jobId, m))]
  split
  · rename_i s ht
    have hr : LoadsFor m jobId .fgCmd (some s) := fun s' h => ⟨⟨j, findJob_mem hj⟩, by cases h; exact ht⟩
    split_ifs
    · exact ⟨_, _, rfl, ⟨rfl, rfl, rfl, rfl⟩, hr⟩
    · exact ⟨_, _, rfl, ⟨rfl, rfl, rfl, rfl⟩, hr⟩
  · exact ⟨none, m, rfl, ⟨rfl, rfl, rfl, rfl⟩, fun _ h => by cases h⟩

private theorem backgroundLoad_run (hl : m.locked = false) (jobId : Nat) (resume : Bool) :
    ∃ r m', (backgroundLoad jobId resume).run m = .ok (r, m') ∧ SameJobs m m' ∧
      LoadsFor m jobId .bgCmd r := by
  unfold backgroundLoad
  rw [run_bind_ok (getJob_run hl _)]
  rcases hj : m.findJob jobId with _ | j
  · exact ⟨none, m, rfl, ⟨rfl, rfl, rfl, rfl⟩, fun _ h => by cases h⟩
  dsimp only
  rw [run_bind_ok (rfl : (loadState jobId).run m = .ok (stateOf m jobId, m))]
  split
  · rename_i s ht
    have hr : LoadsFor m jobId .bgCmd (some s) := fun s' h => ⟨⟨j, findJob_mem hj⟩, by cases h; exact ht⟩
    split_ifs
    · exact ⟨_, _, rfl, ⟨rfl, rfl, rfl, rfl⟩, hr⟩
    · exact ⟨_, _, rfl, ⟨rfl, rfl, rfl, rfl⟩, hr⟩
  · exact ⟨none, m, rfl, ⟨rfl, rfl, rfl, rfl⟩, fun _ h => by cases h⟩

private theorem handleCtrlZLoad_run (hl : m.locked = false) :
    ∃ r m', handleCtrlZLoad.run m = .ok (r, m') ∧ SameJobs m m' ∧
      ∀ jobId, r = some jobId → ∃ j ∈ m.jobs, j.jobId = jobId ∧ j.state = .foreground := by
  unfold handleCtrlZLoad
  rw [run_bind_ok (getForegroundJob_run hl)]
  split
  · rename_i j hj
    refine ⟨some j.jobId, _, rfl, ⟨rfl, rfl, rfl, rfl⟩, fun _ h => ?_⟩
    cases h
    exact ⟨j, List.mem_of_find?_eq_some hj, rfl, by simpa using List.find?_some hj⟩
  · exact ⟨none, m, rfl, ⟨rfl, rfl, rfl, rfl⟩, fun _ h => by cases h⟩

private theorem handleCtrlC_run (hl : m.locked = false) :
    ∃ m', handleCtrlC.run m = .ok ((), m') ∧ SameJobs m m' := by
  unfold handleCtrlC
  rw [run_bind_ok (getForegroundJob_run hl)]
  split
  · exact ⟨_, rfl, rfl, rfl, rfl, rfl⟩
  · exact ⟨m, rfl, rfl, rfl, rfl, rfl⟩

private theorem signalJob_run (hl : m.locked = false) (jobId sig : Nat) :
    ∃ b m', (signalJob jobId sig).run m = .ok (b, m') ∧ SameJobs m m' := by
  unfold signalJob
  rw [run_bind_ok (getJob_run hl _)]
  rcases m.findJob jobId with _ | j
  · exact ⟨_, m, rfl, rfl, rfl, rfl, rfl⟩
  · exact ⟨_, _, rfl, rfl, rfl, rfl, rfl⟩

/-- From a `Good` state, `x` returns (when it returns) to a `Good` state, having announced only
what `Announced` allows. -/
def Keeps (x : JM α) : Prop :=
  ∀ m a m', Good m → x.run m = .ok (a, m') →
    Good m' ∧ ∃ new, m'.log = m.log ++ new ∧ ∀ n ∈ new, Announced n

namespace Keeps

protected theorem pure (a : α) : Keeps (pure a : JM α) := by
  intro m b m' hm h
  cases h
  exact ⟨hm, [], by simp, by simp⟩

protected theorem bind {x : JM α} {f : α → JM β} (hx : Keeps x) (hf : ∀ a, Keeps (f a)) :
    Keeps (x >>= f) := by
  intro m b m₂ hm h
  obtain ⟨a, m₁, h₁, h₂⟩ := run_eq_ok_bind h
  obtain ⟨hm₁, new₁, hlog₁, hn₁⟩ := hx m a m₁ hm h₁
  obtain ⟨hm₂, new₂, hlog₂, hn₂⟩ := hf a m₁ b m₂ hm₁ h₂
  exact ⟨hm₂, new₁ ++ new₂, by simp [hlog₂, hlog₁],
    fun n hn => (List.mem_append.mp hn).elim (hn₁ n) (hn₂ n)⟩

protected theorem discard {x : JM α} (hx : Keeps x) : Keeps (discard x) := by
  intro m b m' hm h
  change (Function.const α PUnit.unit <$> x).run m = _ at h
  rw [StateT.run_map] at h
  rcases hx' : x.run m with e | ⟨a, m₁⟩
  · rw [hx'] at h; cases h
  · rw [hx'] at h
    cases h
    exact hx m a m₁ hm hx'

theorem of_sameJobs {x : JM α} (h : ∀ m, Good m → ∃ a m', x.run m = .ok (a, m') ∧ SameJobs m m') :
    Keeps x := by
  intro m a m' hm hx
  obtain ⟨a₀, m₀, hx₀, hs⟩ := h m hm
  rw [hx₀] at hx
  cases hx
  exact ⟨hm.sameJobs hs, [], by simp [hs.log], by simp⟩

end Keeps

private theorem commitState_keeps (hm : Good m) {jobId : Nat} {s : JobState} (hs : s ≠ .none)
    (hann : Announced ⟨jobId, stateOf m jobId, s, false⟩) (h : (commitState jobId s).run m = .ok ((), m')) :
    Good m' ∧ ∃ new, m'.log = m.log ++ new ∧ ∀ n ∈ new, Announced n := by
  rw [commitState_run hm.unlocked] at h
  cases h
  exact ⟨hm.withState hs jobId _, _, rfl, by simpa using hann⟩

private theorem keeps_loadCommit {load : JM (Option JobState)} {jobId : Nat} {e : JobEvent}
    (hload : ∀ m, Good m → ∃ r m', load.run m = .ok (r, m') ∧ SameJobs m m' ∧ LoadsFor m jobId e r) :
    Keeps (loadThenCommit jobId load) := by
  intro m a m₂ hm h
  unfold loadThenCommit at h
  obtain ⟨r, m₁, h₁, hs, hr⟩ := hload m hm
  rw [run_bind_ok h₁] at h
  have hm₁ := hm.sameJobs hs
  rcases r with _ | s
  · cases h
    exact ⟨hm₁, [], by simp [hs.log], by simp⟩
  obtain ⟨-, ht⟩ := hr s rfl
  obtain ⟨_, m₃, h₃, h₄⟩ := run_eq_ok_bind h
  cases h₄
  obtain ⟨hm₃, new, hlog, hnew⟩ := commitState_keeps hm₁ (StateMachine.transition_ne_none ht)
    (fun _ => ⟨e, by rw [hs.stateOf]; exact ht⟩) h₃
  exact ⟨hm₃, new, by rw [hlog, hs.log], hnew⟩

private theorem keeps_foreground (jobId : Nat) : Keeps (foreground jobId) :=
  keeps_loadCommit fun _ hm => foregroundLoad_run hm.unlocked jobId

private theorem keeps_background (jobId : Nat) (resume : Bool) : Keeps (background jobId resume) :=
  keeps_loadCommit fun _ hm => backgroundLoad_run hm.unlocked jobId resume

private theorem keeps_handleCtrlZ : Keeps handleCtrlZ := by
  intro m a m₂ hm h
  obtain ⟨r, m₁, h₁, hs, hr⟩ := handleCtrlZLoad_run hm.unlocked
  rw [handleCtrlZ, run_bind_ok h₁] at h
  have hm₁ := hm.sameJobs hs
  rcases r with _ | jobId
  · cases h
    exact ⟨hm₁, [], by simp [hs.log], by simp⟩
  obtain ⟨j, hj, rfl, hfg⟩ := hr _ rfl
  have hstate : stateOf m₁ j.jobId = .foreground := by
    rw [hs.stateOf]
    simp [stateOf, findJob_of_mem hm.ids hj, hfg]
  obtain ⟨hm₂, new, hlog, hnew⟩ := commitState_keeps hm₁ (by decide)
    (fun _ => ⟨.ctrlZ, by rw [hstate]; rfl⟩) h
  exact ⟨hm₂, new, by rw [hlog, hs.log], hnew⟩

private theorem keeps_processEvents (events : List Nat) : Keeps (processEvents events) :=
  fun _ _ _ hm h => (processEvents_spec events hm h).imp_right And.left

private theorem keeps_waitLoop (jobId : Nat) (rounds : List (List Nat)) : Keeps (waitLoop jobId rounds) := by
  induction rounds with
  | nil => exact .pure _
  | cons events rounds ih =>
    refine .bind (.of_sameJobs fun m _ => ⟨m, m, rfl, rfl, rfl, rfl, rfl⟩) fun s => ?_
    split
    · dsimp only
      split_ifs
      · exact .pure _
      · exact .bind (.pure _) fun _ => .bind (keeps_processEvents _).discard fun _ => ih
    · exact .pure _

private theorem keeps_spawn (background : Bool) (env : SpawnEnv) : Keeps (spawn background env) := by
  intro m a m' hm h
  unfold spawn at h
  rw [run_bind_ok (lockJobs_run_of_unlocked hm.unlocked), run_get_bind] at h
  have hlive : ∀ jcb : JobControlBlock, jcb.state ≠ .none → ∀ j ∈ insertJob jcb m.jobs, j.state ≠ .none :=
    fun jcb hs j hj => (mem_insertJob hj).elim (fun h => h ▸ hs) (hm.live j)
  have hbg : (if background then JobState.background else .foreground) ≠ .none := by split <;> decide
  obtain ⟨_ | _, _ | _, _⟩ := env <;> cases h
  all_goals first
    | exact ⟨⟨hm.linux, rfl, hm.ids, hm.live⟩, [], by simp, by simp⟩
    | exact ⟨⟨hm.linux, rfl, insertJob_ids hm.ids, hlive _ hbg⟩, [], by simp, by simp⟩

private theorem keeps_shutdown : Keeps shutdown := by
  intro m a m' hm h
  rw [shutdown, run_bind_ok (lockJobs_run_of_unlocked hm.unlocked), run_get_bind] at h
  have hj := shutdownJobs_run (m := { m with locked := true }) rfl m.jobs
  split_ifs at hj
  · rw [run_bind_error hj] at h; cases h
  · rw [run_bind_ok hj] at h
    cases h
    exact ⟨⟨hm.linux, rfl, List.nodup_nil, by simp⟩, [], by simp, by simp⟩

private theorem keeps_exec (op : Op) : Keeps op.exec := by
  cases op with
  | spawn b env => exact (keeps_spawn _ _).discard
  | getJob jobId => exact (Keeps.of_sameJobs fun m hm => ⟨_, m, getJob_run hm.unlocked _, rfl, rfl, rfl, rfl⟩).discard
  | getActiveJobs => exact (Keeps.of_sameJobs fun m hm => ⟨_, m, getActiveJobs_run hm.unlocked, rfl, rfl, rfl, rfl⟩).discard
  | getForegroundJob => exact (Keeps.of_sameJobs fun m hm => ⟨_, m, getForegroundJob_run hm.unlocked, rfl, rfl, rfl, rfl⟩).discard
  | foreground jobId => exact (keeps_foreground _).discard
  | background jobId resume => exact (keeps_background _ _).discard
  | stop jobId => exact (Keeps.of_sameJobs fun m hm => signalJob_run hm.unlocked _ _).discard
  | terminate jobId force => exact (Keeps.of_sameJobs fun m hm => signalJob_run hm.unlocked _ _).discard
  | wait jobId rounds =>
    exact (Keeps.bind (.of_sameJobs fun m hm => ⟨_, m, getJob_run hm.unlocked _, rfl, rfl, rfl, rfl⟩)
      fun r => by rcases r with _ | _; exacts [.pure _, keeps_waitLoop _ _]).discard
  | handleCtrlC => exact .of_sameJobs fun _ hm => ⟨(), handleCtrlC_run hm.unlocked⟩
  | handleCtrlZ => exact keeps_handleCtrlZ
  | processEvents events => exact (keeps_processEvents _).discard
  | onStatusChange cb => exact .of_sameJobs fun m _ => ⟨_, _, rfl, rfl, rfl, rfl, rfl⟩
  | shutdown => exact keeps_shutdown

/-! ### The handlers interleaved with the main thread -/

/-- The job manager, with what the main thread and the `SIGTSTP` handler have left to do of a call
they are in the middle of. -/
structure System where
  jm : JobManager
  /-- `foreground` or `background` past its load: the job and the state it will exchange in -/
  mainPending : Option (Nat × JobState)
  /-- `handleCtrlZ` past `getForegroundJob`: the job it will move to `STOPPED` -/
  ctrlZPending : Option Nat

def System.init : System := ⟨JobManager.init true [], none, none⟩

/-- A move: a whole call of the main thread, either half of `foreground`, `background` or of the
`SIGTSTP` handler's `handleCtrlZ`, the `SIGCHLD` handler's `processEvents(0)` (epoll reporting
pidfds of terminated children), the `SIGINT` handler, or a child changing status (its
`setpgid(0, 0)`, a stop, a continue or its end). The handlers run on the main thread, so they
interrupt it between its calls or between a load and its exchange; these are the runs that go
on. A handler that interrupts a call while it holds `jobsMutex` locks the mutex again and the
shell hangs there (`Job/Hangs.lean`). -/
inductive Step : System → System → Prop
  | call {s : System} {op : Op} {jm : JobManager} :
      s.mainPending = none → s.ctrlZPending = none → op.exec.run s.jm = .ok ((), jm) →
      Step s { s with jm := jm }
  | foregroundLoad {s : System} {jobId : Nat} {r : Option JobState} {jm : JobManager} :
      s.mainPending = none → s.ctrlZPending = none → (foregroundLoad jobId).run s.jm = .ok (r, jm) →
      Step s { s with jm := jm, mainPending := r.map (jobId, ·) }
  | backgroundLoad {s : System} {jobId : Nat} {resume : Bool} {r : Option JobState} {jm : JobManager} :
      s.mainPending = none → s.ctrlZPending = none → (backgroundLoad jobId resume).run s.jm = .ok (r, jm) →
      Step s { s with jm := jm, mainPending := r.map (jobId, ·) }
  | commit {s : System} {jobId : Nat} {new : JobState} {jm : JobManager} :
      s.mainPending = some (jobId, new) → s.ctrlZPending = none →
      (commitState jobId new).run s.jm = .ok ((), jm) → Step s { s with jm := jm, mainPending := none }
  | sigchld {s : System} {events : List Nat} {n : Nat} {jm : JobManager} :
      (∀ jobId ∈ events, ∃ j, s.jm.findJob jobId = some j ∧ j.watched ∧ j.child.terminated) →
      (processEvents events).run s.jm = .ok (n, jm) → Step s { s with jm := jm }
  | sigtstpLoad {s : System} {r : Option Nat} {jm : JobManager} :
      s.ctrlZPending = none → handleCtrlZLoad.run s.jm = .ok (r, jm) →
      Step s { s with jm := jm, ctrlZPending := r }
  | sigtstpCommit {s : System} {jobId : Nat} {jm : JobManager} :
      s.ctrlZPending = some jobId → (commitState jobId .stopped).run s.jm = .ok ((), jm) →
      Step s { s with jm := jm, ctrlZPending := none }
  | sigint {s : System} {jm : JobManager} :
      handleCtrlC.run s.jm = .ok ((), jm) → Step s { s with jm := jm }
  | child {s : System} {jobId : Nat} {c : Child} :
      c ≠ .forked → c ≠ .reaped → Step s { s with jm := { s.jm with
        jobs := s.jm.jobs.map fun j => if j.jobId = jobId then { j with child := c } else j } }

inductive Reachable : System → Prop
  | init : Reachable System.init
  | step {s s' : System} : Reachable s → Step s s' → Reachable s'

/-- What holds in every reachable system: the table is `Good`, every announcement so far is one
`Announced` allows, and a pending exchange is to a state the table allows from the job's state
at the load, which by now is that state or `TERMINATED`. -/
structure Inv (s : System) : Prop where
  good : Good s.jm
  announced : ∀ n ∈ s.jm.log, Announced n
  main : ∀ jobId new, s.mainPending = some (jobId, new) → (∃ j ∈ s.jm.jobs, j.jobId = jobId) ∧
    ∃ cur, cur ≠ .foreground ∧ ValidChange cur new ∧
      (stateOf s.jm jobId = cur ∨ stateOf s.jm jobId = .terminated)
  ctrlZ : ∀ jobId, s.ctrlZPending = some jobId → (∃ j ∈ s.jm.jobs, j.jobId = jobId) ∧
    (stateOf s.jm jobId = .foreground ∨ stateOf s.jm jobId = .terminated)
  apart : ∀ jobId new jobId', s.mainPending = some (jobId, new) → s.ctrlZPending = some jobId' →
    jobId ≠ jobId'

theorem Inv.init : Inv System.init where
  good := ⟨rfl, rfl, List.nodup_nil, by simp [JobManager.init, System.init]⟩
  announced := by simp [JobManager.init, System.init]
  main _ _ h := by cases h
  ctrlZ _ h := by cases h
  apart _ _ _ h := by cases h

section Inv
variable {s : System} {jm : JobManager}

private theorem announced_append {l l' new : List Notification} (ha : ∀ n ∈ l, Announced n)
    (hnew : ∀ n ∈ new, Announced n) (h : l' = l ++ new) : ∀ n ∈ l', Announced n := by
  subst h
  intro n hn
  rcases List.mem_append.mp hn with h | h
  exacts [ha n h, hnew n h]

private theorem announced_commit {m : JobManager} {jobId : Nat} {cur new : JobState} (hv : ValidChange cur new)
    (hst : stateOf m jobId = cur ∨ stateOf m jobId = .terminated) :
    ∀ n ∈ [(⟨jobId, stateOf m jobId, new, false⟩ : Notification)], Announced n := by
  intro n hn hne
  rw [List.mem_singleton.mp hn] at hne ⊢
  rcases hst with h | h
  · exact h ▸ hv
  · exact absurd h hne

theorem Inv.sameJobs (hi : Inv s) (h : SameJobs s.jm jm) : Inv { s with jm := jm } where
  good := hi.good.sameJobs h
  announced := h.log ▸ hi.announced
  main X new hp := by
    obtain ⟨hex, cur, hcur⟩ := hi.main X new hp
    exact ⟨h.jobs ▸ hex, cur, by rwa [h.stateOf]⟩
  ctrlZ X hp := by
    obtain ⟨hex, hz⟩ := hi.ctrlZ X hp
    exact ⟨h.jobs ▸ hex, by rwa [h.stateOf]⟩
  apart := hi.apart

theorem Inv.evolve (hi : Inv s) (hg : Good jm) (hlog : ∃ new, jm.log = s.jm.log ++ new ∧ ∀ n ∈ new, Announced n)
    (hev : Evolves s.jm jm) : Inv { s with jm := jm } where
  good := hg
  announced := let ⟨_, hl, hn⟩ := hlog; announced_append hi.announced hn hl
  main X new hp := by
    obtain ⟨hex, cur, hfg, hv, hst⟩ := hi.main X new hp
    refine ⟨(hev.1 X).mpr hex, cur, hfg, hv, ?_⟩
    rcases hev.2 X with h | h
    · rwa [h]
    · exact .inr h
  ctrlZ X hp := by
    obtain ⟨hex, hst⟩ := hi.ctrlZ X hp
    refine ⟨(hev.1 X).mpr hex, ?_⟩
    rcases hev.2 X with h | h
    · rwa [h]
    · exact .inr h
  apart := hi.apart

/-- An idle main thread and handler: any `Good` table with allowed announcements keeps `Inv`. -/
theorem Inv.idle (hi : Inv s) (hmain : s.mainPending = none) (hz : s.ctrlZPending = none) (hg : Good jm)
    (hlog : ∃ new, jm.log = s.jm.log ++ new ∧ ∀ n ∈ new, Announced n) : Inv { s with jm := jm } where
  good := hg
  announced := let ⟨_, hl, hn⟩ := hlog; announced_append hi.announced hn hl
  main _ _ h := absurd (h.symm.trans hmain) (by simp)
  ctrlZ _ h := absurd (h.symm.trans hz) (by simp)
  apart _ _ _ h := absurd (h.symm.trans hmain) (by simp)

/-- The load of `foreground` or `background`: the event it checks is not allowed from
`FOREGROUND`. -/
theorem Inv.load (hi : Inv s) {jobId : Nat} {e : JobEvent} {r : Option JobState}
    (hz : s.ctrlZPending = none) (hs : SameJobs s.jm jm) (hr : LoadsFor s.jm jobId e r)
    (he : StateMachine.transition .foreground e = none) :
    Inv { s with jm := jm, mainPending := r.map (jobId, ·) } where
  good := hi.good.sameJobs hs
  announced := hs.log ▸ hi.announced
  main X new hp := by
    obtain ⟨new', hr', heq⟩ := Option.map_eq_some'.mp hp
    cases heq
    obtain ⟨hex, ht⟩ := hr new hr'
    refine ⟨hs.jobs ▸ hex, stateOf s.jm jobId, fun h => ?_, ⟨e, ht⟩, .inl (hs.stateOf _)⟩
    rw [h, he] at ht
    cases ht
  ctrlZ _ h := absurd (h.symm.trans hz) (by simp)
  apart _ _ _ _ h := absurd (h.symm.trans hz) (by simp)

theorem Inv.step (hi : Inv s) {s' : System} (h : Step s s') : Inv s' := by
  cases h with
  | call hmain hz hrun =>
    obtain ⟨hg, hlog⟩ := keeps_exec _ _ _ _ hi.good hrun
    exact hi.idle hmain hz hg hlog
  | foregroundLoad hmain hz hrun =>
    obtain ⟨r, m', hrun', hs, hr⟩ := foregroundLoad_run hi.good.unlocked _
    rw [hrun'] at hrun
    cases hrun
    exact hi.load hz hs hr rfl
  | backgroundLoad hmain hz hrun =>
    obtain ⟨r, m', hrun', hs, hr⟩ := backgroundLoad_run hi.good.unlocked _ _
    rw [hrun'] at hrun
    cases hrun
    exact hi.load hz hs hr rfl
  | @commit jobId new _ hmain hz hrun =>
    rw [commitState_run hi.good.unlocked] at hrun
    cases hrun
    obtain ⟨_, cur, -, ⟨e, he⟩, hst⟩ := hi.main jobId new hmain
    exact ⟨hi.good.withState (StateMachine.transition_ne_none he) _ _,
      announced_append hi.announced (announced_commit ⟨e, he⟩ hst) rfl, (fun _ _ h => nomatch h),
      fun _ h => absurd (h.symm.trans hz) (by simp), fun _ _ _ h => nomatch h⟩
  | sigchld _ hrun =>
    obtain ⟨hg, hlog, hev⟩ := processEvents_spec _ hi.good hrun
    exact hi.evolve hg hlog hev
  | sigtstpLoad hz hrun =>
    obtain ⟨r, m', hrun', hs, hr⟩ := handleCtrlZLoad_run hi.good.unlocked
    rw [hrun'] at hrun
    cases hrun
    have hfg : ∀ Y (j : JobControlBlock), j ∈ s.jm.jobs → j.jobId = Y → j.state = .foreground →
        stateOf s.jm Y = .foreground := by
      rintro _ j hj rfl hjs
      simp [stateOf, findJob_of_mem hi.good.ids hj, hjs]
    refine ⟨hi.good.sameJobs hs, hs.log ▸ hi.announced, fun X new hp => ?_, fun Y hY => ?_,
      fun X new Y hp hY hXY => ?_⟩
    · obtain ⟨hex, cur, hcur⟩ := hi.main X new hp
      exact ⟨hs.jobs ▸ hex, cur, by rwa [hs.stateOf]⟩
    · obtain ⟨j, hj, rfl, hjs⟩ := hr Y hY
      exact ⟨hs.jobs ▸ ⟨j, hj, rfl⟩, .inl (by rw [hs.stateOf]; exact hfg _ j hj rfl hjs)⟩
    · subst hXY
      obtain ⟨j, hj, hjid, hjs⟩ := hr _ hY
      obtain ⟨-, cur, hcur, -, hst⟩ := hi.main X new hp
      rw [hfg X j hj hjid hjs] at hst
      rcases hst with h | h
      · exact hcur h.symm
      · cases h
  | @sigtstpCommit jobId _ hz hrun =>
    rw [commitState_run hi.good.unlocked] at hrun
    cases hrun
    obtain ⟨_, hst⟩ := hi.ctrlZ jobId hz
    refine ⟨hi.good.withState (by decide) _ _,
      announced_append hi.announced (announced_commit (⟨.ctrlZ, rfl⟩ : ValidChange .foreground .stopped) hst) rfl,
      fun X new hp => ?_, (fun _ h => nomatch h), fun _ _ _ _ h => nomatch h⟩
    have hne := hi.apart X new jobId hp hz
    obtain ⟨hex, cur, hcur⟩ := hi.main X new hp
    refine ⟨(exists_id_map (setState_jobId jobId _)).mpr hex, cur, hcur.1, hcur.2.1, ?_⟩
    convert hcur.2.2 using 2 <;> exact stateOf_setState_of_ne (m := s.jm) _ hne
  | sigint hrun =>
    obtain ⟨m', hrun', hs⟩ := handleCtrlC_run hi.good.unlocked
    rw [hrun'] at hrun
    cases hrun
    exact hi.sameJobs hs
  | @child jobId c _ _ =>
    have hf : ∀ j : JobControlBlock, (if j.jobId = jobId then { j with child := c } else j).jobId = j.jobId := by
      intro j; split_ifs <;> rfl
    have hs : ∀ j : JobControlBlock, (if j.jobId = jobId then { j with child := c } else j).state = j.state := by
      intro j; split_ifs <;> rfl
    exact hi.evolve (hi.good.map hf hs) ⟨[], by simp, by simp⟩ (evolves_map hf hs)

theorem Reachable.inv {s : System} (h : Reachable s) : Inv s := by
  induction h with
  | init => exact .init
  | step _ hst ih => exact ih.step hst

end Inv

/-- In every run of the epoll path, with the handlers interrupting anywhere between a load and an
exchange, every announcement not made from `TERMINATED` is a change the transition table allows. -/
theorem announced_of_reachable {s : System} (h : Reachable s) : ∀ n ∈ s.jm.log, Announced n :=
  h.inv.announced

/-- `fg` on a job started in the background announces `BACKGROUND → FOREGROUND`. -/
theorem announced_of_reachable_fg :
    ∃ s, Reachable s ∧ s.jm.log = [⟨1, .background, .foreground, false⟩] ∧ ∀ n ∈ s.jm.log, Announced n := by
  have h := (Reachable.init.step (@Step.call _ (.spawn true ⟨true, true, true⟩) _ rfl rfl rfl)).step
    (@Step.call _ (.foreground 1) _ rfl rfl rfl)
  exact ⟨_, h, rfl, announced_of_reachable h⟩

/-- A terminated job's pidfd stays readable, so the next `processEvents` reaps it again and
announces `TERMINATED → TERMINATED`; and a `SIGCHLD` between the load and the exchange of
`foreground` moves a terminated job back to `FOREGROUND`. -/
theorem terminated_announced_again_and_left :
    (∃ s, Reachable s ∧ (⟨1, .terminated, .terminated, false⟩ : Notification) ∈ s.jm.log) ∧
    ∃ s, Reachable s ∧ (⟨1, .terminated, .foreground, false⟩ : Notification) ∈ s.jm.log ∧
      stateOf s.jm 1 = .foreground := by
  have hready : ∀ {s : System} {jobId : Nat} {j : JobControlBlock}, s.jm.findJob jobId = some j →
      j.watched = true → j.child.terminated = true →
      ∀ x ∈ [jobId], ∃ j, s.jm.findJob x = some j ∧ j.watched ∧ j.child.terminated := by
    intro s jobId j hj hw ht x hx
    rw [List.mem_singleton.mp hx]
    exact ⟨j, hj, hw, ht⟩
  have h₁ : Reachable ⟨⟨[⟨1, .background, .forked, 0, false, true⟩], 2, false, [], true, true, [], []⟩,
      none, none⟩ :=
    .step .init (@Step.call _ (.spawn true ⟨true, true, true⟩) _ rfl rfl rfl)
  have h₂ : Reachable ⟨⟨[⟨1, .background, .exited 0, 0, false, true⟩], 2, false, [], true, true, [], []⟩,
      none, none⟩ :=
    h₁.step (@Step.child _ 1 (.exited 0) (by decide) (by decide))
  have h₃ : Reachable ⟨⟨[⟨1, .terminated, .reaped, 0, true, true⟩], 2, false, [], true, true,
      [⟨1, .background, .terminated, false⟩], []⟩, none, none⟩ :=
    h₂.step (Step.sigchld (@hready _ 1 _ rfl rfl rfl) rfl)
  have h₄ : Reachable ⟨⟨[⟨1, .terminated, .reaped, 0, true, true⟩], 2, false, [], true, true,
      [⟨1, .background, .terminated, false⟩, ⟨1, .terminated, .terminated, false⟩], []⟩, none, none⟩ :=
    h₃.step (Step.sigchld (@hready _ 1 _ rfl rfl rfl) rfl)
  have g₂ : Reachable ⟨⟨[⟨1, .background, .forked, 0, false, true⟩], 2, false, [], true, true, [], []⟩,
      some (1, .foreground), none⟩ :=
    h₁.step (@Step.foregroundLoad _ 1 (some .foreground) _ rfl rfl rfl)
  have g₃ : Reachable ⟨⟨[⟨1, .background, .exited 0, 0, false, true⟩], 2, false, [], true, true, [], []⟩,
      some (1, .foreground), none⟩ :=
    g₂.step (@Step.child _ 1 (.exited 0) (by decide) (by decide))
  have g₄ : Reachable ⟨⟨[⟨1, .terminated, .reaped, 0, true, true⟩], 2, false, [], true, true,
      [⟨1, .background, .terminated, false⟩], []⟩, some (1, .foreground), none⟩ :=
    g₃.step (Step.sigchld (@hready _ 1 _ rfl rfl rfl) rfl)
  have g₅ : Reachable ⟨⟨[⟨1, .foreground, .reaped, 0, true, true⟩], 2, false, [], true, true,
      [⟨1, .background, .terminated, false⟩, ⟨1, .terminated, .foreground, false⟩], []⟩, none, none⟩ :=
    g₄.step (Step.commit rfl rfl rfl)
  exact ⟨⟨_, h₄, by decide⟩, _, g₅, by decide, rfl⟩

theorem mem_insertJob_self (jcb : JobControlBlock) (jobs : List JobControlBlock) :
    jcb ∈ insertJob jcb jobs := by
  induction jobs with
  | nil => exact .head _
  | cons j js ih =>
    unfold insertJob
    split_ifs
    exacts [.head _, .tail _ ih]

private theorem mem_insertJob_of_ne {jcb j : JobControlBlock} {jobs : List JobControlBlock} (hj : j ∈ jobs)
    (h : j.jobId ≠ jcb.jobId) : j ∈ insertJob jcb jobs := by
  induction jobs with
  | nil => cases hj
  | cons k ks ih =>
    unfold insertJob
    rcases List.mem_cons.mp hj with rfl | hj
    · rw [if_neg h]; exact .head _
    · split_ifs
      exacts [.tail _ hj, .tail _ (ih hj)]

/-- `spawn` marks a foreground job `FOREGROUND` whatever the table holds: spawned while another
job is in the foreground, it leaves two jobs in `FOREGROUND`. -/
theorem spawn_foreground_beside_foreground (hm : m.locked = false) {env : SpawnEnv}
    (henv : env.pipesOk = true ∧ env.forkOk = true) {j : JobControlBlock} (hj : j ∈ m.jobs)
    (hfg : j.state = .foreground) (hid : j.jobId ≠ m.nextJobId) :
    ∃ m', (spawn false env).run m = .ok (m.nextJobId, m') ∧
      ∃ j₁ ∈ m'.jobs, ∃ j₂ ∈ m'.jobs, j₁.jobId ≠ j₂.jobId ∧ j₁.state = .foreground ∧
        j₂.state = .foreground := by
  obtain ⟨p, f, d⟩ := env
  obtain ⟨rfl, rfl⟩ := henv
  unfold spawn
  rw [run_bind_ok (lockJobs_run_of_unlocked hm), run_get_bind]
  exact ⟨_, rfl, _, mem_insertJob_self _ _, j, mem_insertJob_of_ne hj hid, hid.symm, rfl, hfg⟩

theorem spawn_foreground_beside_foreground_second :
    (⟨[⟨1, .foreground, .running, 0, false, true⟩], 2, false, [], true, true, [], []⟩ : JobManager).locked = false ∧
    ∃ m', (spawn false ⟨true, true, true⟩).run
        ⟨[⟨1, .foreground, .running, 0, false, true⟩], 2, false, [], true, true, [], []⟩ = .ok (2, m') ∧
      ∃ j₁ ∈ m'.jobs, ∃ j₂ ∈ m'.jobs, j₁.jobId ≠ j₂.jobId ∧ j₁.state = .foreground ∧
        j₂.state = .foreground :=
  ⟨rfl, spawn_foreground_beside_foreground rfl ⟨rfl, rfl⟩ (List.mem_singleton_self _) rfl (by decide)⟩

end AriaShell.Job.JobManager
