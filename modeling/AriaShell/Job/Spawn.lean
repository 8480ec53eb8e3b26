import AriaShell.Job.Transitions
/-! The ids `spawn` hands out. `nextJobId` is a `uint32_t` that `spawn` post-increments before it
knows whether the pipes and the fork succeed, and `jobs[jobId] = std::move(jcb)` overwrites an
entry already under that key. So the `i`-th call returns `(1 + i) mod 2^32` or `0`: after
`2^32 - 1` calls the counter reaches `0` and a successful call returns the failure value while
adding a job, and a call `2^32` later than a successful one returns its id again. -/
namespace AriaShell.Job.JobManager

variable {m : JobManager}

/-- Whether `spawn` gets past `createPipes` and `fork`. -/
def SpawnEnv.succeeds (env : SpawnEnv) : Bool := env.pipesOk && env.forkOk

/-- A sequence of `spawn` calls, with the ids they return. -/
def spawnAll : List (Bool × SpawnEnv) → JM (List Nat)
  | [] => pure []
  | (background, env) :: calls => do
    let jobId ← spawn background env
    return jobId :: (← spawnAll calls)

/-- The job a successful `spawn` inserts. -/
def spawnedJob (m : JobManager) (background : Bool) (env : SpawnEnv) : JobControlBlock :=
  ⟨m.nextJobId, if background then .background else .foreground, .forked, 0, false,
    m.linux && env.pidfdOk && m.epollOpen⟩

/-- The manager after one `spawn` from `m`: the counter moved on, and the job inserted when the
pipes and the fork succeed. -/
def afterSpawn (m : JobManager) (background : Bool) (env : SpawnEnv) : JobManager :=
  { m with nextJobId := (m.nextJobId + 1) % 2 ^ 32,
           jobs := if env.succeeds then insertJob (spawnedJob m background env) m.jobs else m.jobs }

@[simp] private theorem afterSpawn_locked (m : JobManager) (background : Bool) (env : SpawnEnv) :
    (afterSpawn m background env).locked = m.locked := rfl

@[simp] private theorem afterSpawn_nextJobId (m : JobManager) (background : Bool) (env : SpawnEnv) :
    (afterSpawn m background env).nextJobId = (m.nextJobId + 1) % 2 ^ 32 := rfl

@[simp] private theorem afterSpawn_jobs (m : JobManager) (background : Bool) (env : SpawnEnv) :
    (afterSpawn m background env).jobs =
      if env.succeeds then insertJob (spawnedJob m background env) m.jobs else m.jobs := rfl

private theorem spawn_run (hm : m.locked = false) (background : Bool) (env : SpawnEnv) :
    (spawn background env).run m =
      .ok (if env.succeeds then m.nextJobId else 0, afterSpawn m background env) := by
  unfold spawn
  rw [run_bind_ok (lockJobs_run_of_unlocked hm), run_get_bind]
  cases m
  simp only at hm
  subst hm
  obtain ⟨_ | _, _ | _, _⟩ := env <;> rfl


private theorem spawnAll_run (calls : List (Bool × SpawnEnv)) (hm : m.locked = false) (hn : m.nextJobId < 2 ^ 32) :
    ∃ ids m', (spawnAll calls).run m = .ok (ids, m') ∧ m'.locked = false ∧
      m'.nextJobId = (m.nextJobId + calls.length) % 2 ^ 32 ∧
      (∀ i c, calls[i]? = some c →
        ids[i]? = some (if c.2.succeeds then (m.nextJobId + i) % 2 ^ 32 else 0)) ∧
      ∀ j ∈ m'.jobs, j ∈ m.jobs ∨ ∃ i < calls.length, j.jobId = (m.nextJobId + i) % 2 ^ 32 := by
  induction calls generalizing m with
  | nil => exact ⟨[], m, rfl, hm, by simp; omega, by simp, fun j hj => .inl hj⟩
  | cons call calls ih =>
    obtain ⟨background, env⟩ := call
    obtain ⟨ids, m', hrun, hl, hnext, hids, hjobs⟩ :=
      ih (m := afterSpawn m background env) hm (Nat.mod_lt _ (by decide))
    simp only [afterSpawn_nextJobId] at hnext hids hjobs
    refine ⟨(if env.succeeds then m.nextJobId else 0) :: ids, m', ?_, hl, ?_, fun i c hc => ?_,
      fun j hj => ?_⟩
    · simp only [spawnAll]
      rw [run_bind_ok (spawn_run hm _ _), run_bind_ok hrun]
      rfl
    · rw [hnext]
      simp only [List.length_cons]
      omega
    · cases i with
      | zero =>
        rw [List.getElem?_cons_zero] at hc
        obtain rfl := Option.some.inj hc
        simp only [List.getElem?_cons_zero, Nat.add_zero, Nat.mod_eq_of_lt hn]
      | succ i =>
        rw [List.getElem?_cons_succ] at hc ⊢
        rw [hids i c hc]
        congr 2
        omega
    · rcases hjobs j hj with hj | ⟨i, hi, hid⟩
      · rw [afterSpawn_jobs] at hj
        split_ifs at hj
        · rcases mem_insertJob hj with rfl | hj
          · exact .inr ⟨0, by simp, by simp [spawnedJob]; omega⟩
          · exact .inl hj
        · exact .inl hj
      · exact .inr ⟨i + 1, by simp; omega, by rw [hid]; omega⟩


/-- Every call of every sequence of `spawn` calls on a freshly initialised manager, seen as the
call after the `k` calls before it: it returns `0` and keeps the table when it fails, and
`(1 + k) mod 2^32` when it succeeds. So a successful call after `2^32 - 1` others returns `0` yet
inserts a job, and a successful call `2^32` after another returns that call's id again. -/
theorem spawn_ids_wrap (linux : Bool) (callbacks : List StatusCallback)
    (calls : List (Bool × SpawnEnv)) (background : Bool) (env : SpawnEnv) :
    ∃ ids m₁ jobId m₂, (spawnAll calls).run (init linux callbacks) = .ok (ids, m₁) ∧
      (spawn background env).run m₁ = .ok (jobId, m₂) ∧
      jobId = (if env.succeeds then (1 + calls.length) % 2 ^ 32 else 0) ∧
      (env.succeeds = false → m₂.jobs = m₁.jobs) ∧
      (calls.length = 2 ^ 32 - 1 → env.succeeds → jobId = 0 ∧ m₂.jobs ≠ m₁.jobs) ∧
      ∀ i c, calls[i]? = some c → c.2.succeeds → env.succeeds → calls.length = i + 2 ^ 32 →
        ids[i]? = some jobId := by
  obtain ⟨ids, m₁, hrun, hl, hnext, hids, hjobs⟩ :=
    spawnAll_run calls (m := init linux callbacks) rfl (by simp [init])
  simp only [init] at hnext hids hjobs
  refine ⟨ids, m₁, _, _, hrun, spawn_run hl background env, by rw [hnext], fun h => by simp [h],
    fun hk hs => ?_, fun i c hc hcs hs hk => ?_⟩
  · have h0 : m₁.nextJobId = 0 := by omega
    refine ⟨by simp [hs, h0], fun h => ?_⟩
    have hmem : spawnedJob m₁ background env ∈ (afterSpawn m₁ background env).jobs := by
      rw [afterSpawn_jobs, if_pos hs]
      exact mem_insertJob_self _ _
    rw [h] at hmem
    rcases hjobs _ hmem with h' | ⟨i, hi, hid⟩
    · cases h'
    · simp only [spawnedJob, h0] at hid
      omega
  · rw [hids i c hc, if_pos hcs, if_pos hs, hnext, hk]
    exact congrArg some (by omega)

end AriaShell.Job.JobManager
