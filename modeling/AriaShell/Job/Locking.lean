import AriaShell.Job.Manager

/-! The discipline of `jobsMutex`: on the epoll path every call but `shutdown` takes the mutex only
while it is free and notifies only while it is free; `shutdown` and the fallback sweep do not. -/
namespace AriaShell.Job.JobManager

variable {m m' : JobManager} {α β γ : Type}

theorem run_bind_ok {x : JM α} {f : α → JM β} {a : α} (hx : x.run m = .ok (a, m')) :
    (x >>= f).run m = (f a).run m' := by
  simp only [StateT.run_bind, hx]; rfl

theorem run_bind_error {x : JM α} {f : α → JM β} {e : Fault} (hx : x.run m = .error e) :
    (x >>= f).run m = .error e := by
  simp only [StateT.run_bind, hx]; rfl

private theorem run_discard_error {x : JM α} {e : Fault} (hx : x.run m = .error e) :
    (discard x).run m = .error e := by
  show (Function.const α PUnit.unit <$> x).run m = _
  rw [StateT.run_map, hx]; rfl

theorem run_discard_ok {x : JM α} {a : α} (hx : x.run m = .ok (a, m')) : (discard x).run m = .ok ((), m') := by
  show (Function.const α PUnit.unit <$> x).run m = _
  rw [StateT.run_map, hx]; rfl

theorem run_get_bind {f : JobManager → JM β} : (get >>= f).run m = (f m).run m := rfl

theorem lockJobs_run_of_locked (h : m.locked = true) : lockJobs.run m = .error .relock := by
  simp [lockJobs, h]; rfl

theorem lockJobs_run_of_unlocked (h : m.locked = false) :
    lockJobs.run m = .ok ((), { m with locked := true }) := by
  simp [lockJobs, h]; rfl

theorem getJob_run_of_locked (h : m.locked = true) (jobId : Nat) :
    (getJob jobId).run m = .error .relock :=
  run_bind_error (lockJobs_run_of_locked h)

private theorem terminate_run_of_locked (h : m.locked = true) (jobId : Nat) (force : Bool) :
    (terminate jobId force).run m = .error .relock :=
  run_bind_error (getJob_run_of_locked h jobId)

/-- On the epoll path and from a free `jobsMutex`, `x` returns, frees the mutex again and notifies
only while it is free. -/
def LockSafe (x : JM α) : Prop :=
  ∀ m : JobManager, m.locked = false → m.linux = true → ∃ a m', x.run m = .ok (a, m') ∧ m'.locked = false ∧
    m'.linux = true ∧ ∃ new, m'.log = m.log ++ new ∧ ∀ n ∈ new, n.lockHeld = false

namespace LockSafe

protected theorem pure (a : α) : LockSafe (pure a : JM α) :=
  fun m hl hx => ⟨a, m, rfl, hl, hx, [], by simp, by simp⟩

protected theorem bind {x : JM α} {f : α → JM β} (hx : LockSafe x) (hf : ∀ a, LockSafe (f a)) :
    LockSafe (x >>= f) := by
  intro m hl hlin
  obtain ⟨a, m₁, h₁, hl₁, hlin₁, new₁, hlog₁, hn₁⟩ := hx m hl hlin
  obtain ⟨b, m₂, h₂, hl₂, hlin₂, new₂, hlog₂, hn₂⟩ := hf a m₁ hl₁ hlin₁
  refine ⟨b, m₂, by rw [run_bind_ok h₁, h₂], hl₂, hlin₂, new₁ ++ new₂, by simp [hlog₂, hlog₁], ?_⟩
  simp only [List.mem_append]
  rintro n (hn | hn)
  exacts [hn₁ n hn, hn₂ n hn]

protected theorem discard {x : JM α} (hx : LockSafe x) : LockSafe (discard x) := by
  intro m hl hlin
  obtain ⟨a, m₁, h₁, rest⟩ := hx m hl hlin
  exact ⟨(), m₁, by show (Function.const α PUnit.unit <$> x).run m = _; rw [StateT.run_map, h₁]; rfl, rest⟩

end LockSafe

/-- From a held mutex, the loop of `shutdown` stops in `terminate` at the first job not
`TERMINATED`. -/
theorem shutdownJobs_run (h : m.locked = true) (jobs : List JobControlBlock) :
    (shutdownJobs jobs).run m =
      if ∃ j ∈ jobs, j.state ≠ .terminated then .error .relock else .ok ((), m) := by
  induction jobs with
  | nil => rfl
  | cons j jobs ih =>
    by_cases hj : j.state = .terminated
    · simp [shutdownJobs, hj, ih]
    · simp only [shutdownJobs, hj, ne_eq, not_false_eq_true, if_true]
      rw [run_bind_error (run_discard_error (terminate_run_of_locked h _ _))]
      simp [hj]

/-- `shutdown` (and so the destructor) locks `jobsMutex` a second time exactly when some job is
not `TERMINATED`; the fallback sweep of `processEvents` notifies with the mutex held, and main's
callback then locks it a second time. -/
theorem jobsMutex_relocked_by_shutdown_and_sweep (hm : m.locked = false) :
    (shutdown.run m = .error .relock ↔ ∃ j ∈ m.jobs, j.state ≠ .terminated) ∧
    (processEvents []).run ⟨[⟨1, .background, .exited 0, 0, false, false⟩], 2, false, [.mainReport],
      false, false, [], []⟩ = .error .relock ∧
    ∃ m', (processEvents []).run ⟨[⟨1, .background, .exited 0, 0, false, false⟩], 2, false, [],
      false, false, [], []⟩ = .ok (1, m') ∧ m'.log = [⟨1, .background, .terminated, true⟩] := by
  refine ⟨?_, rfl, _, rfl, rfl⟩
  rw [shutdown, run_bind_ok (lockJobs_run_of_unlocked hm), run_get_bind]
  have h := shutdownJobs_run (m := { m with locked := true }) rfl m.jobs
  split_ifs at h with hj
  · simp [run_bind_error h, hj]
  · rw [run_bind_ok h]
    simp only [hj, iff_false]
    exact fun h' => by cases h'

theorem jobsMutex_relocked_by_shutdown_and_sweep_live :
    (⟨[⟨1, .background, .running, 0, false, true⟩], 2, false, [.mainReport], true, true, [], []⟩ :
      JobManager).locked = false ∧
    shutdown.run ⟨[⟨1, .background, .running, 0, false, true⟩], 2, false, [.mainReport], true, true,
      [], []⟩ = .error .relock :=
  ⟨rfl, (jobsMutex_relocked_by_shutdown_and_sweep rfl).1.mpr ⟨_, List.mem_singleton_self _, by decide⟩⟩

end AriaShell.Job.JobManager
