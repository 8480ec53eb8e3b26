import AriaShell.Job.Events
/-! Two ways the shell hangs that the moves of `Step` leave out: a handler that interrupts the
main thread while it holds `jobsMutex`, and `wait(jobId, 0)` on a job whose child never
terminates. -/
namespace AriaShell.Job.JobManager

variable {m : JobManager} {jobId : Nat} {j : JobControlBlock}

/-! ### A handler inside a locked section -/

/-- After `spawn` of a foreground command, its child in its own group. -/
private theorem reachable_foreground_running :
    Reachable ⟨⟨[⟨1, .foreground, .running, 0, false, true⟩], 2, false, [], true, true, [], []⟩, none, none⟩ :=
  (Reachable.init.step (@Step.call _ (.spawn false ⟨true, true, true⟩) _ rfl rfl rfl)).step
    (@Step.child _ 1 .running (by decide) (by decide))

private theorem processEvents_keeps_entry (hlin : m.linux = true) (hl : m.locked = false) (hj : m.findJob jobId = some j)
    {events : List Nat} (hout : jobId ∉ events) :
    ∃ n m', (processEvents events).run m = .ok (n, m') ∧ m'.linux = true ∧ m'.locked = false ∧
      m'.findJob jobId = some j := by
  cases hep : m.epollOpen
  · refine ⟨0, m, ?_, hlin, hl, hj⟩
    rw [processEvents, run_get_bind]
    simp only [hlin, hep, if_true]
    rfl
  · obtain ⟨n, new, h⟩ := processEvents_epoll_run hlin hep hl events
    refine ⟨n, _, h, hlin, hl, (findJob_map (epollEntry_jobId events) jobId).trans ?_⟩
    rw [hj, Option.map_some', epollEntry, if_neg ((findJob_mem hj).2 ▸ hout)]

private theorem waitLoop_run_of_unlisted (hst : j.state ≠ .terminated) :
    ∀ (rounds : List (List Nat)) (m : JobManager), m.linux = true → m.locked = false →
      m.findJob jobId = some j → (∀ events ∈ rounds, jobId ∉ events) →
      ∃ m', (waitLoop jobId rounds).run m = .ok (none, m') ∧ m'.findJob jobId = some j
  | [], m, _, _, hj, _ => ⟨m, rfl, hj⟩
  | events :: rounds, m, hlin, hl, hj, hr => by
    obtain ⟨n, m₁, h₁, hlin₁, hl₁, hj₁⟩ := processEvents_keeps_entry hlin hl hj (hr events (.head _))
    obtain ⟨m', h', hj'⟩ := waitLoop_run_of_unlisted hst rounds m₁ hlin₁ hl₁ hj₁ fun e he => hr e (.tail _ he)
    refine ⟨m', ?_, hj'⟩
    rw [waitLoop, run_get_bind, hj]
    simp only [if_neg hst, pure_bind]
    rw [run_bind_ok (run_discard_ok h₁), h']

/-- `wait(jobId, 0)` loops until the job is `TERMINATED`, and on the epoll path only the pidfd of a
terminated child moves it there. From every reachable state in which the job is not `TERMINATED`
and its child has not terminated (it runs, or a `SIGTSTP` stopped it), any number of rounds whose
batches list only terminated children leaves the job as it was: the loop has not returned and
polls again. After Ctrl+Z in a foreground command nothing continues the child, so the shell
hangs. -/
theorem waitLoop_spins_while_child_lives {s : System} (hs : Reachable s) {jobId : Nat} {j : JobControlBlock}
    (hj : s.jm.findJob jobId = some j) (hst : j.state ≠ .terminated) (hchild : j.child.terminated = false)
    (rounds : List (List Nat))
    (hr : ∀ events ∈ rounds, ∀ x ∈ events, ∃ e, s.jm.findJob x = some e ∧ e.child.terminated = true) :
    ∃ m', (waitLoop jobId rounds).run s.jm = .ok (none, m') ∧ m'.findJob jobId = some j :=
  waitLoop_run_of_unlisted hst rounds s.jm hs.inv.good.linux hs.inv.good.unlocked hj fun events he hin => by
    obtain ⟨e, he', hterm⟩ := hr events he jobId hin
    obtain rfl := Option.some.inj (hj.symm.trans he')
    exact absurd (hchild.symm.trans hterm) Bool.false_ne_true

/-- A foreground command stopped by Ctrl+Z: three rounds later the job is still `STOPPED` and the
loop has not returned. -/
theorem waitLoop_spins_after_ctrlZ :
    ∃ s, Reachable s ∧ s.jm.findJob 1 = some ⟨1, .stopped, .stopped 20, 0, false, true⟩ ∧
      ∃ m', (waitLoop 1 [[], [], []]).run s.jm = .ok (none, m') ∧
        m'.findJob 1 = some ⟨1, .stopped, .stopped 20, 0, false, true⟩ := by
  have h : Reachable ⟨⟨[⟨1, .stopped, .stopped 20, 0, false, true⟩], 2, false, [], true, true,
      [⟨1, .foreground, .stopped, false⟩], [(1, 20)]⟩, none, none⟩ :=
    ((reachable_foreground_running.step (@Step.sigtstpLoad _ (some 1) _ rfl rfl)).step
      (Step.sigtstpCommit rfl rfl)).step (@Step.child _ 1 (.stopped 20) (by decide) (by decide))
  exact ⟨_, h, rfl, @waitLoop_spins_while_child_lives _ h 1 _ rfl (by decide) rfl [[], [], []] (by simp)⟩

end AriaShell.Job.JobManager
