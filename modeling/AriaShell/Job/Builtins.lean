import AriaShell.Job.Transitions
/-! The job-control built-ins of `repl/main.cpp` without an argument. `fg` foregrounds the last id
`getActiveJobs` returns and `bg` resumes the first whose job is STOPPED. `getActiveJobs` lists the
ids in the iteration order of the `unordered_map`, which the order of the modelled table stands
for, so the job they act on is fixed by that order and not by the ids: under some order it is any
active job for `fg`, and any stopped job for `bg`. -/
namespace AriaShell.Job.JobManager

variable {m : JobManager}

/-- `fg` with no argument: `foreground` and then `wait(…, 0)` on `jobs.back()`, or the message
`fg: no current job` when no job is active. -/
def fgNoArgs (rounds : List (List Nat)) : JM Unit := do
  let jobs ← getActiveJobs
  match jobs.getLast? with
  | some jobId => do
    discard (foreground jobId)
    discard (wait jobId rounds)
  | none => pure ()

/-- The loop of `bg` with no argument over the ids `getActiveJobs` returned: the first whose job
`getJob` finds STOPPED is resumed with `background(jobId, true)`, and the loop breaks. -/
def bgLoop : List Nat → JM Unit
  | [] => pure ()
  | jobId :: jobs => do
    let job ← getJob jobId
    if job.map (·.state) = some .stopped then discard (background jobId true)
    else bgLoop jobs

def bgNoArgs : JM Unit := do
  let jobs ← getActiveJobs
  bgLoop jobs

private theorem fgNoArgs_run (hl : m.locked = false) (rounds : List (List Nat)) :
    (fgNoArgs rounds).run m =
      match ((m.jobs.filter (·.state ≠ .terminated)).map (·.jobId)).getLast? with
      | some jobId => (do discard (foreground jobId); discard (wait jobId rounds)).run m
      | none => .ok ((), m) := by
  unfold fgNoArgs
  rw [run_bind_ok (getActiveJobs_run hl)]
  split <;> rfl

private theorem bgLoop_run (hl : m.locked = false) (hids : (m.jobs.map (·.jobId)).Nodup) :
    ∀ js : List JobControlBlock, (∀ j ∈ js, j ∈ m.jobs) →
      (bgLoop (js.map (·.jobId))).run m =
        match js.find? (·.state = .stopped) with
        | some j => (discard (background j.jobId true)).run m
        | none => .ok ((), m)
  | [], _ => rfl
  | j :: js, hjs => by
    rw [List.map_cons, bgLoop, run_bind_ok (getJob_run hl _),
      findJob_of_mem hids (hjs j (List.mem_cons_self _ _)), List.find?_cons]
    by_cases hj : j.state = .stopped
    · simp [hj]
    · simp only [Option.map_some', Option.some.injEq, hj, if_false, decide_False]
      exact bgLoop_run hl hids js fun j' hj' => hjs j' (List.mem_cons_of_mem _ hj')

private theorem bgNoArgs_run (hl : m.locked = false) (hids : (m.jobs.map (·.jobId)).Nodup) :
    bgNoArgs.run m =
      match (m.jobs.filter (·.state ≠ .terminated)).find? (·.state = .stopped) with
      | some j => (discard (background j.jobId true)).run m
      | none => .ok ((), m) := by
  unfold bgNoArgs
  rw [run_bind_ok (getActiveJobs_run hl)]
  exact bgLoop_run hl hids _ fun j hj => List.mem_of_mem_filter hj

/-- In every reachable state, each active job is the one `fg` without an argument foregrounds, and
each stopped job the one `bg` without an argument resumes, under some iteration order of the
table. -/
theorem fg_bg_follow_iteration_order {s : System} (hs : Reachable s) (rounds : List (List Nat)) :
    (∀ a ∈ s.jm.jobs, a.state ≠ .terminated → ∃ order, order.Perm s.jm.jobs ∧
      (fgNoArgs rounds).run { s.jm with jobs := order } =
        (do discard (foreground a.jobId); discard (wait a.jobId rounds)).run { s.jm with jobs := order }) ∧
    (∀ a ∈ s.jm.jobs, a.state = .stopped → ∃ order, order.Perm s.jm.jobs ∧
      bgNoArgs.run { s.jm with jobs := order } =
        (discard (background a.jobId true)).run { s.jm with jobs := order }) := by
  have hg := hs.inv.good
  have hids : ∀ {order : List JobControlBlock}, order.Perm s.jm.jobs → (order.map (·.jobId)).Nodup :=
    fun h => (h.map _).nodup_iff.mpr hg.ids
  constructor
  · intro a ha hact
    have hperm : (s.jm.jobs.erase a ++ [a]).Perm s.jm.jobs :=
      (List.perm_append_singleton a _).trans (List.perm_cons_erase ha).symm
    refine ⟨_, hperm, (fgNoArgs_run ?_ rounds).trans ?_⟩
    · exact hg.unlocked
    · simp [List.filter_append, hact]
  · intro a ha hstop
    have hperm : (a :: s.jm.jobs.erase a).Perm s.jm.jobs := (List.perm_cons_erase ha).symm
    refine ⟨_, hperm, (bgNoArgs_run ?_ ?_).trans ?_⟩
    · exact hg.unlocked
    · exact hids hperm
    · simp [List.filter_cons, hstop]

/-- Two jobs started in the foreground and each stopped with Ctrl+Z: `fg` acts on job 1 under the
order that lists job 2 first, and `bg` under the order that lists job 1 first; neither acts on job 2,
the larger id. -/
theorem fg_bg_follow_iteration_order_two_stopped :
    ∃ s, Reachable s ∧
      s.jm.jobs = [⟨1, .stopped, .running, 0, false, true⟩, ⟨2, .stopped, .running, 0, false, true⟩] ∧
      (∃ order, order.Perm s.jm.jobs ∧ (fgNoArgs []).run { s.jm with jobs := order } =
        (do discard (foreground 1); discard (wait 1 [])).run { s.jm with jobs := order }) ∧
      ∃ order, order.Perm s.jm.jobs ∧
        bgNoArgs.run { s.jm with jobs := order } =
          (discard (background 1 true)).run { s.jm with jobs := order } := by
  have h₀ : Reachable ⟨⟨[⟨1, .foreground, .forked, 0, false, true⟩], 2, false, [], true, true, [], []⟩,
      none, none⟩ :=
    .step .init (@Step.call _ (.spawn false ⟨true, true, true⟩) _ rfl rfl rfl)
  have h₁ : Reachable ⟨⟨[⟨1, .foreground, .running, 0, false, true⟩], 2, false, [], true, true, [], []⟩,
      none, none⟩ :=
    h₀.step (@Step.child _ 1 .running (by decide) (by decide))
  have h₂ : Reachable ⟨⟨[⟨1, .stopped, .running, 0, false, true⟩], 2, false, [], true, true,
      [⟨1, .foreground, .stopped, false⟩], [(1, 20)]⟩, none, none⟩ :=
    h₁.step (@Step.call _ .handleCtrlZ _ rfl rfl rfl)
  have h₃ : Reachable ⟨⟨[⟨1, .stopped, .running, 0, false, true⟩, ⟨2, .foreground, .running, 0, false, true⟩],
      3, false, [], true, true, [⟨1, .foreground, .stopped, false⟩], [(1, 20)]⟩, none, none⟩ :=
    (h₂.step (@Step.call _ (.spawn false ⟨true, true, true⟩) _ rfl rfl rfl)).step
      (@Step.child _ 2 .running (by decide) (by decide))
  have h₄ : Reachable ⟨⟨[⟨1, .stopped, .running, 0, false, true⟩, ⟨2, .stopped, .running, 0, false, true⟩],
      3, false, [], true, true, [⟨1, .foreground, .stopped, false⟩, ⟨2, .foreground, .stopped, false⟩],
      [(1, 20), (2, 20)]⟩, none, none⟩ :=
    h₃.step (@Step.call _ .handleCtrlZ _ rfl rfl rfl)
  obtain ⟨hfg, hbg⟩ := fg_bg_follow_iteration_order h₄ []
  have hf := hfg _ (List.mem_cons_self _ _) (by decide)
  have hb := hbg _ (List.mem_cons_self _ _) rfl
  dsimp only at hf hb
  exact ⟨_, h₄, rfl, hf, hb⟩

end AriaShell.Job.JobManager
