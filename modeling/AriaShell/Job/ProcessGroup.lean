import Mathlib.Data.List.Basic

/-! Process groups after `fork` in `JobManager::spawn`: the child's `setpgid(0, 0)` and
`tcsetpgrp(ttyFd, getpid())`, and the parent's `kill(-pgid, sig)` and `tcsetpgrp(ttyFd, pgid)`
with `jcb->pgid = pid`, in every interleaving of the two processes. -/
namespace AriaShell.Job.ProcessGroup

/-- A step of the forked child, in `spawn`, that touches process groups. -/
inductive ChildStep where
  /-- `setpgid(0, 0)` -/
  | setpgidSelf
  /-- `tcsetpgrp(ttyFd, getpid())` -/
  | tcsetpgrpSelf
  deriving DecidableEq, Repr

/-- A call of the parent naming the job's group `jcb->pgid`: in `spawn`, `foreground`,
`background`, `stop`, `terminate`, `handleCtrlC` and `handleCtrlZ`. -/
inductive GroupCall where
  /-- `kill(-job->pgid, sig)` -/
  | kill (sig : Nat)
  /-- `tcsetpgrp(ttyFd, job->pgid)` -/
  | tcsetpgrp
  deriving DecidableEq, Repr

/-- The child's side of `spawn` before `execvp`. -/
def childSteps (createPipeGroup background : Bool) : List ChildStep :=
  (if createPipeGroup then [.setpgidSelf] else []) ++ (if !background then [.tcsetpgrpSelf] else [])

/-- The parent's side of `spawn` after `fork`: `tcsetpgrp(ttyFd, pid)` for a foreground job when
the shell has a terminal. -/
def spawnCalls (background hasTty : Bool) : List GroupCall :=
  if !background && hasTty then [.tcsetpgrp] else []

/-- The kernel state the two processes share after `fork`: the child's process group and the
terminal's foreground group, with every group call so far, as the group it named and whether
that group existed and held the child at that moment. -/
structure PgState where
  childPgrp : Nat
  ttyPgrp : Nat
  calls : List (Nat × Bool)
  deriving DecidableEq, Repr

section Run

variable (shellPgid pid : Nat)

/-- Right after `fork`: the child is in the shell's group, which holds the terminal. -/
def PgState.init : PgState := ⟨shellPgid, shellPgid, []⟩

/-- A call naming the group `g`. The groups in play are the shell's and the child's, so `g`
exists and holds the child exactly when it is the child's group; a `tcsetpgrp` to an existing
group moves the terminal there. -/
def PgState.callGroup (st : PgState) (tty : Bool) (g : Nat) : PgState :=
  { st with
    ttyPgrp := if tty && (g == shellPgid || g == st.childPgrp) then g else st.ttyPgrp
    calls := st.calls ++ [(g, g == st.childPgrp)] }

/-- One step of either process; the parent's calls name `jcb->pgid`, which `spawn` sets to the
child's pid. -/
def step (st : PgState) : ChildStep ⊕ GroupCall → PgState
  | .inl .setpgidSelf => { st with childPgrp := pid }
  | .inl .tcsetpgrpSelf => st.callGroup shellPgid true pid
  | .inr (.kill _) => st.callGroup shellPgid false pid
  | .inr .tcsetpgrp => st.callGroup shellPgid true pid

/-- A run of the merged steps from `fork`. -/
def run (es : List (ChildStep ⊕ GroupCall)) : PgState := es.foldl (step shellPgid pid) (PgState.init shellPgid)

end Run

/-- `es` interleaves the child's steps `cs` and the parent's calls `ps`, each in program order. -/
inductive Merge : List ChildStep → List GroupCall → List (ChildStep ⊕ GroupCall) → Prop
  | nil : Merge [] [] []
  | child {c : ChildStep} {cs ps es} : Merge cs ps es → Merge (c :: cs) ps (.inl c :: es)
  | parent {p : GroupCall} {cs ps es} : Merge cs ps es → Merge cs (p :: ps) (.inr p :: es)

theorem Merge.mem_inl {cs : List ChildStep} {ps : List GroupCall} {es : List (ChildStep ⊕ GroupCall)}
    (h : Merge cs ps es) {c : ChildStep} (hc : .inl c ∈ es) : c ∈ cs := by
  induction h with
  | nil => exact absurd hc (List.not_mem_nil _)
  | child _ ih =>
    rcases List.mem_cons.mp hc with h | h
    · cases h; exact .head _
    · exact .tail _ (ih h)
  | parent _ ih =>
    rcases List.mem_cons.mp hc with h | h
    · cases h
    · exact ih h

private theorem Merge.parents (ps : List GroupCall) : Merge [] ps (ps.map .inr) := by
  induction ps with
  | nil => exact .nil
  | cons p ps ih => exact .parent ih

section Groups

variable {shellPgid pid : Nat}

private theorem foldl_step_no_setpgid (hne : pid ≠ shellPgid) :
    ∀ (es : List (ChildStep ⊕ GroupCall)) (st : PgState), .inl .setpgidSelf ∉ es →
      st.childPgrp = shellPgid → (∀ x ∈ st.calls, x.2 = false) →
      ∀ x ∈ (es.foldl (step shellPgid pid) st).calls, x.2 = false := by
  intro es
  induction es with
  | nil => exact fun _ _ _ h => h
  | cons e es ih =>
    intro st hes hpg hcalls
    rw [List.foldl_cons]
    have hstep : (step shellPgid pid st e).childPgrp = shellPgid ∧
        ∀ x ∈ (step shellPgid pid st e).calls, x.2 = false := by
      rcases e with (_ | _) | (_ | _)
      · exact absurd (List.mem_cons_self _ _) hes
      all_goals
        refine ⟨hpg, fun x hx => ?_⟩
        simp only [step, PgState.callGroup, List.mem_append, List.mem_singleton] at hx
        rcases hx with hx | rfl
        · exact hcalls x hx
        · simpa [hpg] using hne
    exact ih _ (fun h => hes (.tail _ h)) hstep.1 hstep.2

end Groups

/-- `jcb->pgid = pid` names the child's group only once the child has run `setpgid(0, 0)`. With
`createPipeGroup = false` it never does, so in every interleaving every call naming the job's
group (the child's own `tcsetpgrp` included) names a group that does not exist. With
`createPipeGroup = true`, a foreground spawn on a terminal in which the parent reaches its
`tcsetpgrp(ttyFd, pid)` before the child's `setpgid(0, 0)` names a group that does not exist
yet. -/
theorem pgid_names_child_group_only_after_setpgid (shellPgid pid : Nat) (hne : pid ≠ shellPgid) :
    (∀ (background : Bool) (ps : List GroupCall) es, Merge (childSteps false background) ps es →
      ∀ x ∈ (run shellPgid pid es).calls, x.2 = false) ∧
    (∀ ps : List GroupCall, ∃ es, Merge (childSteps true false) (spawnCalls false true ++ ps) es ∧
      (pid, false) ∈ (run shellPgid pid es).calls) := by
  constructor
  · intro background ps es hm
    refine foldl_step_no_setpgid hne es _ (fun h => ?_) rfl (fun _ h => absurd h (List.not_mem_nil _))
    have := hm.mem_inl h
    cases background <;> simp [childSteps] at this
  · intro ps
    refine ⟨.inr .tcsetpgrp :: .inl .setpgidSelf :: .inl .tcsetpgrpSelf :: ps.map .inr,
      .parent (.child (.child (Merge.parents ps))), ?_⟩
    have hfirst : (run shellPgid pid [.inr .tcsetpgrp]).calls = [(pid, false)] := by
      simp [run, step, PgState.callGroup, PgState.init, hne]
    have hpre : ∀ (es : List (ChildStep ⊕ GroupCall)) (st : PgState) x, x ∈ st.calls →
        x ∈ (es.foldl (step shellPgid pid) st).calls := by
      intro es
      induction es with
      | nil => exact fun _ _ h => h
      | cons e es ih =>
        intro st x hx
        refine ih _ x ?_
        rcases e with (_ | _) | (_ | _) <;>
          simp only [step, PgState.callGroup, List.mem_append] <;> first | exact hx | exact .inl hx
    rw [show (.inr .tcsetpgrp :: .inl .setpgidSelf :: .inl .tcsetpgrpSelf :: ps.map .inr :
      List (ChildStep ⊕ GroupCall)) = [.inr .tcsetpgrp] ++ (.inl .setpgidSelf :: .inl .tcsetpgrpSelf ::
        ps.map .inr) from rfl, run, List.foldl_append]
    exact hpre _ _ _ (by rw [← run, hfirst]; exact .head _)

/-- Shell group `100`, child `200`: both halves at those pids. -/
theorem pgid_names_child_group_only_after_setpgid_pids :
    (200 : Nat) ≠ 100 ∧
    (∀ (background : Bool) (ps : List GroupCall) es, Merge (childSteps false background) ps es →
      ∀ x ∈ (run 100 200 es).calls, x.2 = false) ∧
    (∀ ps : List GroupCall, ∃ es, Merge (childSteps true false) (spawnCalls false true ++ ps) es ∧
      ((200 : Nat), false) ∈ (run 100 200 es).calls) :=
  ⟨by decide, pgid_names_child_group_only_after_setpgid 100 200 (by decide)⟩

end AriaShell.Job.ProcessGroup
