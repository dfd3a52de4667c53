import Sluice.Proofs.System.Success

/-! Open runs belong to jobs in flight, unless an operator takes a job away from its worker. -/

namespace Sluice

open Relational Transition

variable {env : Nat → Env} {w : World} {a : Action}

/-- A step that leaves no completion halfway: none is abandoned, and no second statement fails. -/
def completesWhole (e : Step World Action) : Bool :=
  match e.label with
  | .abandon .. => false
  | .completeRun c clock => (completeRun c.runID clock e.pre.db).1.isOk
  | _ => true

/-- A `force-fail` of a job that has an open run. -/
def orphans (e : Step World Action) : Bool :=
  match e.label with
  | .cmdForceFail jobID => e.pre.db.jobRuns.any (openRunOf jobID)
  | _ => false

/-- What keeps a run open: its claim is still in force, or its completion is under way. -/
inductive Explained (w : World) (run : JobRun) : Prop where
  | held {c : Claim} {row : Job} (known : c ∈ w.claims) (named : c.runID = run.id)
      (found : w.db.jobs.find? run.jobID = some row) (live : row.state.inFlight = true)
      (token : row.claimToken = some c.token)
  | completing {c : Claim} {clock : Time} (under : (c, clock) ∈ w.completing)
      (named : c.runID = run.id) (own : c.jobID = run.jobID)

/-- Every open run is explained, a job has at most one, and tokens tell claims apart. -/
structure Mirrored (w : World) : Prop where
  tokens : ∀ c ∈ w.claims, c.token ∈ w.drawn
  distinct : ∀ c ∈ w.claims, ∀ c' ∈ w.claims, c.token = c'.token → c = c'
  explained : ∀ run ∈ w.db.jobRuns, run.finishedAt = none → Explained w run
  single : ∀ k, w.db.jobRuns.countP (openRunOf k) ≤ 1

/-- A completion stays under way until its second statement or until it is abandoned. -/
theorem World.completing_step {c : Claim} {clock : Time} (env : Nat → Env)
    (under : (c, clock) ∈ w.completing) (second : a ≠ .completeRun c clock)
    (kept : a ≠ .abandon c clock) : (c, clock) ∈ (w.step env a).completing := by
  cases a with
  | completeRow c' clock' =>
    simp only [World.step, Action.completing]
    split
    · exact under
    · exact List.mem_cons_of_mem _ under
  | completeRun c' clock' =>
    -- Another completion is the one that ends.
    refine (List.mem_erase_of_ne ?_).mpr under
    rintro ⟨⟩
    exact second rfl
  | abandon c' clock' =>
    refine (List.mem_erase_of_ne ?_).mpr under
    rintro ⟨⟩
    exact kept rfl
  | _ => exact under

/-- A second statement that succeeds leaves no run of its claim open. -/
theorem closed_of_completeRun {c : Claim} {clock : Time}
    (succeeds : (completeRun c.runID clock w.db).1.isOk = true) {run : JobRun}
    (listed : run ∈ (w.step env (.completeRun c clock)).db.jobRuns) (named : c.runID = run.id) :
    run.finishedAt ≠ none := by
  rw [World.step_db_some (rfl : Action.op env w (.completeRun c clock) = _)] at listed
  rcases completeRun_runs c.runID clock w.db with ⟨jobRuns, closed, done⟩ | done
  · simp only [Op.apply, done] at listed
    exact closed_of_update closed listed named.symm
  · simp [done, Except.isOk, Except.toBool] at succeeds

/-- A run whose completion is under way stays explained. -/
theorem Explained.step_completing {c : Claim} {clock : Time} {run : JobRun}
    (whole : completesWhole ⟨w, a, w.step env a⟩ = true)
    (listed : run ∈ (w.step env a).db.jobRuns) (unfinished : run.finishedAt = none)
    (under : (c, clock) ∈ w.completing) (named : c.runID = run.id) (own : c.jobID = run.jobID) :
    Explained (w.step env a) run := by
  -- The completion ends with a second statement, which would have closed the run.
  refine .completing (World.completing_step env under ?_ ?_) named own
  · rintro rfl
    exact closed_of_completeRun whole listed named unfinished
  · rintro rfl
    cases whole

/-- A failure that changes the row of its job leaves no run of its claim open. -/
theorem closed_of_failJob {jobID runID token : UUID} {errMsg : String} {nextRunAt : Option Time}
    {now : Time} {db : Db}
    (changed : (failJob jobID runID token errMsg nextRunAt now db).2.jobs.find? jobID ≠
      db.jobs.find? jobID) {run : JobRun}
    (listed : run ∈ (failJob jobID runID token errMsg nextRunAt now db).2.jobRuns)
    (named : run.id = runID) : run.finishedAt ≠ none := by
  rcases failJob_spec jobID runID token errMsg nextRunAt now db with
    ⟨row, -, -, jobRuns, closed, done⟩ | done
  · rw [done] at listed
    exact closed_of_update closed listed named
  · exact absurd (by rw [done]) changed

/-- A reap that changes the row of its job leaves no run of the job open. -/
theorem unopened_of_requeue {jobID : UUID} {now dbNow : Time} {db : Db}
    (changed : (requeueStaleJob jobID now dbNow db).2.jobs.find? jobID ≠ db.jobs.find? jobID)
    {run : JobRun} (listed : run ∈ (requeueStaleJob jobID now dbNow db).2.jobRuns) :
    openRunOf jobID run = false := by
  rcases requeueStaleJob_spec jobID now dbNow db with
    ⟨-, done⟩ | ⟨jobRuns, closed, ⟨row, -, -, done⟩ | ⟨-, done⟩⟩
  · exact absurd (by rw [done]) changed
  · rw [done] at listed
    exact unopened_of_expire closed listed
  · exact absurd (by rw [done]) changed

/-- A run whose claim is in force stays explained, as long as no operator ends the claim. -/
theorem Mirrored.step_held (mirrored : Mirrored w) (enabled : a.Enabled w)
    (spared : orphans ⟨w, a, w.step env a⟩ = false) {c : Claim} {row : Job} {run : JobRun}
    {k : UUID}
    (owner : run.jobID = k) (before : run ∈ w.db.jobRuns)
    (listed : run ∈ (w.step env a).db.jobRuns) (unfinished : run.finishedAt = none)
    (known : c ∈ w.claims) (named : c.runID = run.id) (found : w.db.jobs.find? k = some row)
    (live : row.state.inFlight = true) (token : row.claimToken = some c.token) :
    Explained (w.step env a) run := by
  have still : c ∈ (w.step env a).claims := World.claims_step known
  by_cases same : (w.step env a).db.jobs.find? k = w.db.jobs.find? k
  · exact .held still named (by rw [owner, same, found]) live token
  -- The row has changed, and most changes keep the claim or do not meet a row in flight.
  rcases World.step_row env w a k with kept | ⟨op, called, step⟩
  · exact absurd kept same
  · have after := World.step_db_some called
    rw [found] at step same
    generalize stored : (w.step env a).db.jobs.find? k = row' at step same
    cases step with
    | keep => exact absurd rfl same
    | claim waiting | promoteScheduled waiting | promoteFailed waiting | replay waiting
    | cmdReplay waiting => simp [waiting, State.inFlight] at live
    | cancel waiting => rcases waiting with state | state <;> simp [state, State.inFlight] at live
    | start =>
      rw [← owner] at stored
      exact .held still named stored rfl token
    | extend =>
      rw [← owner] at stored
      exact .held still named stored live token
    | complete => cases Action.makes called
    | @completeRow _ _ clock holder =>
      -- The completing worker is the one that holds the claim, by its token.
      cases Action.makes called with
      | @completeRow c' =>
        obtain rfl := mirrored.distinct c known c' enabled.1
          (Option.some.inj (token.symm.trans holder))
        rcases completeRow_spec c.jobID c.token clock w.db with ⟨_, -, -, one⟩ | ⟨-, none⟩
        · have under : (c, clock) ∈ (w.step env (.completeRow c clock)).completing := by
            simp [World.step, Action.completing, one]
          exact .completing under named owner.symm
        · rw [after] at stored
          simp only [Op.apply, none, found] at stored
          exact absurd stored.symm same
    | fail holder =>
      -- The failing worker closes the run of the same claim.
      cases Action.makes called with
      | @failJob c' =>
        obtain rfl := mirrored.distinct c known c' enabled.1
          (Option.some.inj (token.symm.trans holder))
        rw [after] at stored listed
        refine absurd unfinished (closed_of_failJob ?_ listed named.symm)
        rw [found]
        exact fun unchanged => same (stored.symm.trans unchanged)
    | requeue =>
      rw [after] at stored listed
      have closed := unopened_of_requeue (by
        rw [found]
        exact fun unchanged => same (stored.symm.trans unchanged)) listed
      simp [openRunOf, owner, unfinished] at closed
    | forceFail =>
      -- The open run itself is what the condition looks for.
      cases Action.makes called
      simp only [orphans, List.any_eq_false] at spared
      have none_open := spared run before
      simp [openRunOf, owner, unfinished] at none_open

/-- A step opens one run for the pending job it claims, or changes the runs one by one. -/
theorem World.runs_step (env : Nat → Env) (w : World) (a : Action) :
    (∃ jobID workerID token deadline runID clock row,
      a = .tryClaim jobID workerID token deadline runID clock ∧
      w.db.jobs.find? jobID = some row ∧ row.state = .pending ∧
      (w.step env a).db.jobRuns = w.db.jobRuns ++ [openRun runID clock row]) ∨
    List.Forall₂ (fun run run' => run' = run ∨ run'.finishedAt ≠ none) w.db.jobRuns
      (w.step env a).db.jobRuns := by
  cases called : a.op env w with
  | none =>
    rw [World.step_db_none called]
    exact .inr (List.forall₂_same.mpr fun run _ => .inl rfl)
  | some op =>
    rw [World.step_db_some called]
    rcases apply_runs op w.db with
      ⟨jobID, workerID, token, deadline, runID, clock, row, rfl, found, waiting, grown⟩ | ⟨-, steps⟩
    · cases Action.makes called
      exact .inl ⟨_, _, _, _, _, _, row, rfl, found, waiting, grown⟩
    · -- A run that is still open afterwards was not touched.
      refine .inr (steps.imp fun run run' step => ?_)
      by_cases unfinished : run'.finishedAt = none
      · exact .inl (step.eq_of_open unfinished)
      · exact .inr unfinished

/-- A job that waits to be claimed has no open run. -/
theorem Mirrored.unopened (mirrored : Mirrored w) (recorded : Recorded w) {k : UUID} {row : Job}
    (found : w.db.jobs.find? k = some row) (waiting : row.state = .pending) :
    w.db.jobRuns.countP (openRunOf k) = 0 := by
  refine List.countP_eq_zero.mpr fun run listed hit => ?_
  simp only [openRunOf, Bool.and_eq_true, beq_iff_eq, Option.isNone_iff_eq_none] at hit
  -- Both explanations of an open run ask for another state.
  cases mirrored.explained run listed hit.2 with
  | held _ _ located live =>
    rw [hit.1, found, Option.some.injEq] at located
    rw [← located, waiting] at live
    cases live
  | @completing c clock under _ own =>
    have positive : 0 < successes k w :=
      Nat.lt_add_right _ (List.countP_pos_iff.mpr ⟨_, under, by simp [own, hit.1]⟩)
    obtain ⟨other, located, done⟩ := recorded.final k positive
    rw [found, Option.some.injEq] at located
    rw [← located, waiting] at done
    cases done

/-- A claim explains the run it opens. -/
theorem Explained.of_claim {jobID token runID : UUID} {workerID : String} {deadline clock : Time}
    {row : Job} (env : Nat → Env) (found : w.db.jobs.find? jobID = some row)
    (waiting : row.state = .pending) :
    Explained (w.step env (.tryClaim jobID workerID token deadline runID clock))
      (openRun runID clock row) := by
  have named : row.id = jobID := Table.key_of_find? found
  rcases tryClaim_spec jobID workerID token deadline runID clock w.db with
    ⟨row', located, -, done⟩ | ⟨refused, -⟩
  · -- The worker knows the claim, and the row carries its token.
    have known : ⟨jobID, token, runID⟩ ∈
        (w.step env (.tryClaim jobID workerID token deadline runID clock)).claims := by
      simp [World.step, Action.claims, done]
    have stored : (w.step env (.tryClaim jobID workerID token deadline runID clock)).db.jobs.find?
        (openRun runID clock row).jobID = some (claimRow workerID token deadline clock row) := by
      rw [World.step_db_some (rfl : Action.op env w
        (.tryClaim jobID workerID token deadline runID clock) = _)]
      simp [Op.apply, done, openRun, named, found]
    exact .held known rfl stored rfl rfl
  · exact absurd waiting (refused row found)

/-- Tokens keep telling claims apart, since every claim draws a fresh one. -/
theorem Mirrored.step_claims (mirrored : Mirrored w) (env : Nat → Env) (enabled : a.Enabled w) :
    (∀ c ∈ (w.step env a).claims, c.token ∈ (w.step env a).drawn) ∧
      ∀ c ∈ (w.step env a).claims, ∀ c' ∈ (w.step env a).claims, c.token = c'.token → c = c' := by
  constructor
  · intro c made
    rcases World.claims_inv made with old | ⟨_, _, _, rfl⟩
    · exact World.drawn_step (mirrored.tokens c old)
    · simp [World.step, Action.draws]
  · intro c made c' made' same
    rcases World.claims_inv made with old | ⟨_, _, _, rfl⟩ <;>
      rcases World.claims_inv made' with old' | ⟨_, _, _, again⟩
    · exact mirrored.distinct c old c' old' same
    · subst again
      exact absurd (same ▸ mirrored.tokens c old) enabled.1
    · exact absurd (same ▸ mirrored.tokens c' old') enabled.1
    · -- Both are the claim that the step makes.
      obtain ⟨jobID, token, runID⟩ := c
      obtain ⟨jobID', token', runID'⟩ := c'
      cases again
      rfl

/-- Every step that keeps to the conditions leaves the open runs explained and single. -/
theorem Mirrored.step (mirrored : Mirrored w) (recorded : Recorded w) (enabled : a.Enabled w)
    (whole : completesWhole ⟨w, a, w.step env a⟩ = true)
    (spared : orphans ⟨w, a, w.step env a⟩ = false) : Mirrored (w.step env a) := by
  obtain ⟨tokens, distinct⟩ := mirrored.step_claims env enabled
  -- A run that was there before keeps its explanation.
  have kept : ∀ run ∈ w.db.jobRuns, run ∈ (w.step env a).db.jobRuns → run.finishedAt = none →
      Explained (w.step env a) run := by
    intro run before listed unfinished
    cases mirrored.explained run before unfinished with
    | held known named found live token =>
      exact mirrored.step_held enabled spared rfl before listed unfinished known named found live
        token
    | completing under named own =>
      exact Explained.step_completing whole listed unfinished under named own
  rcases World.runs_step env w a with
    ⟨jobID, workerID, token, deadline, runID, clock, row, rfl, found, waiting, grown⟩ | steps
  · refine ⟨tokens, distinct, fun run listed unfinished => ?_, fun k => ?_⟩
    · have member := listed
      rw [grown, List.mem_append, List.mem_singleton] at member
      rcases member with old | rfl
      · exact kept run old listed unfinished
      · exact .of_claim env found waiting
    · -- The new run is the only open one of its job.
      have single := mirrored.single k
      rw [grown, List.countP_append, List.countP_singleton]
      by_cases own : jobID = k
      · subst own
        rw [mirrored.unopened recorded found waiting]
        split <;> simp
      · have named : row.id = jobID := Table.key_of_find? found
        simpa [openRunOf, openRun, named, own] using single
  · refine ⟨tokens, distinct, fun run listed unfinished => ?_, fun k => ?_⟩
    · obtain ⟨old, member, same | closed⟩ := mem_of_forall₂ steps listed
      · exact kept run (same ▸ member) listed unfinished
      · exact absurd unfinished closed
    · -- Closing runs opens none.
      refine (countP_of_forall₂ (openRunOf k) (fun _ => false) steps ?_).trans
        (by simpa using mirrored.single k)
      rintro run run' (rfl | closed) hit
      · exact .inl hit
      · simp [openRunOf, closed] at hit

/--
Every open run belongs to a job in flight, and no job has two of them.

This holds between completions, in every run of the system in which no completion stops halfway and
no operator force-fails a job whose run is open.
-/
theorem open_runs_in_flight {past : List (Step World Action)} (run : Reaches env past w)
    (whole : ∀ e ∈ past, completesWhole e = true) (settled : w.completing = [])
    (spared : ∀ e ∈ past, orphans e = false) :
    (∀ r ∈ w.db.jobRuns, r.finishedAt = none →
      ∃ row, w.db.jobs.find? r.jobID = some row ∧ (row.state = .claimed ∨ row.state = .running)) ∧
    ∀ k, w.db.jobRuns.countP (openRunOf k) ≤ 1 := by
  obtain ⟨start, run⟩ := run
  -- The invariant is carried along together with the records it rests on.
  have mirrored : Recorded w ∧ Mirrored w := by
    have empty : Run (Next env) (World.init start) [] (World.init start) := .nil
    refine run.along (fun w => Recorded w ∧ Mirrored w) ⟨recorded_of_run empty, ?_⟩ ?_
    · exact ⟨by simp [World.init], by simp [World.init], by simp [World.init, Db.empty],
        by simp [World.init, Db.empty]⟩
    · rintro w a w' listed ⟨recorded, mirrored⟩ ⟨enabled, rfl⟩
      exact ⟨recorded.step enabled,
        mirrored.step recorded enabled (whole _ listed) (spared _ listed)⟩
  refine ⟨fun r listed unfinished => ?_, mirrored.2.single⟩
  cases mirrored.2.explained r listed unfinished with
  | held _ _ found live => exact ⟨_, found, (State.inFlight_iff _).mp live⟩
  | completing under =>
    rw [settled] at under
    cases under

/-- A worker has claimed a job and started to run it. -/
def startedRun : List Action :=
  [.submit 0 7 .hook 1 0, .exec 0 31 0, .tryClaim 1 "w" 21 minute 11 0,
    .markRunning ⟨1, 21, 11⟩]

theorem open_runs_in_flight_started :
    let w := afterActions (fun _ => .everyMinute) 0 startedRun
    w.db.jobRuns.countP (openRunOf 1) = 1 ∧
      ∀ r ∈ w.db.jobRuns, r.finishedAt = none →
        ∃ row, w.db.jobs.find? r.jobID = some row ∧
          (row.state = .claimed ∨ row.state = .running) := by
  intro w
  have run := reaches_worldTrace (fun _ => .everyMinute) 0 startedRun (by decide +kernel)
  have spared : ∀ e ∈ worldTrace (fun _ => .everyMinute) 0 startedRun, orphans e = false := by
    intro e listed
    simpa using List.any_eq_false.mp (by decide +kernel) e listed
  exact ⟨by decide +kernel,
    (open_runs_in_flight run (List.all_eq_true.mp (by decide +kernel)) (by decide +kernel)
      spared).1⟩

/-- The job is force-failed under its worker's hands, replayed, and claimed once more. -/
def orphanedRun : List Action :=
  startedRun ++ [.cmdForceFail 1, .cmdReplay 0 1, .exec 0 32 0, .tryClaim 1 "v" 22 minute 12 0]

theorem open_runs_orphaned :
    ¬ ∀ (env : Nat → Env) (past : List (Step World Action)) (w : World), Reaches env past w →
      (∀ e ∈ past, completesWhole e = true) → w.completing = [] →
        (∀ r ∈ w.db.jobRuns, r.finishedAt = none →
          ∃ row, w.db.jobs.find? r.jobID = some row ∧
            (row.state = .claimed ∨ row.state = .running)) ∧
        ∀ k, w.db.jobRuns.countP (openRunOf k) ≤ 1 := by
  intro mirrored
  -- The run of the first claim is still open when the second one opens its own.
  have run := reaches_worldTrace (fun _ => .everyMinute) 0 orphanedRun (by decide +kernel)
  have single := (mirrored _ _ _ run (List.all_eq_true.mp (by decide +kernel))
    (by decide +kernel)).2 1
  exact absurd single (by decide +kernel)

end Sluice
