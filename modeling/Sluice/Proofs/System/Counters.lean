import Sluice.Proofs.System.Delivery

/-! What the workers have counted as succeeded covers all that the jobs table shows. -/

namespace Sluice

open Relational Transition

variable {env : Nat → Env} {past : List (Step Crew CrewAction)} {s : Crew} {a : CrewAction}

/-- The job whose success a step counts under a type and a tenant. -/
def countedSuccess (type : String) (tenantID : UUID) (e : Step Crew CrewAction) : Option UUID :=
  match e.label with
  | .record worker _ _ =>
    match e.pre.stages worker with
    | .executed c j (.ok ()) _ =>
      if j.type = type ∧ j.tenantID = tenantID then some c.jobID else none
    | _ => none
  | _ => none

/-- A step adds one to a counter of successes exactly if it counts one under its labels. -/
theorem count_counts (type : String) (tenantID : UUID) (s s' : Crew) (a : CrewAction) :
    (a.counts s).count (.jobsTotal type "succeeded" tenantID) =
      (countedSuccess type tenantID ⟨s, a, s'⟩).toList.length := by
  cases a with
  | record worker d succeeds =>
    simp only [CrewAction.counts, countedSuccess]
    cases s.stages worker with
    | executed c j outcome ended =>
      cases outcome with
      | error message =>
        -- A failure counts under another state.
        simp only [CrewAction.recorded, recording]
        cases j.shouldRetry <;> simp
      | ok result =>
        simp only [CrewAction.recorded, recording]
        by_cases own : j.type = type ∧ j.tenantID = tenantID
        · simp [own]
        · simp [own]
    | _ => rfl
  | _ => rfl

/-- What all workers together show of a counter. -/
def Crew.shown (s : Crew) (metric : Metric) : Nat := s.metrics.countP (·.2 == metric)

/-- What a worker whose process ends has shown of a counter. -/
def lastShown (metric : Metric) (e : Step Crew CrewAction) : Nat :=
  match e.label with
  | .stop worker true => e.pre.metrics.count (worker, metric)
  | _ => 0

/-- A counter goes up by what a step counts, and down by what a process takes with it. -/
theorem Crew.shown_step (env : Nat → Env) (s : Crew) (a : CrewAction) (metric : Metric) :
    (s.step env a).shown metric + lastShown metric ⟨s, a, s.step env a⟩ =
      s.shown metric + (a.counts s).count metric := by
  have counted : ∀ worker : Nat, ((a.counts s).map (Prod.mk worker)).countP
      (fun m => m.2 == metric) = (a.counts s).count metric := fun worker => List.countP_map
  cases a with
  | markRunning worker _ | execute worker _ _ | record worker _ _ =>
    have sum := congrArg (s.metrics.countP (·.2 == metric) + ·) (counted worker)
    simpa [Crew.shown, Crew.step, CrewAction.metrics, lastShown, List.countP_append] using sum
  | stop worker dies =>
    cases dies with
    | false => rfl
    | true =>
      -- The entries of the other workers stay.
      have own : (s.metrics.filter fun m => !(m.1 != worker)).countP (·.2 == metric) =
          s.metrics.count (worker, metric) := by
        rw [List.countP_filter, List.count]
        refine List.countP_congr fun m _ => ?_
        simp [Prod.ext_iff, and_comm]
      have parts := List.countP_eq_countP_filter_add s.metrics (·.2 == metric) (·.1 != worker)
      rw [own] at parts
      exact parts.symm
  | _ => rfl

/-- What has been counted, and what the rows show of it. -/
structure Crew.Counted (past : List (Step Crew CrewAction)) (s : Crew) : Prop where
  metrics : ∀ type tenantID, s.shown (.jobsTotal type "succeeded" tenantID) +
      (past.map (lastShown (.jobsTotal type "succeeded" tenantID))).sum =
    (past.filterMap (countedSuccess type tenantID)).length
  rows : ∀ k row, s.world.db.jobs.find? k = some row → row.state = .succeeded →
    k ∈ past.filterMap (countedSuccess row.type row.tenantID)

/-- A success is counted before it is recorded. -/
theorem Crew.Counted.step (counted : Crew.Counted past s) (delivered : Crew.Delivered past s)
    (enabled : a.Enabled s) :
    Crew.Counted (past ++ [⟨s, a, s.step env a⟩]) (s.step env a) := by
  refine ⟨?_, ?_⟩
  · intro type tenantID
    have moved := Crew.shown_step env s a (.jobsTotal type "succeeded" tenantID)
    have before := counted.metrics type tenantID
    rw [filterMap_snoc, List.length_append, ← count_counts, List.map_append, List.sum_append,
      List.map_singleton, List.sum_singleton]
    omega
  · intro k row stored done
    rcases delivered.completed_step enabled stored done with
      same | ⟨worker, d, c, j, ended, rfl, stage, rfl, same⟩
    · exact mem_filterMap_snoc.mpr (.inl (counted.rows k row same done))
    · refine mem_filterMap_snoc.mpr (.inr ?_)
      simp [countedSuccess, stage, same.type, same.tenantID]

/-- The counters are kept throughout every run. -/
theorem Crew.Counted.of_run {start : Time} (run : Run (Crew.Next env) (Crew.init start) past s) :
    Crew.Counted past s := by
  refine run.history Crew.Counted ⟨fun _ _ => rfl, ?_⟩ ?_
  · intro k row found
    cases found
  · rintro past s a s' before counted ⟨enabled, rfl⟩
    exact counted.step (.of_run before) enabled

/--
The counters of successes never fall behind the table.

For every type and tenant, what the workers show, with what the processes that have ended had shown
by then, is at least the number of jobs that are recorded as succeeded.
-/
theorem successes_counted (run : Crew.Reaches env past s) (type : String) (tenantID : UUID) :
    (s.world.db.jobs.rows.countP fun row =>
        row.state == .succeeded && (row.type == type && row.tenantID == tenantID)) ≤
      s.shown (.jobsTotal type "succeeded" tenantID) +
        (past.map (lastShown (.jobsTotal type "succeeded" tenantID))).sum := by
  obtain ⟨start, run⟩ := run
  have counted := Crew.Counted.of_run run
  rw [counted.metrics, List.countP_eq_length_filter, ← List.length_map (f := Job.id)]
  -- No two rows share an identifier, and each of these was counted.
  refine List.Nodup.length_le_of_subset ?_ ?_
  · exact s.world.db.jobs.keyed.sublist (List.filter_sublist.map Job.id)
  · intro k listed
    obtain ⟨row, member, rfl⟩ := List.mem_map.mp listed
    obtain ⟨stored, hit⟩ := List.mem_filter.mp member
    simp only [Bool.and_eq_true, beq_iff_eq] at hit
    obtain ⟨done, rfl, rfl⟩ := hit
    exact counted.rows row.id row (Table.mem_rows_iff.mp stored) done

/-- The worker's process ends after its job has succeeded. -/
def countedRun : List CrewAction := answeredRun ++ [.stop 0 true]

theorem successes_counted_answered :
    1 ≤ (afterCrew (fun _ => .everyMinute) 0 countedRun).shown
        (.jobsTotal "webhook" "succeeded" 7) +
      ((crewTrace (fun _ => .everyMinute) 0 countedRun).map
        (lastShown (.jobsTotal "webhook" "succeeded" 7))).sum := by
  have run := reaches_crewTrace (fun _ => .everyMinute) 0 countedRun (by decide +kernel)
  exact Nat.le_trans (by decide +kernel) (successes_counted run "webhook" 7)

-- By then the worker itself shows nothing.
example : (afterCrew (fun _ => .everyMinute) 0 countedRun).shown
    (.jobsTotal "webhook" "succeeded" 7) = 0 := by
  decide +kernel

end Sluice
