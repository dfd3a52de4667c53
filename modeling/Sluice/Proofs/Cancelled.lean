import Sluice.Proofs.Linearizable
import Sluice.Relational.Earned
import Sluice.Storage.Statements

/-! A cancelled job never comes back, however the statements of other calls fall around it. -/

namespace Sluice

open Relational Transition

namespace TableCall

/-- A claim is only granted with a commit under the lock of the job. -/
theorem tryClaim_earns (jobID : UUID) (workerID : String) (token : UUID) (deadline : Time)
    (runID : UUID) (now : Time) :
    (Statements.tryClaim jobID workerID token deadline runID now).Earns
      (fun reply => ∃ granted, reply = .claimed granted) (fun _ _ => True) none := by
  -- The update may find the row or not, and the insertion and the commit follow in any case.
  refine .lock (.finish (by simp)) fun row _ => .rewrite ?_ fun seen _ _ => ?_
  · exact .insertLog (.earn trivial)
  · exact .insertLog (.earn trivial)

/-- A job is only cancelled with the commit that deletes a row which meets the condition. -/
theorem cancelJob_earns (jobID tenantID : UUID) :
    (Statements.cancelJob jobID tenantID).Earns (fun reply => reply = .nil)
      (fun row left => cancellable jobID tenantID row = true ∧ left = none) none :=
  .write (.finish (by simp)) fun _ hit => .earn ⟨hit, rfl⟩

/-- The identifiers of the jobs that are inserted on the way. -/
def insertedIDs {n : Nat} (past : List (Step (JobMachine n) (JobEvent n))) : List UUID :=
  past.filterMap fun e => e.label.inserted.map Job.id

variable {n : Nat} {calls : Fin n → TableCall} {jobs : Jobs} {jobRuns : List JobRun}
  {m : JobMachine n} {past : List (Step (JobMachine n) (JobEvent n))}

/-- A stored job was there from the start, or has been inserted since. -/
theorem origin_of_run (run : Run Machine.Happens (launch calls jobs jobRuns) past m) {k : UUID}
    {row : Job} (stored : m.table.find? k = some row) :
    k ∈ jobs.rows.map Job.id ++ insertedIDs past := by
  by_contra unknown
  rw [List.mem_append, not_or] at unknown
  obtain ⟨absent, others⟩ := unknown
  -- Without an origin the row would be missing to the end.
  have gone : m.table.find? k = none := by
    refine Machine.absent_of_run run ?_ ?_
    · refine List.find?_eq_none.mpr fun row listed => ?_
      have other : row.id ≠ k := fun same => absent (same ▸ List.mem_map_of_mem listed)
      simpa using other
    · intro e taken new inserted same
      refine others (List.mem_filterMap.mpr ⟨e, taken, ?_⟩)
      rw [inserted, Option.map_some, same]
  rw [gone] at stored
  cases stored

/-- An identifier that is in use is not drawn again. -/
theorem not_drawn_again {earlier later : List (Step (JobMachine n) (JobEvent n))}
    {e : Step (JobMachine n) (JobEvent n)} {k : UUID}
    (fresh : (jobs.rows.map Job.id ++ insertedIDs (earlier ++ e :: later)).Nodup)
    (used : k ∈ jobs.rows.map Job.id ++ insertedIDs earlier) :
    ∀ e' ∈ later, ∀ new ∈ e'.label.inserted, new.id ≠ k := by
  intro e' listed new inserted same
  -- Otherwise the identifier would occur once before the step and once after it.
  have again : k ∈ insertedIDs (e :: later) := by
    refine List.mem_filterMap.mpr ⟨e', List.mem_cons_of_mem e listed, ?_⟩
    rw [inserted, Option.map_some, same]
  have split : insertedIDs (earlier ++ e :: later) =
      insertedIDs earlier ++ insertedIDs (e :: later) := List.filterMap_append
  rw [split, ← List.append_assoc] at fresh
  exact List.disjoint_of_nodup_append fresh used again

section Answers

variable {e : Step (JobMachine n) (JobEvent n)}
  (run : Run Machine.Happens (launch calls jobs jobRuns) past e.pre)
  (made : e.pre.Happens e.label e.post) {i : Fin n} {jobID : UUID}

include run made

/-- A claim that is granted finds the row in its place. -/
theorem stored_of_claimed {workerID : String} {token runID granted : UUID} {deadline now : Time}
    (claims : calls i = .job (.tryClaim jobID workerID token deadline runID now))
    (claimed : Machine.Answers i (.claimed granted) e) :
    ∃ row, e.pre.table.find? jobID = some row := by
  have program : (calls i).statements.Earns (fun reply => ∃ granted, reply = .claimed granted)
      (fun _ _ => True) none := by
    rw [claims]
    exact tryClaim_earns ..
  obtain ⟨coherent, pending⟩ := Machine.earned_of_run run program
  obtain ⟨row, -, stored, -⟩ :=
    Machine.earned_of_answers coherent pending made claimed ⟨granted, rfl⟩
  have own : (e.pre.session i).target = (calls i).jobID := Machine.target_of_run run i
  rw [own, claims] at stored
  exact ⟨row, stored⟩

/-- A job that is cancelled was pending or scheduled, locked by nobody else, and is gone. -/
theorem stored_of_cancelled {tenantID : UUID}
    (cancels : calls i = .job (.cancelJob jobID tenantID)) (cancelled : Machine.Answers i .nil e) :
    (∃ row, (e.pre.session i).held = some row ∧ e.pre.table.find? jobID = some row ∧
        (row.state = .pending ∨ row.state = .scheduled) ∧
        ∀ j, j ≠ i → (calls j).jobID = jobID → (e.pre.session j).held = none) ∧
      e.post.table.find? jobID = none := by
  have program : (calls i).statements.Earns (fun reply => reply = .nil)
      (fun row left => cancellable jobID tenantID row = true ∧ left = none) none := by
    rw [cancels]
    exact cancelJob_earns jobID tenantID
  obtain ⟨coherent, pending⟩ := Machine.earned_of_run run program
  obtain ⟨row, held, stored, hit, gone⟩ :=
    Machine.earned_of_answers coherent pending made cancelled rfl
  have target (j : Fin n) : (e.pre.session j).target = (calls j).jobID :=
    Machine.target_of_run run j
  -- The call has been about this job from the start.
  have own : (e.pre.session i).target = jobID := by
    rw [target, cancels]
    rfl
  rw [own] at stored gone
  simp only [cancellable, Bool.and_eq_true, Bool.or_eq_true, beq_iff_eq] at hit
  refine ⟨⟨row, held, stored, hit.2, fun j ne same => ?_⟩, gone⟩
  -- Two calls never hold the lock of one row.
  by_contra locked
  refine ne (coherent.alone j i (Option.isSome_iff_ne_none.mpr locked) (by rw [held]; rfl) ?_)
  rw [own, target, same]

end Answers

/--
A cancelled job is never started again.

`CancelJob` returns `nil` with the commit of its deletion. Up to that moment the job was pending or
scheduled and no other transaction had locked it, and from then on there is no such job. No
`TryClaim` that is under way, or starts later, is granted it, whatever the schedulers and the
operator do with what they know of the job. New jobs get identifiers that were never used before.
-/
theorem cancelled_for_good (run : Run Machine.Happens (launch calls jobs jobRuns) past m)
    (fresh : (jobs.rows.map Job.id ++ insertedIDs past).Nodup) {i : Fin n} {jobID tenantID : UUID}
    (cancels : calls i = .job (.cancelJob jobID tenantID))
    {earlier later : List (Step (JobMachine n) (JobEvent n))}
    {e : Step (JobMachine n) (JobEvent n)} (taken : past = earlier ++ e :: later)
    (cancelled : Machine.Answers i .nil e) :
    (∃ row, (e.pre.session i).held = some row ∧ e.pre.table.find? jobID = some row ∧
        (row.state = .pending ∨ row.state = .scheduled) ∧
        ∀ j, j ≠ i → (calls j).jobID = jobID → (e.pre.session j).held = none) ∧
      e.post.table.find? jobID = none ∧
      ∀ e' ∈ later, e'.post.table.find? jobID = none ∧
        ∀ j workerID token deadline runID now,
          calls j = .job (.tryClaim jobID workerID token deadline runID now) →
            ∀ granted, ¬ Machine.Answers j (.claimed granted) e' := by
  subst taken
  obtain ⟨before, made, after⟩ := run.at_step
  obtain ⟨⟨row, held, stored, waiting, alone⟩, gone⟩ :=
    stored_of_cancelled before made cancels cancelled
  refine ⟨⟨row, held, stored, waiting, alone⟩, gone, fun e' listed => ?_⟩
  have others := not_drawn_again fresh (origin_of_run before stored)
  -- The row is gone before each later step, and nobody inserts it again.
  obtain ⟨front, back, rfl⟩ := List.append_of_mem listed
  obtain ⟨between, made', -⟩ := after.at_step
  have absent : e'.pre.table.find? jobID = none :=
    Machine.absent_of_run between gone fun e'' early => others e'' (by simp [early])
  refine ⟨Machine.happens_absent made' absent (others e' (by simp)), ?_⟩
  intro j workerID token deadline runID now claims granted claimed
  -- A claim that is granted would have found the row.
  have reached := (before.snoc made).append between
  obtain ⟨row', stored'⟩ := stored_of_claimed reached made' claims claimed
  rw [absent] at stored'
  cases stored'

/-- A pending job is cancelled while a worker claims it and two schedulers have it in a batch. -/
def cancelRace : Fin 4 → TableCall
  | 0 => .job (.cancelJob 1 7)
  | 1 => .job (.tryClaim 1 "w" 21 30 11 5)
  | 2 => .job (.promoteScheduledToPending 1)
  | 3 => .cmdReplay 1

/-- The calls on two pending jobs of one tenant. -/
def cancelRaceMachine : JobMachine 4 := launch cancelRace racedJobs []

section Indices

/-- The calls are numbered from 0 to 3. -/
local instance fourCalls : NeZero 4 := ⟨by decide⟩

/-- The claim has found the row when the cancellation locks it, deletes it, and commits. -/
def cancelRaceBefore : List (JobEvent 4) := [.statement 1, .statement 0, .statement 0]

/-- The claim asks again, a promotion and a replay follow, and another job is submitted. -/
def cancelRaceAfter : List (JobEvent 4) :=
  [.statement 1, .statement 2, .insert (racedJob 3), .statement 3]

end Indices

theorem cancelled_for_good_raced :
    let m := cancelRaceBefore.foldl Machine.after cancelRaceMachine
    let m' := m.after (.statement 0)
    m'.reply? 0 = some .nil ∧ (∃ row, m.table.find? 1 = some row ∧
      (row.state = .pending ∨ row.state = .scheduled)) ∧
    (∀ e ∈ trace Machine.after m' cancelRaceAfter, e.post.table.find? 1 = none) ∧
    (cancelRaceAfter.foldl Machine.after m').reply? 1 = some .unclaimed := by
  intro m m'
  have run := Machine.run_of_events cancelRaceMachine
    (cancelRaceBefore ++ .statement 0 :: cancelRaceAfter) (by decide +kernel)
  have cancels : cancelRace 0 = .job (.cancelJob 1 7) := rfl
  have taken : trace Machine.after cancelRaceMachine
      (cancelRaceBefore ++ .statement 0 :: cancelRaceAfter) =
        trace Machine.after cancelRaceMachine cancelRaceBefore ++
          ⟨m, .statement 0, m'⟩ :: trace Machine.after m' cancelRaceAfter := rfl
  have answered : m'.reply? 0 = some .nil := by decide +kernel
  obtain ⟨⟨row, -, stored, waiting, -⟩, -, later⟩ :=
    cancelled_for_good run (by decide +kernel) cancels taken ⟨rfl, answered⟩
  exact ⟨answered, ⟨row, stored, waiting⟩, fun e listed => (later e listed).1, by decide +kernel⟩

end TableCall

end Sluice
