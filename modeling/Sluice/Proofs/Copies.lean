import Sluice.Proofs.DuePolls

/-! The reconciler queues jobs again and again while they wait. -/

namespace Sluice

open Relational Transition

variable {s s' : PollState} {pass : Time × List (Job × Time)} {j : Job}

/-- How often a job stands in the list of its lane. -/
def copies (j : Job) (s : PollState) : Nat := (s.redis j.lane).count j.id.toString

/-- Each call queues a copy of its job. -/
theorem copies_foldl (j : Job) (calls : List (Job × Time)) (s : PollState) :
    copies j (calls.foldl (PollState.promote fun _ _ => id) s) =
      copies j s + calls.countP fun call => j.lane == call.1.lane && call.1.id == j.id := by
  induction calls generalizing s with
  | nil => rfl
  | cons call calls ih =>
    -- A call pushes to one list, and what it pushes is the text of its identifier.
    have pushed : copies j (s.promote (fun _ _ => id) call) =
        copies j s + if j.lane == call.1.lane && call.1.id == j.id then 1 else 0 := by
      have text : (call.1.id.toString == j.id.toString) = (call.1.id == j.id) := by
        rw [Bool.eq_iff_iff, beq_iff_eq, beq_iff_eq]
        exact ⟨UUID.toString_inj, congrArg _⟩
      have lists : (s.promote (fun _ _ => id) call).redis j.lane =
          if j.lane = call.1.lane then call.1.id.toString :: s.redis j.lane
          else s.redis j.lane := rfl
      rw [copies, lists, copies]
      by_cases own : j.lane = call.1.lane
      · rw [if_pos own, List.count_cons, text, beq_iff_eq.mpr own, Bool.true_and]
      · rw [if_neg own, beq_eq_false_iff_ne.mpr own, Bool.false_and]
        rfl
    rw [List.foldl_cons, ih, pushed, List.countP_cons]
    omega

/-- Queueing leaves the database as it is. -/
theorem foldl_db (calls : List (Job × Time)) (s : PollState) :
    (calls.foldl (PollState.promote fun _ _ => id) s).db = s.db ∧
      (calls.foldl (PollState.promote fun _ _ => id) s).clock = s.clock := by
  induction calls generalizing s with
  | nil => exact ⟨rfl, rfl⟩
  | cons call calls ih => exact ih _

namespace ReconcilePending

variable (made : ReconcilePending s pass s') (stored : s.db.jobs.find? j.id = some j)

include made

/-- A pass only reads the database. -/
theorem db_eq : s'.db = s.db := by
  rw [made.2.2]
  exact (foldl_db pass.2 _).1

/-- The clock does not go back during a pass. -/
theorem clock_le : s.clock ≤ s'.clock := by
  rw [made.2.2, (foldl_db pass.2 _).2]
  exact made.1

include stored

/-- A pass adds a copy of each job in its batch. -/
theorem copies_eq : copies j s' = copies j s + if j ∈ pass.2.map Prod.fst then 1 else 0 := by
  -- A row of the batch with the identifier of the job is the job, as no two rows share one.
  have own : ∀ call ∈ pass.2, (j.lane == call.1.lane && call.1.id == j.id) = true ↔
      (call.1 == j) = true := by
    intro call listed
    have there := Table.mem_rows_iff.mp (made.2.1.sound (List.mem_map_of_mem listed)).1
    rw [Bool.and_eq_true, beq_iff_eq, beq_iff_eq, beq_iff_eq]
    constructor
    · rintro ⟨-, same⟩
      rw [same, stored, Option.some.injEq] at there
      exact there.symm
    · rintro rfl
      exact ⟨rfl, rfl⟩
  -- For the same reason the batch has it once at most.
  have single : (pass.2.map Prod.fst).Nodup :=
    List.Nodup.of_map _ (made.2.1.nodup_map s.db.jobs.keyed)
  rw [made.2.2, copies_foldl, List.countP_congr own, ← single.count, List.count, List.countP_map]
  rfl

/-- A job that has waited for long is in the batch, unless others fill it. -/
theorem mem_batch (waiting : j.state = .pending) (aged : j.runAt ≤ s.clock - minute)
    (few : jobsBefore j s < 500) : j ∈ pass.2.map Prod.fst := by
  -- Otherwise the job meets the condition of the query and is cut off by its limit.
  by_contra omitted
  have hit : (getPendingJobs pendingReconcileBatchSize pass.1).holds j = true := by
    have later := made.1
    simp only [getPendingJobs, waiting, beq_self_eq_true, Bool.true_and, decide_eq_true_eq]
    lia
  obtain ⟨full, before⟩ := made.2.1.crowded rfl rfl (Table.mem_rows_iff.mpr stored) hit omitted
  -- All jobs of the full batch may come before the one that is left out.
  have crowd : (pass.2.map Prod.fst).countP j.goesBefore = (pass.2.map Prod.fst).length := by
    rw [List.countP_eq_length]
    intro other listed
    obtain ⟨-, due⟩ := made.2.1.sound listed
    simp only [getPendingJobs, Bool.and_eq_true, beq_iff_eq] at due
    have differs : other ≠ j := fun same => omitted (same ▸ listed)
    have first : byPriority other j = true := before other listed
    simp [Job.goesBefore, first, differs, due.1, waiting]
  have bound := made.2.1.countP_le j.goesBefore
  have fewer : s.db.jobs.rows.countP (fun row => j.goesBefore row &&
      (getPendingJobs pendingReconcileBatchSize pass.1).holds row) ≤ jobsBefore j s :=
    List.countP_mono_left fun row _ both => (Bool.and_eq_true_iff.mp both).1
  have size : (pass.2.map Prod.fst).length = 500 := full
  omega

end ReconcilePending

/-- With a full batch of jobs before it, a waiting job may be left out. -/
theorem exists_pass_omitting (stored : s.db.jobs.find? j.id = some j) (waiting : j.state = .pending)
    (crowd : 500 ≤ jobsBefore j s) :
    ∃ pass s', ReconcilePending s pass s' ∧ j ∉ pass.2.map Prod.fst := by
  -- At a late time all pending jobs have aged, so the query is free to prefer the others.
  obtain ⟨now, later, late⟩ := exists_late s.db.jobs.rows s.clock
  have listed := Table.mem_rows_iff.mpr stored
  have hit : (getPendingJobs pendingReconcileBatchSize now).holds j = true := by
    simpa [getPendingJobs, waiting] using late j listed
  obtain ⟨answer, answers, omitted⟩ := Query.exists_answer_without
    (q := getPendingJobs pendingReconcileBatchSize now) rfl rfl listed hit
    (List.Nodup.of_map _ s.db.jobs.keyed) byPriority_total byPriority_trans (by
      refine crowd.trans (List.countP_mono_left fun other there before => ?_)
      simp only [Job.goesBefore, Bool.and_eq_true] at before
      simp only [Query.ahead, getPendingJobs, Bool.and_eq_true, before.1,
        decide_eq_true (late other there), waiting ▸ before.2, and_self])
  obtain ⟨pass, s', poll, same⟩ := Poll.of_answer (fun _ _ => id) later answers
  exact ⟨pass, s', poll, by rwa [same]⟩

/--
Every pass of the reconciler adds one more copy of a job that has waited for a minute, whether or
not the job is still in its list, exactly if the jobs before it do not fill the batch.
-/
theorem copies_grow_iff (stored : s.db.jobs.find? j.id = some j) (waiting : j.state = .pending)
    (aged : j.runAt ≤ s.clock - minute) :
    (∀ passes s', Run ReconcilePending s passes s' →
      copies j s' = copies j s + passes.length) ↔ jobsBefore j s < 500 := by
  constructor
  · -- The batch can leave the job out in the very first pass.
    intro grows
    by_contra crowd
    obtain ⟨pass, s', made, omitted⟩ :=
      exists_pass_omitting stored waiting (Nat.le_of_not_lt crowd)
    have one := grows _ s' (.snoc .nil made)
    rw [made.copies_eq stored, if_neg omitted] at one
    simp at one
  · -- Nothing but the lists changes, so each pass finds the job where the first one did.
    intro few passes s' run
    refine (run.history (fun passes s' => s'.db = s.db ∧ s.clock ≤ s'.clock ∧
      copies j s' = copies j s + passes.length) ⟨rfl, Int.le_refl _, rfl⟩ ?_).2.2
    rintro passes mid pass s' - ⟨same, later, count⟩ made
    have there : mid.db.jobs.find? j.id = some j := by rw [same, stored]
    have few' : jobsBefore j mid < 500 := by rwa [jobsBefore, same]
    have old : j.runAt ≤ mid.clock - minute := by lia
    refine ⟨made.db_eq.trans same, Int.le_trans later made.clock_le, ?_⟩
    rw [made.copies_eq there, if_pos (made.mem_batch there waiting old few'), count,
      List.length_append, List.length_singleton, Nat.add_assoc]

/-- There is always a pass to make. -/
theorem exists_reconcilePending (s : PollState) : ∃ pass s', ReconcilePending s pass s' := by
  have answers := Scan.reconcilePending.run_answers s.clock s.db.jobs.rows
  obtain ⟨pass, s', made, -⟩ := Poll.of_answer (fun _ _ => id) (Int.le_refl s.clock) answers
  exact ⟨pass, s', made⟩

/-- A pending job that no worker takes. -/
def agedJob : Job := (submittedJob 7 .hook 1 0).inserted

/-- It is stored with a more urgent one, which is already queued. -/
def agedBehind : PollState where
  db := (insertJob { agedJob with id := 2, priority := 1 } (insertJob agedJob .empty).2).2
  redis := enqueue 7 2 1 fun _ => []
  clock := minute

theorem copies_grow_iff_behind : jobsBefore agedJob agedBehind = 1 ∧
    ∃ passes s', Run ReconcilePending agedBehind passes s' ∧ passes.length = 2 ∧
      copies agedJob s' = 2 := by
  have stored : agedBehind.db.jobs.find? agedJob.id = some agedJob := by
    decide +kernel
  have behind : jobsBefore agedJob agedBehind = 1 := by decide +kernel
  have few : jobsBefore agedJob agedBehind < 500 := by rw [behind]; decide
  have unlisted : copies agedJob agedBehind = 0 := by decide +kernel
  obtain ⟨first, mid, one⟩ := exists_reconcilePending agedBehind
  obtain ⟨second, s', two⟩ := exists_reconcilePending mid
  have run := Run.snoc (.snoc .nil one) two
  refine ⟨behind, _, s', run, rfl, ?_⟩
  rw [(copies_grow_iff stored rfl (Int.le_refl 0)).mpr few _ s' run, unlisted]
  rfl

end Sluice
