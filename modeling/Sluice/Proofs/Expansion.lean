import Sluice.Api.Server
import Sluice.Proofs.Storage.Scans
import Sluice.Proofs.Storage.Specs
import Sluice.Scheduler.Passes

/-! Which due schedules the passes of `expandCron` come to fire. -/

namespace Sluice

open Relational Transition

variable {env : Env} {s s' : CronState}

/-- Whether the job of a template can be stored. -/
def JobTemplate.insertable (t : JobTemplate) : Bool :=
  fitsInt (t.maxRetries.getD 3) && fitsInt (t.backoffSeconds.getD 30) && t.payload.isSome

/-- Whether firing a schedule leads to a job: its expression parses and its template is in order. -/
def Schedule.fires (env : Env) (sched : Schedule) : Bool :=
  (env.parse sched.cron).isSome &&
    (JobTemplate.unmarshal sched.jobTemplate).any JobTemplate.insertable

/-- The time that a schedule's expression answers with. -/
def Schedule.next (env : Env) (now : Time) (sched : Schedule) : Time :=
  (env.parse sched.cron).elim sched.nextRunAt fun next => next env.localZone now

/-- What firing makes of a schedule's row. -/
def Schedule.fired (env : Env) (now : Time) (sched : Schedule) : Schedule :=
  if sched.fires env then
    { sched with lastRunAt := some now, nextRunAt := sched.next env now }
  else sched

/-- A job with a new identifier is stored exactly if its template is in order. -/
theorem insertJob_firedJob {db : Db} {id : UUID} (fresh : db.jobs.find? id = none)
    (sched : Schedule) (template : JobTemplate) (now : Time) :
    (template.insertable = true ∧
      ∃ jobs, insertJob (firedJob sched template id now) db = (.ok (), { db with jobs })) ∨
    (template.insertable = false ∧
      ∃ e, insertJob (firedJob sched template id now) db = (.error e, db)) := by
  -- Fired jobs have no key, so only their identifier could be taken.
  obtain ⟨jobs, stored⟩ := Table.exists_insert
    (rfl : (firedJob sched template id now).inserted.idempotency = none) fresh
  have zero : fitsInt (firedJob sched template id now).attempt = true :=
    (by decide : fitsInt 0 = true)
  have limit : (firedJob sched template id now).maxRetries = template.maxRetries.getD 3 := rfl
  have pause : (firedJob sched template id now).backoffSeconds =
      template.backoffSeconds.getD 30 := rfl
  have payload : (firedJob sched template id now).payload = template.payload := rfl
  unfold insertJob JobTemplate.insertable
  rw [payload, stored, limit, pause]
  -- The first number that does not fit makes the insertion fail.
  simp only [List.find?_cons, zero, Bool.not_true, List.find?_nil]
  cases fitsInt (template.maxRetries.getD 3) with
  | false => exact .inr ⟨rfl, _, rfl⟩
  | true =>
    cases fitsInt (template.backoffSeconds.getD 30) with
    | false => exact .inr ⟨rfl, _, rfl⟩
    | true =>
      cases template.payload with
      | none => exact .inr ⟨rfl, _, rfl⟩
      | some value => exact .inl ⟨rfl, jobs, rfl⟩

/-- Firing a schedule rewrites its row, if it leads to a job, and no other. -/
theorem fire_spec (env : Env) {db : Db} {sched : Schedule} {id : UUID} (now : Time)
    (fresh : db.jobs.find? id = none) (current : db.schedules.find? sched.id = some sched) :
    (fire env sched id now db).1 = sched.fires env ∧
      ∀ k, (fire env sched id now db).2.schedules.find? k =
        if sched.id = k then some (sched.fired env now) else db.schedules.find? k := by
  -- A firing that gives up on its way leaves every row alone.
  have unfired (k : UUID) (broken : sched.fires env = false) : db.schedules.find? k =
      if sched.id = k then some (sched.fired env now) else db.schedules.find? k := by
    simp only [Schedule.fired, broken, Bool.false_eq_true, if_false]
    split
    · rename_i own
      rw [← own, current]
    · rfl
  unfold fire fireSchedule
  cases parsed : env.parse sched.cron with
  | none =>
    have broken : sched.fires env = false := by simp [Schedule.fires, parsed]
    exact ⟨broken.symm, fun k => unfired k broken⟩
  | some next =>
    cases read : JobTemplate.unmarshal sched.jobTemplate with
    | none =>
      have broken : sched.fires env = false := by simp [Schedule.fires, read]
      exact ⟨broken.symm, fun k => unfired k broken⟩
    | some template =>
      have whole : sched.fires env = template.insertable := by simp [Schedule.fires, parsed, read]
      simp only [Option.bind_some, Option.map_some]
      rcases insertJob_firedJob fresh sched template now with
        ⟨ok, jobs, done⟩ | ⟨refused, e, done⟩
      · -- The job is stored, and the statement that follows names the schedule.
        simp only [done]
        refine ⟨(whole.trans ok).symm, fun k => ?_⟩
        simp only [updateScheduleAfterRun, Table.find?_update]
        split
        · rename_i own
          simp [← own, current, Schedule.fired, whole, ok, Schedule.next, parsed]
        · rename_i other
          cases found : db.schedules.find? k with
          | none => rfl
          | some row =>
            have named : row.id = k := Table.key_of_find? found
            simp [named, Ne.symm other]
      · simp only [done]
        have broken : sched.fires env = false := whole.trans refused
        exact ⟨broken.symm, fun k => unfired k broken⟩

/-- One firing of a pass, for a schedule whose row is as it was read. -/
theorem Fires.effect {f : CronFiring} (step : Fires env s f s')
    (current : s.schedules.find? f.sched.id = some f.sched) :
    (∀ k, s'.schedules.find? k =
      if f.sched.id = k then some (f.sched.fired env f.clock) else s.schedules.find? k) ∧
    (∀ k, k ∈ s'.fired ↔ k ∈ s.fired ∨ f.sched.id = k ∧ f.sched.fires env = true) ∧
    s.clock ≤ f.clock ∧ s'.clock = f.clock := by
  -- The database that the firing meets has the schedules of the state.
  obtain ⟨same, fresh, later, rfl⟩ := step
  rw [← same] at current
  obtain ⟨reported, stored⟩ := fire_spec env f.clock fresh current
  refine ⟨fun k => ?_, fun k => ?_, later, rfl⟩
  · simp only [CronState.after, stored, same]
  · simp only [CronState.after, reported]
    cases f.sched.fires env <;> simp [or_comm, eq_comm]

/-- What a pass does: each schedule of the batch is fired once, and no other is touched. -/
structure PassEffect (env : Env) (s : CronState) (batch : List CronFiring) (s' : CronState) :
    Prop where
  clock : s.clock ≤ s'.clock
  clocks : ∀ f ∈ batch, s.clock ≤ f.clock
  others : ∀ k, (∀ f ∈ batch, f.sched.id ≠ k) → s'.schedules.find? k = s.schedules.find? k
  rows : ∀ f ∈ batch, s'.schedules.find? f.sched.id = some (f.sched.fired env f.clock)
  fired : ∀ k, k ∈ s'.fired ↔
    k ∈ s.fired ∨ ∃ f ∈ batch, f.sched.id = k ∧ f.sched.fires env = true

/-- Firing the schedules of a batch one after the other. -/
theorem passEffect_of_run {steps : List (Step CronState CronFiring)}
    (run : Run (Fires env) s steps s')
    (distinct : ((steps.map Step.label).map fun f => f.sched.id).Nodup)
    (current : ∀ f ∈ steps.map Step.label, s.schedules.find? f.sched.id = some f.sched) :
    PassEffect env s (steps.map Step.label) s' := by
  -- The induction is on the firings made so far, each of a schedule of its own.
  induction run with
  | nil => exact ⟨Int.le_refl _, by simp, by simp, by simp, by simp⟩
  | @snoc past s₁ s₂ f run step ih =>
    simp only [List.map_append, List.map_cons, List.map_nil, List.nodup_append] at distinct
    rw [List.map_append, List.forall_mem_append] at current
    obtain ⟨distinct, -, apart⟩ := distinct
    have before := ih distinct current.1
    -- The schedule has not been fired before in this pass, so its row is still as it was read.
    have first : ∀ g ∈ past.map Step.label, g.sched.id ≠ f.sched.id := fun g listed =>
      apart _ (List.mem_map_of_mem listed) _ List.mem_cons_self
    have row : s₁.schedules.find? f.sched.id = some f.sched := by
      rw [before.others _ first]
      exact current.2 f List.mem_cons_self
    obtain ⟨stored, fired, later, now⟩ := step.effect row
    rw [List.map_append]
    constructor
    · rw [now]
      exact Int.le_trans before.clock later
    · exact List.forall_mem_append.mpr
        ⟨before.clocks, by simpa using Int.le_trans before.clock later⟩
    · intro k untouched
      obtain ⟨earlier, last⟩ := List.forall_mem_append.mp untouched
      rw [stored, if_neg (last f List.mem_cons_self), before.others k earlier]
    · refine List.forall_mem_append.mpr ⟨fun g listed => ?_, by simp [stored]⟩
      rw [stored, if_neg (first g listed).symm, before.rows g listed]
    · intro k
      rw [fired, before.fired, or_assoc]
      simp [List.mem_append, or_and_right, exists_or]

/-- The schedules of a pass's batch are enabled, due, and as they are stored. -/
theorem expandCron_batch {pass : Time × List CronFiring} (step : ExpandCron env s pass s')
    {f : CronFiring} (listed : f ∈ pass.2) :
    s.schedules.find? f.sched.id = some f.sched ∧ f.sched.enabled = true := by
  obtain ⟨stored, hit⟩ := step.2.1.sound (List.mem_map_of_mem listed)
  simp only [getDueSchedules, Bool.and_eq_true] at hit
  exact ⟨Table.mem_rows_iff.mp stored, hit.1⟩

/-- A pass fires the schedules of its batch. -/
theorem expandCron_effect {pass : Time × List CronFiring} (step : ExpandCron env s pass s') :
    PassEffect env { s with clock := pass.1 } pass.2 s' := by
  obtain ⟨-, answers, steps, run, labels⟩ := id step
  have distinct := answers.nodup_map s.schedules.keyed
  rw [List.map_map, ← labels] at distinct
  have effect := passEffect_of_run run (by rwa [List.map_map] at distinct ⊢) fun f listed =>
    (expandCron_batch step (labels ▸ listed)).1
  rwa [labels] at effect

/-- A row after a pass is the row before it or what the pass has made of it. -/
theorem expandCron_row {pass : Time × List CronFiring} (step : ExpandCron env s pass s')
    {k : UUID} {row : Schedule} (found : s'.schedules.find? k = some row) :
    (∃ f ∈ pass.2, f.sched.id = k ∧ row = f.sched.fired env f.clock) ∨
      s.schedules.find? k = some row := by
  have effect := expandCron_effect step
  by_cases touched : ∃ f ∈ pass.2, f.sched.id = k
  · obtain ⟨f, listed, rfl⟩ := touched
    rw [effect.rows f listed] at found
    exact .inl ⟨f, listed, rfl, (Option.some.inj found).symm⟩
  · rw [effect.others k (by simpa using touched)] at found
    exact .inr found

/-- A schedule that can stay at or before a given time, however often it is fired. -/
def Schedule.Blocks (env : Env) (v : Time) (x : Schedule) : Prop :=
  x.fires env = false ∨ ∀ start, ∃ now, start ≤ now ∧ x.next env now ≤ v

/-- A schedule that blocks, or that leaves the time behind when it is fired late enough. -/
def Schedule.Settles (env : Env) (v bound : Time) (x : Schedule) : Prop :=
  x.Blocks env v ∨ ∀ now, bound < now → v < x.next env now

/-- Firing changes none of the columns that decide how a schedule fires. -/
theorem Schedule.fired_fields (env : Env) (now : Time) (x : Schedule) :
    (x.fired env now).id = x.id ∧ (x.fired env now).enabled = x.enabled ∧
      (x.fired env now).fires env = x.fires env ∧
      ∀ later, x.fires env = true → (x.fired env now).next env later = x.next env later := by
  unfold Schedule.fired
  split
  · -- The next time depends on the old one only where the expression does not parse.
    rename_i valid
    refine ⟨rfl, rfl, rfl, fun later _ => ?_⟩
    unfold Schedule.next
    cases parsed : env.parse x.cron with
    | none => simp [Schedule.fires, parsed] at valid
    | some next => rfl
  · exact ⟨rfl, rfl, rfl, fun _ _ => rfl⟩

/-- Firing does not change whether a schedule blocks. -/
theorem Schedule.fired_blocks {v now : Time} {x : Schedule} :
    (x.fired env now).Blocks env v ↔ x.Blocks env v := by
  obtain ⟨-, -, fires, next⟩ := x.fired_fields env now
  unfold Schedule.Blocks
  cases valid : x.fires env with
  | false => simp [fires, valid]
  | true => simp [fires, valid, next _ valid]

/-- A schedule that settles does so still after it is fired. -/
theorem Schedule.fired_settles {v bound now : Time} {x : Schedule}
    (settles : x.Settles env v bound) :
    (x.fired env now).Settles env v bound := by
  rcases settles with blocks | leaves
  · exact .inl (Schedule.fired_blocks.mpr blocks)
  · cases valid : x.fires env with
    | false => exact .inl (.inl ((x.fired_fields env now).2.2.1.trans valid))
    | true =>
      refine .inr fun later late => ?_
      rw [(x.fired_fields env now).2.2.2 later valid]
      exact leaves later late

/-- Finitely many schedules settle from some time on. -/
theorem exists_settling (env : Env) (v : Time) (rows : List Schedule) :
    ∃ bound, ∀ x ∈ rows, x.Settles env v bound := by
  -- The bounds of single schedules are put together, which is why there must be finitely many.
  induction rows with
  | nil => exact ⟨0, by simp⟩
  | cons x rows ih =>
    obtain ⟨bound, settled⟩ := ih
    by_cases blocks : x.Blocks env v
    · exact ⟨bound, List.forall_mem_cons.mpr ⟨.inl blocks, settled⟩⟩
    · -- From some time on the expression answers with later times only.
      simp only [Schedule.Blocks, not_or, not_forall, not_exists, not_and, not_le] at blocks
      obtain ⟨-, start, leaves⟩ := blocks
      refine ⟨max bound start, List.forall_mem_cons.mpr ⟨.inr fun now late => ?_, ?_⟩⟩
      · exact leaves now (le_of_lt (lt_of_le_of_lt (le_max_right _ _) late))
      · intro y listed
        exact (settled y listed).imp_right fun leaves now late =>
          leaves now (lt_of_le_of_lt (le_max_left _ _) late)

/-- The other enabled schedules that are due no later than a given one. -/
def Schedule.ahead (S x : Schedule) : Bool :=
  x.id != S.id && x.enabled && decide (x.nextRunAt ≤ S.nextRunAt)

open Classical in
/-- How many schedules can stay ahead of a given one. -/
noncomputable def blockers (env : Env) (S : Schedule) (schedules : Schedules) : Nat :=
  schedules.rows.countP fun x => S.ahead x && decide (x.Blocks env S.nextRunAt)

/-- A schedule that is fired stays ahead if its expression answers with an early time. -/
theorem Schedule.fired_ahead {S x : Schedule} {now : Time} (ahead : S.ahead x = true)
    (early : x.fires env = true → x.next env now ≤ S.nextRunAt) :
    S.ahead (x.fired env now) = true := by
  simp only [Schedule.ahead, Bool.and_eq_true, decide_eq_true_eq, bne_iff_ne] at ahead ⊢
  unfold Schedule.fired
  split
  · rename_i valid
    exact ⟨ahead.1, early valid⟩
  · exact ahead

section Waiting

variable {S : Schedule} {pass : Time × List CronFiring} {bound : Time}

/-- A due schedule is left out of a batch only if the batch is full of schedules ahead of it. -/
theorem expandCron_crowded (step : ExpandCron env s pass s')
    (stored : s.schedules.find? S.id = some S) (enabled : S.enabled = true)
    (due : S.nextRunAt ≤ s.clock) (omitted : S ∉ pass.2.map CronFiring.sched) :
    pass.2.length = cronBatchSize ∧ ∀ f ∈ pass.2, S.ahead f.sched = true := by
  -- The pass reads a later clock, so the schedule is among those that it asks for.
  have row : S ∈ s.schedules.rows := Table.mem_rows_iff.mpr stored
  have hit : (getDueSchedules cronBatchSize pass.1).holds S = true := by
    simp [getDueSchedules, enabled, Int.le_trans due (Int.le_of_lt step.1)]
  obtain ⟨full, before⟩ := step.2.1.crowded (n := cronBatchSize) rfl rfl row hit omitted
  refine ⟨by rwa [List.length_map] at full, fun f listed => ?_⟩
  have member := List.mem_map_of_mem (f := CronFiring.sched) listed
  obtain ⟨current, on⟩ := expandCron_batch step listed
  have other : f.sched.id ≠ S.id := by
    intro same
    rw [same, stored] at current
    exact omitted (Option.some.inj current ▸ member)
  have early := before f.sched member
  simp only [getDueSchedules] at early
  simp [Schedule.ahead, other, on, of_decide_eq_true early]

/-- After a pass that leaves a schedule out, no schedule is ahead of it that was not so before. -/
theorem expandCron_ahead (step : ExpandCron env s pass s')
    (ahead : ∀ f ∈ pass.2, S.ahead f.sched = true) {k : UUID} {row' : Schedule}
    (found : s'.schedules.find? k = some row') (hit : S.ahead row' = true) :
    ∃ row, s.schedules.find? k = some row ∧ S.ahead row = true ∧
      (row'.Blocks env S.nextRunAt ↔ row.Blocks env S.nextRunAt) := by
  -- What the pass has fired was ahead before, and the rest is as it was.
  rcases expandCron_row step found with ⟨f, listed, rfl, rfl⟩ | kept
  · exact ⟨f.sched, (expandCron_batch step listed).1, ahead f listed, Schedule.fired_blocks⟩
  · exact ⟨row', kept, hit, Iff.rfl⟩

/-- A schedule that waits for its turn, with less than a batch of schedules to block it. -/
structure Waiting (env : Env) (S : Schedule) (bound : Time) (s : CronState) : Prop where
  due : S.nextRunAt ≤ s.clock
  stored : s.schedules.find? S.id = some S
  few : blockers env S s.schedules < cronBatchSize
  settled : ∀ x ∈ s.schedules.rows, x.Settles env S.nextRunAt bound

/-- The time until every schedule settles, and the schedules to be fired before a given one. -/
def cronDistance (S : Schedule) (bound : Time) (s : CronState) : Nat :=
  (bound + 1 - s.clock).toNat + s.schedules.rows.countP S.ahead

/-- A pass that leaves a waiting schedule out keeps it waiting. -/
theorem Waiting.step (waiting : Waiting env S bound s) (step : ExpandCron env s pass s')
    (ahead : ∀ f ∈ pass.2, S.ahead f.sched = true) : Waiting env S bound s' := by
  have effect := expandCron_effect step
  constructor
  · exact Int.le_trans waiting.due (Int.le_trans (Int.le_of_lt step.1) effect.clock)
  · rw [effect.others S.id, waiting.stored]
    intro f listed same
    have other := ahead f listed
    simp [Schedule.ahead, same] at other
  · -- No schedule comes to block that did not do so before.
    refine Nat.lt_of_le_of_lt (Table.countP_le fun k row' found hit => ?_) waiting.few
    obtain ⟨early, blocks⟩ := Bool.and_eq_true_iff.mp hit
    obtain ⟨row, located, counted, same⟩ := expandCron_ahead step ahead found early
    exact ⟨row, located, by simpa [counted] using same.mp (by simpa using blocks)⟩
  · intro x stored
    rcases expandCron_row step (Table.mem_rows_iff.mp stored) with ⟨f, listed, -, rfl⟩ | kept
    · exact Schedule.fired_settles
        (waiting.settled _ (Table.mem_rows_iff.mpr (expandCron_batch step listed).1))
    · exact waiting.settled x (Table.mem_rows_iff.mpr kept)

/-- Once every schedule has settled, a full batch holds one that leaves. -/
theorem Waiting.exists_leaving (waiting : Waiting env S bound s) (step : ExpandCron env s pass s')
    (late : bound < pass.1) (full : pass.2.length = cronBatchSize)
    (ahead : ∀ f ∈ pass.2, S.ahead f.sched = true) :
    ∃ f ∈ pass.2, S.nextRunAt < (f.sched.fired env f.clock).nextRunAt := by
  by_contra staying
  simp only [not_exists, not_and, not_lt] at staying
  -- Otherwise the whole batch would consist of schedules that block.
  have blocks : ∀ f ∈ pass.2, f.sched.Blocks env S.nextRunAt := by
    intro f listed
    have stored := Table.mem_rows_iff.mpr (expandCron_batch step listed).1
    rcases waiting.settled _ stored with blocks | leaves
    · exact blocks
    · cases valid : f.sched.fires env with
      | false => exact .inl valid
      | true =>
        have stays := staying f listed
        simp only [Schedule.fired, valid, if_true] at stays
        have after : bound < f.clock :=
          Int.lt_of_lt_of_le late ((expandCron_effect step).clocks f listed)
        exact absurd (leaves f.clock after) (Int.not_lt.mpr stays)
  -- A full batch of those that block contradicts that there are few of them.
  classical
  have count := step.2.1.countP_le fun x => S.ahead x && decide (x.Blocks env S.nextRunAt)
  have all : (pass.2.map CronFiring.sched).countP
      (fun x => S.ahead x && decide (x.Blocks env S.nextRunAt)) = cronBatchSize := by
    rw [List.countP_eq_length.mpr, List.length_map, full]
    simp only [List.forall_mem_map]
    exact fun f listed => by simp [ahead f listed, blocks f listed]
  have few := waiting.few
  rw [all] at count
  refine absurd (Nat.lt_of_le_of_lt (count.trans ?_) few) (Nat.lt_irrefl _)
  refine List.countP_mono_left fun x _ hit => ?_
  convert (Bool.and_eq_true_iff.mp hit).1

/-- A waiting schedule is fired by a pass, or its turn comes nearer. -/
theorem Waiting.progress (waiting : Waiting env S bound s) (step : ExpandCron env s pass s')
    (enabled : S.enabled = true) (valid : S.fires env = true) :
    S.id ∈ s'.fired ∨
      Waiting env S bound s' ∧ cronDistance S bound s' < cronDistance S bound s := by
  have effect := expandCron_effect step
  by_cases listed : S ∈ pass.2.map CronFiring.sched
  · obtain ⟨f, member, rfl⟩ := List.mem_map.mp listed
    exact .inl ((effect.fired _).mpr (.inr ⟨f, member, rfl, valid⟩))
  · obtain ⟨full, ahead⟩ := expandCron_crowded step waiting.stored enabled waiting.due listed
    refine .inr ⟨waiting.step step ahead, ?_⟩
    have source : ∀ k row', s'.schedules.find? k = some row' → S.ahead row' = true →
        ∃ row, s.schedules.find? k = some row ∧ S.ahead row = true := fun k row' found hit =>
      have ⟨row, located, counted, _⟩ := expandCron_ahead step ahead found hit
      ⟨row, located, counted⟩
    have passed := step.1
    have clock := effect.clock
    unfold cronDistance
    by_cases late : bound < pass.1
    · -- All have settled, so some schedule moves behind this one.
      obtain ⟨f, member, leaves⟩ := waiting.exists_leaving step late full ahead
      have fewer := Table.countP_lt source (expandCron_batch step member).1 (ahead f member) (by
        intro row' found
        rw [effect.rows f member] at found
        cases found
        simp [Schedule.ahead, Int.not_le.mpr leaves])
      simp only at clock
      lia
    · -- Until then it is the clock that goes on.
      have fewer := Table.countP_le source
      simp only at clock
      lia

/-- A batch can be fired, with every schedule that blocks staying where it blocks. -/
theorem exists_firings (env : Env) (v : Time) (batch : List Schedule) (s : CronState) :
    ∃ steps s', Run (Fires env) s steps s' ∧ (steps.map Step.label).map CronFiring.sched = batch ∧
      ∀ f ∈ steps.map Step.label, f.sched.Blocks env v →
        f.sched.fires env = true → f.sched.next env f.clock ≤ v := by
  induction batch generalizing s with
  | nil => exact ⟨[], s, .nil, rfl, by simp⟩
  | cons sched batch ih =>
    -- The firing waits for a time at which the expression answers with an early one, if it can.
    obtain ⟨now, later, early⟩ : ∃ now, s.clock ≤ now ∧
        (sched.Blocks env v → sched.fires env = true → sched.next env now ≤ v) := by
      by_cases blocks : sched.Blocks env v ∧ sched.fires env = true
      · obtain ⟨now, later, early⟩ := (blocks.1.resolve_left (by simp [blocks.2])) s.clock
        exact ⟨now, later, fun _ _ => early⟩
      · exact ⟨s.clock, Int.le_refl _, fun blocked valid => absurd ⟨blocked, valid⟩ blocks⟩
    let f : CronFiring := ⟨sched, 0, now, { Db.empty with schedules := s.schedules }⟩
    have step : Fires env s f (s.after env f) := ⟨rfl, rfl, later, rfl⟩
    obtain ⟨steps, s', run, labels, kept⟩ := ih (s.after env f)
    have first : Run (Fires env) s ([] ++ [⟨s, f, s.after env f⟩]) (s.after env f) :=
      .snoc .nil step
    refine ⟨_, s', first.append run, ?_, ?_⟩
    · simp [labels, f]
    · simp only [List.nil_append, List.singleton_append, List.map_cons, List.forall_mem_cons]
      exact ⟨early, kept⟩

/-- Every answer to the query makes a pass, in which the schedules that block stay put. -/
theorem exists_pass (env : Env) (v : Time) {batch : List Schedule}
    (answers : (getDueSchedules cronBatchSize (s.clock + 1)).Answers s.schedules.rows batch) :
    ∃ pass s', ExpandCron env s pass s' ∧ pass.2.map CronFiring.sched = batch ∧
      ∀ f ∈ pass.2, f.sched.Blocks env v →
        f.sched.fires env = true → f.sched.next env f.clock ≤ v := by
  obtain ⟨steps, s', run, labels, kept⟩ :=
    exists_firings env v batch { s with clock := s.clock + 1 }
  exact ⟨(s.clock + 1, steps.map Step.label), s',
    ⟨Int.lt_succ _, by rwa [labels], steps, run, rfl⟩, labels, kept⟩

/-- A due schedule that is not fired yet, with a full batch of schedules to block it. -/
structure Blocked (env : Env) (S : Schedule) (s : CronState) : Prop where
  due : S.nextRunAt ≤ s.clock
  stored : s.schedules.find? S.id = some S
  unfired : S.id ∉ s.fired
  crowd : cronBatchSize ≤ blockers env S s.schedules

/-- The schedules that block fill a batch that leaves a blocked schedule out. -/
theorem Blocked.exists_answer (blocked : Blocked env S s) (enabled : S.enabled = true) :
    ∃ batch, (getDueSchedules cronBatchSize (s.clock + 1)).Answers s.schedules.rows batch ∧
      S ∉ batch := by
  -- All that can stay ahead is due as well, and is enough for a batch.
  have later : S.nextRunAt ≤ s.clock + 1 := Int.le_trans blocked.due (Int.le_of_lt (Int.lt_succ _))
  refine Query.exists_answer_without (n := cronBatchSize) rfl rfl
    (Table.mem_rows_iff.mpr blocked.stored) (by simp [getDueSchedules, enabled, later])
    (List.Nodup.of_map _ s.schedules.keyed) (getDueSchedules_total _ _) (getDueSchedules_trans _ _)
    (blocked.crowd.trans (List.countP_mono_left fun x _ counted => ?_))
  simp only [Bool.and_eq_true, Schedule.ahead, bne_iff_ne, decide_eq_true_eq] at counted
  obtain ⟨⟨⟨distinct, on⟩, early⟩, -⟩ := counted
  have other : x ≠ S := fun same => distinct (same ▸ rfl)
  simp [Query.ahead, getDueSchedules, other, on, early, Int.le_trans early later]

/-- A blocked schedule can be kept waiting by one more pass. -/
theorem Blocked.step (blocked : Blocked env S s) (enabled : S.enabled = true) :
    ∃ pass s', ExpandCron env s pass s' ∧ Blocked env S s' := by
  -- The pass takes a batch without the schedule, and fires it at times that change nothing.
  obtain ⟨batch, answers, omitted⟩ := blocked.exists_answer enabled
  obtain ⟨pass, s', step, listed, kept⟩ := exists_pass env S.nextRunAt answers
  have effect := expandCron_effect step
  have others : ∀ f ∈ pass.2, f.sched.id ≠ S.id := by
    intro f member same
    have current := (expandCron_batch step member).1
    rw [same, blocked.stored] at current
    rw [← listed, Option.some.inj current] at omitted
    exact omitted (List.mem_map_of_mem member)
  refine ⟨pass, s', step, ?_, ?_, ?_, blocked.crowd.trans (Table.countP_le ?_)⟩
  · exact Int.le_trans blocked.due (Int.le_trans (Int.le_of_lt step.1) effect.clock)
  · rw [effect.others _ others, blocked.stored]
  · intro fired
    rcases (effect.fired _).mp fired with old | ⟨f, member, same, -⟩
    · exact blocked.unfired old
    · exact others f member same
  · -- A schedule that blocks is still ahead after the pass, whether it was fired or not.
    intro k row found counted
    obtain ⟨ahead, blocks⟩ := Bool.and_eq_true_iff.mp counted
    have blocks : row.Blocks env S.nextRunAt := by simpa using blocks
    by_cases touched : ∃ f ∈ pass.2, f.sched.id = k
    · obtain ⟨f, member, rfl⟩ := touched
      rw [(expandCron_batch step member).1] at found
      cases found
      refine ⟨_, effect.rows f member, Bool.and_eq_true_iff.mpr ⟨?_, ?_⟩⟩
      · exact Schedule.fired_ahead ahead (kept f member blocks)
      · simpa using Schedule.fired_blocks.mpr blocks
    · exact ⟨row, by rw [effect.others k (by simpa using touched), found], counted⟩

/--
A due schedule that is in order is fired after some number of passes, exactly if less than a full
batch of other schedules can stay ahead of it.
-/
theorem schedule_fired_iff (env : Env) (schedules : Schedules) (start : Time) (S : Schedule)
    (stored : schedules.find? S.id = some S) (enabled : S.enabled = true)
    (valid : S.fires env = true) (due : S.nextRunAt ≤ start) :
    (∃ n, After (ExpandCron env) (fun s => S.id ∈ s.fired) n ⟨schedules, start, []⟩) ↔
      blockers env S schedules < cronBatchSize := by
  constructor
  · rintro ⟨n, fired⟩
    by_contra crowd
    refine not_after (Blocked env S) (fun s blocked => blocked.unfired)
      (fun s blocked => blocked.step enabled) n ?_ fired
    exact ⟨due, stored, by simp, Nat.le_of_not_lt crowd⟩
  · intro few
    -- The distance to the schedule's turn decreases with every pass that leaves it out.
    obtain ⟨bound, settled⟩ := exists_settling env S.nextRunAt schedules.rows
    have waiting : Waiting env S bound ⟨schedules, start, []⟩ := ⟨due, stored, few, settled⟩
    refine ⟨cronDistance S bound ⟨schedules, start, []⟩ + 1, ?_⟩
    refine After.of_measure (fun s => S.id ∈ s.fired ∨ Waiting env S bound s)
      (cronDistance S bound) ?_ ?_ ?_ ?_ (.inr waiting) (.inr (Nat.lt_succ_self _))
    · intro s _
      obtain ⟨pass, s', step, -⟩ :=
        exists_pass env 0 (getDueSchedules_run_answers _ _ s.schedules.rows)
      exact ⟨pass, s', step⟩
    · intro s pass s' inv step
      rcases inv with fired | waiting
      · exact .inl (((expandCron_effect step).fired _).mpr (.inl fired))
      · exact (waiting.progress step enabled valid).imp_right And.left
    · intro s pass s' _ fired step
      exact ((expandCron_effect step).fired _).mpr (.inl fired)
    · intro s pass s' inv unfired step
      exact ((inv.resolve_left unfired).progress step enabled valid).imp_right And.right

end Waiting

/-- A schedule for every minute, with a template that makes a job. -/
def mailSchedule : Schedule :=
  createdSchedule 1 ⟨"mail", "* * * * *", "", none⟩
    (.object (.cons "type" (.string "webhook") (.cons "payload" hookPayload .nil))) 1000
    (2 * minute)

theorem schedule_fired_alone :
    ∃ n, After (ExpandCron .everyMinute) (fun s => mailSchedule.id ∈ s.fired) n
      ⟨.numbered 1 (fun _ => mailSchedule) (by lia) (by lia), 2 * minute, []⟩ := by
  refine (schedule_fired_iff .everyMinute _ (2 * minute) mailSchedule rfl rfl (by decide +kernel)
    (Int.le_refl _)).mpr ?_
  -- The schedule is not ahead of itself.
  refine Nat.lt_of_le_of_lt (Nat.le_of_eq ?_) (by decide : 0 < cronBatchSize)
  exact List.countP_eq_zero.mpr (by simp [Table.numbered, Schedule.ahead])

/-- A creation that passes its checks stores the schedule, if no other is in its way. -/
theorem maintains_create {env : ApiEnv} {s : ApiState} {request : Request} {t : Tenant}
    {body : Option CreateScheduleRequest} {sched : Schedule}
    (known : authenticate request.authorization s.tenants = .ok t)
    (endpoint : request.endpoint = .createSchedule body)
    (checked : checkSchedule env t body request.draw.id request.draw.now = .ok sched)
    (new : sched.inserted = sched) (clear : s.db.schedules.clashes sched = false) :
    ∃ s', MaintainsSchedules env s request s' ∧ s'.tenants = s.tenants ∧
      s'.db.schedules.rows = s.db.schedules.rows ++ [sched] := by
  obtain ⟨schedules, inserted, rows⟩ := Table.exists_insert_of_clear clear
  have done : handleCreateSchedule env t body request.draw s =
      (⟨201, .schedule sched⟩, { s with db := { s.db with schedules } }) := by
    simp [handleCreateSchedule, checked, insertSchedule, new, inserted]
  refine ⟨{ s with db := { s.db with schedules } },
    ⟨by rw [endpoint]; rfl, ⟨201, .schedule sched⟩, ?_⟩, rfl, rows⟩
  simp only [Serves, known, endpoint, Endpoint.Serves, done]

/-- The token of the seeded tenant is accepted. -/
theorem devTenant_known :
    authenticate "Bearer dev-token" ApiState.initial.tenants = .ok devTenant := by
  rfl

/-- The names of broken schedules, which their lengths tell apart. -/
def brokenName (i : Nat) : String := String.ofList (List.replicate (i + 1) 'x')

/-- A schedule whose template is not even an object. -/
def brokenSchedule (i : Nat) : Schedule :=
  createdSchedule 1 ⟨brokenName i, "* * * * *", "", none⟩ (.string "x") (BitVec.ofNat 128 i) minute

/-- The request that creates it. -/
def brokenRequest (i : Nat) : Request where
  authorization := "Bearer dev-token"
  endpoint := .createSchedule (some ⟨brokenName i, "* * * * *", "", some (.string "x")⟩)
  draw := .prompt (BitVec.ofNat 128 i) 0

theorem brokenName_inj {i j : Nat} (same : brokenName i = brokenName j) : i = j := by
  have lengths := congrArg (fun name => name.toList.length) same
  simpa [brokenName] using lengths

/-- Any number of broken schedules can be created in the first minute. -/
theorem exists_broken (n : Nat) (few : n ≤ 200) :
    ∃ past s, Run (MaintainsSchedules .everyMinute) .initial past s ∧
      s.tenants = ApiState.initial.tenants ∧
      s.db.schedules.rows = (List.range n).map brokenSchedule := by
  -- Each request finds its name and its identifier unused by the ones before.
  induction n with
  | zero => exact ⟨[], .initial, .nil, rfl, rfl⟩
  | succ n ih =>
    obtain ⟨past, s, run, tenants, rows⟩ := ih (by omega)
    have clear : s.db.schedules.clashes (brokenSchedule n) = false := by
      refine List.any_eq_false.mpr fun x stored => ?_
      rw [rows] at stored
      obtain ⟨i, small, rfl⟩ := List.mem_map.mp stored
      have less : i < n := List.mem_range.mp small
      have ids : BitVec.ofNat 128 i ≠ BitVec.ofNat 128 n := fun same =>
        Nat.ne_of_lt less (UUID.ofNat_inj (by omega) (by omega) same)
      have names : brokenName i ≠ brokenName n := fun same =>
        Nat.ne_of_lt less (brokenName_inj same)
      simp [ids, Schedule.named, brokenSchedule, createdSchedule, names]
    have checked : checkSchedule .everyMinute devTenant
        (some ⟨brokenName n, "* * * * *", "", some (.string "x")⟩) (brokenRequest n).draw.id
        (brokenRequest n).draw.now = .ok (brokenSchedule n) := by
      have named : brokenName n ≠ "" := by simp [brokenName]
      simp only [checkSchedule, named, if_false]
      rfl
    obtain ⟨s', step, kept, grown⟩ := maintains_create
      (tenants ▸ devTenant_known) rfl checked rfl clear
    refine ⟨_, s', run.snoc step, kept.trans tenants, ?_⟩
    rw [grown, rows, List.range_succ, List.map_append, List.map_singleton]

/-- The request that creates the schedule that is in order, a minute later. -/
def mailRequest : Request where
  authorization := "Bearer dev-token"
  endpoint := .createSchedule (some ⟨"mail", "* * * * *", "", some mailSchedule.jobTemplate⟩)
  draw := .prompt 1000 minute

/-- The schedule in order can be created behind two hundred broken ones. -/
theorem exists_mail_behind_broken :
    ∃ past s, Run (MaintainsSchedules .everyMinute) .initial past s ∧
      s.db.schedules.rows = (List.range 200).map brokenSchedule ++ [mailSchedule] := by
  obtain ⟨past, s, run, tenants, rows⟩ := exists_broken 200 (Nat.le_refl _)
  have clear : s.db.schedules.clashes mailSchedule = false := by
    refine List.any_eq_false.mpr fun x stored => ?_
    rw [rows] at stored
    obtain ⟨i, small, rfl⟩ := List.mem_map.mp stored
    have less : i < 200 := List.mem_range.mp small
    have ids : BitVec.ofNat 128 i ≠ 1000#128 := fun same =>
      absurd (UUID.ofNat_inj (by omega) (by omega) same) (by omega : i ≠ 1000)
    -- The names of the broken ones start with another letter.
    have names : brokenName i ≠ "mail" := by
      intro same
      have first := congrArg (fun name => name.toList.head?) same
      simp [brokenName, List.replicate_succ] at first
    simp [ids, Schedule.named, brokenSchedule, mailSchedule, createdSchedule, names]
  have known : authenticate mailRequest.authorization s.tenants = .ok devTenant :=
    tenants ▸ devTenant_known
  have checked : checkSchedule .everyMinute devTenant
      (some ⟨"mail", "* * * * *", "", some mailSchedule.jobTemplate⟩) mailRequest.draw.id
      mailRequest.draw.now = .ok mailSchedule := rfl
  obtain ⟨s', step, -, grown⟩ := maintains_create known rfl checked rfl clear
  exact ⟨_, s', run.snoc step, by rw [grown, rows]⟩

theorem schedule_never_fired :
    ¬ ∀ (env : ApiEnv) (past : List (Step ApiState Request)) (s : ApiState),
      Run (MaintainsSchedules env) .initial past s → ∀ (start : Time) (S : Schedule),
        s.db.schedules.find? S.id = some S → S.enabled = true → S.fires env.toEnv = true →
          S.nextRunAt ≤ start →
            ∃ n, After (ExpandCron env.toEnv) (fun s => S.id ∈ s.fired) n
              ⟨s.db.schedules, start, []⟩ := by
  intro always
  obtain ⟨past, s, run, rows⟩ := exists_mail_behind_broken
  have stored : s.db.schedules.find? mailSchedule.id = some mailSchedule :=
    Table.mem_rows_iff.mp (by rw [rows]; simp)
  obtain ⟨n, fired⟩ := always .everyMinute past s run (2 * minute) mailSchedule stored rfl
    (by decide +kernel) (Int.le_refl _)
  refine not_after (Blocked Env.everyMinute mailSchedule) (fun s blocked => blocked.unfired)
    (fun s blocked => blocked.step rfl) n ⟨Int.le_refl _, stored, by simp, ?_⟩ fired
  -- Each of the broken schedules is due a minute earlier, and stays so.
  classical
  have all : ((List.range 200).map brokenSchedule).countP (fun x =>
      mailSchedule.ahead x && decide (x.Blocks Env.everyMinute mailSchedule.nextRunAt)) = 200 := by
    rw [List.countP_eq_length.mpr, List.length_map, List.length_range]
    simp only [List.forall_mem_map, List.mem_range]
    intro i less
    have ids : BitVec.ofNat 128 i ≠ 1000#128 := fun same =>
      absurd (UUID.ofNat_inj (by omega) (by omega) same) (by omega : i ≠ 1000)
    have early : (brokenSchedule i).nextRunAt ≤ mailSchedule.nextRunAt :=
      (by decide : minute ≤ 2 * minute)
    have stays : (brokenSchedule i).Blocks Env.everyMinute mailSchedule.nextRunAt := .inl rfl
    simpa [Schedule.ahead, early, stays] using ⟨ids, rfl⟩
  unfold blockers
  rw [rows, List.countP_append]
  refine Nat.le_trans (Nat.le_of_eq (?_ : 200 = _)) (Nat.le_add_right _ _)
  convert all.symm

end Sluice
