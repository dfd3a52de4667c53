import Sluice.Proofs.System.Outcomes
import Sluice.Proofs.System.Provenance

/-! A job that is recorded as succeeded had its webhook answered, by a call of its own claim. -/

namespace Sluice

open Relational Transition

variable {env : Nat → Env} {past : List (Step Crew CrewAction)} {s : Crew} {a : CrewAction}

/-- An execution succeeds if the request that the payload asks for is answered below 400. -/
structure WebhookAnswered (web : Web) (type : String) (payload : Option Json) : Prop where
  webhook : type = "webhook"
  answered : ∃ p status, payload.bind WebhookPayload.unmarshal = some p ∧
    web.malformed (p.request web) = none ∧ web.answer (p.request web) = .ok status ∧ status < 400

/-- What a successful execution has met. -/
theorem answered_of_execute {web : Web} {canceled : Bool} {j : Job}
    (succeeded : execute web canceled j = .ok ()) : WebhookAnswered web j.type j.payload := by
  unfold execute at succeeded
  split at succeeded
  · rename_i webhook
    refine ⟨webhook, ?_⟩
    unfold executeWebhook at succeeded
    split at succeeded
    · cases succeeded
    · rename_i p decoded
      dsimp only at succeeded
      split at succeeded
      · cases succeeded
      · rename_i formed
        split at succeeded
        · cases succeeded
        · rename_i status answer
          split at succeeded
          · cases succeeded
          · rename_i below
            cases canceled with
            | true => cases answer
            | false => exact ⟨p, status, decoded, formed, answer, Nat.lt_of_not_le below⟩
  · cases succeeded

/-- A step in which a worker carries out the job of a claim, with success. -/
def Succeeds (c : Claim) (j : Job) (e : Step Crew CrewAction) : Prop :=
  ∃ worker web canceled, e.label = .execute worker web canceled ∧
    e.pre.stages worker = .executing c j ∧ execute web canceled j = .ok ()

/-- A step in which a worker has the webhook of a stored job answered. -/
def Delivers (row : Job) (e : Step Crew CrewAction) : Prop :=
  ∃ worker web canceled c j, e.label = .execute worker web canceled ∧
    e.pre.stages worker = .executing c j ∧ c.jobID = row.id ∧
      WebhookAnswered web row.type row.payload

/-- Rows of stored jobs keep what they ask for, whatever the workers do. -/
theorem Crew.sameOrder_step {k : UUID} {old new : Job}
    (before : s.world.db.jobs.find? k = some old)
    (after : (s.step env a).world.db.jobs.find? k = some new) : new.SameOrder old := by
  cases called : a.action s with
  | none =>
    simp only [Crew.step, called, Option.elim_none, before, Option.some.injEq] at after
    exact after ▸ .refl old
  | some b =>
    simp only [Crew.step, called, Option.elim_some] at after
    exact World.sameOrder_step before after

/-- The claim whose outcome an action records. -/
def Action.recordsClaim : Action → Option Claim
  | completeRow c _ | failJob c _ _ _ => some c
  | _ => none

/-- Only the worker that has carried a job out records the outcome. -/
theorem CrewAction.record_inv (enabled : a.Enabled s) {b : Action} {c : Claim}
    (called : a.action s = some b) (records : b.recordsClaim = some c) :
    ∃ worker d j outcome ended, a = .record worker d true ∧
      s.stages worker = .executed c j outcome ended ∧
      (recorded c j outcome d).1.action = some b := by
  cases a with
  | system other =>
    cases called
    -- Nobody else makes the calls of the workers.
    have foreign := enabled.1
    cases b with
    | completeRow | failJob => cases foreign
    | _ => cases records
  | record worker d succeeds =>
    simp only [CrewAction.action] at called
    split at called
    · rename_i c' j outcome ended stage
      split at called
      · rename_i made
        -- The call carries the claim of the worker that makes it.
        have own : c' = c := by
          cases outcome <;> cases called <;> cases records <;> rfl
        subst own
        exact ⟨worker, d, j, outcome, ended, by rw [made], stage, called⟩
      · cases called
    · cases called
  | markRunning worker succeeds =>
    simp only [CrewAction.action] at called
    split at called
    · split at called
      · cases called
        cases records
      · cases called
    · cases called
  | completeRun worker =>
    simp only [CrewAction.action] at called
    split at called
    · cases called
      cases records
    · cases called
  | claim | heartbeat =>
    cases called
    cases records
  | getJob | execute | stop => cases called

/-- Only the worker that has carried a job out completes its row. -/
theorem CrewAction.completeRow_inv (enabled : a.Enabled s) {c : Claim} {clock : Time}
    (called : a.action s = some (.completeRow c clock)) :
    ∃ worker d j ended, a = .record worker d true ∧
      s.stages worker = .executed c j (.ok ()) ended ∧ clock = d.recordedAt := by
  obtain ⟨worker, d, j, outcome, ended, record, stage, made⟩ := record_inv enabled called rfl
  cases outcome with
  | error message => cases made
  | ok result =>
    cases made
    exact ⟨worker, d, j, ended, record, stage, rfl⟩

/-- A row is succeeded because it was, or because the call of its claim completes it. -/
theorem RowStep.succeeded_inv {k : UUID} {op : Op} {before : Option Job} {row : Job}
    (step : RowStep k op before (some row)) (issued : op.Issued) (done : row.state = .succeeded) :
    before = some row ∨ ∃ old token now, before = some old ∧ old.claimToken = some token ∧
      row = succeedRow now old ∧
      (op = .completeRow k token now ∨ ∃ runID, op = .completeJob k runID token now) := by
  cases step with
  | keep => exact .inl rfl
  | insert =>
    -- A job is inserted to be carried out.
    rcases issued.fresh.1 with state | state <;> rw [Job.inserted, state] at done <;> cases done
  | @extend old _ _ _ live =>
    have state : old.state = .succeeded := done
    rw [state] at live
    cases live
  | complete held => exact .inr ⟨_, _, _, rfl, held, rfl, .inr ⟨_, rfl⟩⟩
  | completeRow held => exact .inr ⟨_, _, _, rfl, held, rfl, .inl rfl⟩
  | fail =>
    simp only [failRow, failState] at done
    split at done <;> cases done
  | requeue =>
    simp only [requeueRow] at done
    split at done <;> cases done
  | _ => cases done

/-- What the workers and the tables owe to the executions so far. -/
structure Crew.Delivered (past : List (Step Crew CrewAction)) (s : Crew) : Prop where
  -- A row that carries the token of a claim asks for what its worker has read.
  orders : ∀ worker c j, (s.stages worker).snapshot = some (c, j) →
    ∀ row, s.world.db.jobs.find? c.jobID = some row → row.claimToken = some c.token →
      row.SameOrder j
  executed : ∀ worker c j ended, s.stages worker = .executed c j (.ok ()) ended →
    ∃ e ∈ past, Succeeds c j e
  rows : ∀ k row, s.world.db.jobs.find? k = some row → row.state = .succeeded →
    ∃ e ∈ past, Delivers row e

namespace Crew.Delivered

/-- What a worker has read of its job stays true as long as the row carries its token. -/
theorem orders_step (delivered : Delivered past s) (sound : s.Sound) (enabled : a.Enabled s)
    (worker : Nat) (c : Claim) (j : Job)
    (taken : ((s.step env a).stages worker).snapshot = some (c, j)) (row : Job)
    (stored : (s.step env a).world.db.jobs.find? c.jobID = some row)
    (held : row.claimToken = some c.token) : row.SameOrder j := by
  -- The row was there before the step, with the same token, unless the claim is the step itself.
  have old : ∀ st, s.stages worker = st → st.snapshot = some (c, j) → row.SameOrder j := by
    rintro st rfl snapshot
    have drawn := sound.drawn worker c (Stage.claim_of_snapshot snapshot)
    obtain ⟨before, found, carried, -⟩ := Crew.held_row enabled drawn stored held
    have same := delivered.orders worker c j snapshot before found carried
    exact (Crew.sameOrder_step found stored).trans same
  rcases Crew.stage_step env s a worker with same | moved
  · exact old _ rfl (same ▸ taken)
  · generalize (s.step env a).stages worker = st at moved taken
    cases CrewAction.moves moved with
    | read before found =>
      cases taken
      exact Crew.sameOrder_step found stored
    | start before | finish before =>
      cases taken
      exact old _ before rfl
    | claim | complete | leave => cases taken

/-- A worker that has executed its job was just executing it, or has been here before. -/
theorem executed_step (delivered : Delivered past s) (worker : Nat) (c : Claim) (j : Job)
    (ended : Time) (stage : (s.step env a).stages worker = .executed c j (.ok ()) ended) :
    ∃ e ∈ past ++ [⟨s, a, s.step env a⟩], Succeeds c j e := by
  rcases Crew.stage_step env s a worker with same | moved
  · obtain ⟨e, listed, succeeds⟩ := delivered.executed worker c j ended (same ▸ stage)
    exact ⟨e, List.mem_append_left _ listed, succeeds⟩
  · rw [stage] at moved
    generalize result : Except.ok () = outcome at moved
    cases CrewAction.moves moved with
    | @finish _ _ _ web canceled before =>
      exact ⟨_, List.mem_append_right _ List.mem_cons_self, worker, web, canceled, rfl, before,
        result.symm⟩

/-- A row becomes succeeded when the worker that has executed its job records the outcome. -/
theorem completed_step (delivered : Delivered past s) (enabled : a.Enabled s) {k : UUID} {row : Job}
    (stored : (s.step env a).world.db.jobs.find? k = some row) (done : row.state = .succeeded) :
    s.world.db.jobs.find? k = some row ∨
      ∃ worker d c j ended, a = .record worker d true ∧
        s.stages worker = .executed c j (.ok ()) ended ∧ c.jobID = k ∧ row.SameOrder j := by
  cases called : a.action s with
  | none =>
    simp only [Crew.step, called, Option.elim_none] at stored
    exact .inl stored
  | some b =>
    simp only [Crew.step, called, Option.elim_some] at stored
    rcases World.step_row env s.world b k with same | ⟨op, made, step⟩
    · exact .inl (same ▸ stored)
    · rw [stored] at step
      rcases step.succeeded_inv (Action.op_issued made) done with
        same | ⟨old, token, now, before, held, rfl, op⟩
      · exact .inl same
      · -- The call is the first statement of a completion, by the worker with the token.
        have origin := Action.makes made
        rcases op with rfl | ⟨runID, rfl⟩
        · generalize named : k = id at origin
          cases origin with
          | @completeRow c clock =>
            obtain ⟨worker, d, j, ended, record, stage, -⟩ :=
              CrewAction.completeRow_inv enabled called
            subst named
            have same := delivered.orders worker c j (by rw [stage]; rfl) old before held
            rw [before] at step
            exact .inr ⟨worker, d, c, j, ended, record, stage, rfl, step.sameOrder.trans same⟩
        · cases origin

/-- The worker that completes a row has had the webhook answered. -/
theorem rows_step (delivered : Delivered past s) (enabled : a.Enabled s) (k : UUID) (row : Job)
    (stored : (s.step env a).world.db.jobs.find? k = some row) (done : row.state = .succeeded) :
    ∃ e ∈ past ++ [⟨s, a, s.step env a⟩], Delivers row e := by
  rcases delivered.completed_step enabled stored done with
    same | ⟨worker, d, c, j, ended, -, stage, named, same⟩
  · obtain ⟨e, listed, delivers⟩ := delivered.rows k row same done
    exact ⟨e, List.mem_append_left _ listed, delivers⟩
  · obtain ⟨e, listed, actor, web, canceled, label, executing, succeeded⟩ :=
      delivered.executed worker c j ended stage
    have answered := answered_of_execute succeeded
    rw [← same.type, ← same.payload] at answered
    exact ⟨e, List.mem_append_left _ listed, actor, web, canceled, c, j, label, executing,
      named.trans (Table.key_of_find? stored).symm, answered⟩

/-- It holds throughout every run. -/
theorem of_run {start : Time} (run : Run (Crew.Next env) (Crew.init start) past s) :
    Delivered past s := by
  refine run.history Delivered ⟨?_, ?_, ?_⟩ ?_
  · intro worker c j taken
    cases taken
  · intro worker c j ended stage
    cases stage
  · intro k row found
    cases found
  · rintro past s a s' before delivered ⟨enabled, rfl⟩
    have sound := Crew.Reaches.sound ⟨start, before⟩
    exact ⟨delivered.orders_step sound enabled, delivered.executed_step,
      delivered.rows_step enabled⟩

end Crew.Delivered

/--
No job is recorded as succeeded without its webhook having been answered.

Whatever the interleaving, some worker has made the very request that the stored payload asks for
and got a status below 400.
-/
theorem succeeded_delivered (run : Crew.Reaches env past s) {row : Job}
    (stored : row ∈ s.world.db.jobs.rows) (done : row.state = .succeeded) :
    ∃ e ∈ past, Delivers row e := by
  obtain ⟨start, run⟩ := run
  exact (Crew.Delivered.of_run run).rows row.id row (Table.mem_rows_iff.mp stored) done

/-- A worker carries out a job whose webhook is answered. -/
def answeredRun : List CrewAction :=
  [.system (.submit 0 7 .hook 1 0), .claim 0 1 "w" 21 11 0 0, .getJob 0,
    .markRunning 0 true, .system (.tick (8 * second)), .execute 0 (.answering 200) false,
    .record 0 { failedDraw with web := .answering 200 } true, .completeRun 0]

theorem succeeded_delivered_answered :
    ∃ row ∈ (afterCrew (fun _ => .everyMinute) 0 answeredRun).world.db.jobs.rows,
      ∃ e ∈ crewTrace (fun _ => .everyMinute) 0 answeredRun, Delivers row e := by
  have run := reaches_crewTrace (fun _ => .everyMinute) 0 answeredRun (by decide +kernel)
  have found : (afterCrew (fun _ => .everyMinute) 0 answeredRun).world.db.jobs.rows.any
      (fun row => row.state == .succeeded) = true := by decide +kernel
  obtain ⟨row, stored, done⟩ := List.any_eq_true.mp found
  exact ⟨row, stored, succeeded_delivered run stored (eq_of_beq done)⟩

end Sluice
