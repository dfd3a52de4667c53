import Sluice.Proofs.Payloads
import Sluice.Proofs.System.Delivery
import Sluice.Proofs.System.Reads

/-! What a tenant writes is what its webhook is called with. -/

namespace Sluice

open Relational Transition

variable {env : Nat → Env} {past : List (Step Crew CrewAction)} {s : Crew}

/--
A job that succeeded had the request answered that the tenant wrote when it submitted the job.

The column in between may reorder the members of the payload and drop repeated ones, which does no
harm as long as no field is named twice. Two headers must not have the same name in canonical form,
since Go sets them in any order and the last one stays.
-/
theorem delivered_as_written (run : Crew.Reaches env past s) {e : Step Crew CrewAction}
    (listed : e ∈ past) {thread : Nat} {tenantID id : UUID} {req : SubmitJobRequest} {clock : Time}
    (submitted : e.label = .system (.submit thread tenantID req id clock))
    (accepted : (insertJob (submittedJob tenantID req id clock) e.pre.world.db).1.isOk = true)
    {fields : JsonFields} (payload : req.payload = some (.object fields))
    (plain : fields.plain = true) {p : WebhookPayload}
    (written : WebhookPayload.unmarshal (.object fields) = some p) (canonical : p.canonical)
    {row : Job} (stored : s.world.db.jobs.find? id = some row) (done : row.state = .succeeded) :
    ∃ x ∈ past, ∃ worker web canceled c j request status,
      x.label = .execute worker web canceled ∧ x.pre.stages worker = .executing c j ∧
        c.jobID = id ∧ web.answer request = .ok status ∧ status < 400 ∧
          (p.request web).Carries request := by
  have inserted : Inserted env past (submittedJob tenantID req id clock) := by
    refine ⟨e, listed, ?_, accepted⟩
    rw [Crew.op, submitted]
    rfl
  have column : row.payload = req.payload.map Json.stored := (inserted.sameOrder run stored).payload
  obtain ⟨start, run⟩ := run
  obtain ⟨x, member, worker, web, canceled, c, j, label, stage, owner, -, answered⟩ :=
    (Crew.Delivered.of_run run).rows id row stored done
  obtain ⟨q, status, decoded, -, answer, below⟩ := answered
  -- The worker has decoded what the column holds.
  obtain ⟨q', back, same⟩ := WebhookPayload.unmarshal_stored plain written
  rw [column, payload, Option.map_some, Option.bind_some, back, Option.some.injEq] at decoded
  subst decoded
  have own : row.id = id := Table.key_of_find? stored
  exact ⟨x, member, worker, web, canceled, c, j, _, status, label, stage, owner.trans own, answer,
    below, same.request canonical web⟩

/-- A payload with a header that is given twice, and members out of order. -/
def writtenFields : JsonFields :=
  .cons "URL" (.string "https://example.com/hook") <| .cons "headers"
    (.object (.cons "x-b" (.string "1") (.cons "X-A" (.string "2") (.cons "x-b" (.string "3")
      .nil)))) <|
    .cons "body" (.number 1 0) .nil

/-- A worker carries out the job that was submitted with this payload. -/
def writtenRun : List CrewAction :=
  [.system (.submit 0 7 (.bare "webhook" (.object writtenFields)) 1 0),
    .claim 0 1 "w" 21 11 0 0, .getJob 0, .markRunning 0 true, .system (.tick (8 * second)),
    .execute 0 (.answering 200) false, .record 0 { failedDraw with web := .answering 200 } true,
    .completeRun 0]

theorem delivered_as_written_headers :
    ∃ p, WebhookPayload.unmarshal (.object writtenFields) = some p ∧
      ∃ e ∈ crewTrace (fun _ => .everyMinute) 0 writtenRun,
        ∃ worker web canceled c j request status,
          e.label = .execute worker web canceled ∧ e.pre.stages worker = .executing c j ∧
            c.jobID = 1 ∧ web.answer request = .ok status ∧ status < 400 ∧
              (p.request web).Carries request := by
  have run := reaches_crewTrace (fun _ => .everyMinute) 0 writtenRun (by decide +kernel)
  have found : ((afterCrew (fun _ => .everyMinute) 0 writtenRun).world.db.jobs.find? 1).any
      (fun row => row.state == .succeeded) = true := by decide +kernel
  obtain ⟨row, stored, done⟩ := (Option.any_eq_true _ _).mp found
  have read : (WebhookPayload.unmarshal (.object writtenFields)).any
      (fun p => decide p.canonical) = true := by decide +kernel
  obtain ⟨p, written, canonical⟩ := (Option.any_eq_true _ _).mp read
  exact ⟨p, written, delivered_as_written run List.mem_cons_self rfl (by decide +kernel) rfl
    (by decide +kernel) written (of_decide_eq_true canonical) stored (eq_of_beq done)⟩

-- With one field named twice, the column may bring the members into another order.
example :
    let fields := JsonFields.cons "url" (.string "a") (.cons "URL" (.string "b") .nil)
    (WebhookPayload.unmarshal (.object fields)).map (·.url) = some "b" ∧
      (WebhookPayload.unmarshal (Json.object fields).stored).map (·.url) = some "a" := by
  decide +kernel

end Sluice
