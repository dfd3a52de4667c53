import Sluice.Api.Handler
import Sluice.Scheduler.Cron

/-! What the endpoints for schedules answer, and what they do to the database. -/

namespace Sluice

open Relational

/-- What the API takes from its surroundings, the database's collation included. -/
structure ApiEnv extends Env where
  -- The text of the error with which an expression is refused.
  parseError : String → String
  collation : String → String → Bool

/-- The surroundings that know the expression for every minute alone. -/
def ApiEnv.everyMinute : ApiEnv :=
  { Env.everyMinute with
    parseError := fun _ => "expected exactly 5 fields"
    collation := fun a b => decide (a ≤ b) }

/-- The body of a schedule's creation. -/
structure CreateScheduleRequest where
  name : String
  cron : String
  timezone : String
  jobTemplate : Option Json
  deriving DecidableEq

/-- The time zone a request asks for, universal time by default. -/
def CreateScheduleRequest.zone (req : CreateScheduleRequest) : String :=
  if req.timezone = "" then "UTC" else req.timezone

/-- The schedule `handleCreateSchedule` builds for a tenant. -/
def createdSchedule (tenantID : UUID) (req : CreateScheduleRequest) (jobTemplate : Json) (id : UUID)
    (nextRunAt : Time) : Schedule :=
  { id, tenantID
    name := req.name
    cron := req.cron
    timezone := req.zone
    jobTemplate
    enabled := true
    lastRunAt := none
    nextRunAt }

/-- The checks of `handleCreateSchedule`, which end in an answer or in a schedule to store. -/
def checkSchedule (env : ApiEnv) (t : Tenant) (body : Option CreateScheduleRequest) (id : UUID)
    (now : Time) : Except Response Schedule :=
  match body with
  | none => .error (writeError 400 "invalid request body")
  | some req =>
    if req.name = "" then .error (writeError 400 "name is required")
    else if req.cron = "" then .error (writeError 400 "cron is required")
    else match req.jobTemplate with
      | none => .error (writeError 400 "job_template is required")
      | some jobTemplate =>
        match env.loadLocation req.zone with
        | none => .error (writeError 400 "invalid timezone")
        | some loc =>
          match env.parse req.cron with
          | none =>
            .error (writeError 400 ("invalid cron expression: " ++ env.parseError req.cron))
          -- The first activation is placed in the schedule's own zone.
          | some next => .ok (createdSchedule t.id req jobTemplate id (next loc now))

/-- `handleCreateSchedule`. -/
def handleCreateSchedule (env : ApiEnv) (t : Tenant) (body : Option CreateScheduleRequest)
    (d : Draw) (s : ApiState) : Response × ApiState :=
  match checkSchedule env t body d.id d.now with
  | .error response => (response, s)
  | .ok sched =>
    match insertSchedule sched s.db with
    | (.ok (), db) => (⟨201, .schedule sched⟩, { s with db })
    | (.error .duplicate, _) => (writeError 409 "schedule name already exists", s)
    | (.error _, _) => (writeError 500 "failed to create schedule", s)

/-- `handleListSchedules`. -/
def HandleListSchedules (env : ApiEnv) (t : Tenant) (s : ApiState) (response : Response) : Prop :=
  ∃ schedules, (listSchedules env.collation t.id).Answers s.db.schedules.rows schedules ∧
    response = ⟨200, .schedules schedules⟩

/-- `handleGetSchedule`, which does not look at the tenant. -/
def handleGetSchedule (id : String) (s : ApiState) : Response :=
  match UUID.parse id with
  | none => writeError 400 "invalid schedule id"
  | some id =>
    match getSchedule id s.db.schedules with
    | .ok sched => ⟨200, .schedule sched⟩
    | .error .notFound => writeError 404 "schedule not found"
    | .error _ => writeError 500 "failed to get schedule"

/-- `handleDeleteSchedule`. -/
def handleDeleteSchedule (t : Tenant) (id : String) (s : ApiState) : Response × ApiState :=
  match UUID.parse id with
  | none => (writeError 400 "invalid schedule id", s)
  | some id =>
    match deleteSchedule id t.id s.db with
    | (.ok (), db) => (⟨204, .empty⟩, { s with db })
    | (.error .notFound, _) => (writeError 404 "schedule not found", s)
    | (.error _, _) => (writeError 500 "failed to delete schedule", s)

end Sluice
