import Sluice.Storage.Schema

/-! What a cron schedule turns into when it fires. -/

namespace Sluice

/-- The zero value of `time.Time`. -/
def zeroTime : Time := -62135596800 * second

/--
What a process takes from its surroundings to place cron activations.

A parsed expression answers, for a time zone and an instant, with the activation that follows.
-/
structure Env where
  Zone : Type
  -- The zone that `time.Now` carries.
  localZone : Zone
  loadLocation : String → Option Zone
  parse : String → Option (Zone → Time → Time)

/-- Surroundings in universal time that know a single expression, the one for every minute. -/
def Env.everyMinute : Env where
  Zone := Unit
  localZone := ()
  loadLocation name := if name = "UTC" then some () else none
  parse expr := if expr = "* * * * *" then some fun _ now => (now / minute + 1) * minute else none

/-- The fields of a job template. -/
structure JobTemplate where
  type : String
  payload : Option Json
  priority : Option Int16
  maxRetries : Option Int
  backoffSeconds : Option Int
  deriving DecidableEq

/-- The template before any member is decoded. -/
def JobTemplate.zero : JobTemplate := ⟨"", none, none, none, none⟩

/-- Decodes one member into the field it names, if it names one. -/
def JobTemplate.setField (t : JobTemplate) (name : String) (value : Json) : Option JobTemplate :=
  if namesField name "type" then (decodeString t.type value).map fun type => { t with type }
  -- A raw message takes any value as it stands, `null` included.
  else if namesField name "payload" then some { t with payload := some value }
  else if namesField name "priority" then
    (decodeInt16 value).map fun priority => { t with priority }
  else if namesField name "max_retries" then
    (decodeInt value).map fun maxRetries => { t with maxRetries }
  else if namesField name "backoff_seconds" then
    (decodeInt value).map fun backoffSeconds => { t with backoffSeconds }
  else some t

/-- `json.Unmarshal` into a template, which takes objects and `null`. -/
def JobTemplate.unmarshal : Json → Option JobTemplate
  | .null => some .zero
  | .object fields => decodeMembers setField .zero fields
  | _ => none

/-- The job `fireSchedule` builds, with a freshly drawn identifier. -/
def firedJob (sched : Schedule) (template : JobTemplate) (id : UUID) (now : Time) : Job :=
  { id
    tenantID := sched.tenantID
    type := template.type
    payload := template.payload
    priority := template.priority.getD priorityNormal
    state := .pending
    runAt := now
    claimedAt := none, claimedBy := none, claimToken := none, deadline := none
    attempt := 0
    maxRetries := template.maxRetries.getD 3
    backoffSeconds := template.backoffSeconds.getD 30
    idempotencyKey := none
    lastError := none
    createdAt := now
    completedAt := none }

/--
What `fireSchedule` sets out to store: the job, and the activation that follows.

It gives up before it writes when the expression or the template cannot be read.
-/
def fireSchedule (env : Env) (sched : Schedule) (id : UUID) (now : Time) : Option (Job × Time) :=
  (env.parse sched.cron).bind fun next =>
    (JobTemplate.unmarshal sched.jobTemplate).map fun template =>
      (firedJob sched template id now, next env.localZone now)

end Sluice
