import Sluice.Proofs.Reconciler
import Sluice.Proofs.Storage.Scans
import Sluice.Relational.Counts
import Sluice.Scheduler.Passes
import Sluice.Transition.After

/-! Due jobs wait only for those that come before them. -/

namespace Sluice

open Relational Transition

/-- A query for the due jobs in a state, and a call that promotes them out of it. -/
structure Promotes (origin : State) (query : Time → Query Job) (change : UUID → Time → Db → Db) :
    Prop where
  waits : origin ≠ .pending
  limited : ∀ now, (query now).offset = 0 ∧ (query now).limit = some 500
  ordered : ∀ now, (query now).before = byPriority
  due : ∀ now j, (query now).holds j = (j.state == origin && decide (j.runAt ≤ now))
  others : ∀ k now db k', k' ≠ k → (change k now db).jobs.find? k' = db.jobs.find? k'
  own : ∀ k now db row, db.jobs.find? k = some row → row.state = origin →
    ∃ row', (change k now db).jobs.find? k = some row' ∧ row'.state = .pending

theorem promotes_scheduled : Promotes .scheduled (getDueJobs duePollBatchSize)
    fun id _ => promoteScheduledToPending id where
  waits := by decide
  limited _ := ⟨rfl, rfl⟩
  ordered _ := rfl
  due _ _ := rfl
  others k _ db k' other := by
    rw [promoteScheduledToPending, Table.find?_update]
    cases found : db.jobs.find? k' with
    | none => rfl
    | some row => simp [Table.key_of_find? found, other]
  own k _ db row found waiting := by
    rw [promoteScheduledToPending, Table.find?_update, found]
    exact ⟨_, rfl, by simp [Table.key_of_find? found, waiting]⟩

theorem promotes_failed : Promotes .failed (getFailedReadyJobs failedPollBatchSize)
    promoteFailedToPending where
  waits := by decide
  limited _ := ⟨rfl, rfl⟩
  ordered _ := rfl
  due _ _ := rfl
  others k _ db k' other := by
    rw [promoteFailedToPending, Table.find?_update]
    cases found : db.jobs.find? k' with
    | none => rfl
    | some row => simp [Table.key_of_find? found, other]
  own k _ db row found waiting := by
    rw [promoteFailedToPending, Table.find?_update, found]
    exact ⟨_, rfl, by simp [Table.key_of_find? found, waiting]⟩

/-- What a number of calls leave behind. -/
structure Promoted (calls : List (Job × Time)) (s s' : PollState) : Prop where
  clock : s'.clock = s.clock
  others : ∀ k, k ∉ calls.map (fun call => call.1.id) →
    s'.db.jobs.find? k = s.db.jobs.find? k
  own : ∀ call ∈ calls, ∃ row, s'.db.jobs.find? call.1.id = some row ∧ row.state = .pending
  queued : ∀ call ∈ calls, call.1.id.toString ∈
    s'.redis (queueKey (bucketForPriority call.1.priority) call.1.tenantID)
  listed : ∀ key text, text ∈ s.redis key → text ∈ s'.redis key

/-- The batch of a poll, by its jobs. -/
def batchIDs (pass : Time × List (Job × Time)) : List UUID := pass.2.map fun call => call.1.id

/-- The job waits to be polled. -/
structure Awaits (j : Job) (s : PollState) : Prop where
  stored : s.db.jobs.find? j.id = some j
  due : j.runAt ≤ s.clock

/-- The job has been promoted and queued. -/
structure Ready (j : Job) (s : PollState) : Prop where
  pending : ∃ row, s.db.jobs.find? j.id = some row ∧ row.state = .pending
  queued : j.id.toString ∈ s.redis (queueKey (bucketForPriority j.priority) j.tenantID)

/-- A job in the same state that may be polled before the given one. -/
def Job.goesBefore (j other : Job) : Bool :=
  byPriority other j && other != j && other.state == j.state

/-- How many jobs may be polled before the given one. -/
def jobsBefore (j : Job) (s : PollState) : Nat := s.db.jobs.rows.countP j.goesBefore

section Polls

variable {origin : State} {query : Time → Query Job} {change : UUID → Time → Db → Db}
  {s s' : PollState} {batch : List (Job × Time)} {pass : Time × List (Job × Time)} {j : Job}

/-- Calls for different jobs in the state promote and queue them all. -/
theorem Promotes.each (promotes : Promotes origin query change)
    (distinct : (batch.map fun call => call.1.id).Nodup)
    (stored : ∀ call ∈ batch, ∃ row, s.db.jobs.find? call.1.id = some row ∧
      row.state = origin) :
    Promoted batch s (batch.foldl (PollState.promote change) s) := by
  induction batch generalizing s with
  | nil => exact ⟨rfl, fun _ _ => rfl, by simp, by simp, fun _ _ there => there⟩
  | cons call batch ih =>
    rw [List.map_cons, List.nodup_cons] at distinct
    obtain ⟨⟨row, found, waiting⟩, stored⟩ := List.forall_mem_cons.mp stored
    obtain ⟨row', found', ready⟩ := promotes.own call.1.id call.2 s.db row found waiting
    -- The calls that follow are for other jobs.
    have apart : ∀ other ∈ batch, other.1.id ≠ call.1.id := fun other listed same =>
      distinct.1 (same ▸ List.mem_map_of_mem listed)
    have later := ih (s := s.promote change call) distinct.2 fun other listed => by
      obtain ⟨row, found, waiting⟩ := stored other listed
      exact ⟨row, (promotes.others _ _ _ _ (apart other listed)).trans found, waiting⟩
    refine ⟨later.clock, fun k out => ?_, ?_, ?_, fun key text there => ?_⟩
    · rw [List.map_cons, List.mem_cons, not_or] at out
      exact (later.others k out.2).trans (promotes.others _ _ _ _ out.1)
    · refine List.forall_mem_cons.mpr ⟨⟨row', ?_, ready⟩, later.own⟩
      exact (later.others _ distinct.1).trans found'
    · exact List.forall_mem_cons.mpr ⟨later.listed _ _ (mem_enqueue ..), later.queued⟩
    · exact later.listed key text (enqueue_keeps _ _ _ there)

/-- No job is in a batch twice. -/
theorem Poll.distinct (poll : Poll query change s pass s') : (batchIDs pass).Nodup := by
  have nodup := poll.2.1.nodup_map s.db.jobs.keyed
  rwa [List.map_map] at nodup

namespace Poll

variable (promotes : Promotes origin query change) (poll : Poll query change s pass s')

include promotes poll

/-- The batch consists of stored jobs in the state. -/
theorem stored {call : Job × Time} (listed : call ∈ pass.2) :
    s.db.jobs.find? call.1.id = some call.1 ∧ call.1.state = origin := by
  obtain ⟨there, hit⟩ := poll.2.1.sound (List.mem_map_of_mem listed)
  rw [promotes.due, Bool.and_eq_true, beq_iff_eq] at hit
  exact ⟨Table.mem_rows_iff.mp there, hit.1⟩

/-- A poll promotes its batch. -/
theorem promoted : Promoted pass.2 { s with clock := pass.1 } s' := by
  rw [poll.2.2]
  refine promotes.each poll.distinct fun call listed => ?_
  exact ⟨_, poll.stored promotes listed⟩

/-- A job in another state is not in the batch. -/
theorem not_mem_of_state {k : UUID} {row : Job} (found : s.db.jobs.find? k = some row)
    (other : row.state ≠ origin) : k ∉ batchIDs pass := by
  intro listed
  obtain ⟨call, member, rfl⟩ := List.mem_map.mp listed
  obtain ⟨there, state⟩ := poll.stored promotes member
  rw [found, Option.some.injEq] at there
  exact other (there ▸ state)

/-- A job that is ready stays so. -/
theorem ready (ready : Ready j s) : Ready j s' := by
  obtain ⟨row, found, pending⟩ := ready.pending
  have effect := poll.promoted promotes
  have out := poll.not_mem_of_state promotes found (pending ▸ promotes.waits.symm)
  exact ⟨⟨row, (effect.others _ out).trans found, pending⟩, effect.listed _ _ ready.queued⟩

/-- The jobs that may come before a waiting one are those that were not in the batch. -/
theorem mem_before (waits : j.state ≠ .pending) (k : UUID) :
    k ∈ s'.db.jobs.keysOf j.goesBefore ↔
      k ∈ s.db.jobs.keysOf j.goesBefore ∧ k ∉ batchIDs pass := by
  have effect := poll.promoted promotes
  simp only [Table.mem_keysOf]
  by_cases listed : k ∈ batchIDs pass
  · -- A promoted job is in no state in which it could be polled.
    simp only [listed, not_true_eq_false, and_false, iff_false]
    rintro ⟨row, found, before⟩
    obtain ⟨call, member, rfl⟩ := List.mem_map.mp listed
    obtain ⟨row', found', pending⟩ := effect.own call member
    rw [found, Option.some.injEq] at found'
    simp only [Job.goesBefore, Bool.and_eq_true, beq_iff_eq] at before
    exact waits (before.2.symm.trans (found' ▸ pending))
  · rw [effect.others k listed]
    simp [listed]

/-- A poll for jobs in another state makes no difference to a waiting one. -/
theorem other (awaits : Awaits j s) (waits : j.state ≠ .pending) (state : j.state ≠ origin) :
    Awaits j s' ∧ jobsBefore j s' = jobsBefore j s := by
  have effect := poll.promoted promotes
  have out := poll.not_mem_of_state promotes awaits.stored state
  refine ⟨⟨(effect.others _ out).trans awaits.stored, ?_⟩, ?_⟩
  · rw [effect.clock]
    exact Int.le_trans awaits.due poll.1
  · refine Table.countP_add_length (List.nodup_nil (α := UUID)) (by simp) fun k => ?_
    rw [poll.mem_before promotes waits]
    refine ⟨fun both => ⟨both.1, by simp⟩, fun both => ⟨both.1, ?_⟩⟩
    -- Whatever counts is in the other state.
    obtain ⟨row, found, before⟩ := Table.mem_keysOf.mp both.1
    simp only [Job.goesBefore, Bool.and_eq_true, beq_iff_eq] at before
    exact poll.not_mem_of_state promotes found (before.2 ▸ state)

/-- A poll for jobs in its state promotes a waiting job or a full batch of those before it. -/
theorem own (awaits : Awaits j s) (state : j.state = origin) :
    (j ∈ pass.2.map Prod.fst → Ready j s') ∧
    (j ∉ pass.2.map Prod.fst → Awaits j s' ∧ jobsBefore j s' + 500 = jobsBefore j s) := by
  have effect := poll.promoted promotes
  constructor
  · intro listed
    obtain ⟨call, member, rfl⟩ := List.mem_map.mp listed
    exact ⟨effect.own call member, effect.queued call member⟩
  · intro omitted
    have later : j.runAt ≤ pass.1 := Int.le_trans awaits.due poll.1
    have hit : (query pass.1).holds j = true := by
      rw [promotes.due, state]
      simpa using later
    obtain ⟨full, before⟩ := poll.2.1.crowded (promotes.limited pass.1).1
      (promotes.limited pass.1).2 (Table.mem_rows_iff.mpr awaits.stored) hit omitted
    have out : j.id ∉ batchIDs pass := by
      intro listed
      obtain ⟨call, member, same⟩ := List.mem_map.mp listed
      have there := (poll.stored promotes member).1
      rw [same, awaits.stored, Option.some.injEq] at there
      exact omitted (there ▸ List.mem_map_of_mem member)
    refine ⟨⟨(effect.others _ out).trans awaits.stored, by rw [effect.clock]; exact later⟩, ?_⟩
    have size : (batchIDs pass).length = 500 := by
      rw [← full, batchIDs, List.length_map, List.length_map]
    have waits : j.state ≠ .pending := state ▸ promotes.waits
    rw [← size]
    refine Table.countP_add_length poll.distinct (fun k listed => ?_)
      (poll.mem_before promotes waits)
    -- Every job of the batch may come before the one that is left out.
    obtain ⟨call, member, rfl⟩ := List.mem_map.mp listed
    obtain ⟨there, same⟩ := poll.stored promotes member
    have first := before call.1 (List.mem_map_of_mem member)
    rw [promotes.ordered] at first
    have differs : call.1 ≠ j := fun equal => omitted (equal ▸ List.mem_map_of_mem member)
    exact Table.mem_keysOf.mpr ⟨_, there, by simp [Job.goesBefore, first, differs, same, state]⟩

end Poll

/-- Every answer to the query makes a poll. -/
theorem Poll.of_answer (change : UUID → Time → Db → Db) {now : Time} (later : s.clock ≤ now)
    {answer : List Job}
    (answers : (query now).Answers s.db.jobs.rows answer) :
    ∃ pass s', Poll query change s pass s' ∧ pass.2.map Prod.fst = answer := by
  have same : (answer.map fun j => (j, now)).map Prod.fst = answer := by
    simp [Function.comp_def]
  exact ⟨(now, answer.map fun j => (j, now)), _, ⟨later, by rwa [same], rfl⟩, same⟩

/-- There is always a poll to make. -/
theorem Promotes.exists_poll (promotes : Promotes origin query change) (s : PollState) :
    ∃ pass s', Poll query change s pass s' := by
  have answers : (query s.clock).Answers s.db.jobs.rows ((query s.clock).run s.db.jobs.rows) :=
    Query.run_answers _ _ (by rw [promotes.ordered]; exact byPriority_total)
      (by rw [promotes.ordered]; exact byPriority_trans)
  obtain ⟨pass, s', poll, -⟩ := Poll.of_answer change (Int.le_refl s.clock) answers
  exact ⟨pass, s', poll⟩

/-- With a full batch of jobs before it, a waiting job may be left out once they are all due. -/
theorem Promotes.exists_omitting (promotes : Promotes origin query change) (awaits : Awaits j s)
    (state : j.state = origin) (crowd : 500 ≤ jobsBefore j s) :
    ∃ pass s', Poll query change s pass s' ∧ j ∉ pass.2.map Prod.fst := by
  obtain ⟨now, later, late⟩ := exists_late s.db.jobs.rows s.clock
  have due : ∀ other ∈ s.db.jobs.rows, other.runAt ≤ now := by
    intro other listed
    have early := late other listed
    have positive : (0 : Int) < minute := by decide
    lia
  have stored := Table.mem_rows_iff.mpr awaits.stored
  have hit : (query now).holds j = true := by
    rw [promotes.due, state]
    simpa using due j stored
  obtain ⟨answer, answers, omitted⟩ := Query.exists_answer_without (promotes.limited now).1
    (promotes.limited now).2 stored hit (List.Nodup.of_map _ s.db.jobs.keyed)
    (by rw [promotes.ordered]; exact byPriority_total)
    (by rw [promotes.ordered]; exact byPriority_trans) (by
      refine crowd.trans (List.countP_mono_left fun other listed before => ?_)
      simp only [Job.goesBefore, Bool.and_eq_true] at before
      simp only [Query.ahead, promotes.ordered, promotes.due, Bool.and_eq_true, before.1,
        decide_eq_true (due other listed), state ▸ before.2, and_self])
  obtain ⟨pass, s', poll, same⟩ := Poll.of_answer change later answers
  exact ⟨pass, s', poll, by rwa [same]⟩

end Polls

/-- A job in one of the states that are polled. -/
def Job.polled (j : Job) : Prop := j.state = .scheduled ∨ j.state = .failed

variable {s s' : PollState} {j : Job}
  {tick : (Time × List (Job × Time)) × (Time × List (Job × Time))}

/-- A job that is ready stays so. -/
theorem RunDuePoll.ready (made : RunDuePoll s tick s') (ready : Ready j s) : Ready j s' := by
  obtain ⟨mid, first, second⟩ := made
  exact Poll.ready promotes_failed second (Poll.ready promotes_scheduled first ready)

/-- A tick makes a due job ready, or a full batch of those before it. -/
theorem RunDuePoll.progress (made : RunDuePoll s tick s') (polled : j.polled)
    (awaits : Awaits j s) :
    Ready j s' ∨ Awaits j s' ∧ jobsBefore j s' + 500 = jobsBefore j s := by
  obtain ⟨mid, first, second⟩ := made
  rcases polled with state | state
  · obtain ⟨ready, passed⟩ := Poll.own promotes_scheduled first awaits state
    by_cases listed : j ∈ tick.1.2.map Prod.fst
    · exact .inl (Poll.ready promotes_failed second (ready listed))
    · obtain ⟨awaits, fewer⟩ := passed listed
      have kept := Poll.other promotes_failed second awaits (by simp [state]) (by simp [state])
      exact .inr ⟨kept.1, by rw [kept.2, fewer]⟩
  · obtain ⟨awaits, same⟩ :=
      Poll.other promotes_scheduled first awaits (by simp [state]) (by simp [state])
    obtain ⟨ready, passed⟩ := Poll.own promotes_failed second awaits state
    by_cases listed : j ∈ tick.2.2.map Prod.fst
    · exact .inl (ready listed)
    · exact .inr ⟨(passed listed).1, (passed listed).2.trans same⟩

/-- There is always a tick. -/
theorem exists_tick (s : PollState) : ∃ tick s', RunDuePoll s tick s' := by
  obtain ⟨pass, mid, first⟩ := promotes_scheduled.exists_poll s
  obtain ⟨pass', s', second⟩ := promotes_failed.exists_poll mid
  exact ⟨(pass, pass'), s', mid, first, second⟩

/-- With a full batch of jobs before it, a due job may still wait after a tick. -/
theorem exists_tick_omitting (polled : j.polled) (awaits : Awaits j s)
    (crowd : 500 ≤ jobsBefore j s) :
    ∃ tick s', RunDuePoll s tick s' ∧ Awaits j s' ∧ jobsBefore j s' + 500 = jobsBefore j s := by
  rcases polled with state | state
  · obtain ⟨pass, mid, first, omitted⟩ := promotes_scheduled.exists_omitting awaits state crowd
    obtain ⟨awaits, fewer⟩ := (Poll.own promotes_scheduled first awaits state).2 omitted
    obtain ⟨pass', s', second⟩ := promotes_failed.exists_poll mid
    have kept := Poll.other promotes_failed second awaits (by simp [state]) (by simp [state])
    exact ⟨(pass, pass'), s', ⟨mid, first, second⟩, kept.1, by rw [kept.2, fewer]⟩
  · obtain ⟨pass, mid, first⟩ := promotes_scheduled.exists_poll s
    obtain ⟨awaits, same⟩ :=
      Poll.other promotes_scheduled first awaits (by simp [state]) (by simp [state])
    obtain ⟨pass', s', second, omitted⟩ :=
      promotes_failed.exists_omitting awaits state (same ▸ crowd)
    obtain ⟨kept, fewer⟩ := (Poll.own promotes_failed second awaits state).2 omitted
    exact ⟨(pass, pass'), s', ⟨mid, first, second⟩, kept, fewer.trans same⟩

theorem after_of_ready (ready : Ready j s) (n : Nat) : After RunDuePoll (Ready j) n s := by
  induction n generalizing s with
  | zero => exact ready
  | succ n ih => exact ⟨exists_tick s, fun tick s' made => ih (made.ready ready)⟩

/--
A due job is promoted and queued after a number of undisturbed ticks exactly if the jobs that may
come before it do not fill that many batches.
-/
theorem due_job_ready_iff (polled : j.polled) (stored : s.db.jobs.find? j.id = some j)
    (due : j.runAt ≤ s.clock) (n : Nat) :
    After RunDuePoll (Ready j) n s ↔ jobsBefore j s < n * 500 := by
  have awaits : Awaits j s := ⟨stored, due⟩
  clear stored due
  induction n generalizing s with
  | zero =>
    refine iff_of_false (fun ready => ?_) (by omega)
    obtain ⟨row, found, pending⟩ := Ready.pending ready
    rw [awaits.stored, Option.some.injEq] at found
    rw [← found] at pending
    rcases polled with state | state <;> simp [state] at pending
  | succ n ih =>
    constructor
    · rintro ⟨-, later⟩
      by_contra crowd
      obtain ⟨tick, s', made, awaits', fewer⟩ := exists_tick_omitting polled awaits (by omega)
      have few := (ih awaits').mp (later tick s' made)
      omega
    · intro few
      refine ⟨exists_tick s, fun tick s' made => ?_⟩
      rcases made.progress polled awaits with ready | ⟨awaits', fewer⟩
      · exact after_of_ready ready n
      · exact (ih awaits').mpr (by omega)

/-- A delayed job that has become due. -/
def dueJob : Job :=
  { submittedJob 7 .hook 1 0 with state := .scheduled }.inserted

/-- The polls find that job behind a more urgent one. -/
def dueBehind : PollState where
  db := (insertJob { dueJob with id := 2, priority := 1 } (insertJob dueJob .empty).2).2
  redis _ := []
  clock := 0

theorem due_job_ready_iff_behind :
    jobsBefore dueJob dueBehind = 1 ∧ After RunDuePoll (Ready dueJob) 1 dueBehind ∧
      ¬After RunDuePoll (Ready dueJob) 0 dueBehind := by
  have stored : dueBehind.db.jobs.find? dueJob.id = some dueJob := by decide +kernel
  have ready := due_job_ready_iff (.inl rfl) stored (Int.le_refl 0)
  have one : jobsBefore dueJob dueBehind = 1 := by decide +kernel
  exact ⟨one, (ready 1).mpr (by rw [one]; decide),
    fun early => absurd ((ready 0).mp early) (by simp)⟩

end Sluice
