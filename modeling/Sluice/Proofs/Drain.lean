import Sluice.Proofs.QueueDepth
import Sluice.Queue.Drain

/-! What the operator's `drain` removes while others go on using the lists. -/

namespace Sluice

open Transition

variable {queues : Queues} {past : List (Step Drain DrainAction)} {s s' : Drain}
  {a : DrainAction} {key text : String}

/-- Whether somebody adds an entry to a list. -/
def DrainAction.pushes (key text : String) : DrainAction → Bool
  | other (.enqueue tenantID jobID priority) =>
    queueKey (bucketForPriority priority) tenantID == key && jobID.toString == text
  | _ => false

/-- The keys that the command has got and not yet dealt with. -/
def DrainStage.todo : DrainStage → List String
  | llen key keys _ | del key _ keys _ => key :: keys
  | scan | finished | failed => []

/-- Whether the last page has come. -/
def DrainStage.ended : DrainStage → Bool
  | llen _ _ last | del _ _ _ last => last
  | finished => true
  | scan | failed => false

/-- The loop goes on with the keys that are left. -/
@[simp] theorem DrainStage.todo_next (last : Bool) (keys : List String) :
    (next last keys).todo = keys := by
  cases keys with
  | nil => cases last <;> rfl
  | cons key keys => rfl

/-- The loop remembers whether there is another page. -/
@[simp] theorem DrainStage.ended_next (last : Bool) (keys : List String) :
    (next last keys).ended = last := by
  cases keys with
  | nil => cases last <;> rfl
  | cons key keys => rfl

/-- A processing list is no queue. -/
theorem isQueue_ne_processingKey (queue : isQueue key = true) (workerID : String) :
    key ≠ processingKey workerID := by
  -- The two begin with different letters.
  rintro rfl
  simp [isQueue, processingKey, List.isPrefixOf] at queue

/-- A caller of the queue adds an entry to a list at most by queueing it there. -/
theorem Queues.Next.count_le {q q' : Queues} {a : QueueAction} (made : q.Next a q')
    (queue : isQueue key = true) (text : String) :
    (q'.redis key).count text ≤ (q.redis key).count text +
      if (DrainAction.other a).pushes key text then 1 else 0 := by
  -- Only `LPUSH` adds to a list, and the other calls take from it or work on another one.
  cases made.moves with
  | enqueue tenantID jobID priority =>
    simp only [enqueue, Redis.lpush, DrainAction.pushes, Bool.and_eq_true, beq_iff_eq]
    by_cases own : key = queueKey (bucketForPriority priority) tenantID
    · simp [own, List.count_cons]
    · simp [own]
  | @look call workerID tenants lane lanes called =>
    refine Nat.le_add_right_of_le (List.Sublist.count_le text ?_)
    change List.Sublist ((look workerID lane q.redis).2 key) (q.redis key)
    -- The entry moves to the worker's processing list, which is no queue.
    by_cases own : key = lane.key
    · rw [own, look_lane, if_pos rfl]
      exact List.dropLast_sublist _
    · rw [look_of_ne own (isQueue_ne_processingKey queue workerID)]
  | removeFromProcessing workerID jobID =>
    have apart := isQueue_ne_processingKey queue workerID
    simp [removeFromProcessing, Redis.lrem, apart]
  | dequeue | poll | giveUp => exact Nat.le_add_right _ _

namespace Drain

/-- What a step does to the lists, to the loop, and to what the iteration owes. -/
inductive Moves (s : Drain) : DrainAction → Drain → Prop where
  | other {a : QueueAction} {q : Queues} (made : s.queues.Next a q) : Moves s (.other a) (s.put q)
  | scan {keys : List String} {last : Bool} (stage : s.stage = .scan)
      (queue : ∀ key ∈ keys, isQueue key = true)
      (complete : last = true → ∀ key, s.owed key = true → key ∈ keys) :
      Moves s (.scan keys last)
        { s with stage := .next last keys, owed := fun key => s.owed key && !keys.contains key }
  | scanFails (stage : s.stage = .scan) : Moves s .scanFails { s with stage := .failed }
  | skip {fails : Bool} {key : String} {keys : List String} {last : Bool}
      (stage : s.stage = .llen key keys last) (empty : fails = true ∨ s.queues.redis key = []) :
      Moves s (.llen fails) { s with stage := .next last keys }
  | llen {key : String} {keys : List String} {last : Bool} (stage : s.stage = .llen key keys last)
      (filled : s.queues.redis key ≠ []) :
      Moves s (.llen false) { s with stage := .del key (s.queues.redis key).length keys last }
  | keep {key : String} {n : Nat} {keys : List String} {last : Bool}
      (stage : s.stage = .del key n keys last) :
      Moves s (.del true) { s with stage := .next last keys }
  | del {key : String} {n : Nat} {keys : List String} {last : Bool}
      (stage : s.stage = .del key n keys last) :
      Moves s (.del false)
        { s.put { s.queues with redis := s.queues.redis.del key } with
          stage := .next last keys
          totalJobs := s.totalJobs + n
          queueCount := s.queueCount + 1 }

/-- Every step is one of these. -/
theorem Next.moves (next : s.Next a s') : s.Moves a s' := by
  -- Each action is possible at one stage only, and the promise of the pages goes along.
  obtain ⟨promised, made⟩ := next
  unfold step? at made
  cases a with
  | other a =>
    obtain ⟨q, moved, rfl⟩ := Option.map_eq_some_iff.mp made
    exact .other moved
  | scan keys last =>
    dsimp only at made
    split at made
    · rename_i stage
      cases made
      exact .scan stage promised.1 promised.2
    · cases made
  | scanFails =>
    dsimp only at made
    split at made
    · rename_i stage
      cases made
      exact .scanFails stage
    · cases made
  | llen fails =>
    dsimp only at made
    split at made
    · rename_i key keys last stage
      cases made
      split
      · rename_i passed
        exact .skip stage (by simpa using passed)
      · rename_i counted
        simp only [Bool.or_eq_true, beq_iff_eq, List.length_eq_zero_iff, not_or,
          Bool.not_eq_true] at counted
        obtain ⟨rfl, filled⟩ := counted
        exact .llen stage filled
    · cases made
  | del fails =>
    dsimp only at made
    split at made
    · rename_i key n keys last stage
      split at made
      · rename_i failed
        cases made
        cases failed
        exact .keep stage
      · rename_i deleted
        cases made
        cases Bool.eq_false_iff.mpr deleted
        exact .del stage
    · cases made

/-- No step adds an entry to a list but the queueing of it. -/
theorem Next.count_le (next : s.Next a s') (queue : isQueue key = true) (text : String) :
    (s'.queues.redis key).count text ≤ (s.queues.redis key).count text +
      if a.pushes key text then 1 else 0 := by
  -- The command itself only deletes.
  cases next.moves with
  | other made => exact made.count_le queue text
  | @del cleared n keys last stage =>
    refine Nat.le_add_right_of_le ?_
    by_cases own : key = cleared
    · simp [put, Redis.del, own]
    · simp [put, Redis.del, own]
  | scan | scanFails | skip | llen | keep => exact Nat.le_add_right _ _

/-- All that stands in a list has been queued since the command began. -/
def Cleared (past : List (Step Drain DrainAction)) (s : Drain) (key : String) : Prop :=
  ∀ text, (s.queues.redis key).count text ≤ past.countP fun e => e.label.pushes key text

/-- A list without entries is clear. -/
theorem Cleared.of_empty (empty : s.queues.redis key = []) : Cleared past s key := by
  intro text
  simp [empty]

/-- A list that is clear stays so. -/
theorem Cleared.step (cleared : Cleared past s key) (queue : isQueue key = true)
    (next : s.Next a s') : Cleared (past ++ [⟨s, a, s'⟩]) s' key := by
  intro text
  rw [List.countP_append, List.countP_singleton]
  exact (next.count_le queue text).trans (Nat.add_le_add_right (cleared text) _)

/-- The command still gets to a list: the iteration owes its key, or the loop has it. -/
def Ahead (s : Drain) (key : String) : Prop := s.owed key = true ∨ key ∈ s.stage.todo

/-- The command gets past a list only when the list is empty. -/
theorem Ahead.step (ahead : s.Ahead key) (next : s.Next a s') (quiet : a.errs = false) :
    s'.Ahead key ∨ s'.queues.redis key = [] := by
  -- The iteration owes a key as long as its list exists.
  have kept : ∀ q : Queues, s.owed key = true →
      (s.put q).owed key = true ∨ q.redis key = [] := by
    intro q owed
    cases left : q.redis key with
    | nil => exact .inr rfl
    | cons text rest => exact .inl (by simp [put, owed, left])
  unfold Ahead at ahead ⊢
  cases next.moves with
  | @other a q made =>
    rcases ahead with owed | todo
    · rcases kept q owed with owed | empty
      · exact .inl (.inl owed)
      · exact .inr empty
    · exact .inl (.inr todo)
  | @scan keys last stage queue complete =>
    -- A page hands its keys from the iteration to the loop.
    rcases ahead with owed | todo
    · by_cases listed : key ∈ keys
      · exact .inl (.inr (by simpa using listed))
      · exact .inl (.inl (by simp [owed, listed]))
    · rw [stage] at todo
      cases todo
  | scanFails stage =>
    rw [stage] at ahead
    exact .inl (.inl (ahead.resolve_right List.not_mem_nil))
  | @skip fails looked keys last stage empty =>
    rw [stage] at ahead
    rcases ahead with owed | todo
    · exact .inl (.inl owed)
    · -- Without an error, `LLEN` passes over empty lists only.
      rcases List.mem_cons.mp todo with rfl | later
      · exact .inr (empty.resolve_left (by rw [show fails = false from quiet]; decide))
      · exact .inl (.inr (by simpa using later))
  | llen stage filled =>
    rw [stage] at ahead
    exact .inl ahead
  | keep stage => cases quiet
  | @del cleared n keys last stage =>
    rw [stage] at ahead
    rcases ahead with owed | todo
    · rcases kept { s.queues with redis := s.queues.redis.del cleared } owed with owed | empty
      · exact .inl (.inl owed)
      · exact .inr empty
    · rcases List.mem_cons.mp todo with rfl | later
      · exact .inr (by simp [put, Redis.del])
      · exact .inl (.inr (by simpa using later))

/-- After the last page, nothing is owed. -/
theorem owed_of_ended (run : Reaches queues past s) (ended : s.stage.ended = true) (key : String) :
    s.owed key = false := by
  revert ended
  refine run.invariant (fun s => s.stage.ended = true → s.owed key = false) (fun ended => ?_) ?_
  · cases ended
  · intro s a s' ih next ended
    cases next.moves with
    | other made => simp [put, ih ended]
    | @scan keys last stage queue complete =>
      -- The last page has all the keys that were owed.
      simp only [DrainStage.ended_next] at ended
      by_cases listed : key ∈ keys
      · simp [listed]
      · have free : s.owed key = false :=
          Bool.eq_false_iff.mpr fun owed => listed (complete ended key owed)
        simp [free]
    | scanFails => cases ended
    | llen stage => exact ih (by rw [stage]; exact ended)
    | skip stage | keep stage | del stage =>
      rw [DrainStage.ended_next] at ended
      have before : s.owed key = false := ih (by rw [stage]; exact ended)
      simp [put, before]

/-- When the command has gone through, all lists are clear. -/
theorem cleared_of_finished (run : Reaches queues past s)
    (quiet : ∀ e ∈ past, e.label.errs = false) (finished : s.stage = .finished)
    (queue : isQueue key = true) : Cleared past s key := by
  -- At every moment a list is clear, or the command still gets to it.
  have swept : Cleared past s key ∨ s.Ahead key := by
    revert quiet
    refine run.history (fun past s => (∀ e ∈ past, e.label.errs = false) →
      Cleared past s key ∨ s.Ahead key) (fun _ => ?_) ?_
    · cases left : queues.redis key with
      | nil => exact .inl (.of_empty left)
      | cons text rest => exact .inr (.inl (by simp [start, queue, left]))
    · intro past s a s' _ ih next quiet
      simp only [List.forall_mem_append, List.forall_mem_singleton] at quiet
      rcases ih quiet.1 with cleared | ahead
      · exact .inl (cleared.step queue next)
      · exact (ahead.step next quiet.2).symm.imp_left .of_empty
  -- A command that has finished has nothing ahead of it.
  rcases swept with cleared | owed | todo
  · exact cleared
  · rw [owed_of_ended run (by rw [finished]; rfl)] at owed
    cases owed
  · rw [finished] at todo
    cases todo

end Drain

/--
When `drain` has gone through without an error, the lists hold only what was queued since it began,
whatever the API, the scheduler, and the workers did with them in the meantime.
-/
theorem drain_leaves_new (run : Drain.Reaches queues past s)
    (quiet : ∀ e ∈ past, e.label.errs = false) (finished : s.stage = .finished)
    (queue : isQueue key = true) (text : String) :
    (s.queues.redis key).count text ≤ past.countP fun e => e.label.pushes key text :=
  Drain.cleared_of_finished run quiet finished queue text

/-- Two lists that hold three jobs. -/
def threeQueued : Queues :=
  { Queues.empty with
    redis := enqueue 1 5 1 (enqueue 1 6 5 (enqueue 1 7 5 Queues.empty.redis)) }

/-- Those two lists are all there are. -/
theorem threeQueued_listed (key : String) :
    key ∈ ({"queue:1:00000000-0000-0000-0000-000000000001",
        "queue:5:00000000-0000-0000-0000-000000000001"} : Finset String) ↔
      isQueue key = true ∧ threeQueued.redis key ≠ [] := by
  have urgent : queueKey (bucketForPriority 1) 1 =
      "queue:1:00000000-0000-0000-0000-000000000001" := by decide +kernel
  have normal : queueKey (bucketForPriority 5) 1 =
      "queue:5:00000000-0000-0000-0000-000000000001" := by decide +kernel
  simp only [threeQueued, enqueue, urgent, normal, Redis.lpush, Queues.empty, Finset.mem_insert,
    Finset.mem_singleton]
  constructor
  · rintro (rfl | rfl) <;> exact ⟨by decide +kernel, by decide +kernel⟩
  · rintro ⟨-, filled⟩
    by_contra other
    rw [not_or] at other
    simp [other] at filled

/-- A page that is the last one, and that has one of the keys twice. -/
def repeatingPage : DrainAction :=
  .scan ["queue:5:00000000-0000-0000-0000-000000000001",
    "queue:1:00000000-0000-0000-0000-000000000001",
    "queue:5:00000000-0000-0000-0000-000000000001"] true

/-- The command after an action, if it is possible. -/
def Drain.act (s : Drain) (a : DrainAction) : Drain := (s.step? a).getD s

/-- Redis may give this page to the command, which then goes on. -/
theorem reaches_repeatingPage (rest : List DrainAction)
    (plain : ∀ keys last, DrainAction.scan keys last ∉ rest)
    (possible : (trace Drain.act (.start threeQueued) (repeatingPage :: rest)).all
      (fun e => (e.pre.step? e.label).isSome) = true) :
    Drain.Reaches threeQueued (trace Drain.act (.start threeQueued) (repeatingPage :: rest))
      ((repeatingPage :: rest).foldl Drain.act (.start threeQueued)) := by
  refine run_trace fun e taken => ⟨?_, ?_⟩
  · -- Only the page comes with a promise, which is that no list is missing.
    rw [trace, List.mem_cons] at taken
    rcases taken with rfl | later
    · refine ⟨by decide +kernel, fun _ key owed => ?_⟩
      simp only [Drain.start, Bool.and_eq_true, Bool.not_eq_true',
        List.isEmpty_eq_false_iff] at owed
      have listed := (threeQueued_listed key).mpr owed
      simp only [Finset.mem_insert, Finset.mem_singleton] at listed
      rcases listed with rfl | rfl <;> simp
    · have label := (mem_trace later).1
      cases made : e.label with
      | scan keys last => exact absurd (made ▸ label) (plain keys last)
      | other | scanFails | llen | del => exact trivial
  · have enabled := List.all_eq_true.mp possible e taken
    obtain ⟨after, made⟩ := Option.isSome_iff_exists.mp enabled
    rw [(mem_trace taken).2, Drain.act, made, Option.getD_some]

/-- A job is queued before the first deletion. -/
def pushedMeanwhile : List DrainAction :=
  [.llen false, .other (.enqueue 1 8 5), .del false, .llen false, .del false, .llen false]

theorem drain_leaves_new_pushed :
    ((repeatingPage :: pushedMeanwhile).foldl Drain.act (.start threeQueued)).totalJobs = 3 ∧
      (((repeatingPage :: pushedMeanwhile).foldl Drain.act (.start threeQueued)).queues.redis
          "queue:5:00000000-0000-0000-0000-000000000001").count (UUID.toString 6) ≤
        (trace Drain.act (.start threeQueued) (repeatingPage :: pushedMeanwhile)).countP fun e =>
          e.label.pushes "queue:5:00000000-0000-0000-0000-000000000001" (UUID.toString 6) := by
  have run := reaches_repeatingPage pushedMeanwhile (by simp [pushedMeanwhile]) (by decide +kernel)
  have quiet : (trace Drain.act (.start threeQueued) (repeatingPage :: pushedMeanwhile)).all
      (fun e => !e.label.errs) = true := by decide +kernel
  refine ⟨by decide +kernel, drain_leaves_new run (fun e taken => ?_) (by decide +kernel)
    (by decide +kernel) _⟩
  simpa using List.all_eq_true.mp quiet e taken

/-- The action leaves the lists to the command. -/
def DrainAction.alone : DrainAction → Bool
  | other _ => false
  | scan _ _ | scanFails | llen _ | del _ => true

section Counts

variable {keys : Finset String}

/-- Deleting a list takes its share out of any sum over the lists. -/
theorem Redis.sum_del {f : List String → Nat} (zero : f [] = 0) (listed : key ∈ keys)
    (redis : Redis) :
    f (redis key) + ∑ k ∈ keys, f (redis.del key k) = ∑ k ∈ keys, f (redis k) := by
  -- The other lists stay as they are.
  rw [← Finset.add_sum_erase keys _ listed,
    ← Finset.add_sum_erase keys (fun k => f (redis k)) listed]
  have rest : ∑ k ∈ keys.erase key, f (redis.del key k) = ∑ k ∈ keys.erase key, f (redis k) := by
    refine Finset.sum_congr rfl fun k other => ?_
    rw [Redis.del, Function.update_of_ne (Finset.ne_of_mem_erase other)]
  rw [rest]
  simp [Redis.del, zero]

/-- Whether a list exists, as a number. -/
def present (list : List String) : Nat := if list = [] then 0 else 1

namespace Drain

/-- What the command has counted, and what is left, makes up what there was. -/
structure Tally (keys : Finset String) (queues : Queues) (s : Drain) : Prop where
  jobs : s.totalJobs + ∑ k ∈ keys, (s.queues.redis k).length =
    ∑ k ∈ keys, (queues.redis k).length
  lists : s.queueCount + ∑ k ∈ keys, present (s.queues.redis k) =
    ∑ k ∈ keys, present (queues.redis k)
  found : ∀ key n rest last, s.stage = .del key n rest last →
    n = (s.queues.redis key).length ∧ s.queues.redis key ≠ []
  queue : ∀ key ∈ s.stage.todo, isQueue key = true
  known : ∀ key, isQueue key = true → s.queues.redis key ≠ [] → key ∈ keys

/-- The loop does not go on with a deletion. -/
theorem next_ne_del {last last' : Bool} {keys rest : List String} {n : Nat} :
    DrainStage.next last keys ≠ .del key n rest last' := by
  cases keys with
  | nil => cases last <;> exact nofun
  | cons => exact nofun

/-- The command counts each entry that it deletes, if nobody else changes the lists. -/
theorem Tally.step (tally : Tally keys queues s) (next : s.Next a s') (alone : a.alone = true)
    (quiet : a.errs = false) : Tally keys queues s' := by
  -- What `LLEN` has found is of interest before a deletion only.
  have fresh : ∀ key n rest last {last' keys'}, DrainStage.next last' keys' = .del key n rest last →
      n = (s.queues.redis key).length ∧ s.queues.redis key ≠ [] :=
    fun _ _ _ _ _ _ same => absurd same next_ne_del
  cases next.moves with
  | other => cases alone
  | keep => cases quiet
  | scanFails =>
    exact ⟨tally.jobs, tally.lists, fun _ _ _ _ same => (nomatch same),
      fun _ listed => (nomatch listed), tally.known⟩
  | scan stage queue complete =>
    exact ⟨tally.jobs, tally.lists, fun key n rest last same => fresh key n rest last same,
      by simpa using queue, tally.known⟩
  | skip stage empty =>
    refine ⟨tally.jobs, tally.lists, fun key n rest last same => fresh key n rest last same, ?_,
      tally.known⟩
    have queue := tally.queue
    rw [stage] at queue
    simpa using fun key listed => queue key (List.mem_cons_of_mem _ listed)
  | llen stage filled =>
    refine ⟨tally.jobs, tally.lists, ?_, ?_, tally.known⟩
    · intro key n rest last same
      cases same
      exact ⟨rfl, filled⟩
    · have queue := tally.queue
      rw [stage] at queue
      exact queue
  | @del cleared n rest last stage =>
    -- The number that `LLEN` has found still stands, so it is what the deletion takes away.
    obtain ⟨rfl, filled⟩ := tally.found _ _ _ _ stage
    have queue := tally.queue
    rw [stage] at queue
    have listed := tally.known cleared (queue cleared List.mem_cons_self) filled
    refine ⟨?_, ?_, ?_, ?_, ?_⟩
    · have share := Redis.sum_del (f := List.length) rfl listed s.queues.redis
      have before := tally.jobs
      simp only [put]
      omega
    · have share := Redis.sum_del (f := present) rfl listed s.queues.redis
      have before := tally.lists
      have one : present (s.queues.redis cleared) = 1 := if_neg filled
      simp only [put]
      omega
    · intro key n rest last same
      exact absurd same next_ne_del
    · simpa using fun key listed => queue key (List.mem_cons_of_mem _ listed)
    · intro key queue left
      refine tally.known key queue fun empty => left ?_
      by_cases own : key = cleared
      · simp [put, Redis.del, own]
      · simp [put, Redis.del, own, empty]

end Drain

/--
A `drain` that nobody disturbs reports the number of all queued jobs and of the lists they were in,
however often the pages repeat a key.
-/
theorem drain_counts (run : Drain.Reaches queues past s)
    (alone : ∀ e ∈ past, e.label.alone = true) (quiet : ∀ e ∈ past, e.label.errs = false)
    (finished : s.stage = .finished)
    (listed : ∀ key, key ∈ keys ↔ isQueue key = true ∧ queues.redis key ≠ []) :
    s.totalJobs = ∑ k ∈ keys, (queues.redis k).length ∧ s.queueCount = keys.card := by
  -- At first nothing is counted and all is left.
  have start : Drain.Tally keys queues (.start queues) :=
    ⟨by simp [Drain.start], by simp [Drain.start], fun _ _ _ _ same => (nomatch same),
      fun _ listed => (nomatch listed), fun key queue filled => (listed key).mpr ⟨queue, filled⟩⟩
  have tally : Drain.Tally keys queues s := run.along (Drain.Tally keys queues) start
    fun s a s' taken tally next => tally.step next (alone _ taken) (quiet _ taken)
  -- Nothing is left, since nobody has queued anything.
  have silent : ∀ text key, (past.countP fun e => e.label.pushes key text) = 0 := by
    intro text key
    refine List.countP_eq_zero.mpr fun e taken pushed => ?_
    have quiet := alone e taken
    cases label : e.label with
    | other a => simp [label, DrainAction.alone] at quiet
    | scan | scanFails | llen | del => simp [label, DrainAction.pushes] at pushed
  have empty : ∀ k ∈ keys, s.queues.redis k = [] := by
    intro k member
    have cleared := Drain.cleared_of_finished run quiet finished ((listed k).mp member).1
    refine List.eq_nil_iff_forall_not_mem.mpr fun text there => ?_
    have bound := cleared text
    rw [silent] at bound
    exact absurd (List.count_pos_iff.mpr there) (Nat.not_lt.mpr bound)
  constructor
  · rw [← tally.jobs, Finset.sum_eq_zero fun k member => by simp [empty k member], Nat.add_zero]
  · have all : ∑ k ∈ keys, present (queues.redis k) = keys.card := by
      rw [Finset.card_eq_sum_ones]
      exact Finset.sum_congr rfl fun k member => if_neg ((listed k).mp member).2
    rw [← all, ← tally.lists, Finset.sum_eq_zero fun k member => by simp [present, empty k member],
      Nat.add_zero]

theorem drain_counts_repeated :
    ([repeatingPage, .llen false, .del false, .llen false, .del false, .llen false].foldl Drain.act
      (.start threeQueued)).queueCount = 2 := by
  have run := reaches_repeatingPage [.llen false, .del false, .llen false, .del false, .llen false]
    (by simp) (by decide +kernel)
  have quiet : (trace Drain.act (.start threeQueued)
      [repeatingPage, .llen false, .del false, .llen false, .del false, .llen false]).all
      (fun e => e.label.alone && !e.label.errs) = true := by decide +kernel
  have both : ∀ e ∈ trace Drain.act (.start threeQueued)
      [repeatingPage, .llen false, .del false, .llen false, .del false, .llen false],
      e.label.alone = true ∧ e.label.errs = false := fun e taken => by
    simpa using List.all_eq_true.mp quiet e taken
  have counts := drain_counts run (fun e taken => (both e taken).1)
    (fun e taken => (both e taken).2) (by decide +kernel) threeQueued_listed
  exact counts.2

end Counts

end Sluice
