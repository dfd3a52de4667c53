import Mathlib.Algebra.BigOperators.Finprod
import Sluice.Api.Handler
import Sluice.Proofs.Lanes

/-! The operator's command looks at lists that nothing is ever queued in. -/

namespace Sluice

open Relational Transition

/-- The number of identifiers that wait in a lane, over all tenants. -/
noncomputable def waitingIn (bucket : String) (redis : Redis) : Nat :=
  finsum fun tenantID : UUID => redis.llen (queueKey bucket tenantID)

/-- The sum of the depths that the dashboard shows for a lane. -/
def shownDepth (label : String) (depths : List QueueDepth) : Nat :=
  ((depths.filter fun entry => entry.priority == label).map QueueDepth.depth).sum

/-- A lane without a tenant is no list of any tenant. -/
theorem queueKey_ne_bucket {bare bucket : String} (named : bare ∈ priorityBuckets)
    (tenantID : UUID) : bare ≠ queueKey bucket tenantID := by
  -- The text of the tenant alone is longer.
  intro same
  have lengths := congrArg (fun key => key.toList.length) same
  simp only [queueKey, String.toList_append, List.length_append, UUID.length_toString] at lengths
  simp only [priorityBuckets, List.mem_cons, List.not_mem_nil, or_false] at named
  rcases named with rfl | rfl | rfl <;> simp at lengths

/-- A lane without a tenant is no list that workers move entries to. -/
theorem processingKey_ne_bucket {bare : String} (named : bare ∈ priorityBuckets)
    (workerID : String) : bare ≠ processingKey workerID := by
  -- The two kinds of names differ in their first letter.
  intro same
  have first := congrArg (fun key => key.toList.head?) same
  simp only [priorityBuckets, List.mem_cons, List.not_mem_nil, or_false] at named
  rcases named with rfl | rfl | rfl <;> simp [processingKey] at first

/-- A look changes no list but its lane's and its worker's. -/
theorem look_of_ne {workerID key : String} {lane : Lane} {redis : Redis} (apart : key ≠ lane.key)
    (apart' : key ≠ processingKey workerID) : (look workerID lane redis).2 key = redis key := by
  unfold look Redis.lmove
  cases (redis lane.key).getLast? with
  | none => rfl
  | some text => simp [Redis.rpop, Redis.lpush, apart, apart']

/-- Nothing is ever queued in a lane without a tenant. -/
theorem bare_lane_empty {past : List (Step Queues QueueAction)} {s : Queues}
    (run : Run Queues.Next Queues.empty past s) {bare : String} (named : bare ∈ priorityBuckets) :
    s.redis bare = [] := by
  refine run.invariant (fun s => s.redis bare = []) rfl ?_
  intro s a s' empty made
  cases made.moves with
  | enqueue tenantID jobID priority =>
    simpa [enqueue, Redis.lpush, queueKey_ne_bucket named] using empty
  | look =>
    rw [← empty]
    exact look_of_ne (queueKey_ne_bucket named _) (processingKey_ne_bucket named _)
  | removeFromProcessing =>
    simp [removeFromProcessing, Redis.lrem, empty]
  | dequeue | poll | giveUp => exact empty

/-- The lanes that are shown are those that workers scan. -/
theorem bucket_of_label {label bucket : String} (lane : (label, bucket) ∈ laneLabels) :
    bucket ∈ priorityBuckets := List.mem_map_of_mem (f := Prod.snd) lane

/-- The command prints zero for every lane. -/
theorem cmdQueueDepth_zero {past : List (Step Queues QueueAction)} {s : Queues}
    (run : Run Queues.Next Queues.empty past s) {label : String} {depth : Int}
    (printed : (label, depth) ∈ cmdQueueDepth (fun _ => false) s.redis) : depth = 0 := by
  obtain ⟨⟨shown, bucket⟩, listed, same⟩ := List.mem_map.mp printed
  simp only [Bool.false_eq_true, if_false, Prod.mk.injEq, Redis.llen,
    bare_lane_empty run (bucket_of_label listed)] at same
  exact same.2.symm

/-- The sum over all tenants is one over any list of them that leaves no waiting entry out. -/
theorem waitingIn_eq_sum {bucket : String} {redis : Redis} {ids : List UUID} (distinct : ids.Nodup)
    (covers : ∀ tenantID, tenantID ∉ ids → redis (queueKey bucket tenantID) = []) :
    waitingIn bucket redis =
      (ids.map fun tenantID => redis.llen (queueKey bucket tenantID)).sum := by
  rw [waitingIn, finsum_eq_sum_of_support_subset _ (s := ids.toFinset),
    List.sum_toFinset _ distinct]
  -- A tenant outside the list adds nothing.
  intro tenantID counts
  by_contra missing
  rw [Finset.mem_coe, List.mem_toFinset] at missing
  exact counts (by simp [Redis.llen, covers tenantID missing])

/-- The lists of a tenant for which nothing was queued are empty. -/
theorem empty_of_unqueued {past : List (Step Queues QueueAction)} {s : Queues}
    (run : Run Queues.Next Queues.empty past s) {bucket : String} (named : bucket ∈ priorityBuckets)
    {tenantID : UUID} (unqueued : ∀ entry ∈ past.filterMap enqueued, entry.1.tenantID ≠ tenantID) :
    s.redis (queueKey bucket tenantID) = [] := by
  obtain ⟨waiting, holds, fifo⟩ := lane_of_run run ⟨tenantID, bucket, named⟩
  rw [idsOf_eq_nil] at fifo
  · -- Nothing went in, so nothing waits.
    have none_left := (List.append_eq_nil_iff.mp fifo.symm).2
    rw [none_left] at holds
    exact holds
  · intro listed
    obtain ⟨entry, member, same⟩ := List.mem_map.mp listed
    exact unqueued entry member (by rw [same])

/-- Nothing waits in a lane exactly if all its lists are empty. -/
theorem waitingIn_eq_zero_iff {past : List (Step Queues QueueAction)} {s : Queues}
    (run : Run Queues.Next Queues.empty past s) {bucket : String}
    (named : bucket ∈ priorityBuckets) :
    waitingIn bucket s.redis = 0 ↔ ∀ tenantID, s.redis (queueKey bucket tenantID) = [] := by
  -- Only the tenants that something was queued for can have waiting entries.
  have covers : ∀ tenantID,
      tenantID ∉ ((past.filterMap enqueued).map fun entry => entry.1.tenantID).dedup →
      s.redis (queueKey bucket tenantID) = [] := by
    intro tenantID missing
    refine empty_of_unqueued run named fun entry listed own => missing ?_
    rw [List.mem_dedup, ← own]
    exact List.mem_map_of_mem listed
  rw [waitingIn_eq_sum (List.nodup_dedup _) covers, List.sum_eq_zero_iff]
  constructor
  · intro zeros tenantID
    by_cases queued : tenantID ∈ ((past.filterMap enqueued).map fun entry => entry.1.tenantID).dedup
    · exact List.eq_nil_of_length_eq_zero (zeros _ (List.mem_map_of_mem queued))
    · exact covers tenantID queued
  · intro empty depth listed
    obtain ⟨tenantID, -, rfl⟩ := List.mem_map.mp listed
    simp [Redis.llen, empty tenantID]

/-- The dashboard shows the depth of a lane for each of the tenants that it knows. -/
theorem shownDepth_queueDepths {label bucket : String} (lane : (label, bucket) ∈ laneLabels)
    (tenants : List Tenant) (redis : Redis) :
    shownDepth label (queueDepths (fun _ => false) tenants redis) =
      (tenants.map fun t => redis.llen (queueKey bucket t.id)).sum := by
  induction tenants with
  | nil => rfl
  | cons t rest ih =>
    -- Of the three entries of a tenant one has the label.
    have own : shownDepth label (queueDepths (fun _ => false) [t] redis) =
        redis.llen (queueKey bucket t.id) := by
      simp only [laneLabels, List.mem_cons, List.not_mem_nil, or_false, Prod.mk.injEq] at lane
      rcases lane with ⟨rfl, rfl⟩ | ⟨rfl, rfl⟩ | ⟨rfl, rfl⟩ <;>
        simp [shownDepth, queueDepths, laneLabels]
    have both : shownDepth label (queueDepths (fun _ => false) (t :: rest) redis) =
        shownDepth label (queueDepths (fun _ => false) [t] redis) +
          shownDepth label (queueDepths (fun _ => false) rest redis) := by
      simp [shownDepth, queueDepths]
    rw [both, own, ih, List.map_cons, List.sum_cons]

/-- All tenants are active, and jobs are queued for tenants only. -/
def AllActive (tenants : Tenants) (past : List (Step Queues QueueAction)) : Prop :=
  (∀ t ∈ tenants.rows, t.active = true) ∧
    ∀ entry ∈ past.filterMap enqueued, ∃ t ∈ tenants.rows, t.id = entry.1.tenantID

/-- With all tenants active the dashboard shows everything that waits. -/
theorem shownDepth_eq_waitingIn {past : List (Step Queues QueueAction)} {s : Queues}
    (run : Run Queues.Next Queues.empty past s) {label bucket : String}
    (lane : (label, bucket) ∈ laneLabels) {tenants : Tenants} {answer : List Tenant}
    (loaded : getTenants.Answers tenants.rows answer) (active : AllActive tenants past) :
    shownDepth label (queueDepths (fun _ => false) answer s.redis) = waitingIn bucket s.redis := by
  have named := bucket_of_label lane
  -- The query returns every row.
  have all : answer.Perm tenants.rows := by
    obtain ⟨sorted, perm, -, rfl⟩ := loaded
    have selected : tenants.rows.filter getTenants.holds = tenants.rows :=
      List.filter_eq_self.mpr active.1
    rwa [selected] at perm
  have distinct : (answer.map Tenant.id).Nodup := (all.map Tenant.id).nodup_iff.mpr tenants.keyed
  rw [shownDepth_queueDepths lane, waitingIn_eq_sum distinct, List.map_map]
  · rfl
  · intro tenantID missing
    refine empty_of_unqueued run named fun entry listed own => missing ?_
    obtain ⟨t, stored, same⟩ := active.2 entry listed
    rw [← own, ← same]
    exact List.mem_map_of_mem (all.mem_iff.mpr stored)

/--
The command counts what waits in a lane exactly if nothing waits there.

The dashboard counts right, if all tenants are active.
-/
theorem queue_depth_printed_iff {past : List (Step Queues QueueAction)} {s : Queues}
    (run : Run Queues.Next Queues.empty past s) {label bucket : String}
    (lane : (label, bucket) ∈ laneLabels) {tenants : Tenants} {answer : List Tenant}
    (loaded : getTenants.Answers tenants.rows answer) {depth : Int}
    (printed : (label, depth) ∈ cmdQueueDepth (fun _ => false) s.redis) :
    (depth = waitingIn bucket s.redis ∧ (AllActive tenants past →
        depth = shownDepth label (queueDepths (fun _ => false) answer s.redis)) ↔
      ∀ tenantID, s.redis (queueKey bucket tenantID) = []) ∧
    (AllActive tenants past →
      shownDepth label (queueDepths (fun _ => false) answer s.redis) =
        waitingIn bucket s.redis) := by
  have named := bucket_of_label lane
  have shown := fun active => shownDepth_eq_waitingIn run lane loaded active
  refine ⟨?_, shown⟩
  rw [cmdQueueDepth_zero run printed, ← waitingIn_eq_zero_iff run named]
  constructor
  · intro right
    omega
  · intro none_left
    refine ⟨by omega, fun active => ?_⟩
    have total := shown active
    omega

/-- One job of normal priority is queued. -/
def queuedOnce : List (Step Queues QueueAction) :=
  trace (fun s a => (s.step? a).getD s) Queues.empty [.enqueue 7 1 5]

/-- The lists after it. -/
def afterQueued : Queues := { Queues.empty with redis := enqueue 7 1 5 Queues.empty.redis }

/-- Queueing the job is a run. -/
theorem run_queuedOnce : Run Queues.Next Queues.empty queuedOnce afterQueued :=
  run_of_some Queues.step? [.enqueue 7 1 5] Queues.empty rfl

/-- The job waits in one list only. -/
theorem afterQueued_other {bucket : String} {tenantID : UUID}
    (other : bucket ≠ "queue:5" ∨ tenantID ≠ 7) :
    afterQueued.redis (queueKey bucket tenantID) = [] := by
  have apart : queueKey bucket tenantID ≠ queueKey (bucketForPriority 5) 7 := by
    intro same
    obtain ⟨buckets, tenants⟩ := queueKey_inj same
    exact other.elim (absurd buckets) (absurd tenants)
  simp only [afterQueued, enqueue, Redis.lpush, if_neg apart, Queues.empty]

theorem queue_depth_printed_high :
    ("high", 0) ∈ cmdQueueDepth (fun _ => false) afterQueued.redis ∧
      (0 : Int) = waitingIn "queue:1" afterQueued.redis := by
  have printed : ("high", 0) ∈ cmdQueueDepth (fun _ => false) afterQueued.redis := by
    decide +kernel
  have loaded : getTenants.Answers ApiState.initial.tenants.rows [devTenant] :=
    ⟨[devTenant], by decide +kernel, by simp, rfl⟩
  refine ⟨printed, ((queue_depth_printed_iff run_queuedOnce (by decide) loaded printed).1.mpr ?_).1⟩
  -- The job waits in another lane.
  intro tenantID
  exact afterQueued_other (.inl (by decide))

theorem queue_depth_misses_job :
    ¬ ∀ (past : List (Step Queues QueueAction)) (s : Queues), Run Queues.Next Queues.empty past s →
      ∀ label bucket, (label, bucket) ∈ laneLabels →
        ∀ depth, (label, depth) ∈ cmdQueueDepth (fun _ => false) s.redis →
          depth = waitingIn bucket s.redis := by
  intro counts
  have zero : ("normal", 0) ∈ cmdQueueDepth (fun _ => false) afterQueued.redis := by decide +kernel
  have printed := counts _ _ run_queuedOnce "normal" "queue:5" (by decide) 0 zero
  have one : waitingIn "queue:5" afterQueued.redis = 1 := by
    rw [waitingIn_eq_sum (List.nodup_singleton 7)]
    · decide +kernel
    · intro tenantID missing
      exact afterQueued_other (.inr (mt List.mem_singleton.mpr missing))
  rw [one] at printed
  cases printed

end Sluice
