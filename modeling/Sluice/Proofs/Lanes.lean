import Sluice.Proofs.Queue
import Sluice.Queue.Calls

/-! No identifier is lost, doubled, or overtaken within its lane. -/

namespace Sluice

open Transition
open scoped List

/-- The lists of different lanes have different names. -/
theorem Lane.key_inj {lane other : Lane} (same : lane.key = other.key) : lane = other := by
  -- The name tells the bucket and the tenant, and these two are the lane.
  obtain ⟨buckets, tenants⟩ := queueKey_inj same
  cases lane
  cases other
  cases buckets
  cases tenants
  rfl

/-- No lane is a processing list. -/
theorem Lane.key_ne (lane : Lane) (workerID : String) : lane.key ≠ processingKey workerID :=
  (processingKey_ne lane.scanned workerID lane.tenantID).symm

/-- The lists of a poll cycle are those of its lanes. -/
theorem scanKeys_eq (order : List UUID) : scanKeys order = (scanLanes order).map Lane.key := by
  simp [scanKeys, scanLanes, tenantLanes, List.map_flatMap, Lane.key, Function.comp_def]

/-- A worker's look at a list is a look at its lane. -/
theorem dequeueFrom_eq (workerID : String) (lane : Lane) (keys : List String) (redis : Redis) :
    dequeueFrom workerID lane.key keys redis =
      (match (look workerID lane redis).1 with
        | none => .scanning keys
        | some id => if id = UUID.nil then .scanning [] else .fetched id,
      (look workerID lane redis).2) := by
  unfold dequeueFrom look
  obtain ⟨answer, redis'⟩ := redis.lmove lane.key (processingKey workerID)
  cases answer with
  | none => rfl
  | some text => cases read : UUID.parse text <;> simp [read]

/-- A look answers with the entry at the right end of the list. -/
theorem look_answer (workerID : String) (lane : Lane) (redis : Redis) :
    (look workerID lane redis).1 = (redis lane.key).getLast?.bind UUID.parse := by
  unfold look Redis.lmove
  cases (redis lane.key).getLast? <;> rfl

/-- A look takes the entry off its own lane and leaves the other lanes alone. -/
theorem look_lane (workerID : String) (lane other : Lane) (redis : Redis) :
    (look workerID lane redis).2 other.key =
      if other = lane then (redis lane.key).dropLast else redis other.key := by
  unfold look Redis.lmove
  cases last : (redis lane.key).getLast? with
  | none =>
    -- There is nothing to take off, so both sides are the empty list.
    have empty := List.getLast?_eq_none_iff.mp last
    by_cases same : other = lane
    · simp [same, empty]
    · simp [same]
  | some text =>
    -- The entry goes to a processing list, which is no lane.
    simp only [Redis.lpush, other.key_ne, if_false, Redis.rpop]
    by_cases same : other = lane
    · simp [same]
    · have apart : other.key ≠ lane.key := fun equal => same (Lane.key_inj equal)
      simp [same, apart]

/-- An identifier that is queued enters its lane at the left end. -/
theorem enqueue_lane (tenantID jobID : UUID) (priority : Int16) (redis : Redis) (lane : Lane) :
    enqueue tenantID jobID priority redis lane.key =
      if lane = .ofPriority tenantID priority then jobID.toString :: redis lane.key
      else redis lane.key := by
  have named : (Lane.ofPriority tenantID priority).key =
    queueKey (bucketForPriority priority) tenantID := rfl
  unfold enqueue Redis.lpush
  rw [← named]
  by_cases same : lane = .ofPriority tenantID priority
  · simp [same]
  · have apart : lane.key ≠ (Lane.ofPriority tenantID priority).key :=
      fun equal => same (Lane.key_inj equal)
    simp [same, apart]

/-- Clearing a processing list leaves the lanes alone. -/
theorem removeFromProcessing_lane (workerID : String) (jobID : UUID) (redis : Redis) (lane : Lane) :
    removeFromProcessing workerID jobID redis lane.key = redis lane.key := by
  simp [removeFromProcessing, Redis.lrem, lane.key_ne]

/-- The lane that a step looks at. -/
def looksAt (e : Step Queues QueueAction) : Option Lane :=
  match e.label with
  | .look call => (e.pre.calls call).bind fun c => c.lanes.head?
  | _ => none

/-- The identifier that a step returns from a call, with the lane it was taken from. -/
def returned (e : Step Queues QueueAction) : Option (Lane × UUID) :=
  match e.label with
  | .look call => (e.pre.calls call).bind fun c => c.lanes.head?.bind fun lane =>
    (look c.workerID lane e.pre.redis).1.map fun id => (lane, id)
  | _ => none

/-- The identifier that a step queues, with its lane. -/
def enqueued (e : Step Queues QueueAction) : Option (Lane × UUID) :=
  match e.label with
  | .enqueue tenantID jobID priority => some (.ofPriority tenantID priority, jobID)
  | _ => none

/-- The identifiers of one lane. -/
def idsOf (lane : Lane) (ids : List (Lane × UUID)) : List UUID :=
  (ids.filter fun entry => entry.1 = lane).map Prod.snd

/-- The identifiers waiting in a lane, the next one first. -/
def Queues.Holds (s : Queues) (lane : Lane) (waiting : List UUID) : Prop :=
  s.redis lane.key = (waiting.map UUID.toString).reverse

/-- A look at a lane returns the next identifier, if there is one. -/
theorem Queues.Holds.look {s : Queues} {lane : Lane} {waiting : List UUID}
    (holds : s.Holds lane waiting) (workerID : String) :
    (Sluice.look workerID lane s.redis).1 = waiting.head? := by
  rw [look_answer, holds]
  cases waiting with
  | nil => rfl
  | cons id rest => simp [UUID.parse_toString]

/-- A step that returns an identifier has taken it off the lane it looked at. -/
theorem returned_of_look {s s' : Queues} {call : Nat} {c : DequeueCall} {lane : Lane}
    {lanes : List Lane} (called : s.calls call = some c) (next : c.lanes = lane :: lanes) :
    returned ⟨s, .look call, s'⟩ =
      (look c.workerID lane s.redis).1.map fun id => (lane, id) := by
  simp [returned, called, next]

/-- What a step does to the lists and to the calls under way. -/
inductive Queues.Moves (s : Queues) : QueueAction → Queues → Prop where
  | enqueue (tenantID jobID : UUID) (priority : Int16) :
      Moves s (.enqueue tenantID jobID priority)
        { s with redis := Sluice.enqueue tenantID jobID priority s.redis }
  | dequeue (call : Nat) (workerID : String) (tenants : List TenantWeight) :
      Moves s (.dequeue call workerID tenants) (s.put call (some ⟨workerID, tenants, []⟩))
  | poll (call : Nat) (draws : List Int) (workerID : String) (tenants : List TenantWeight)
      (order : List UUID) :
      Moves s (.poll call draws) (s.put call (some ⟨workerID, tenants, scanLanes order⟩))
  | look {call : Nat} {workerID : String} {tenants : List TenantWeight} {lane : Lane}
      {lanes : List Lane} (called : s.calls call = some ⟨workerID, tenants, lane :: lanes⟩) :
      Moves s (.look call) ({ s with redis := (Sluice.look workerID lane s.redis).2 }.put call
        (if (Sluice.look workerID lane s.redis).1.isSome then none
          else some ⟨workerID, tenants, lanes⟩))
  | giveUp (call : Nat) : Moves s (.giveUp call) (s.put call none)
  | removeFromProcessing (workerID : String) (jobID : UUID) :
      Moves s (.removeFromProcessing workerID jobID)
        { s with redis := Sluice.removeFromProcessing workerID jobID s.redis }

/-- Every step is one of these. -/
theorem Queues.Next.moves {s s' : Queues} {a : QueueAction} (made : s.Next a s') :
    s.Moves a s' := by
  unfold Queues.Next Queues.step? at made
  cases a with
  | enqueue tenantID jobID priority =>
    cases made
    exact .enqueue tenantID jobID priority
  | dequeue call workerID tenants =>
    dsimp only at made
    split at made
    · cases made
      exact .dequeue call workerID tenants
    · cases made
  | poll call draws =>
    dsimp only at made
    split at made
    · -- The draws give the order in which the tenants are visited.
      obtain ⟨order, -, rfl⟩ := Option.map_eq_some_iff.mp made
      exact .poll call draws _ _ order
    · cases made
  | look call =>
    dsimp only at made
    split at made
    · rename_i called
      cases made
      exact .look called
    · cases made
  | giveUp call =>
    dsimp only at made
    split at made
    · cases made
      exact .giveUp call
    · cases made
  | removeFromProcessing workerID jobID =>
    cases made
    exact .removeFromProcessing workerID jobID

/-- A step moves identifiers along their lane, from the caller to the list and from there out. -/
theorem Queues.Holds.step {s s' : Queues} {a : QueueAction} {lane : Lane} {waiting : List UUID}
    (holds : s.Holds lane waiting) (made : s.Next a s') :
    ∃ waiting', s'.Holds lane waiting' ∧
      waiting ++ idsOf lane (enqueued ⟨s, a, s'⟩).toList =
        idsOf lane (returned ⟨s, a, s'⟩).toList ++ waiting' := by
  have moves := made.moves
  unfold Queues.Holds at holds ⊢
  cases moves with
  | enqueue tenantID jobID priority =>
    -- The new identifier waits behind all others of its lane.
    by_cases own : lane = .ofPriority tenantID priority
    · exact ⟨waiting ++ [jobID], by simp [enqueue_lane, ← own, holds],
        by simp [enqueued, returned, idsOf, own]⟩
    · exact ⟨waiting, by simp [enqueue_lane, own, holds],
        by simp [enqueued, returned, idsOf, Ne.symm own]⟩
  | @look _ workerID _ next _ called =>
    rw [returned_of_look called rfl]
    by_cases own : lane = next
    · -- The next identifier of this lane leaves the list.
      subst own
      refine ⟨waiting.tail, ?_, ?_⟩
      · simp only [Queues.put, look_lane, if_true, holds]
        cases waiting <;> simp
      · rw [Queues.Holds.look holds workerID]
        cases waiting <;> simp [enqueued, idsOf]
    · -- Whatever is returned belongs to another lane.
      refine ⟨waiting, ?_, ?_⟩
      · simp [Queues.put, look_lane, own, holds]
      · cases (Sluice.look workerID next s.redis).1 <;> simp [enqueued, idsOf, Ne.symm own]
  | removeFromProcessing =>
    exact ⟨waiting, by simp [removeFromProcessing_lane, holds],
      by simp [enqueued, returned, idsOf]⟩
  | dequeue | poll | giveUp => exact ⟨waiting, holds, by simp [enqueued, returned, idsOf]⟩

/-- The identifiers of two histories together. -/
theorem idsOf_append (lane : Lane) (ids ids' : List (Lane × UUID)) :
    idsOf lane (ids ++ ids') = idsOf lane ids ++ idsOf lane ids' := by
  simp [idsOf]

/-- What was queued in a lane has been returned in the same order, up to what still waits. -/
theorem lane_of_run {past : List (Step Queues QueueAction)} {s : Queues}
    (run : Run Queues.Next Queues.empty past s) (lane : Lane) :
    ∃ waiting, s.Holds lane waiting ∧
      idsOf lane (past.filterMap enqueued) = idsOf lane (past.filterMap returned) ++ waiting := by
  -- Each step adds to what was queued just what it adds to the rest.
  induction run with
  | nil => exact ⟨[], rfl, rfl⟩
  | @snoc past s s' a run made ih =>
    obtain ⟨waiting, holds, before⟩ := ih
    obtain ⟨waiting', holds', moved⟩ := holds.step made
    refine ⟨waiting', holds', ?_⟩
    rw [filterMap_snoc, filterMap_snoc, idsOf_append, idsOf_append, before, List.append_assoc,
      moved, List.append_assoc]

/-- Identifiers can be collected lane by lane. -/
theorem perm_idsOf {lanes : List Lane} (distinct : lanes.Nodup) {ids : List (Lane × UUID)}
    (covered : ∀ entry ∈ ids, entry.1 ∈ lanes) :
    (ids.map Prod.snd).Perm (lanes.flatMap fun lane => idsOf lane ids) := by
  -- Each lane of the list takes out its own identifiers and leaves the others to the rest.
  induction lanes generalizing ids with
  | nil =>
    have none_left : ids = [] := List.eq_nil_iff_forall_not_mem.mpr fun entry listed =>
      absurd (covered entry listed) List.not_mem_nil
    simp [none_left]
  | cons lane lanes ih =>
    obtain ⟨fresh, distinct⟩ := List.nodup_cons.mp distinct
    have elsewhere : ∀ entry ∈ ids.filter fun entry => !decide (entry.1 = lane),
        entry.1 ∈ lanes := by
      intro entry listed
      obtain ⟨member, other⟩ := List.mem_filter.mp listed
      rcases List.mem_cons.mp (covered entry member) with own | later
      · simp [own] at other
      · exact later
    have others := ih distinct elsewhere
    -- For the other lanes it makes no difference that this one is taken out.
    have same : (lanes.flatMap fun l => idsOf l (ids.filter fun entry => !decide (entry.1 = lane)))
        = lanes.flatMap fun l => idsOf l ids := by
      refine List.flatMap_congr fun l listed => ?_
      have apart : l ≠ lane := fun equal => fresh (equal ▸ listed)
      simp only [idsOf, List.filter_filter]
      congr 1
      refine List.filter_congr fun entry _ => ?_
      by_cases own : entry.1 = l <;> simp [own, apart]
    rw [same] at others
    have split := (List.filter_append_perm (fun entry : Lane × UUID => decide (entry.1 = lane)) ids)
    have mapped := (split.map Prod.snd).symm
    rw [List.map_append] at mapped
    exact mapped.trans (others.append_left _)

/-- A lane that does not occur has no identifiers. -/
theorem idsOf_eq_nil {lane : Lane} {ids : List (Lane × UUID)} (absent : lane ∉ ids.map Prod.fst) :
    idsOf lane ids = [] := by
  simp only [idsOf, List.map_eq_nil_iff, List.filter_eq_nil_iff, decide_eq_true_eq]
  intro entry listed own
  exact absent (List.mem_map.mpr ⟨entry, listed, own⟩)

/-- The entries of a lane are read back as the identifiers that wait there. -/
theorem Queues.Holds.entries {s : Queues} {lane : Lane} {waiting : List UUID}
    (holds : s.Holds lane waiting) : (s.redis lane.key).filterMap UUID.parse = waiting.reverse := by
  -- Every text is that of an identifier, so nothing is dropped.
  rw [holds, ← List.map_reverse, List.filterMap_map, UUID.parse_comp_toString, List.filterMap_some]

/-- What was queued is what was returned together with what is still in the lists. -/
theorem queues_perm {past : List (Step Queues QueueAction)} {s : Queues}
    (run : Run Queues.Next Queues.empty past s) :
    ∃ lanes : List Lane, lanes.Nodup ∧ (∀ lane, lane ∉ lanes → s.redis lane.key = []) ∧
      ((past.filterMap enqueued).map Prod.snd).Perm
        ((past.filterMap returned).map Prod.snd ++
          lanes.flatMap fun lane => (s.redis lane.key).filterMap UUID.parse) := by
  choose waiting holds fifo using lane_of_run run
  -- Only lanes that something was queued in can hold or have returned anything.
  let lanes := ((past.filterMap enqueued).map Prod.fst).dedup
  have unused : ∀ lane, lane ∉ lanes →
      idsOf lane (past.filterMap returned) = [] ∧ waiting lane = [] := by
    intro lane absent
    have none_queued := idsOf_eq_nil (mt List.mem_dedup.mpr absent)
    rw [fifo lane] at none_queued
    exact List.append_eq_nil_iff.mp none_queued
  refine ⟨lanes, List.nodup_dedup _, ?_, ?_⟩
  · intro lane absent
    rw [holds lane, (unused lane absent).2]
    rfl
  · have queued : ((past.filterMap enqueued).map Prod.snd).Perm
        (lanes.flatMap fun lane => idsOf lane (past.filterMap enqueued)) :=
      perm_idsOf (List.nodup_dedup _) fun entry listed =>
        List.mem_dedup.mpr (List.mem_map.mpr ⟨entry, listed, rfl⟩)
    have out : ((past.filterMap returned).map Prod.snd).Perm
        (lanes.flatMap fun lane => idsOf lane (past.filterMap returned)) := by
      refine perm_idsOf (List.nodup_dedup _) fun entry listed => ?_
      by_contra absent
      have own : entry.2 ∈ idsOf entry.1 (past.filterMap returned) :=
        List.mem_map.mpr ⟨entry, List.mem_filter.mpr ⟨listed, by simp⟩, rfl⟩
      rw [(unused entry.1 absent).1] at own
      cases own
    have left : (lanes.flatMap waiting).Perm
        (lanes.flatMap fun lane => (s.redis lane.key).filterMap UUID.parse) := by
      refine List.Perm.flatMap_left lanes fun lane _ => ?_
      rw [(holds lane).entries]
      exact (List.reverse_perm _).symm
    calc (past.filterMap enqueued).map Prod.snd
      _ ~ lanes.flatMap fun lane => idsOf lane (past.filterMap enqueued) := queued
      _ = lanes.flatMap fun lane => idsOf lane (past.filterMap returned) ++ waiting lane := by
          simp only [fifo]
      _ ~ lanes.flatMap (fun lane => idsOf lane (past.filterMap returned)) ++
            lanes.flatMap waiting := (List.flatMap_append_perm _ _ _).symm
      _ ~ _ := out.symm.append left

/-- The lanes of a tenant are scanned from the most urgent one on. -/
theorem tenantLanes_sorted (tenantID : UUID) :
    (tenantLanes tenantID).Pairwise fun lane other => lane.rank < other.rank := by
  have sorted : priorityBuckets.attach.Pairwise fun bucket other =>
      priorityBuckets.idxOf bucket.1 < priorityBuckets.idxOf other.1 := by decide
  exact List.pairwise_map.mpr sorted

/-- A tenant's lanes are all lanes with its identifier. -/
theorem mem_tenantLanes {tenantID : UUID} {lane : Lane} :
    lane ∈ tenantLanes tenantID ↔ lane.tenantID = tenantID := by
  constructor
  · intro listed
    obtain ⟨bucket, -, rfl⟩ := List.mem_map.mp listed
    rfl
  · rintro rfl
    exact List.mem_map.mpr ⟨⟨lane.bucket, lane.scanned⟩, List.mem_attach _ _, rfl⟩

/-- A scan comes to a lane after the tenant's more urgent lanes. -/
theorem scanLanes_front {order : List UUID} {done rest : List Lane} {lane other : Lane}
    (reached : scanLanes order = done ++ lane :: rest) (own : other.tenantID = lane.tenantID)
    (urgent : other.rank < lane.rank) : other ∈ done := by
  -- The induction is on the visits, of which one contains the lane.
  induction order generalizing done with
  | nil => simp [scanLanes] at reached
  | cons tenantID order ih =>
    have parts : scanLanes (tenantID :: order) = tenantLanes tenantID ++ scanLanes order := rfl
    rw [parts] at reached
    rcases List.append_eq_append_iff.mp reached with ⟨front, rfl, later⟩ | ⟨front, here, later⟩
    · -- The lane belongs to a later visit.
      exact List.mem_append_right _ (ih later)
    · cases front with
      | nil =>
        -- The lane is the first of the next visit, so no more urgent one is left of it there.
        rw [List.append_nil] at here
        rw [← here]
        have first : scanLanes order = [] ++ lane :: rest := later.symm
        exact absurd (ih first) List.not_mem_nil
      | cons head front =>
        -- The lane belongs to this visit, which goes through the lanes in their order.
        obtain ⟨rfl, -⟩ := List.cons_eq_cons.mp later
        have sorted := tenantLanes_sorted tenantID
        rw [here, List.pairwise_append] at sorted
        have tenant := mem_tenantLanes.mp (here ▸ List.mem_append_right done List.mem_cons_self)
        have listed := mem_tenantLanes.mpr (own.trans tenant)
        rw [here] at listed
        rcases List.mem_append.mp listed with before | after
        · exact before
        · -- What comes after the lane is less urgent.
          rcases List.mem_cons.mp after with rfl | after
          · exact absurd urgent (Nat.lt_irrefl _)
          · have later := (List.pairwise_cons.mp sorted.2.1).1 other after
            omega

/-- The call found the lane empty. -/
def foundEmpty (call : Nat) (lane : Lane) (e : Step Queues QueueAction) : Prop :=
  e.label = .look call ∧ looksAt e = some lane ∧ e.pre.redis lane.key = []

/-- The call does not begin a poll cycle. -/
def samePoll (call : Nat) (e : Step Queues QueueAction) : Prop :=
  ∀ draws, e.label ≠ .poll call draws

/-- A call has found all lanes empty that it has passed in its poll cycle. -/
def Passed (past : List (Step Queues QueueAction)) (s : Queues) : Prop :=
  ∀ call c, s.calls call = some c →
    ∃ order done, scanLanes order = done ++ c.lanes ∧
      ∀ lane ∈ done, Since (samePoll call) (foundEmpty call lane) past

/-- The call that an action belongs to. -/
def QueueAction.caller : QueueAction → Option Nat
  | dequeue call .. | poll call _ | look call | giveUp call => some call
  | enqueue .. | removeFromProcessing .. => none

/-- A step changes no call but its own. -/
theorem Queues.Next.other {s s' : Queues} {a : QueueAction} (made : s.Next a s') {call : Nat}
    (other : a.caller ≠ some call) : s'.calls call = s.calls call := by
  have kept : ∀ actor c, some actor ≠ some call →
      Function.update s.calls actor c call = s.calls call := by
    intro actor c apart
    exact Function.update_of_ne (fun same => apart (congrArg some same.symm)) c s.calls
  -- Only four of the actions belong to a call at all.
  cases made.moves with
  | enqueue | removeFromProcessing => rfl
  | dequeue | poll | look | giveUp => exact kept _ _ other

/-- The call after a step of its own, unless it is over. -/
theorem Queues.Next.own {s s' : Queues} {a : QueueAction} (made : s.Next a s') {call : Nat}
    (own : a.caller = some call) {c : DequeueCall} (called : s'.calls call = some c) :
    c.lanes = [] ∨ (∃ draws order, a = .poll call draws ∧ c.lanes = scanLanes order) ∨
      ∃ lane, a = .look call ∧ s.calls call = some { c with lanes := lane :: c.lanes } ∧
        (Sluice.look c.workerID lane s.redis).1 = none := by
  cases made.moves with
  | enqueue | removeFromProcessing => cases own
  | dequeue =>
    cases own
    simp only [Queues.put, Function.update_self, Option.some.injEq] at called
    exact .inl (called ▸ rfl)
  | poll actor draws workerID tenants order =>
    cases own
    simp only [Queues.put, Function.update_self, Option.some.injEq] at called
    exact .inr (.inl ⟨draws, order, rfl, called ▸ rfl⟩)
  | look looking =>
    cases own
    simp only [Queues.put, Function.update_self] at called
    -- A look that answers ends the call.
    split at called
    · cases called
    · rename_i unanswered
      cases called
      exact .inr (.inr ⟨_, rfl, looking, by simpa using unanswered⟩)
  | giveUp =>
    cases own
    simp only [Queues.put, Function.update_self] at called
    cases called

/-- Every step leaves the passed lanes behind. -/
theorem Passed.step {past : List (Step Queues QueueAction)} {s s' : Queues} {a : QueueAction}
    (run : Run Queues.Next Queues.empty past s) (passed : Passed past s) (made : s.Next a s') :
    Passed (past ++ [⟨s, a, s'⟩]) s' := by
  intro call c called
  by_cases own : a.caller = some call
  · rcases made.own own called with fresh | ⟨draws, order, -, begun⟩ | ⟨lane, rfl, before, missed⟩
    · -- At the beginning of a call or a cycle no lane is passed.
      exact ⟨[], [], by rw [fresh]; rfl, by simp⟩
    · exact ⟨order, [], begun.symm, by simp⟩
    · -- The lane that was looked at joins those that were empty before.
      obtain ⟨order, done, reached, empty⟩ := passed call _ before
      refine ⟨order, done ++ [lane], by simpa using reached, ?_⟩
      intro other listed
      rcases List.mem_append.mp listed with old | new
      · exact (empty other old).prolong (by simp [samePoll])
      · cases List.mem_singleton.mp new
        obtain ⟨waiting, holds, -⟩ := lane_of_run run lane
        rw [holds.look, List.head?_eq_none_iff] at missed
        refine .begin ⟨rfl, by simp [looksAt, before], ?_⟩
        rw [holds, missed]
        rfl
  · -- The other calls have passed the same lanes as before.
    rw [made.other own] at called
    obtain ⟨order, done, reached, empty⟩ := passed call c called
    refine ⟨order, done, reached, fun lane listed => (empty lane listed).prolong ?_⟩
    intro draws same
    exact own (congrArg QueueAction.caller same)

/-- Calls have found the lanes empty that they have passed, throughout every run. -/
theorem passed_of_run {past : List (Step Queues QueueAction)} {s : Queues}
    (run : Run Queues.Next Queues.empty past s) : Passed past s := by
  refine run.history Passed ?_ ?_
  · intro call c called
    cases called
  · intro past s a s' run passed made
    exact passed.step run made

/-- A step that returns an identifier is a look at its lane. -/
theorem returned_inv {e : Step Queues QueueAction} {lane : Lane} {id : UUID}
    (answered : returned e = some (lane, id)) :
    ∃ call c lanes, e.label = .look call ∧ e.pre.calls call = some c ∧ c.lanes = lane :: lanes := by
  -- Only looks return anything.
  unfold returned at answered
  split at answered
  · rename_i call label
    simp only [Option.bind_eq_some_iff, Option.map_eq_some_iff] at answered
    obtain ⟨c, called, head, first, found, -, same⟩ := answered
    cases same
    obtain ⟨lanes, listed⟩ := List.head?_eq_some_iff.mp first
    exact ⟨call, c, lanes, label, called, listed⟩
  · cases answered

/-- A look at a lane that holds something returns an identifier. -/
theorem returned_of_looksAt {past : List (Step Queues QueueAction)} {e : Step Queues QueueAction}
    (run : Run Queues.Next Queues.empty past e.pre) {lane : Lane} (looked : looksAt e = some lane)
    (filled : e.pre.redis lane.key ≠ []) : ∃ id, returned e = some (lane, id) := by
  obtain ⟨s, a, s'⟩ := e
  obtain ⟨waiting, holds, -⟩ := lane_of_run run lane
  cases a with
  | look call =>
    obtain ⟨c, called, first⟩ := Option.bind_eq_some_iff.mp looked
    obtain ⟨lanes, listed⟩ := List.head?_eq_some_iff.mp first
    rw [returned_of_look called listed, holds.look]
    cases waiting with
    | nil => exact absurd holds filled
    | cons id rest => exact ⟨id, rfl⟩
  | _ => cases looked

/-- The number of more urgent lanes by priority. -/
theorem Lane.rank_ofPriority (tenantID : UUID) (priority : Int16) :
    (ofPriority tenantID priority).rank =
      if priority ≤ priorityHigh then 0 else if priority ≤ priorityNormal then 1 else 2 := by
  simp only [rank, ofPriority, bucketForPriority]
  split
  · rfl
  · split <;> rfl

/-- Less urgent priorities have less urgent lanes. -/
theorem Lane.rank_mono (tenantID : UUID) {priority other : Int16} (le : priority ≤ other) :
    (ofPriority tenantID priority).rank ≤ (ofPriority tenantID other).rank := by
  -- The limits of the lanes are asked in the same order for both priorities.
  rw [rank_ofPriority, rank_ofPriority]
  by_cases high : other ≤ priorityHigh
  · simp [high, Int16.le_trans le high]
  · by_cases normal : other ≤ priorityNormal
    · rw [if_neg high, if_pos normal, if_pos (Int16.le_trans le normal)]
      split <;> omega
    · rw [if_neg high, if_neg normal]
      split
      · omega
      · split <;> omega

/--
The queue keeps what it is given.

Every entry is read back as the identifier that was queued, and a look at a list that holds one
returns it. The identifiers of a lane come out in the order they went in, and all of them are either
out or still in the lists. A call is served from a lane only after it has found the more urgent
lanes of the tenant empty in the same poll cycle.
-/
theorem queue_in_order {past : List (Step Queues QueueAction)} {s : Queues}
    (run : Run Queues.Next Queues.empty past s) :
    (∀ lane : Lane, ∃ waiting : List UUID,
      (s.redis lane.key).map UUID.parse = (waiting.map some).reverse ∧
        idsOf lane (past.filterMap enqueued) = idsOf lane (past.filterMap returned) ++ waiting) ∧
      (∀ e ∈ past, ∀ lane, looksAt e = some lane → e.pre.redis lane.key ≠ [] →
        ∃ id, returned e = some (lane, id)) ∧
      (∃ lanes : List Lane, lanes.Nodup ∧ (∀ lane, lane ∉ lanes → s.redis lane.key = []) ∧
        ((past.filterMap enqueued).map Prod.snd).Perm
          ((past.filterMap returned).map Prod.snd ++
            lanes.flatMap fun lane => (s.redis lane.key).filterMap UUID.parse)) ∧
      (∀ earlier e later lane id, past = earlier ++ e :: later → returned e = some (lane, id) →
        ∃ call, e.label = .look call ∧
          ∀ other : Lane, other.tenantID = lane.tenantID → other.rank < lane.rank →
            Since (samePoll call) (foundEmpty call other) earlier) ∧
      ∀ (tenantID : UUID) (priority other : Int16),
        bucketForPriority priority ∈ priorityBuckets ∧
          (priority ≤ other →
            (Lane.ofPriority tenantID priority).rank ≤ (Lane.ofPriority tenantID other).rank) := by
  refine ⟨?_, ?_, queues_perm run, ?_, ?_⟩
  · intro lane
    obtain ⟨waiting, holds, fifo⟩ := lane_of_run run lane
    refine ⟨waiting, ?_, fifo⟩
    rw [holds, List.map_reverse, List.map_map, UUID.parse_comp_toString]
  · intro e listed lane looked filled
    obtain ⟨⟨earlier, reached⟩, -⟩ := run.of_mem listed
    exact returned_of_looksAt reached looked filled
  · -- The lanes before this one in the scan are those that the call has passed.
    intro earlier e later lane id split answered
    subst split
    obtain ⟨call, c, lanes, label, called, next⟩ := returned_inv answered
    obtain ⟨order, done, reached, empty⟩ := passed_of_run run.at_step.1 call c called
    rw [next] at reached
    exact ⟨call, label, fun other own urgent => empty other (scanLanes_front reached own urgent)⟩
  · intro tenantID priority other
    exact ⟨bucketForPriority_mem priority, Lane.rank_mono tenantID⟩

/-- Two jobs of different urgency, of which a worker fetches the more urgent one. -/
def twoLanes : List QueueAction :=
  [.enqueue 7 1 10, .enqueue 7 2 1, .dequeue 0 "w" [⟨7, 100⟩], .poll 0 [3], .look 0,
    .removeFromProcessing "w" 2, .enqueue 7 3 10, .dequeue 0 "w" [⟨7, 100⟩], .poll 0 [99],
    .look 0, .look 0, .look 0]

/-- The steps of those calls. -/
def twoLanesPast : List (Step Queues QueueAction) :=
  trace (fun s a => (Queues.step? s a).getD s) Queues.empty twoLanes

theorem queue_in_order_two_lanes :
    twoLanesPast.filterMap returned = [(.ofPriority 7 1, 2), (.ofPriority 7 10, 1)] ∧
      ∃ waiting, idsOf (.ofPriority 7 10) (twoLanesPast.filterMap enqueued) =
        idsOf (.ofPriority 7 10) (twoLanesPast.filterMap returned) ++ waiting := by
  have run := run_of_some Queues.step? twoLanes Queues.empty (by decide +kernel)
  obtain ⟨waiting, -, fifo⟩ := (queue_in_order run).1 (.ofPriority 7 10)
  exact ⟨by decide +kernel, waiting, fifo⟩

end Sluice
