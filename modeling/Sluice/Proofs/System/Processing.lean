import Sluice.Proofs.System.Plant
import Sluice.Text.Decimal

/-! The processing lists: what their workers have in hand, and what was left behind. -/

namespace Sluice

open Relational Transition

variable {env : Nat → Env} {tenants : Tenants} {name : Nat → String}
  {past : List (Step Plant PlantAction)} {s : Plant} {a : PlantAction}

/-- A step in which a worker leaves an entry behind in its processing list. -/
inductive LeavesBehind (worker : Nat) (text : String) (e : Step Plant PlantAction) : Prop where
  -- The entry has been moved, but the loop does not learn of it or takes it for nothing.
  | missed {replied : Bool} {lane : Lane} {lanes : List Lane}
      (label : e.label = .look worker replied)
      (scanning : e.pre.errands worker = .scanning (lane :: lanes))
      (moved : (e.pre.redis lane.key).getLast? = some text)
      (unheld : (e.post.errands worker).inHand = none)
  -- The job cannot be read after the claim.
  | unread {jobID : UUID} (label : e.label = .proceed worker .getJob ∨ e.label = .unread worker)
      (held : (e.pre.errands worker).inHand = some jobID) (named : text = jobID.toString)
  | unremoved {jobID : UUID} (label : e.label = .remove worker false)
      (held : (e.pre.errands worker).inHand = some jobID) (named : text = jobID.toString)
  | left {jobID : UUID} (label : e.label = .leave worker)
      (held : (e.pre.errands worker).inHand = some jobID) (named : text = jobID.toString)

/-- The processing list of a worker: what it has in hand, and in front of what was left behind. -/
def Tidy (name : Nat → String) (past : List (Step Plant PlantAction)) (s : Plant) (worker : Nat) :
    Prop :=
  ∃ rest, s.redis (processingKey (name worker)) =
      ((s.errands worker).inHand.map UUID.toString).toList ++ rest ∧
    ∀ text ∈ rest, ∃ e ∈ past, LeavesBehind worker text e

/-- Different workers have different processing lists. -/
theorem processingKey_inj {workerID other : String}
    (same : processingKey workerID = processingKey other) : workerID = other := by
  simpa [processingKey] using same

/-- A look puts the entry that it moves in front of the worker's own processing list. -/
theorem look_processing (workerID other : String) (lane : Lane) (redis : Redis) :
    (look workerID lane redis).2 (processingKey other) =
      if other = workerID then
        (redis lane.key).getLast?.toList ++ redis (processingKey other)
      else redis (processingKey other) := by
  unfold look Redis.lmove
  cases last : (redis lane.key).getLast? with
  | none => simp
  | some text =>
    have apart : processingKey other ≠ lane.key := (lane.key_ne other).symm
    by_cases own : other = workerID
    · simp [own, Redis.lpush, Redis.rpop, own ▸ apart]
    · have distinct : processingKey other ≠ processingKey workerID :=
        fun same => own (processingKey_inj same)
      simp [own, Redis.lpush, Redis.rpop, apart, distinct]

/-- A step of somebody else does nothing to the processing list of a worker. -/
theorem RedisStep.processing {redis : Redis} (changed : RedisStep name s a redis)
    (names : Function.Injective name) (lossless : a.losesRedis = false) {worker : Nat}
    (looks : ∀ replied, a ≠ .look worker replied)
    (removes : a ≠ .remove worker true) :
    redis (processingKey (name worker)) = s.redis (processingKey (name worker)) := by
  cases changed with
  | keep => rfl
  | @queued _ _ _ tenantID _ priority =>
    have apart : processingKey (name worker) ≠ queueKey (bucketForPriority priority) tenantID :=
      ((Lane.ofPriority tenantID priority).key_ne (name worker)).symm
    simp [enqueue, Redis.lpush, apart]
  | lost => cases lossless
  | @look actor =>
    rw [look_processing, if_neg]
    intro same
    cases names same
    exact looks _ rfl
  | @remove actor =>
    have apart : processingKey (name worker) ≠ processingKey (name actor) := by
      intro same
      cases names (processingKey_inj same)
      exact removes rfl
    simp [removeFromProcessing, Redis.lrem, apart]

namespace Tidy

/-- What was left behind stays in the history. -/
theorem snoc {worker : Nat} {rest : List String} {e : Step Plant PlantAction}
    (left : ∀ text ∈ rest, ∃ e ∈ past, LeavesBehind worker text e) :
    ∀ text ∈ rest, ∃ x ∈ past ++ [e], LeavesBehind worker text x := by
  intro text listed
  obtain ⟨x, before, behind⟩ := left text listed
  exact ⟨x, List.mem_append_left _ before, behind⟩

/-- A step that leaves the list alone may make the worker let go of what it has in hand. -/
theorem of_same {worker : Nat} {s' : Plant} {e : Step Plant PlantAction}
    (tidy : Tidy name past s worker)
    (same : s'.redis (processingKey (name worker)) = s.redis (processingKey (name worker)))
    (kept : (s'.errands worker).inHand = (s.errands worker).inHand ∨
      (s'.errands worker).inHand = none ∧
        ∀ jobID, (s.errands worker).inHand = some jobID → LeavesBehind worker jobID.toString e) :
    Tidy name (past ++ [e]) s' worker := by
  obtain ⟨rest, listed, left⟩ := tidy
  rcases kept with held | ⟨free, behind⟩
  · exact ⟨rest, by rw [same, listed, held], snoc left⟩
  · refine ⟨((s.errands worker).inHand.map UUID.toString).toList ++ rest,
      by rw [same, listed, free]; rfl, ?_⟩
    intro text member
    rcases List.mem_append.mp member with own | old
    · obtain ⟨jobID, held, rfl⟩ := Option.map_eq_some_iff.mp (Option.mem_toList.mp own)
      exact ⟨e, List.mem_append_right _ List.mem_cons_self, behind jobID held⟩
    · exact snoc left text old

/-- A look leaves the entry that it moves in the hands of the worker, or behind. -/
theorem look (filed : Plant.Filed name past s) {worker : Nat} {replied : Bool}
    (ready : (PlantAction.look worker replied).ready s = true) (tidy : Tidy name past s worker) :
    Tidy name (past ++ [⟨s, .look worker replied, s.step env name (.look worker replied)⟩])
      (s.step env name (.look worker replied)) worker := by
  obtain ⟨rest, listed, left⟩ := tidy
  simp only [PlantAction.ready] at ready
  split at ready
  · rename_i lane lanes scanning
    have moved : (s.step env name (.look worker replied)).redis (processingKey (name worker)) =
        (s.redis lane.key).getLast?.toList ++ rest := by
      have after : (s.step env name (.look worker replied)).redis =
          (Sluice.look (name worker) lane s.redis).2 := by
        simp [Plant.redis, Plant.step, PlantAction.action, scanning, Crew.step, CrewAction.action,
          World.step, Action.redis]
      rw [after, look_processing, if_pos rfl, listed, scanning]
      rfl
    -- What the loop is about depends on the entry, if there is one.
    have errand : (s.step env name (.look worker replied)).errands worker =
        if replied then
          ((s.redis lane.key).getLast?.bind UUID.parse).elim (.scanning lanes) fun id =>
            if id = UUID.nil then .scanning [] else .fetched id
        else .scanning [] := by
      rw [← look_answer (name worker)]
      simp only [Plant.step, PlantAction.errand, scanning]
      cases replied with
      | false => simp
      | true => cases (Sluice.look (name worker) lane s.redis).1 <;> simp
    cases last : (s.redis lane.key).getLast? with
    | none =>
      rw [last] at moved errand
      have free : ((s.step env name (.look worker replied)).errands worker).inHand = none := by
        rw [errand]
        cases replied <;> rfl
      exact ⟨rest, by rw [moved, free]; rfl, snoc left⟩
    | some text =>
      obtain ⟨_, id, named, -, -⟩ := filed.lists lane.key text (List.mem_of_getLast? last)
      rw [last, Option.bind_some, named, UUID.parse_toString] at errand
      cases held : ((s.step env name (.look worker replied)).errands worker).inHand with
      | none =>
        refine ⟨text :: rest, by rw [moved, last, held]; rfl, ?_⟩
        intro other member
        rcases List.mem_cons.mp member with rfl | old
        · exact ⟨_, List.mem_append_right _ List.mem_cons_self, .missed rfl scanning last held⟩
        · exact snoc left other old
      | some found =>
        -- The loop has got the identifier that the entry stands for.
        have same : found = id := by
          rw [errand] at held
          cases replied with
          | false => cases held
          | true =>
            simp only [if_true, Option.elim_some] at held
            split at held
            · cases held
            · exact (Option.some.inj held).symm
        exact ⟨rest, by rw [moved, last, held, same, named]; rfl, snoc left⟩
  · cases ready

/-- A removal clears the entry that the worker has in hand, wherever it stands in the list. -/
theorem remove {worker : Nat} (ready : (PlantAction.remove worker true).ready s = true)
    (tidy : Tidy name past s worker) :
    Tidy name (past ++ [⟨s, .remove worker true, s.step env name (.remove worker true)⟩])
      (s.step env name (.remove worker true)) worker := by
  obtain ⟨rest, listed, left⟩ := tidy
  simp only [PlantAction.ready] at ready
  split at ready
  · rename_i jobID clearing
    refine ⟨rest.filter (· != jobID.toString), ?_, fun text member =>
      snoc left text (List.mem_filter.mp member).1⟩
    have after : (s.step env name (.remove worker true)).redis =
        removeFromProcessing (name worker) jobID s.redis := by
      simp [Plant.redis, Plant.step, PlantAction.action, clearing, Crew.step, CrewAction.action,
        World.step, Action.redis]
    have free : ((s.step env name (.remove worker true)).errands worker).inHand = none := by
      simp [Plant.step, PlantAction.errand, Errand.inHand]
    rw [after, free, removeFromProcessing, Redis.lrem, if_pos rfl, listed, clearing]
    simp [Errand.inHand]
  · cases ready

/-- Every step keeps the processing lists tidy. -/
theorem step (names : Function.Injective name) (filed : Plant.Filed name past s)
    (enabled : a.Enabled tenants name s) (lossless : a.losesRedis = false) {worker : Nat}
    (tidy : Tidy name past s worker) :
    Tidy name (past ++ [⟨s, a, s.step env name a⟩]) (s.step env name a) worker := by
  by_cases looks : ∃ replied, a = .look worker replied
  · obtain ⟨replied, rfl⟩ := looks
    exact tidy.look filed enabled.1
  by_cases removes : a = .remove worker true
  · subst removes
    exact tidy.remove enabled.1
  -- No other step touches the list.
  have same := (Plant.redis_step env name s a).processing names lossless
    (fun replied label => looks ⟨replied, label⟩) removes
  refine tidy.of_same same ?_
  rcases Plant.errand_step env name s a worker with unmoved | moved
  · exact .inl (congrArg Errand.inHand unmoved)
  · generalize (s.step env name a).errands worker = errand at moved
    cases PlantAction.errandStep enabled.1 moved with
    | poll before | lookFails before => exact .inl (by rw [before]; rfl)
    | passed | fetched => exact absurd ⟨_, rfl⟩ looks
    | claim held still | claimFails held still | callLost held still | proceed held still =>
      exact .inl (still.trans held.symm)
    | missing => exact .inr ⟨rfl, fun jobID held => .unread (.inl rfl) held rfl⟩
    | unread => exact .inr ⟨rfl, fun jobID held => .unread (.inr rfl) held rfl⟩
    | @remove _ succeeds =>
      cases succeeds with
      | true => exact absurd rfl removes
      | false => exact .inr ⟨rfl, fun jobID held => .unremoved rfl held rfl⟩
    | leave => exact .inr ⟨rfl, fun jobID held => .left rfl held rfl⟩

end Tidy

end Sluice
