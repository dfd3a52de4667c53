import Sluice.Api.Handler
import Sluice.Proofs.Lanes
import Sluice.Proofs.System.Addressed
import Sluice.System.Plant

/-! What stands in the lists of Redis, while workers take identifiers off them. -/

namespace Sluice

open Relational Transition

variable {env : Nat → Env} {tenants : Tenants} {name : Nat → String}
  {past : List (Step Plant PlantAction)} {s : Plant} {a : PlantAction}

/-- The step of the system that a step of the loops makes. -/
def Plant.worldAction (name : Nat → String) (e : Step Plant PlantAction) : Option Action :=
  (e.label.action name e.pre).bind fun b => b.action e.pre.crew

/-- The steps that the system makes. -/
def Plant.worldSteps (name : Nat → String) (past : List (Step Plant PlantAction)) :
    List (Step World Action) :=
  past.filterMap (Step.project (fun s => s.crew.world) (Plant.worldAction name))

/-- A step of the loops makes one step of the system, or it leaves the system alone. -/
theorem Plant.world_step (env : Nat → Env) (past : List (Step Plant PlantAction))
    (enabled : a.Enabled tenants name s) :
    (∃ b, Plant.worldAction name ⟨s, a, s.step env name a⟩ = some b ∧ b.Enabled s.crew.world ∧
      (s.step env name a).crew.world = s.crew.world.step env b ∧
      Plant.worldSteps name (past ++ [⟨s, a, s.step env name a⟩]) =
        Plant.worldSteps name past ++ [⟨s.crew.world, b, s.crew.world.step env b⟩]) ∨
    Plant.worldAction name ⟨s, a, s.step env name a⟩ = none ∧
      (s.step env name a).crew.world = s.crew.world ∧
      Plant.worldSteps name (past ++ [⟨s, a, s.step env name a⟩]) = Plant.worldSteps name past := by
  have grown : Plant.worldSteps name (past ++ [⟨s, a, s.step env name a⟩]) =
      Plant.worldSteps name past ++ (Step.project (fun s => s.crew.world) (Plant.worldAction name)
        ⟨s, a, s.step env name a⟩).toList := filterMap_snoc ..
  rw [grown, Step.project]
  cases made : Plant.worldAction name ⟨s, a, s.step env name a⟩ with
  | none =>
    refine .inr ⟨rfl, ?_, by simp⟩
    simp only [Plant.worldAction] at made
    cases called : a.action name s with
    | none => simp [Plant.step, called]
    | some c =>
      rw [called, Option.bind_some] at made
      simp [Plant.step, called, Crew.step, made]
  | some b =>
    obtain ⟨c, called, acted⟩ := Option.bind_eq_some_iff.mp made
    have called : a.action name s = some c := called
    have acted : c.action s.crew = some b := acted
    have after : (s.step env name a).crew.world = s.crew.world.step env b := by
      simp [Plant.step, called, Crew.step, acted]
    exact .inl ⟨b, rfl, (enabled.2.1 c called).2 b acted, after, by simp [after]⟩

/-- What the loops do to the system is a run of it. -/
theorem Plant.world_run {start : Time}
    (run : Run (Plant.Next env tenants name) (Plant.init start) past s) :
    Run (Sluice.Next env) (World.init start) (Plant.worldSteps name past) s.crew.world := by
  refine run.project (fun s => s.crew.world) (Plant.worldAction name) ?_
  rintro past s a s' - ⟨enabled, rfl⟩
  rcases Plant.world_step env past enabled with ⟨b, made, able, after, -⟩ | ⟨silent, same, -⟩
  · exact .inl ⟨b, made, able, after⟩
  · exact .inr ⟨silent, same⟩

/-- What a step does to the lists of Redis. -/
inductive RedisStep (name : Nat → String) (s : Plant) : PlantAction → Redis → Prop where
  | keep {a : PlantAction} : RedisStep name s a s.redis
  | queued {thread : Nat} {id : UUID} {clock : Time} {tenantID jobID : UUID} {priority : Int16}
      (head : .enqueue tenantID jobID priority ∈ s.crew.world.threads thread) :
      RedisStep name s (.crew (.system (.exec thread id clock)))
        (enqueue tenantID jobID priority s.redis)
  | lost {redis : Redis} : RedisStep name s (.crew (.system (.loseRedis redis))) redis
  | look {worker : Nat} {replied : Bool} {lane : Lane} {lanes : List Lane}
      (scanning : s.errands worker = .scanning (lane :: lanes)) :
      RedisStep name s (.look worker replied) (look (name worker) lane s.redis).2
  | remove {worker : Nat} {jobID : UUID} (clearing : s.errands worker = .clearing jobID) :
      RedisStep name s (.remove worker true) (removeFromProcessing (name worker) jobID s.redis)

/-- The calls of the workers on the database leave Redis alone. -/
theorem CrewAction.redis_step {s : Crew} {b : CrewAction} (own : ∀ c, b ≠ .system c) :
    (s.step env b).world.redis = s.world.redis := by
  cases called : b.action s with
  | none => simp [Crew.step, called]
  | some c =>
    simp only [Crew.step, called, Option.elim_some]
    cases b with
    | system c => exact absurd rfl (own c)
    | claim | heartbeat =>
      cases called
      rfl
    | getJob | execute | stop => cases called
    | markRunning worker succeeds =>
      simp only [CrewAction.action] at called
      split at called
      · split at called <;> cases called
        rfl
      · cases called
    | record worker d succeeds =>
      simp only [CrewAction.action] at called
      split at called
      · rename_i c' j outcome ended stage
        split at called
        · cases outcome <;> cases called <;> rfl
        · cases called
      · cases called
    | completeRun worker =>
      simp only [CrewAction.action] at called
      split at called <;> cases called
      rfl

/-- Every step does one of these things to the lists. -/
theorem Plant.redis_step (env : Nat → Env) (name : Nat → String) (s : Plant) (a : PlantAction) :
    RedisStep name s a (s.step env name a).redis := by
  cases called : a.action name s with
  | none =>
    have same : (s.step env name a).redis = s.redis := by simp [Plant.redis, Plant.step, called]
    rw [same]
    exact .keep
  | some b =>
    have after : (s.step env name a).redis = (s.crew.step env b).world.redis := by
      simp [Plant.redis, Plant.step, called]
    rw [after]
    -- Only a step that is the system's own can change them.
    have kept : (∀ c, b ≠ .system c) → (s.crew.step env b).world.redis = s.redis :=
      CrewAction.redis_step
    cases a with
    | crew c =>
      cases called
      cases b with
      | system c =>
        cases c with
        | loseRedis => exact .lost
        | exec thread id clock =>
          cases listed : s.crew.world.threads thread with
          | nil =>
            have same : (s.crew.step env (.system (.exec thread id clock))).world.redis =
                s.redis := by
              simp [Crew.step, CrewAction.action, World.step, Action.redis, listed, Plant.redis]
            rw [same]
            exact .keep
          | cons task rest =>
            have same : (s.crew.step env (.system (.exec thread id clock))).world.redis =
                task.push s.redis := by
              simp [Crew.step, CrewAction.action, World.step, Action.redis, listed, Plant.redis]
            rw [same]
            cases task with
            | enqueue tenantID jobID priority =>
              exact .queued (listed ▸ List.mem_cons_self)
            | _ => exact .keep
        | _ => exact .keep
      | _ =>
        rw [kept (by intro c same; cases same)]
        exact .keep
    | look worker replied =>
      simp only [PlantAction.action] at called
      split at called
      · cases called
        exact .look ‹_›
      · cases called
    | claim worker =>
      simp only [PlantAction.action] at called
      split at called
      · cases called
        rw [kept (by intro c same; cases same)]
        exact .keep
      · cases called
    | proceed worker step =>
      cases called
      rw [kept (by cases step <;> intro c same <;> cases same)]
      exact .keep
    | remove worker succeeds =>
      simp only [PlantAction.action] at called
      split at called
      · split at called
        · rename_i clearing done
          cases called
          subst done
          exact .remove clearing
        · cases called
      · cases called
    | callLost | unread | leave =>
      cases called
      rw [kept (by intro c same; cases same)]
      exact .keep
    | loadTenants | poll | lookFails | claimFails => cases called

/-- What a step makes the loop of a worker be about. -/
inductive ErrandStep (name : Nat → String) (s : Plant) : PlantAction → Nat → Errand → Prop where
  | poll {worker : Nat} {draws : List Int} {lanes : List Lane}
      (free : s.errands worker = .scanning []) :
      ErrandStep name s (.poll worker draws) worker (.scanning lanes)
  | passed {worker : Nat} {replied : Bool} {lane : Lane} {lanes rest : List Lane}
      (scanning : s.errands worker = .scanning (lane :: lanes)) :
      ErrandStep name s (.look worker replied) worker (.scanning rest)
  | fetched {worker : Nat} {lane : Lane} {lanes : List Lane} {id : UUID}
      (scanning : s.errands worker = .scanning (lane :: lanes))
      (answer : (look (name worker) lane s.redis).1 = some id) :
      ErrandStep name s (.look worker true) worker (.fetched id)
  | lookFails {worker : Nat} {lanes : List Lane} (scanning : s.errands worker = .scanning lanes) :
      ErrandStep name s (.lookFails worker) worker (.scanning [])
  -- A worker keeps the identifier in hand until it is done with the job.
  | claim {worker : Nat} {token runID jobID : UUID} {began clock : Time} {errand : Errand}
      (held : (s.errands worker).inHand = some jobID) (still : errand.inHand = some jobID) :
      ErrandStep name s (.claim worker token runID began clock) worker errand
  | claimFails {worker : Nat} {jobID : UUID} {errand : Errand}
      (held : (s.errands worker).inHand = some jobID) (still : errand.inHand = some jobID) :
      ErrandStep name s (.claimFails worker) worker errand
  | callLost {worker : Nat} {jobID : UUID} {errand : Errand}
      (held : (s.errands worker).inHand = some jobID) (still : errand.inHand = some jobID) :
      ErrandStep name s (.callLost worker) worker errand
  | proceed {worker : Nat} {step : ProcessStep} {jobID : UUID} {errand : Errand}
      (held : (s.errands worker).inHand = some jobID) (still : errand.inHand = some jobID) :
      ErrandStep name s (.proceed worker step) worker errand
  -- A job that cannot be read is not cleared.
  | missing {worker : Nat} {jobID : UUID} (held : (s.errands worker).inHand = some jobID) :
      ErrandStep name s (.proceed worker .getJob) worker (.scanning [])
  | unread {worker : Nat} {jobID : UUID} (held : (s.errands worker).inHand = some jobID) :
      ErrandStep name s (.unread worker) worker (.scanning [])
  | remove {worker : Nat} {succeeds : Bool} {jobID : UUID}
      (clearing : s.errands worker = .clearing jobID) :
      ErrandStep name s (.remove worker succeeds) worker (.scanning [])
  | leave {worker : Nat} : ErrandStep name s (.leave worker) worker .gone

/-- Every step that moves a loop on is one of those. -/
theorem PlantAction.errandStep (ready : a.ready s = true) {worker : Nat} {errand : Errand}
    (moved : a.errand env name s = some (worker, errand)) : ErrandStep name s a worker errand := by
  cases a with
  | poll other draws =>
    obtain ⟨order, -, same⟩ := Option.map_eq_some_iff.mp moved
    cases same
    exact .poll (eq_of_beq (Bool.and_eq_true_iff.mp ready).1)
  | look other replied =>
    simp only [PlantAction.errand] at moved
    split at moved
    · rename_i lane lanes scanning
      split at moved
      · rename_i answered
        subst answered
        split at moved
        · cases moved
          exact .passed scanning
        · rename_i id answer
          cases moved
          split
          · exact .passed scanning
          · exact .fetched scanning answer
      · cases moved
        exact .passed scanning
    · cases moved
  | lookFails other =>
    cases moved
    simp only [PlantAction.ready] at ready
    split at ready
    · exact .lookFails ‹_›
    · cases ready
  | claim other token runID began clock =>
    simp only [PlantAction.errand] at moved
    split at moved
    · rename_i jobID fetched
      cases moved
      refine .claim (by rw [fetched]; rfl) ?_
      split <;> rfl
    · cases moved
  | claimFails other =>
    obtain ⟨jobID, held, same⟩ := Option.map_eq_some_iff.mp moved
    cases same
    exact .claimFails held rfl
  | callLost other =>
    obtain ⟨jobID, held, same⟩ := Option.map_eq_some_iff.mp moved
    cases same
    exact .callLost held rfl
  | proceed other step =>
    obtain ⟨jobID, held, same⟩ := Option.map_eq_some_iff.mp moved
    cases same
    generalize (s.crew.step env (step.action worker)).stages worker = stage
    cases stage with
    | idle =>
      cases step with
      | getJob => exact .missing held
      | _ => exact .proceed held rfl
    | _ => exact .proceed held rfl
  | unread other =>
    cases moved
    simp only [PlantAction.ready] at ready
    split at ready
    · rename_i jobID _ working _
      have held : (s.errands worker).inHand = some jobID := by rw [working]; rfl
      exact .unread held
    · cases ready
  | remove other succeeds =>
    cases moved
    simp only [PlantAction.ready] at ready
    split at ready
    · exact .remove ‹_›
    · cases ready
  | leave other =>
    cases moved
    exact .leave
  | crew | loadTenants => cases moved

/-- The loop of a worker is about what it was about, or the step has moved it on. -/
theorem Plant.errand_step (env : Nat → Env) (name : Nat → String) (s : Plant) (a : PlantAction)
    (worker : Nat) :
    (s.step env name a).errands worker = s.errands worker ∨
      a.errand env name s = some (worker, (s.step env name a).errands worker) := by
  cases moved : a.errand env name s with
  | none => simp [Plant.step, moved]
  | some pair =>
    obtain ⟨actor, errand⟩ := pair
    by_cases own : worker = actor
    · subst own
      simp [Plant.step, moved]
    · simp [Plant.step, moved, own]

/-- Whether Redis loses its lists in a step. -/
def PlantAction.losesRedis : PlantAction → Bool
  | .crew (.system (.loseRedis _)) => true
  | _ => false

/-- A text in a list is the identifier of a job that was stored, in its lane or on a worker. -/
def Placed (name : Nat → String) (past : List (Step World Action)) (w : World) (key text : String) :
    Prop :=
  ∃ lane id, text = id.toString ∧ Belongs past w lane id ∧
    (key = lane.key ∨ ∃ worker, key = processingKey (name worker))

/-- Redis loses its lists and comes back with nothing but what has stood in them. -/
def Restores (past : List (Step Plant PlantAction)) (s : Plant) (a : PlantAction) : Prop :=
  ∀ redis, a = .crew (.system (.loseRedis redis)) → ∀ key, ∀ text ∈ redis key,
    text ∈ s.redis key ∨ ∃ e ∈ past, text ∈ e.pre.redis key

/-- A step in which Redis keeps its lists brings nothing back. -/
theorem Restores.of_keeps (keeps : a.losesRedis = false) : Restores past s a := by
  rintro redis rfl
  cases keeps

/-- The lists, the tasks, and the workers know of nothing but stored jobs. -/
structure Plant.Filed (name : Nat → String) (past : List (Step Plant PlantAction)) (s : Plant) :
    Prop where
  tasks : s.crew.world.Addressed (Plant.worldSteps name past)
  lists : ∀ key, ∀ text ∈ s.redis key,
    Placed name (Plant.worldSteps name past) s.crew.world key text
  -- What has stood in a list may come back to it.
  earlier : ∀ e ∈ past, ∀ key, ∀ text ∈ e.pre.redis key,
    Placed name (Plant.worldSteps name past) s.crew.world key text
  hands : ∀ worker id, (s.errands worker).inHand = some id →
    ∃ lane, Belongs (Plant.worldSteps name past) s.crew.world lane id

namespace Plant.Filed

/-- What belongs to a lane belongs to it after a step of the loops. -/
theorem belongs_step (enabled : a.Enabled tenants name s) {lane : Lane} {id : UUID}
    (belongs : Belongs (Plant.worldSteps name past) s.crew.world lane id) :
    Belongs (Plant.worldSteps name (past ++ [⟨s, a, s.step env name a⟩]))
      (s.step env name a).crew.world lane id := by
  rcases Plant.world_step env past enabled with ⟨b, -, able, after, grown⟩ | ⟨-, same, kept⟩
  · rw [after, grown]
    exact belongs.step able
  · rw [same, kept]
    exact belongs

/-- What is in its place stays there. -/
theorem placed_step (enabled : a.Enabled tenants name s) {key text : String}
    (placed : Placed name (Plant.worldSteps name past) s.crew.world key text) :
    Placed name (Plant.worldSteps name (past ++ [⟨s, a, s.step env name a⟩]))
      (s.step env name a).crew.world key text := by
  obtain ⟨lane, id, named, belongs, place⟩ := placed
  exact ⟨lane, id, named, belongs_step enabled belongs, place⟩

/-- A look at a lane moves an entry from its list to that of the worker. -/
theorem mem_look {workerID text key : String} {lane : Lane} {redis : Redis}
    (listed : text ∈ (look workerID lane redis).2 key) :
    text ∈ redis key ∨ key = processingKey workerID ∧ text ∈ redis lane.key := by
  unfold look Redis.lmove at listed
  cases last : (redis lane.key).getLast? with
  | none =>
    rw [last] at listed
    exact .inl listed
  | some moved =>
    rw [last] at listed
    simp only [Redis.lpush, Redis.rpop] at listed
    have there := List.mem_of_getLast? last
    split at listed
    · rename_i own
      rcases List.mem_cons.mp listed with rfl | old
      · exact .inr ⟨own, there⟩
      · split at old
        · exact .inl (List.mem_of_mem_dropLast old)
        · exact .inl old
    · split at listed
      · exact .inl (List.mem_of_mem_dropLast listed)
      · exact .inl listed

/-- Every step leaves in the lists what belongs there. -/
theorem lists_step (filed : Filed name past s) (enabled : a.Enabled tenants name s)
    (restores : Restores past s a) (key text : String)
    (listed : text ∈ (s.step env name a).redis key) :
    Placed name (Plant.worldSteps name (past ++ [⟨s, a, s.step env name a⟩]))
      (s.step env name a).crew.world key text := by
  have old : ∀ key, text ∈ s.redis key → Placed name
      (Plant.worldSteps name (past ++ [⟨s, a, s.step env name a⟩]))
      (s.step env name a).crew.world key text :=
    fun key there => placed_step enabled (filed.lists key text there)
  have changed := Plant.redis_step env name s a
  generalize (s.step env name a).redis = redis at listed changed
  cases changed with
  | keep => exact old key listed
  | @queued thread _ _ tenantID jobID priority head =>
    simp only [enqueue, Redis.lpush] at listed
    split at listed
    · rename_i own
      rcases List.mem_cons.mp listed with rfl | there
      · have belongs := filed.tasks thread _ head
        exact ⟨.ofPriority tenantID priority, jobID, rfl, belongs_step enabled belongs, .inl own⟩
      · exact old key there
    · exact old key listed
  | lost =>
    rcases restores _ rfl key text listed with there | ⟨e, before, there⟩
    · exact old key there
    · exact placed_step enabled (filed.earlier e before key text there)
  | @look worker _ lane _ scanning =>
    rcases mem_look listed with there | ⟨own, there⟩
    · exact old key there
    · obtain ⟨lane', id, named, belongs, -⟩ := old _ there
      exact ⟨lane', id, named, belongs, .inr ⟨worker, own⟩⟩
  | remove clearing =>
    simp only [removeFromProcessing, Redis.lrem] at listed
    split at listed
    · exact old key (List.mem_filter.mp listed).1
    · exact old key listed

/-- What a worker has in hand after a step it had in hand before, or it has just looked at it. -/
theorem hands_step (filed : Filed name past s) (enabled : a.Enabled tenants name s) (worker : Nat)
    (id : UUID) (held : ((s.step env name a).errands worker).inHand = some id) :
    ∃ lane, Belongs (Plant.worldSteps name (past ++ [⟨s, a, s.step env name a⟩]))
      (s.step env name a).crew.world lane id := by
  have old : (s.errands worker).inHand = some id → ∃ lane,
      Belongs (Plant.worldSteps name (past ++ [⟨s, a, s.step env name a⟩]))
        (s.step env name a).crew.world lane id := by
    intro before
    obtain ⟨lane, belongs⟩ := filed.hands worker id before
    exact ⟨lane, belongs_step enabled belongs⟩
  rcases Plant.errand_step env name s a worker with same | moved
  · exact old (same ▸ held)
  · generalize (s.step env name a).errands worker = errand at moved held
    cases PlantAction.errandStep enabled.1 moved with
    | @fetched _ lane _ found scanning answer =>
      cases held
      -- The entry was read off the list, where it stood for a stored job.
      rw [look_answer] at answer
      obtain ⟨text, last, read⟩ := Option.bind_eq_some_iff.mp answer
      obtain ⟨lane', other, rfl, belongs, -⟩ :=
        filed.lists lane.key text (List.mem_of_getLast? last)
      rw [UUID.parse_toString, Option.some.injEq] at read
      exact ⟨lane', read ▸ belongs_step enabled belongs⟩
    | claim before still | claimFails before still | callLost before still
    | proceed before still =>
      rw [still] at held
      exact old (before.trans held)
    | _ => cases held

/-- Every step keeps all of this. -/
theorem step (filed : Filed name past s) (known : Known s.crew.world)
    (enabled : a.Enabled tenants name s) (restores : Restores past s a) :
    Filed name (past ++ [⟨s, a, s.step env name a⟩]) (s.step env name a) := by
  refine ⟨?_, filed.lists_step enabled restores, ?_, filed.hands_step enabled⟩
  · rcases Plant.world_step env past enabled with ⟨b, -, able, after, grown⟩ | ⟨-, same, kept⟩
    · rw [after, grown]
      exact filed.tasks.step known able
    · rw [same, kept]
      exact filed.tasks
  · intro e listed key text there
    rcases List.mem_append.mp listed with before | last
    · exact placed_step enabled (filed.earlier e before key text there)
    · rw [List.mem_singleton.mp last] at there
      exact placed_step enabled (filed.lists key text there)

/-- It holds throughout every run in which Redis comes back with nothing but what it has held. -/
theorem of_run {start : Time} (run : Run (Plant.Next env tenants name) (Plant.init start) past s)
    (restored : ∀ earlier e later, past = earlier ++ e :: later →
      Restores earlier e.pre e.label) : Filed name past s := by
  revert restored
  refine run.history (fun past s => (∀ earlier e later, past = earlier ++ e :: later →
    Restores earlier e.pre e.label) → Filed name past s) (fun _ => ⟨?_, ?_, by simp, ?_⟩) ?_
  · intro thread task listed
    cases listed
  · intro key text listed
    cases listed
  · intro worker id held
    cases held
  · rintro past s a s' before ih ⟨enabled, rfl⟩ restored
    have filed := ih fun earlier e later split =>
      restored earlier e (later ++ [⟨s, a, s.step env name a⟩]) (by simp [split])
    exact filed.step (known_of_run (Plant.world_run before)) enabled (restored past _ [] rfl)

end Plant.Filed

/--
Whatever stands in the list of a lane is the identifier of a job that was stored in that lane, and
so is what a worker has in hand, whatever the workers and all others do.

Redis may lose its lists, and come back with some of what has stood in them.
-/
theorem queued_jobs_stored (run : Plant.Reaches env tenants name past s)
    (restored : ∀ earlier e later, past = earlier ++ e :: later →
      Restores earlier e.pre e.label) :
    (∀ lane : Lane, ∀ text ∈ s.redis lane.key, ∃ id, text = id.toString ∧
      Belongs (Plant.worldSteps name past) s.crew.world lane id) ∧
    ∀ worker id, (s.errands worker).inHand = some id →
      ∃ lane, Belongs (Plant.worldSteps name past) s.crew.world lane id := by
  obtain ⟨start, run⟩ := run
  have filed := Plant.Filed.of_run run restored
  refine ⟨fun lane text listed => ?_, filed.hands⟩
  obtain ⟨lane', id, named, belongs, own | ⟨worker, foreign⟩⟩ := filed.lists lane.key text listed
  · cases Lane.key_inj own
    exact ⟨id, named, belongs⟩
  · exact absurd foreign (lane.key_ne _)

/-- Names for the workers, which in the source are drawn. -/
def numbered (worker : Nat) : String := toString (worker : Int)

/-- A worker loads its tenants and takes a job that was submitted in the meantime. -/
def fetchingRun : List PlantAction :=
  [.loadTenants 0 [devTenant], .crew (.system (.submit 0 1 .hook 5 0)),
    .crew (.system (.exec 0 6 0)), .poll 0 [0], .look 0 true, .look 0 true]

theorem queued_jobs_stored_fetched :
    ((afterPlant (fun _ => .everyMinute) numbered 0 fetchingRun).errands 0).inHand = some 5 ∧
      ∃ lane, Belongs
        (Plant.worldSteps numbered (plantTrace (fun _ => .everyMinute) numbered 0 fetchingRun))
        (afterPlant (fun _ => .everyMinute) numbered 0 fetchingRun).crew.world lane 5 := by
  have run := reaches_plantTrace (fun _ => .everyMinute) ApiState.initial.tenants numbered 0
    fetchingRun (by decide +kernel)
  have held : ((afterPlant (fun _ => .everyMinute) numbered 0 fetchingRun).errands 0).inHand =
      some 5 := by decide +kernel
  have quiet : (plantTrace (fun _ => .everyMinute) numbered 0 fetchingRun).all
      (fun e => !e.label.losesRedis) = true := by decide +kernel
  refine ⟨held, (queued_jobs_stored run fun earlier e later split => .of_keeps ?_).2 0 5 held⟩
  simpa using List.all_eq_true.mp quiet e (by simp [split])

end Sluice
