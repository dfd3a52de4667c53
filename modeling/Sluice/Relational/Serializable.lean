import Sluice.Relational.RowLock
import Sluice.Relational.Session

/-! Calls that lock one row, write it, and commit are serializable, whatever else they write. -/

namespace Relational

open Transition

variable {κ υ ρ τ α β ι : Type} {key : ρ → κ} {index : ρ → Option υ}

/-- What a call amounts to as one step on the row under a key. -/
structure RowCall (key : ρ → κ) (index : ρ → Option υ) (τ α : Type) where
  target : κ
  holds : ρ → Bool
  -- The change it makes and the entries it logs, for the row it has locked.
  change : ρ → Change key index
  entries : ρ → List τ
  skips : Bool
  -- The answers that may stand for having acted, or for not having acted.
  agrees : Bool → α → Prop

namespace Program

/-- A program whose transaction on the table is over, and which ends with a good answer. -/
inductive Ends (ident : τ → β) (good : α → Prop) : Program key index τ α → Prop where
  | finish {reply : α} (agrees : good reply) : Ends ident good (.finish reply)
  | commit {next : Program key index τ α} (ends : Ends ident good next) :
      Ends ident good (.commit next)
  | read {next : Option ρ → Program key index τ α} (ends : ∀ row, Ends ident good (next row)) :
      Ends ident good (.read next)
  | updateLog {hit : τ → Bool} {set : τ → Option τ} {next : Program key index τ α}
      (keeps : ∀ old new, set old = some new → ident new = ident old)
      (ends : Ends ident good next) : Ends ident good (.updateLog hit set next)

/-- A program that has written its row, and commits once it has logged the given entries. -/
inductive Writes (ident : τ → β) (good : α → Prop) (version : Option ρ) :
    List τ → Program key index τ α → Prop where
  | insertLog {row : ρ} {entry : ρ → τ} {pending : List τ} {next : Program key index τ α}
      (seen : version = some row) (writes : Writes ident good version pending next) :
      Writes ident good version (entry row :: pending) (.insertLog entry next)
  | updateLog {hit : τ → Bool} {set : τ → Option τ} {pending : List τ}
      {next : Program key index τ α}
      (keeps : ∀ old new, set old = some new → ident new = ident old)
      (writes : Writes ident good version pending next) :
      Writes ident good version pending (.updateLog hit set next)
  | commit {next : Program key index τ α} (ends : Ends ident good next) :
      Writes ident good version [] (.commit next)

/-- What is left of a call that has just made its change. -/
def Settles (ident : τ → β) (call : RowCall key index τ α) (row : ρ)
    (found : ρ → Program key index τ α) : Prop :=
  Writes ident (call.agrees true) ((call.change row).row row) (call.entries row)
    (found (((call.change row).row row).getD row))

/-- A program that holds the lock of its row and writes the row next. -/
inductive Changes (ident : τ → β) (call : RowCall key index τ α) (row : ρ) :
    Program key index τ α → Prop where
  | write {holds : ρ → Bool} {missing : Program key index τ α}
      {found : ρ → Program key index τ α} (hit : holds row = true)
      (settles : Settles ident call row found) :
      Changes ident call row (.write holds (call.change row) missing found)

/-- A program that asks for the lock of its row next. -/
inductive Asks (ident : τ → β) (call : RowCall key index τ α) : Program key index τ α → Prop where
  | lock {missing : Program key index τ α} {found : ρ → Program key index τ α}
      (ends : Ends ident (call.agrees false) missing)
      (changes : ∀ row, call.holds row = true → Changes ident call row (found row)) :
      Asks ident call (.lock call.holds call.skips missing found)
  | write {change : Change key index} {missing : Program key index τ α}
      {found : ρ → Program key index τ α} (waits : call.skips = false)
      (ends : Ends ident (call.agrees false) missing)
      (settles : ∀ row, call.holds row = true →
        call.change row = change ∧ Settles ident call row found) :
      Asks ident call (.write call.holds change missing found)

/-- A program that has not asked for a lock yet. -/
inductive Locks (ident : τ → β) (call : RowCall key index τ α) : Program key index τ α → Prop where
  | updateLog {hit : τ → Bool} {set : τ → Option τ} {next : Program key index τ α}
      (keeps : ∀ old new, set old = some new → ident new = ident old)
      (locks : Locks ident call next) : Locks ident call (.updateLog hit set next)
  | asks {program : Program key index τ α} (asks : Asks ident call program) :
      Locks ident call program

end Program

/-- Where a session stands in the life of its call. -/
inductive Stands (ident : τ → β) (call : RowCall key index τ α) [DecidableEq κ]
    (table : Table key index) (s : Session key index τ α) : Phase → Prop where
  | idle (locks : s.program.Locks ident call) (still : s.waiting = false)
      (free : s.held = none) (unchanged : s.changes = []) (silent : s.entries = []) :
      Stands ident call table s .idle
  | matched (asks : s.program.Asks ident call) (waits : s.waiting = true)
      (free : s.held = none) (unchanged : s.changes = []) (silent : s.entries = []) :
      Stands ident call table s .matched
  | locked {row : ρ} (changes : s.program.Changes ident call row) (still : s.waiting = false)
      (held : s.held = some row) (unchanged : s.changes = []) (silent : s.entries = [])
      (stored : table.find? call.target = some row) (hit : call.holds row = true) :
      Stands ident call table s .holding
  | written {row : ρ} {pending : List τ}
      (writes : s.program.Writes ident (call.agrees true) ((call.change row).row row) pending)
      (still : s.waiting = false) (held : s.held = some row)
      (changed : s.changes = [call.change row])
      (logged : s.entries ++ pending = call.entries row)
      (stored : table.find? call.target = some row) (hit : call.holds row = true) :
      Stands ident call table s .holding
  | ended {won : Bool} (ends : s.program.Ends ident (call.agrees won)) (still : s.waiting = false)
      (free : s.held = none) (unchanged : s.changes = []) (silent : s.entries = []) :
      Stands ident call table s (.done won)

/--
A family of calls, with what of a log entry never changes.

Entries belong to the row their call is about, and a call only skips locks that leave it nothing.
-/
structure Workload (key : ρ → κ) (index : ρ → Option υ) (τ α β ι : Type) where
  call : ι → RowCall key index τ α
  ident : τ → β
  owner : β → κ
  owned : ∀ i row, key row = (call i).target → ∀ entry ∈ (call i).entries row,
    owner (ident entry) = (call i).target
  settles : ∀ c holder row row', (call c).skips = true → (call holder).target = (call c).target →
    (call c).holds row = true → (call holder).holds row = true →
    ((call holder).change row).row row = some row' → (call c).holds row' = false

/-- Writing new versions of entries does not show in what never changes of them. -/
theorem Session.map_rewritten {ident : τ → β} (s : Session key index τ α) (log : List τ)
    (closed : ∀ entry ∈ s.closed, (log.map ident)[entry.1]? = some (ident entry.2)) :
    (s.rewritten log).map ident = log.map ident := by
  unfold rewritten
  generalize s.closed = entries at closed
  -- Each new version agrees with what stands at its position.
  induction entries generalizing log with
  | nil => rfl
  | cons entry entries ih =>
    rw [List.forall_mem_cons] at closed
    obtain ⟨here, there⟩ := closed
    have same : (log.set entry.1 entry.2).map ident = log.map ident := by
      rw [List.map_set]
      -- A position outside the log is not written at all.
      refine List.ext_getElem? fun p => ?_
      rw [List.getElem?_set]
      split
      · rename_i eq
        subst eq
        split
        · exact here.symm
        · rename_i outside
          rw [List.getElem?_eq_none (by omega)]
      · rfl
    rw [List.foldl_cons, ih _ (by rwa [same]), same]

variable [DecidableEq κ]

namespace Workload

variable (W : Workload key index τ α β ι)

/-- A call as one step on the table and on what never changes of the log. -/
def act (i : ι) (s : Table key index × List β) : Table key index × List β :=
  match s.1.find? (W.call i).target with
  | none => s
  | some row =>
    (((W.call i).change row).apply (W.call i).target s.1,
      s.2 ++ ((W.call i).entries row).map W.ident)

/-- The act of a call on the row it finds. -/
theorem act_of_find? {i : ι} {s : Table key index × List β} {row : ρ}
    (found : s.1.find? (W.call i).target = some row) :
    W.act i s = (((W.call i).change row).apply (W.call i).target s.1,
      s.2 ++ ((W.call i).entries row).map W.ident) := by
  simp only [act, found]

/-- The calls as a protocol, which shows of a key its row and the entries that belong to it. -/
def protocol : Protocol (Table key index × List β) κ (Option ρ × List β) ι where
  view s k := (s.1.find? k, s.2.filter fun entry => W.owner entry == k)
  key i := (W.call i).target
  enabled i view := view.1.any (W.call i).holds
  effect := W.act
  skips i := (W.call i).skips
  frame := by
    intro c s k ne
    cases found : s.1.find? (W.call c).target with
    | none => simp only [act, found]
    | some row =>
      -- The new entries belong to the row that was changed.
      have named : key row = (W.call c).target := Table.key_of_find? found
      have foreign : (((W.call c).entries row).map W.ident).filter
          (fun entry => W.owner entry == k) = [] := by
        refine List.filter_eq_nil_iff.mpr fun entry listed mine => ?_
        obtain ⟨raw, member, rfl⟩ := List.mem_map.mp listed
        exact ne (by rw [← W.owned c row named raw member, beq_iff_eq.mp mine])
      rw [W.act_of_find? found]
      simp only [Change.find?_apply_of_ne _ _ ne, List.filter_append, foreign, List.append_nil]
  settles := by
    intro c holder s skips same ready ready'
    cases found : s.1.find? (W.call c).target with
    | none =>
      rw [found] at ready
      cases ready
    | some row =>
      rw [found, Option.any_some] at ready ready'
      rw [W.act_of_find? (by rw [same]; exact found)]
      simp only [same, Change.find?_apply_self _ found]
      -- Whatever is left of the row is of no use to the call that skipped it.
      cases left : ((W.call holder).change row).row row with
      | none => rfl
      | some row' => exact W.settles c holder row row' skips same ready ready' left

/-- Under its own key an act shows what it makes of the row, and its entries after the others. -/
theorem view_act {i : ι} {s : Table key index × List β} {row : ρ}
    (found : s.1.find? (W.call i).target = some row) :
    W.protocol.view (W.act i s) (W.call i).target =
      (((W.call i).change row).row row,
        (s.2.filter fun entry => W.owner entry == (W.call i).target) ++
          ((W.call i).entries row).map W.ident) := by
  have named : key row = (W.call i).target := Table.key_of_find? found
  have own : (((W.call i).entries row).map W.ident).filter
      (fun entry => W.owner entry == (W.call i).target) =
        ((W.call i).entries row).map W.ident := by
    refine List.filter_eq_self.mpr fun entry listed => ?_
    obtain ⟨raw, member, rfl⟩ := List.mem_map.mp listed
    exact beq_iff_eq.mpr (W.owned i row named raw member)
  simp only [protocol, W.act_of_find? found, Change.find?_apply_self _ found, List.filter_append,
    own]

end Workload

/-- Only a change of its row can upset a call that holds the row's lock. -/
theorem Stands.frame {ident : τ → β} {call : RowCall key index τ α} {table table' : Table key index}
    {s : Session key index τ α} {phase : Phase} (stands : Stands ident call table s phase)
    (spared : phase = .holding → table'.find? call.target = table.find? call.target) :
    Stands ident call table' s phase := by
  -- Only the two phases under the lock mention the table, and only the row that is locked.
  cases stands with
  | idle locks still free unchanged silent => exact .idle locks still free unchanged silent
  | matched asks waits free unchanged silent => exact .matched asks waits free unchanged silent
  | ended ends still free unchanged silent => exact .ended ends still free unchanged silent
  | locked changes still held unchanged silent stored hit =>
    exact .locked changes still held unchanged silent ((spared rfl).trans stored) hit
  | written writes still held changed logged stored hit =>
    exact .written writes still held changed logged ((spared rfl).trans stored) hit

/-- A machine and a state of the protocol that are at the same point of the same calls. -/
structure Workload.Simulates (W : Workload key index τ α β ι) (m : Machine key index τ α ι)
    (st : LockState (Table key index × List β) ι) : Prop where
  store : st.store = (m.table, m.log.map W.ident)
  target : ∀ i, (m.session i).target = (W.call i).target
  closed : ∀ i, ∀ entry ∈ (m.session i).closed,
    (m.log.map W.ident)[entry.1]? = some (W.ident entry.2)
  stands : ∀ i, Stands W.ident (W.call i) m.table (m.session i) (st.phase i)

namespace Workload

variable {W : Workload key index τ α β ι} {m m' : Machine key index τ α ι}
  {st : LockState (Table key index × List β) ι} {i : ι}

/-- A call holds a lock in the protocol when its session does. -/
theorem Simulates.holding_iff (sim : W.Simulates m st) (i : ι) :
    st.phase i = .holding ↔ (m.session i).held.isSome = true := by
  -- A session has a locked row in the two phases under the lock, and in no other.
  have stands := sim.stands i
  generalize st.phase i = phase at stands
  cases stands with
  | idle _ _ free | matched _ _ free | ended _ _ free => simp [free]
  | locked _ _ held | written _ _ held => simp [held]

/-- A call is ready when the committed row meets its condition. -/
theorem Simulates.ready_iff (sim : W.Simulates m st) (i : ι) :
    W.protocol.ready i st.store = (m.table.find? (W.call i).target).any (W.call i).holds := by
  -- The store of the protocol holds the committed table.
  rw [Protocol.ready, sim.store]
  rfl

/-- A call that has answered is done, and its answer says whether it has acted. -/
theorem Simulates.answered (sim : W.Simulates m st) {reply : α} (given : m.reply? i = some reply) :
    (∃ won, st.phase i = .done won) ∧ (W.call i).agrees (st.won i) reply := by
  have program := Machine.reply?_eq_some.mp given
  have stands := sim.stands i
  generalize phase : st.phase i = reached at stands
  -- In every other phase there is a statement left.
  cases stands with
  | idle locks =>
    rw [program] at locks
    cases locks with
    | asks asks => cases asks
  | matched asks =>
    rw [program] at asks
    cases asks
  | locked changes =>
    rw [program] at changes
    cases changes
  | written writes =>
    rw [program] at writes
    cases writes
  | @ended won ends =>
    have same : st.won i = won := by cases won <;> simp [LockState.won, phase]
    rw [program] at ends
    cases ends with
    | finish agrees => exact ⟨⟨won, rfl⟩, same ▸ agrees⟩

variable [DecidableEq ι]

/-- One call moves on without a commit. -/
theorem Simulates.put (sim : W.Simulates m st) {s : Session key index τ α} {phase : Phase}
    (target : s.target = (W.call i).target)
    (closed : ∀ entry ∈ s.closed, (m.log.map W.ident)[entry.1]? = some (W.ident entry.2))
    (stands : Stands W.ident (W.call i) m.table s phase) :
    W.Simulates (m.put i s) (st.advance i phase) := by
  -- The other calls see the same table and the same log.
  refine ⟨sim.store, fun j => ?_, fun j => ?_, fun j => ?_⟩ <;> by_cases eq : j = i
  · subst eq
    simpa [Machine.put] using target
  · simpa [Machine.put, eq] using sim.target j
  · subst eq
    simpa [Machine.put] using closed
  · simpa [Machine.put, eq] using sim.closed j
  · subst eq
    simpa [Machine.put] using stands
  · simpa [Machine.put, eq] using sim.stands j

/-- A call moves on within the same phase. -/
theorem Simulates.stay (sim : W.Simulates m st) {s : Session key index τ α}
    (target : s.target = (W.call i).target)
    (closed : ∀ entry ∈ s.closed, (m.log.map W.ident)[entry.1]? = some (W.ident entry.2))
    (stands : Stands W.ident (W.call i) m.table s (st.phase i)) :
    W.Simulates (m.put i s) st := by
  -- Advancing a call to the phase it is in changes nothing.
  have moved := sim.put target closed stands
  rwa [LockState.advance, Function.update_eq_self] at moved

/-- A commit is in step with the protocol if it is so on its own row, and spares held rows. -/
theorem Simulates.commit (sim : W.Simulates m st) (next : Program key index τ α) {phase : Phase}
    {store : Table key index × List β}
    (stored : store = ((m.commit i next).table,
      m.log.map W.ident ++ (m.session i).entries.map W.ident))
    (spares : ∀ j, j ≠ i → st.phase j = .holding →
      (m.commit i next).table.find? (W.call j).target = m.table.find? (W.call j).target)
    (stands : Stands W.ident (W.call i) (m.commit i next).table
      (.start (m.session i).target next) phase) :
    W.Simulates (m.commit i next) ({ st with store }.advance i phase) := by
  -- The log grows at its end, so every position keeps what it had.
  have log : (m.commit i next).log.map W.ident =
      m.log.map W.ident ++ (m.session i).entries.map W.ident := by
    simp only [Machine.commit, List.map_append]
    rw [(m.session i).map_rewritten m.log (sim.closed i)]
  have session (j : ι) (ne : j ≠ i) := m.commit_session_of_ne i next ne
  have acted := m.commit_session i next
  refine ⟨by rw [LockState.advance_store, stored, log], fun j => ?_, fun j => ?_, fun j => ?_⟩ <;>
    by_cases eq : j = i
  · subst eq
    rw [acted]
    exact sim.target j
  · rw [session j eq]
    exact sim.target j
  · subst eq
    rw [acted]
    simp [Session.start]
  · rw [session j eq, log]
    intro entry listed
    have before := sim.closed j entry listed
    rw [List.getElem?_append_left (List.getElem?_eq_some_iff.mp before).1, before]
  · subst eq
    rw [acted, LockState.advance_self]
    exact stands
  · rw [session j eq, LockState.advance_of_ne eq]
    exact (sim.stands j).frame (spares j eq)

variable [Fintype ι]

/-- A row is locked for a call when some other call holds its lock in the protocol. -/
theorem Simulates.locked_iff (sim : W.Simulates m st) (i : ι) :
    m.locked i = true ↔ ∃ j, j ≠ i ∧ st.phase j = .holding ∧
      (W.call j).target = (W.call i).target := by
  -- Both sides speak of holders and of the rows they are about.
  simp only [Machine.locked, decide_eq_true_eq, sim.target, sim.holding_iff]

/-- Asking for a lock is a step of the protocol, whatever comes of it. -/
theorem Simulates.acquire (sim : W.Simulates m st) {skipLocked : Bool}
    {missing : Program key index τ α} {taken : ρ → Session key index τ α}
    (phase : st.phase i = if (m.session i).waiting then .matched else .idle)
    (asks : (m.session i).program.Asks W.ident (W.call i))
    (clean : (m.session i).held = none ∧ (m.session i).changes = [] ∧ (m.session i).entries = [])
    (skips : skipLocked = true → (W.call i).skips = true)
    (ends : missing.Ends W.ident ((W.call i).agrees false))
    (takes : ∀ row, m.table.find? (W.call i).target = some row → (W.call i).holds row = true →
      (taken row).target = (W.call i).target ∧ (taken row).closed = (m.session i).closed ∧
        Stands W.ident (W.call i) m.table (taken row) .holding)
    (step : m.acquire i (W.call i).holds skipLocked missing taken = some m') :
    ∃ st', W.protocol.Step st i st' ∧ W.Simulates m' st' := by
  -- Giving up ends the call without a trace, and is possible in both phases.
  have given : W.Simulates
      (m.put i { m.session i with program := missing, waiting := false })
      (st.advance i (.done false)) :=
    sim.put (sim.target i) (sim.closed i) (.ended ends rfl clean.1 clean.2.1 clean.2.2)
  -- A row that another call has locked is skipped, or the statement goes on waiting.
  have skipped : st.phase i = .matched → m.locked i = true →
      (if skipLocked then some (m.put i { m.session i with program := missing, waiting := false })
        else none) = some m' → ∃ st', W.protocol.Step st i st' ∧ W.Simulates m' st' := by
    intro phase locked step
    obtain ⟨holder, -, held, same⟩ := (sim.locked_iff i).mp locked
    cases skipLocked with
    | false => cases step
    | true =>
      cases step
      exact ⟨_, .skip phase (skips rfl) held same, given⟩
  have found : m.table.find? (m.session i).target = m.table.find? (W.call i).target := by
    rw [sim.target i]
  have ready := sim.ready_iff i
  simp only [Machine.acquire, found] at step
  cases row : (m.table.find? (W.call i).target).filter (W.call i).holds with
  | none =>
    -- The committed row is of no use, so the call gives up unless it is still waiting.
    have blocked : W.protocol.ready i st.store = false := by
      rw [ready, ← Option.isSome_filter, row]
      rfl
    simp only [row, Option.elim] at step
    cases waiting : (m.session i).waiting with
    | false =>
      rw [waiting] at phase step
      cases step
      exact ⟨_, .miss phase blocked, given⟩
    | true =>
      rw [waiting] at phase step
      cases locked : m.locked i with
      | false =>
        rw [locked] at step
        cases step
        exact ⟨_, .lose phase blocked, given⟩
      | true =>
        rw [locked] at step
        exact skipped phase locked step
  | some row' =>
    -- The committed row meets the condition, so the call waits for it or takes it.
    obtain ⟨stored, hit⟩ := Option.filter_eq_some_iff.mp row
    have acts : W.protocol.ready i st.store = true := by
      rw [ready, stored]
      exact hit
    simp only [row, Option.elim] at step
    cases waiting : (m.session i).waiting with
    | false =>
      rw [waiting] at phase step
      cases step
      exact ⟨_, .hit phase acts, sim.put (sim.target i) (sim.closed i)
        (.matched asks rfl clean.1 clean.2.1 clean.2.2)⟩
    | true =>
      rw [waiting] at phase step
      cases locked : m.locked i with
      | false =>
        -- The lock is free, and under it the row still meets the condition.
        rw [locked] at step
        cases step
        obtain ⟨target, closed, stands⟩ := takes row' stored hit
        refine ⟨_, .lock phase ?_ acts, sim.put target (closed ▸ sim.closed i) stands⟩
        intro other held same
        have ne : other ≠ i := by
          rintro rfl
          rw [phase] at held
          cases held
        have taken := (sim.locked_iff i).mpr ⟨other, ne, held, same⟩
        rw [locked] at taken
        cases taken
      | true =>
        rw [locked] at step
        exact skipped phase locked step

/-- New versions of log entries keep what never changes of them. -/
theorem Simulates.updateLog (sim : W.Simulates m st) {hit : τ → Bool} {set : τ → Option τ}
    {next : Program key index τ α}
    (keeps : ∀ old new, set old = some new → W.ident new = W.ident old)
    (program : (m.session i).program = .updateLog hit set next) (step : m.step? i = some m') :
    ∃ closed, m' = m.put i { m.session i with program := next, closed } ∧
      ∀ entry ∈ closed, (m.log.map W.ident)[entry.1]? = some (W.ident entry.2) := by
  -- A statement that waits or fails makes no step.
  simp only [Machine.step?, program] at step
  split at step
  · cases step
  · cases step
    refine ⟨_, rfl, fun entry listed => ?_⟩
    rcases List.mem_append.mp listed with old | new
    · exact sim.closed i entry old
    · -- A new version replaces an entry that stands at its position.
      obtain ⟨⟨old, p⟩, member, made⟩ := List.mem_filterMap.mp new
      obtain ⟨version, computed, rfl⟩ := Option.map_eq_some_iff.mp made
      have stands := List.mem_zipIdx_iff_getElem?.mp (List.mem_filter.mp member).1
      rw [← (m.session i).map_rewritten m.log (sim.closed i), List.getElem?_map, stands,
        keeps old version computed]
      rfl

/-- The statement that asks for the lock is a step of the protocol. -/
theorem Simulates.ask (sim : W.Simulates m st)
    (phase : st.phase i = if (m.session i).waiting then .matched else .idle)
    (asks : (m.session i).program.Asks W.ident (W.call i)) (free : (m.session i).held = none)
    (unchanged : (m.session i).changes = []) (silent : (m.session i).entries = [])
    (step : m.step? i = some m') : ∃ st', W.protocol.Step st i st' ∧ W.Simulates m' st' := by
  -- A locking read takes the lock alone, and a write takes it together with its change.
  have asks' := asks
  generalize program : (m.session i).program = p at asks'
  cases asks' with
  | lock ends changes =>
    simp only [Machine.step?, program] at step
    refine sim.acquire phase asks ⟨free, unchanged, silent⟩ id ends ?_ step
    intro row stored hit
    exact ⟨sim.target i, rfl, .locked (changes row hit) rfl rfl unchanged silent stored hit⟩
  | write waits ends settles =>
    -- The change is made in the statement that takes the lock.
    simp only [Machine.step?, program, free, Option.isSome_none, Bool.false_eq_true, if_false]
      at step
    refine sim.acquire phase asks ⟨free, unchanged, silent⟩ (by simp) ends ?_ step
    intro row stored hit
    obtain ⟨rfl, writes⟩ := settles row hit
    refine ⟨sim.target i, rfl, .written writes rfl rfl rfl ?_ stored hit⟩
    rw [silent, List.nil_append]

/-- What a call does while it holds the lock, up to its commit. -/
theorem Simulates.hold (sim : W.Simulates m st) (guarded : W.protocol.Guarded st)
    (phase : st.phase i = .holding) {row : ρ} {pending : List τ}
    (writes : (m.session i).program.Writes W.ident ((W.call i).agrees true)
      (((W.call i).change row).row row) pending)
    (still : (m.session i).waiting = false) (held : (m.session i).held = some row)
    (changed : (m.session i).changes = [(W.call i).change row])
    (logged : (m.session i).entries ++ pending = (W.call i).entries row)
    (stored : m.table.find? (W.call i).target = some row) (hit : (W.call i).holds row = true)
    (step : m.step? i = some m') :
    ∃ st', (st' = st ∨ W.protocol.Step st i st') ∧ W.Simulates m' st' := by
  generalize program : (m.session i).program = p at writes
  cases writes with
  | @insertLog seen entry rest next version writes =>
    -- The entry is taken from the row as the transaction has written it.
    have visible : m.visible i = some seen := by
      simp only [Machine.visible, held, Session.version, changed, Option.isSome_some, if_true,
        List.foldl_cons, List.foldl_nil, Option.bind_some, version]
    simp only [Machine.step?, program, visible, Option.map_some, Option.toList_some,
      Option.some.injEq] at step
    subst step
    refine ⟨st, .inl rfl, sim.stay (sim.target i) (sim.closed i) ?_⟩
    rw [phase]
    refine .written writes still held changed ?_ stored hit
    rw [← logged, List.append_assoc, List.singleton_append]
  | updateLog keeps writes =>
    obtain ⟨closed, rfl, agree⟩ := sim.updateLog keeps program step
    refine ⟨st, .inl rfl, sim.stay (sim.target i) agree ?_⟩
    rw [phase]
    exact .written writes still held changed logged stored hit
  | @commit next ends =>
    -- With the commit the call takes its place in the serial order.
    simp only [Machine.step?, program, Option.some.injEq] at step
    subst step
    have table : (m.commit i next).table =
        ((W.call i).change row).apply (W.call i).target m.table := by
      simp only [Machine.commit, changed, List.foldl_cons, List.foldl_nil, sim.target i]
    refine ⟨_, .inr (.commit phase), sim.commit next ?_ ?_ (.ended ends rfl rfl rfl rfl)⟩
    · rw [List.append_nil] at logged
      rw [table, logged, sim.store]
      exact W.act_of_find? stored
    · -- Rows held by others are other rows.
      intro j ne other
      rw [table]
      refine Change.find?_apply_of_ne _ _ fun same => ne ?_
      exact guarded.apart j i other phase same

/-- What a call does once its transaction on the table is over does not show there. -/
theorem Simulates.end (sim : W.Simulates m st) {won : Bool} (phase : st.phase i = .done won)
    (ends : (m.session i).program.Ends W.ident ((W.call i).agrees won))
    (still : (m.session i).waiting = false) (free : (m.session i).held = none)
    (unchanged : (m.session i).changes = []) (silent : (m.session i).entries = [])
    (step : m.step? i = some m') : W.Simulates m' st := by
  generalize program : (m.session i).program = p at ends
  cases ends with
  | finish => simp [Machine.step?, program] at step
  | @commit next ends =>
    -- A commit without changes leaves the table and the other calls as they were.
    simp only [Machine.step?, program, Option.some.injEq] at step
    subst step
    have table : (m.commit i next).table = m.table := by
      simp only [Machine.commit, unchanged, List.foldl_nil]
    have committed := sim.commit next rfl (fun j _ _ => by rw [table]) (.ended ends rfl rfl rfl rfl)
    rw [table, silent, List.map_nil, List.append_nil, ← sim.store, ← phase, LockState.advance,
      Function.update_eq_self] at committed
    exact committed
  | read ends =>
    simp only [Machine.step?, program, Option.some.injEq] at step
    subst step
    refine sim.stay (sim.target i) (sim.closed i) ?_
    rw [phase]
    exact .ended (ends _) still free unchanged silent
  | updateLog keeps ends =>
    obtain ⟨closed, rfl, agree⟩ := sim.updateLog keeps program step
    refine sim.stay (sim.target i) agree ?_
    rw [phase]
    exact .ended ends still free unchanged silent

/-- Every step of the machine is a step of the protocol, or does not show in it. -/
theorem Simulates.step (sim : W.Simulates m st) (guarded : W.protocol.Guarded st)
    (step : m.step? i = some m') :
    ∃ st', (st' = st ∨ W.protocol.Step st i st') ∧ W.Simulates m' st' := by
  -- The phase of the call says which statements can be next.
  have stands := sim.stands i
  generalize phase : st.phase i = reached at stands
  cases stands with
  | idle locks still free unchanged silent =>
    generalize program : (m.session i).program = p at locks
    cases locks with
    | updateLog keeps locks =>
      obtain ⟨closed, rfl, agree⟩ := sim.updateLog keeps program step
      refine ⟨st, .inl rfl, sim.stay (sim.target i) agree ?_⟩
      rw [phase]
      exact .idle locks still free unchanged silent
    | asks asks =>
      obtain ⟨st', moved, sim'⟩ := sim.ask (by rw [phase, still]; rfl) (program ▸ asks) free
        unchanged silent step
      exact ⟨st', .inr moved, sim'⟩
  | matched asks waits free unchanged silent =>
    obtain ⟨st', moved, sim'⟩ := sim.ask (by rw [phase, waits]; rfl) asks free unchanged silent step
    exact ⟨st', .inr moved, sim'⟩
  | @locked row changes still held unchanged silent stored hit =>
    generalize program : (m.session i).program = p at changes
    cases changes with
    | write meets writes =>
      -- The transaction writes the row it has locked.
      have version : (m.session i).version = some row := by
        simp only [Session.version, unchanged, held, List.foldl_nil]
      simp only [Machine.step?, program, held, Option.isSome_some, if_true, version,
        Option.filter_some, meets, Option.elim, unchanged, List.nil_append,
        Option.some.injEq] at step
      subst step
      refine ⟨st, .inl rfl, sim.stay (sim.target i) (sim.closed i) ?_⟩
      rw [phase]
      refine .written writes still rfl rfl ?_ stored hit
      rw [silent, List.nil_append]
  | written writes still held changed logged stored hit =>
    exact sim.hold guarded phase writes still held changed logged stored hit step
  | ended ends still free unchanged silent =>
    exact ⟨st, .inl rfl, sim.end phase ends still free unchanged silent step⟩

/-- Every run of the machine follows a run of the protocol. -/
theorem simulates_of_run {program : ι → Program key index τ α} {table : Table key index}
    {log : List τ} (locks : ∀ i, (program i).Locks W.ident (W.call i))
    {past : List (Step (Machine key index τ α ι) ι)}
    (run : Run Machine.Next (.start table log (fun i => (W.call i).target) program) past m) :
    ∃ st, (∃ steps, W.protocol.Reaches (table, log.map W.ident) steps st) ∧ W.Simulates m st := by
  -- The run of the protocol is built along the run of the machine.
  refine run.invariant (fun m => ∃ st,
    (∃ steps, W.protocol.Reaches (table, log.map W.ident) steps st) ∧ W.Simulates m st) ?_ ?_
  · refine ⟨_, ⟨[], .nil⟩, rfl, fun _ => rfl, fun _ => ?_, fun i => ?_⟩
    · simp [Machine.start, Session.start]
    · exact .idle (locks i) rfl rfl rfl rfl
  · rintro m i m' ⟨st, ⟨steps, reached⟩, sim⟩ step
    obtain ⟨st', rfl | moved, sim'⟩ := sim.step reached.ordered.1 step
    · exact ⟨st', ⟨steps, reached⟩, sim'⟩
    · exact ⟨st', ⟨_, reached.snoc moved⟩, sim'⟩

/--
Calls of this kind are serializable.

Once all have answered, the table and the log are as after some order of the calls, and each answer
agrees with what its call did in that order.
-/
theorem serializable {program : ι → Program key index τ α} {table : Table key index}
    {log : List τ} (locks : ∀ i, (program i).Locks W.ident (W.call i))
    {past : List (Step (Machine key index τ α ι) ι)}
    (run : Run Machine.Next (.start table log (fun i => (W.call i).target) program) past m)
    (complete : ∀ i, (m.reply? i).isSome = true) {calls : List ι} (distinct : calls.Nodup)
    (all : ∀ i, i ∈ calls) :
    ∃ (order : List ι) (won : ι → Bool), order.Perm calls ∧
      W.protocol.serial (table, log.map W.ident) order =
        ((m.table, m.log.map W.ident), order.map won) ∧
      ∀ i, ∀ reply ∈ m.reply? i, (W.call i).agrees (won i) reply := by
  obtain ⟨st, ⟨steps, reached⟩, sim⟩ := simulates_of_run locks run
  have finished : ∀ i, ∃ won, st.phase i = .done won := by
    intro i
    obtain ⟨reply, given⟩ := Option.isSome_iff_exists.mp (complete i)
    exact (sim.answered given).1
  -- The protocol has an order for the calls, and the machine has the same store.
  obtain ⟨order, arranged, replay⟩ := reached.linearizable finished distinct all
  rw [sim.store] at replay
  exact ⟨order, st.won, arranged, replay, fun i reply given => (sim.answered given).2⟩

end Workload

end Relational
