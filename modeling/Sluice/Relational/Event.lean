import Sluice.Relational.Session

/-! What can happen to calls under way, and what holds of their locks at any moment. -/

namespace Relational

open Transition

variable {κ υ ρ τ α ι : Type} {key : ρ → κ} {index : ρ → Option υ}

/-- A statement that asks for the lock of its row, with the session that gets it. -/
inductive Session.Asks (s : Session key index τ α) (holds : ρ → Bool)
    (missing : Program key index τ α) : (ρ → Session key index τ α) → Prop where
  | lock {skipLocked : Bool} {found : ρ → Program key index τ α}
      (program : s.program = .lock holds skipLocked missing found) :
      Asks s holds missing fun row =>
        { s with program := found row, waiting := false, held := some row }
  | write {change : Change key index} {found : ρ → Program key index τ α}
      (program : s.program = .write holds change missing found) (free : s.held = none) :
      Asks s holds missing fun row =>
        { s with
          program := found ((change.row row).getD row), waiting := false, held := some row
          changes := [change] }

namespace Machine

/-- What can happen: a statement of a call, the end of a call by an error, or a new row. -/
inductive Event (ρ α ι : Type) where
  | statement (i : ι)
  -- Whatever the caller is told, nothing is left of the open transaction.
  | rollback (i : ι) (reply : α)
  -- An `INSERT` that commits by itself.
  | insert (row : ρ)

/-- The row that an event adds. -/
def Event.inserted : Event ρ α ι → Option ρ
  | insert row => some row
  | _ => none

variable [DecidableEq κ] [DecidableEq ι] [Fintype ι] {m m' : Machine key index τ α ι} {i j : ι}

/-- The machine after an event, if the event is possible. -/
def event? [DecidableEq υ] (m : Machine key index τ α ι) :
    Event ρ α ι → Option (Machine key index τ α ι)
  | .statement i => m.step? i
  | .rollback i reply => some (m.put i (.start (m.session i).target (.finish reply)))
  | .insert row => (m.table.insert? row).map fun table => { m with table }

/-- One event. -/
def Happens [DecidableEq υ] (m : Machine key index τ α ι) (e : Event ρ α ι)
    (m' : Machine key index τ α ι) : Prop :=
  m.event? e = some m'

/-- The machine after an event, or as it was where the event is not possible. -/
def after [DecidableEq υ] (m : Machine key index τ α ι) (e : Event ρ α ι) :
    Machine key index τ α ι :=
  (m.event? e).getD m

/-- A sequence of possible events is a run. -/
theorem run_of_events [DecidableEq υ] (m : Machine key index τ α ι) (events : List (Event ρ α ι))
    (possible : (trace after m events).all (fun e => (e.pre.event? e.label).isSome) = true) :
    Run Happens m (trace after m events) (events.foldl after m) :=
  run_of_some event? events m possible

/-- What a statement other than a commit makes of the session of its call. -/
inductive Moves (m : Machine key index τ α ι) (i : ι) : Session key index τ α → Prop where
  | miss {holds : ρ → Bool} {missing : Program key index τ α} {taken : ρ → Session key index τ α}
      (asks : (m.session i).Asks holds missing taken) :
      Moves m i { m.session i with program := missing, waiting := false }
  | wait {holds : ρ → Bool} {missing : Program key index τ α} {taken : ρ → Session key index τ α}
      (asks : (m.session i).Asks holds missing taken) :
      Moves m i { m.session i with waiting := true }
  | take {holds : ρ → Bool} {missing : Program key index τ α} {taken : ρ → Session key index τ α}
      {row : ρ} (asks : (m.session i).Asks holds missing taken)
      (waited : (m.session i).waiting = true) (free : m.locked i = false)
      (stored : m.table.find? (m.session i).target = some row) (hit : holds row = true) :
      Moves m i (taken row)
  | unmet {holds : ρ → Bool} {change : Change key index} {missing : Program key index τ α}
      {found : ρ → Program key index τ α}
      (program : (m.session i).program = .write holds change missing found)
      (locked : (m.session i).held.isSome = true) :
      Moves m i { m.session i with program := missing }
  | rewrite {holds : ρ → Bool} {change : Change key index} {missing : Program key index τ α}
      {found : ρ → Program key index τ α} {row : ρ}
      (program : (m.session i).program = .write holds change missing found)
      (locked : (m.session i).held.isSome = true) (seen : (m.session i).version = some row)
      (hit : holds row = true) :
      Moves m i { m.session i with
        program := found ((change.row row).getD row)
        changes := (m.session i).changes ++ [change] }
  | read {next : Option ρ → Program key index τ α} {row : Option ρ}
      (program : (m.session i).program = .read next) :
      Moves m i { m.session i with program := next row }
  | insertLog {entry : ρ → τ} {next : Program key index τ α} {entries : List τ}
      (program : (m.session i).program = .insertLog entry next) :
      Moves m i { m.session i with program := next, entries }
  | updateLog {hit : τ → Bool} {set : τ → Option τ} {next : Program key index τ α}
      {closed : List (Nat × τ)} (program : (m.session i).program = .updateLog hit set next) :
      Moves m i { m.session i with program := next, closed }

/-- A locking statement moves on in one of its ways. -/
theorem acquire_moves {holds : ρ → Bool} {skipLocked : Bool} {missing : Program key index τ α}
    {taken : ρ → Session key index τ α} (asks : (m.session i).Asks holds missing taken)
    (made : m.acquire i holds skipLocked missing taken = some m') :
    ∃ s, m.Moves i s ∧ m' = m.put i s := by
  -- It depends on the committed row, on having waited, and on the locks of the others.
  unfold acquire at made
  dsimp only at made
  cases found : (m.table.find? (m.session i).target).filter holds with
  | none =>
    -- No row meets the condition, so the statement gives up or goes on waiting.
    rw [found] at made
    split at made
    · split at made
      · split at made
        · cases made
          exact ⟨_, .miss asks, rfl⟩
        · cases made
      · cases made
        exact ⟨_, .miss asks, rfl⟩
    · cases made
      exact ⟨_, .miss asks, rfl⟩
  | some row =>
    rw [found] at made
    obtain ⟨stored, hit⟩ := Option.filter_eq_some_iff.mp found
    split at made
    · rename_i waited
      split at made
      · split at made
        · cases made
          exact ⟨_, .miss asks, rfl⟩
        · cases made
      · -- The lock is free, and the row still meets the condition.
        rename_i free
        cases made
        exact ⟨_, .take asks waited (Bool.not_eq_true _ ▸ free) stored hit, rfl⟩
    · cases made
      exact ⟨_, .wait asks, rfl⟩

/-- A statement is a commit, or it moves the session of its call and nothing else. -/
theorem step?_inv (made : m.step? i = some m') :
    (∃ next, (m.session i).program = .commit next ∧ m' = m.commit i next) ∨
      ∃ s, m.Moves i s ∧ m' = m.put i s := by
  unfold step? at made
  dsimp only at made
  split at made
  · cases made
  · rename_i next program
    cases made
    exact .inl ⟨next, program, rfl⟩
  · rename_i program
    exact .inr (acquire_moves (.lock program) made)
  · -- A write on a locked row sees the version of its own transaction.
    rename_i holds change missing found program
    right
    split at made
    · rename_i locked
      cases made
      cases found : ((m.session i).version).filter holds with
      | none => exact ⟨_, .unmet program locked, rfl⟩
      | some row =>
        obtain ⟨seen, hit⟩ := Option.filter_eq_some_iff.mp found
        exact ⟨_, .rewrite program locked seen hit, rfl⟩
    · rename_i free
      exact acquire_moves (.write program (by simpa using free)) made
  · rename_i program
    cases made
    exact .inr ⟨_, .read program, rfl⟩
  · rename_i program
    cases made
    exact .inr ⟨_, .insertLog program, rfl⟩
  · -- A statement on the log that waits or fails makes no step.
    rename_i program
    split at made
    · cases made
    · cases made
      exact .inr ⟨_, .updateLog program, rfl⟩

/-- A call is about the same row to its end. -/
theorem Moves.target {s : Session key index τ α} (moves : m.Moves i s) :
    s.target = (m.session i).target := by
  cases moves with
  | take asks => cases asks <;> rfl
  | _ => rfl

/-- What an event makes of the sessions: one of them moves on or starts anew, or none. -/
theorem happens_session [DecidableEq υ] {e : Event ρ α ι} (made : m.Happens e m') :
    m'.session = m.session ∨ ∃ i s, m'.session = Function.update m.session i s ∧
      ((e = .statement i ∧ m.Moves i s) ∨ ∃ next, s = .start (m.session i).target next ∧
        ((m.session i).program = .commit next ∨ ∃ reply, next = .finish reply)) := by
  cases e with
  | statement i =>
    right
    rcases step?_inv made with ⟨next, program, rfl⟩ | ⟨s, moves, rfl⟩
    · exact ⟨i, _, rfl, .inr ⟨next, rfl, .inl program⟩⟩
    · exact ⟨i, s, rfl, .inl ⟨rfl, moves⟩⟩
  | rollback i reply =>
    cases made
    exact .inr ⟨i, _, rfl, .inr ⟨_, rfl, .inr ⟨reply, rfl⟩⟩⟩
  | insert row =>
    obtain ⟨table, -, rfl⟩ := Option.map_eq_some_iff.mp made
    exact .inl rfl

/-- Changes make of a row what they make of it one after the other. -/
theorem find?_changes (changes : List (Change key index)) (t : Table key index) (k : κ) :
    (changes.foldl (fun t change => change.apply k t) t).find? k =
      changes.foldl (fun row change => row.bind change.row) (t.find? k) := by
  -- The table varies, since each change is made on what the one before has left.
  induction changes generalizing t with
  | nil => rfl
  | cons change changes ih =>
    rw [List.foldl_cons, List.foldl_cons, ih]
    cases found : t.find? k with
    | none => cases change <;> simp [Change.apply, found]
    | some row => rw [change.find?_apply_self found, Option.bind_some]

/-- The changes of one row do not show in another. -/
theorem find?_changes_of_ne {changes : List (Change key index)} {t : Table key index} {k k' : κ}
    (ne : k' ≠ k) :
    (changes.foldl (fun t change => change.apply k t) t).find? k' = t.find? k' := by
  induction changes generalizing t with
  | nil => rfl
  | cons change changes ih => exact ih.trans (change.find?_apply_of_ne t ne)

/-- Changes create no row. -/
theorem find?_changes_none {changes : List (Change key index)} {t : Table key index} {k k' : κ}
    (absent : t.find? k' = none) :
    (changes.foldl (fun t change => change.apply k t) t).find? k' = none := by
  by_cases same : k' = k
  · -- There is nothing to change under the key.
    subst same
    rw [find?_changes, absent]
    induction changes with
    | nil => rfl
    | cons change changes ih => exact ih
  · rw [find?_changes_of_ne same]
    exact absent

/-- What holds of the locks at any moment. -/
structure Coherent (m : Machine key index τ α ι) : Prop where
  -- Nobody else changes a row that is locked.
  stored : ∀ i row, (m.session i).held = some row → m.table.find? (m.session i).target = some row
  alone : ∀ i j, (m.session i).held.isSome = true → (m.session j).held.isSome = true →
    (m.session i).target = (m.session j).target → i = j
  guarded : ∀ i, (m.session i).held = none → (m.session i).changes = []

/-- A session may be put in place of another one if it respects the locks of the others. -/
theorem Coherent.put (coherent : m.Coherent) {s : Session key index τ α}
    (target : s.target = (m.session i).target)
    (stored : ∀ row, s.held = some row → m.table.find? s.target = some row)
    (alone : s.held.isSome = true → (m.session i).held.isSome = true ∨ m.locked i = false)
    (guarded : s.held = none → s.changes = []) : (m.put i s).Coherent := by
  -- Nobody else has locked the row, whether the lock is new or old.
  have free : s.held.isSome = true → ∀ j, j ≠ i → (m.session j).held.isSome = true →
      (m.session j).target ≠ s.target := by
    intro locks j ne locked same
    rcases alone locks with before | free
    · exact ne (coherent.alone j i locked before (same.trans target))
    · have held : m.locked i = true := decide_eq_true ⟨j, ne, locked, same.trans target⟩
      rw [free] at held
      cases held
  have self := m.put_session i s
  have other (j : ι) (ne : j ≠ i) := m.put_session_of_ne i s ne
  constructor
  · intro j row held
    by_cases own : j = i
    · subst own
      rw [self] at held ⊢
      exact stored row held
    · rw [other j own] at held ⊢
      exact coherent.stored j row held
  · -- Of two holders of one row at most one is new, and the other one would have kept it out.
    intro j k held held' same
    by_cases first : j = i <;> by_cases second : k = i
    · rw [first, second]
    · subst first
      rw [self] at held same
      rw [other k second] at held' same
      exact absurd same.symm (free held k second held')
    · subst second
      rw [self] at held' same
      rw [other j first] at held same
      exact absurd same (free held' j first held)
    · rw [other j first] at held same
      rw [other k second] at held' same
      exact coherent.alone j k held held' same
  · intro j unlocked
    by_cases own : j = i
    · subst own
      rw [self] at unlocked ⊢
      exact guarded unlocked
    · rw [other j own] at unlocked ⊢
      exact coherent.guarded j unlocked

/-- Every statement but a commit respects the locks of the others. -/
theorem Coherent.moves (coherent : m.Coherent) {s : Session key index τ α}
    (moves : m.Moves i s) : (m.put i s).Coherent := by
  -- Whatever keeps its locks and its changes is fine.
  have keeps (s : Session key index τ α) (target : s.target = (m.session i).target)
      (held : s.held = (m.session i).held) (changes : s.changes = (m.session i).changes) :
      (m.put i s).Coherent := by
    refine coherent.put target (fun row locked => ?_) (fun locked => .inl (held ▸ locked))
      fun free => ?_
    · rw [target]
      exact coherent.stored i row (held ▸ locked)
    · rw [changes]
      exact coherent.guarded i (held ▸ free)
  cases moves with
  | take asks waited free stored hit =>
    -- The lock is free, and the row is the one that is committed.
    cases asks with
    | lock =>
      refine coherent.put rfl (fun row locked => ?_) (fun _ => .inr free) nofun
      cases locked
      exact stored
    | write =>
      refine coherent.put rfl (fun row locked => ?_) (fun _ => .inr free) nofun
      cases locked
      exact stored
  | rewrite program locked =>
    refine coherent.put rfl (coherent.stored i) (fun _ => .inl locked) fun free => ?_
    change (m.session i).held = none at free
    rw [free] at locked
    cases locked
  | miss | wait | unmet | read | insertLog | updateLog => exact keeps _ rfl rfl rfl

omit [Fintype ι] in
/-- A commit changes no row but the one that its call has locked. -/
theorem Coherent.find?_commit (coherent : m.Coherent) (next : Program key index τ α) {k : κ}
    (other : k = (m.session i).target → (m.session i).held = none) :
    (m.commit i next).table.find? k = m.table.find? k := by
  by_cases same : k = (m.session i).target
  · have clean := coherent.guarded i (other same)
    simp only [commit, clean, List.foldl_nil]
  · exact find?_changes_of_ne same

omit [Fintype ι] in
/-- A commit leaves of its own row what the transaction has made of it. -/
theorem Coherent.find?_commit_self (coherent : m.Coherent) (next : Program key index τ α)
    (locked : (m.session i).held.isSome = true) :
    (m.commit i next).table.find? (m.session i).target = (m.session i).version := by
  obtain ⟨row, held⟩ := Option.isSome_iff_exists.mp locked
  simp only [Machine.commit, find?_changes, coherent.stored i row held, Session.version, held]

omit [Fintype ι] in
/-- A commit gives its own locks back. -/
theorem Coherent.commit (coherent : m.Coherent) (next : Program key index τ α) :
    (m.commit i next).Coherent := by
  have self := m.commit_session i next
  have other (j : ι) (ne : j ≠ i) := m.commit_session_of_ne i next ne
  -- The call itself holds nothing any more.
  have locks (j : ι) (held : ((m.commit i next).session j).held.isSome = true) : j ≠ i := by
    rintro rfl
    rw [self] at held
    cases held
  constructor
  · intro j row held
    have ne := locks j (by rw [held]; rfl)
    rw [other j ne] at held ⊢
    rw [coherent.find?_commit next fun same => ?_]
    · exact coherent.stored j row held
    · -- Two holders of one row would be one and the same call.
      cases free : (m.session i).held with
      | none => rfl
      | some row' =>
        exact absurd (coherent.alone j i (by rw [held]; rfl) (by rw [free]; rfl) same) ne
  · intro j k held held' same
    have first := other j (locks j held)
    have second := other k (locks k held')
    rw [first] at held same
    rw [second] at held' same
    exact coherent.alone j k held held' same
  · intro j unlocked
    by_cases own : j = i
    · subst own
      rw [self]
      rfl
    · rw [other j own] at unlocked ⊢
      exact coherent.guarded j unlocked

/-- The locks are in order after every event. -/
theorem Coherent.happens [DecidableEq υ] {e : Event ρ α ι} (coherent : m.Coherent)
    (made : m.Happens e m') : m'.Coherent := by
  cases e with
  | statement i =>
    rcases step?_inv made with ⟨next, -, rfl⟩ | ⟨s, moves, rfl⟩
    · exact coherent.commit next
    · exact coherent.moves moves
  | rollback i reply =>
    cases made
    exact coherent.put rfl nofun nofun fun _ => rfl
  | insert row =>
    -- A new row has a key that no locked row has.
    obtain ⟨table, inserted, rfl⟩ := Option.map_eq_some_iff.mp made
    refine ⟨fun i row' held => ?_, coherent.alone, coherent.guarded⟩
    have stored := coherent.stored i row' held
    change table.find? _ = _
    rw [Table.find?_insert inserted, if_neg]
    · exact stored
    · intro same
      rw [← same, Table.find?_of_insert inserted] at stored
      cases stored

omit [DecidableEq ι] [Fintype ι] in
/-- Before the first statement nothing is locked. -/
theorem coherent_start (table : Table key index) (log : List τ) (target : ι → κ)
    (program : ι → Program key index τ α) : (start table log target program).Coherent :=
  ⟨nofun, nofun, fun _ _ => rfl⟩

/-- A row that is gone only comes back by an insertion. -/
theorem happens_absent [DecidableEq υ] {e : Event ρ α ι} {k : κ} (made : m.Happens e m')
    (absent : m.table.find? k = none) (others : ∀ row ∈ e.inserted, key row ≠ k) :
    m'.table.find? k = none := by
  -- Commits only rewrite and delete, and nothing else but an insertion writes the table.
  cases e with
  | statement i =>
    rcases step?_inv made with ⟨next, -, rfl⟩ | ⟨s, -, rfl⟩
    · exact find?_changes_none absent
    · exact absent
  | rollback i reply =>
    cases made
    exact absent
  | insert row =>
    obtain ⟨table, inserted, rfl⟩ := Option.map_eq_some_iff.mp made
    change table.find? k = none
    rw [Table.find?_insert inserted, if_neg (others row rfl)]
    exact absent

section Runs

variable [DecidableEq υ] {past : List (Step (Machine key index τ α ι) (Event ρ α ι))}
  (run : Run Happens m past m')

include run

/-- A row that is gone stays gone as long as nobody inserts one with its key. -/
theorem absent_of_run {k : κ} (absent : m.table.find? k = none)
    (others : ∀ e ∈ past, ∀ row ∈ e.label.inserted, key row ≠ k) : m'.table.find? k = none :=
  run.along (fun m => m.table.find? k = none) absent fun _ _ _ taken before made =>
    happens_absent made before (others _ taken)

/-- A call is about the same row all along a run. -/
theorem target_of_run (i : ι) : (m'.session i).target = (m.session i).target := by
  refine run.invariant (fun s => (s.session i).target = (m.session i).target) rfl ?_
  intro m₁ e m₂ before made
  -- Whether a session moves on or starts anew, it keeps its target.
  rcases happens_session made with same | ⟨j, s, moved, goes⟩
  · rw [same]
    exact before
  rw [moved]
  by_cases own : i = j
  · subst own
    rw [Function.update_self]
    rcases goes with ⟨-, moves⟩ | ⟨next, rfl, -⟩
    · exact moves.target.trans before
    · exact before
  · rw [Function.update_of_ne own]
    exact before

end Runs

end Machine

end Relational
