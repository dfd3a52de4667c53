import Mathlib.Data.Fintype.Basic
import Mathlib.Logic.Function.Basic
import Sluice.Relational.Table
import Sluice.Transition.Run

/-! Transactions on one keyed table and one log, interleaved statement by statement. -/

namespace Relational

open Transition

variable {κ υ ρ τ α ι : Type}

/-- A rewriting of rows that keeps what the constraints look at. -/
structure Rewrite (key : ρ → κ) (index : ρ → Option υ) where
  set : ρ → ρ
  keeps : ∀ row, key (set row) = key row ∧ index (set row) = index row

/-- What a writing statement does to a row that meets its condition. -/
inductive Change (key : ρ → κ) (index : ρ → Option υ) where
  | update (rewrite : Rewrite key index)
  | delete

namespace Change

variable {key : ρ → κ} {index : ρ → Option υ}

/-- What a change leaves of a row. -/
def row : Change key index → ρ → Option ρ
  | update rewrite, row => some (rewrite.set row)
  | delete, _ => none

/-- The change of the row under a key. -/
def apply [DecidableEq κ] (k : κ) : Change key index → Table key index → Table key index
  | update rewrite, t => t.update (fun row => key row == k) rewrite.set rewrite.keeps
  | delete, t => t.delete fun row => key row == k

variable [DecidableEq κ]

/-- A change leaves the rows under other keys alone. -/
theorem find?_apply_of_ne (change : Change key index) (t : Table key index) {k k' : κ}
    (ne : k' ≠ k) : (change.apply k t).find? k' = t.find? k' := by
  -- Both kinds of change ask for the key, which the row found here does not carry.
  cases found : t.find? k' with
  | none => cases change <;> simp [apply, Table.find?_update, Table.find?_delete, found]
  | some row =>
    have named : key row = k' := Table.key_of_find? found
    cases change <;> simp [apply, Table.find?_update, Table.find?_delete, found, named, ne]

/-- Under its own key a change leaves what it makes of the row. -/
theorem find?_apply_self (change : Change key index) {t : Table key index} {k : κ} {row : ρ}
    (found : t.find? k = some row) : (change.apply k t).find? k = change.row row := by
  -- The row that was found carries the key that the change asks for.
  have named : key row = k := Table.key_of_find? found
  cases change <;> simp [apply, Change.row, Table.find?_update, Table.find?_delete, found, named]

end Change

/--
A call, as the statements it issues and what it makes of their answers.

All its statements on the table are about the row under one key.
-/
inductive Program (key : ρ → κ) (index : ρ → Option υ) (τ α : Type) where
  | finish (reply : α)
  | commit (next : Program key index τ α)
  -- `SELECT … FOR UPDATE`, which may be told to skip a row that is locked.
  | lock (holds : ρ → Bool) (skipLocked : Bool) (missing : Program key index τ α)
      (found : ρ → Program key index τ α)
  -- `UPDATE … WHERE` or `DELETE … WHERE`, which answers with the row it has written.
  | write (holds : ρ → Bool) (change : Change key index) (missing : Program key index τ α)
      (found : ρ → Program key index τ α)
  | read (next : Option ρ → Program key index τ α)
  -- `INSERT INTO log SELECT … FROM table`.
  | insertLog (entry : ρ → τ) (next : Program key index τ α)
  -- `UPDATE log … WHERE`, which fails if some new version cannot be computed.
  | updateLog (hit : τ → Bool) (set : τ → Option τ) (next : Program key index τ α)

/-- A call under way, with what its open transaction has locked and written. -/
structure Session (key : ρ → κ) (index : ρ → Option υ) (τ α : Type) where
  target : κ
  program : Program key index τ α
  -- Whether the next statement has found its row and waits for the row's lock.
  waiting : Bool
  -- The row as it was when its lock was taken, and the changes made to it since.
  held : Option ρ
  changes : List (Change key index)
  -- The entries added to the log, and the new versions of old entries by their position.
  entries : List τ
  closed : List (Nat × τ)

namespace Session

variable {key : ρ → κ} {index : ρ → Option υ}

/-- A call before its first statement. -/
def start (target : κ) (program : Program key index τ α) : Session key index τ α :=
  { target, program, waiting := false, held := none, changes := [], entries := [], closed := [] }

/-- The locked row as its own transaction sees it. -/
def version (s : Session key index τ α) : Option ρ :=
  s.changes.foldl (fun row change => row.bind change.row) s.held

/-- The log with the new versions that a transaction has written. -/
def rewritten (s : Session key index τ α) (log : List τ) : List τ :=
  s.closed.foldl (fun log entry => log.set entry.1 entry.2) log

end Session

/-- The committed table and log, with the calls under way on them. -/
structure Machine (key : ρ → κ) (index : ρ → Option υ) (τ α ι : Type) where
  table : Table key index
  log : List τ
  session : ι → Session key index τ α

namespace Machine

variable {key : ρ → κ} {index : ρ → Option υ} [DecidableEq κ] [DecidableEq ι] [Fintype ι]

/-- The committed state before the first statement of any call. -/
def start (table : Table key index) (log : List τ) (target : ι → κ)
    (program : ι → Program key index τ α) : Machine key index τ α ι where
  table := table
  log := log
  session i := .start (target i) (program i)

/-- One call moves on without a commit. -/
def put (m : Machine key index τ α ι) (i : ι) (s : Session key index τ α) :
    Machine key index τ α ι :=
  { m with session := Function.update m.session i s }

/-- Whether another call holds the lock of the row that a call is about. -/
def locked (m : Machine key index τ α ι) (i : ι) : Bool :=
  decide (∃ j, j ≠ i ∧ (m.session j).held.isSome = true ∧
    (m.session j).target = (m.session i).target)

/-- The row that a call is about, as its statements see it. -/
def visible (m : Machine key index τ α ι) (i : ι) : Option ρ :=
  if (m.session i).held.isSome then (m.session i).version
  else m.table.find? (m.session i).target

/--
A statement that needs the lock of its row.

It looks at the committed row first, waits if the row meets its condition, and asks again under the
lock. Nothing happens as long as it has to wait.
-/
def acquire (m : Machine key index τ α ι) (i : ι) (holds : ρ → Bool) (skipLocked : Bool)
    (missing : Program key index τ α) (taken : ρ → Session key index τ α) :
    Option (Machine key index τ α ι) :=
  let s := m.session i
  let given := m.put i { s with program := missing, waiting := false }
  let row := (m.table.find? s.target).filter holds
  if s.waiting then
    if m.locked i then if skipLocked then some given else none
    else some (row.elim given fun row => m.put i (taken row))
  else some (row.elim given fun _ => m.put i { s with waiting := true })

/-- The positions and entries of the log that a statement would write. -/
def hits (m : Machine key index τ α ι) (i : ι) (hit : τ → Bool) : List (τ × Nat) :=
  (((m.session i).rewritten m.log).zipIdx).filter fun entry => hit entry.1

/-- Whether another call has locked one of the given positions of the log. -/
def logLocked (m : Machine key index τ α ι) (i : ι) (hits : List (τ × Nat)) : Bool :=
  decide (∃ j, j ≠ i ∧ ∃ entry ∈ hits, entry.2 ∈ (m.session j).closed.map Prod.fst)

/-- What a call makes of the committed state when it commits. -/
def commit (m : Machine key index τ α ι) (i : ι) (next : Program key index τ α) :
    Machine key index τ α ι :=
  let s := m.session i
  { table := s.changes.foldl (fun t change => change.apply s.target t) m.table
    log := s.rewritten m.log ++ s.entries
    session := Function.update m.session i (.start s.target next) }

/-- The next statement of a call, if there is one and it neither waits nor fails. -/
def step? (m : Machine key index τ α ι) (i : ι) : Option (Machine key index τ α ι) :=
  let s := m.session i
  match s.program with
  | .finish _ => none
  | .commit next => some (m.commit i next)
  | .lock holds skipLocked missing found =>
    m.acquire i holds skipLocked missing fun row =>
      { s with program := found row, waiting := false, held := some row }
  | .write holds change missing found =>
    if s.held.isSome then
      -- The row is already locked by this very transaction, which sees its own version.
      some <| (s.version.filter holds).elim (m.put i { s with program := missing }) fun row =>
        m.put i { s with
          program := found ((change.row row).getD row), changes := s.changes ++ [change] }
    else m.acquire i holds false missing fun row =>
      { s with
        program := found ((change.row row).getD row), waiting := false, held := some row
        changes := [change] }
  | .read next => some (m.put i { s with program := next (m.visible i) })
  | .insertLog entry next =>
    some (m.put i { s with
      program := next, entries := s.entries ++ ((m.visible i).map entry).toList })
  | .updateLog hit set next =>
    let hits := m.hits i hit
    if m.logLocked i hits || !hits.all fun entry => (set entry.1).isSome then none
    else some (m.put i { s with
      program := next
      closed := s.closed ++ hits.filterMap fun entry =>
        (set entry.1).map fun new => (entry.2, new) })

/-- One step of one call. -/
def Next (m : Machine key index τ α ι) (i : ι) (m' : Machine key index τ α ι) : Prop :=
  m.step? i = some m'

/-- One step of one call, which stays put where it cannot move. -/
def move (m : Machine key index τ α ι) (i : ι) : Machine key index τ α ι := (m.step? i).getD m

section Sessions

omit [DecidableEq κ] [Fintype ι]

variable (m : Machine key index τ α ι) (i : ι)

/-- The session of the moving call is the one that is put. -/
@[simp] theorem put_session (s : Session key index τ α) : (m.put i s).session i = s :=
  Function.update_self ..

/-- The sessions of the other calls stay. -/
theorem put_session_of_ne (s : Session key index τ α) {j : ι} (ne : j ≠ i) :
    (m.put i s).session j = m.session j :=
  Function.update_of_ne ne ..

/-- Of two moves of one call without a commit the later one counts. -/
@[simp] theorem put_put (s s' : Session key index τ α) : (m.put i s).put i s' = m.put i s' := by
  simp [put]

end Sessions

section Commits

omit [Fintype ι]

variable (m : Machine key index τ α ι) (i : ι) (next : Program key index τ α)

/-- A commit starts the session of its call anew. -/
@[simp] theorem commit_session :
    (m.commit i next).session i = .start (m.session i).target next :=
  Function.update_self ..

/-- A commit leaves the sessions of the other calls alone. -/
theorem commit_session_of_ne {j : ι} (ne : j ≠ i) :
    (m.commit i next).session j = m.session j :=
  Function.update_of_ne ne ..

end Commits

/-- A schedule in which every call can move when it is its turn is a run. -/
theorem run_of_schedule (m : Machine key index τ α ι) (schedule : List ι)
    (moves : (trace move m schedule).all (fun e => (e.pre.step? e.label).isSome) = true) :
    Run Next m (trace move m schedule) (schedule.foldl move m) :=
  run_of_some step? schedule m moves

/-- What a call has answered, once it has. -/
def reply? (m : Machine key index τ α ι) (i : ι) : Option α :=
  match (m.session i).program with
  | .finish reply => some reply
  | _ => none

omit [DecidableEq κ] [DecidableEq ι] [Fintype ι] in
/-- A call has answered when there is nothing left of its program but the answer. -/
theorem reply?_eq_some {m : Machine key index τ α ι} {i : ι} {reply : α} :
    m.reply? i = some reply ↔ (m.session i).program = .finish reply := by
  unfold reply?
  split
  · rename_i given program
    rw [program]
    simp
  · rename_i other
    exact ⟨nofun, fun program => absurd program (other reply)⟩

end Machine

end Relational
