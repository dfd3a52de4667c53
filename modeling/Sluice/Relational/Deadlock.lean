import Mathlib.Logic.Relation
import Sluice.Relational.Event

/-! Transactions that wait for each other in a circle, and the order of locks that rules it out. -/

namespace Relational

open Transition

variable {κ υ ρ τ α ι : Type} {key : ρ → κ} {index : ρ → Option υ}

namespace Program

/-- Whether the next statement waits for the lock of its row. -/
def needsRow : Program key index τ α → Bool
  | lock _ skipLocked _ _ => !skipLocked
  | write .. => true
  | _ => false

/-- Whether the next statement writes entries of the log. -/
def closesLog : Program key index τ α → Bool
  | updateLog .. => true
  | _ => false

/--
The order in which a program takes its locks, by what it may hold.

A transaction writes the log in one statement only. It does so under the lock of its row if it is
allowed to take the row first, and it locks the row afterwards if it is allowed to take the log
first.
-/
inductive Ordered (rowFirst logFirst : Bool) : Bool → Bool → Program key index τ α → Prop where
  | finish {reply : α} : Ordered rowFirst logFirst false false (.finish reply)
  | commit {held closing : Bool} {next : Program key index τ α}
      (rest : Ordered rowFirst logFirst false false next) :
      Ordered rowFirst logFirst held closing (.commit next)
  | lock {closing : Bool} {holds : ρ → Bool} {skipLocked : Bool} {missing : Program key index τ α}
      {found : ρ → Program key index τ α} (allowed : closing = true → logFirst = true)
      (absent : Ordered rowFirst logFirst false closing missing)
      (present : ∀ row, Ordered rowFirst logFirst true closing (found row)) :
      Ordered rowFirst logFirst false closing (.lock holds skipLocked missing found)
  | write {closing : Bool} {holds : ρ → Bool} {change : Change key index}
      {missing : Program key index τ α} {found : ρ → Program key index τ α}
      (allowed : closing = true → logFirst = true)
      (absent : Ordered rowFirst logFirst false closing missing)
      (present : ∀ row, Ordered rowFirst logFirst true closing (found row)) :
      Ordered rowFirst logFirst false closing (.write holds change missing found)
  | rewrite {closing : Bool} {holds : ρ → Bool} {change : Change key index}
      {missing : Program key index τ α} {found : ρ → Program key index τ α}
      (absent : Ordered rowFirst logFirst true closing missing)
      (present : ∀ row, Ordered rowFirst logFirst true closing (found row)) :
      Ordered rowFirst logFirst true closing (.write holds change missing found)
  | read {held closing : Bool} {next : Option ρ → Program key index τ α}
      (rest : ∀ row, Ordered rowFirst logFirst held closing (next row)) :
      Ordered rowFirst logFirst held closing (.read next)
  | insertLog {held closing : Bool} {entry : ρ → τ} {next : Program key index τ α}
      (rest : Ordered rowFirst logFirst held closing next) :
      Ordered rowFirst logFirst held closing (.insertLog entry next)
  | updateLog {held : Bool} {hit : τ → Bool} {set : τ → Option τ} {next : Program key index τ α}
      (allowed : held = true → rowFirst = true) (rest : Ordered rowFirst logFirst held true next) :
      Ordered rowFirst logFirst held false (.updateLog hit set next)

end Program

namespace Session

/-- A session that takes its locks in order. -/
def Orderly (rowFirst logFirst : Bool) (s : Session key index τ α) : Prop :=
  ∃ held closing, s.program.Ordered rowFirst logFirst held closing ∧ s.held.isSome = held ∧
    (closing = false → s.closed = []) ∧ (s.waiting = true → held = false)

variable {s : Session key index τ α} {rowFirst logFirst : Bool}

/-- A call before its first statement takes its locks in order if its program does. -/
theorem orderly_start (k : κ) {program : Program key index τ α}
    (ordered : program.Ordered rowFirst logFirst false false) :
    (start k program).Orderly rowFirst logFirst :=
  ⟨false, false, ordered, rfl, fun _ => rfl, fun _ => rfl⟩

/-- An orderly call that asks for its row gets it, or goes on without it, in order. -/
theorem Orderly.of_asks {holds : ρ → Bool} {missing : Program key index τ α}
    {taken : ρ → Session key index τ α} (orderly : s.Orderly rowFirst logFirst)
    (asks : s.Asks holds missing taken) :
    { s with program := missing, waiting := false }.Orderly rowFirst logFirst ∧
      { s with waiting := true }.Orderly rowFirst logFirst ∧
      ∀ row, (taken row).Orderly rowFirst logFirst := by
  obtain ⟨held, closing, ordered, same, unwritten, -⟩ := orderly
  cases asks with
  | lock program =>
    -- The call that goes on waiting has the same program as before.
    have again := ordered
    rw [program] at ordered
    cases ordered with
    | lock allowed absent present =>
      exact ⟨⟨false, closing, absent, same, unwritten, nofun⟩,
        ⟨false, closing, again, same, unwritten, fun _ => rfl⟩,
        fun row => ⟨true, closing, present row, rfl, unwritten, nofun⟩⟩
  | write program free =>
    have again := ordered
    rw [program] at ordered
    cases ordered with
    | write allowed absent present =>
      exact ⟨⟨false, closing, absent, same, unwritten, nofun⟩,
        ⟨false, closing, again, same, unwritten, fun _ => rfl⟩,
        fun row => ⟨true, closing, present _, rfl, unwritten, nofun⟩⟩
    | rewrite =>
      -- A second write would need the lock that the call does not have.
      rw [free] at same
      cases same

/-- An orderly call that writes the row it has locked goes on in order. -/
theorem Orderly.of_locked {holds : ρ → Bool} {change : Change key index}
    {missing : Program key index τ α} {found : ρ → Program key index τ α}
    (orderly : s.Orderly rowFirst logFirst)
    (program : s.program = .write holds change missing found) (locked : s.held.isSome = true) :
    { s with program := missing }.Orderly rowFirst logFirst ∧
      ∀ row changes, { s with program := found row, changes }.Orderly rowFirst logFirst := by
  obtain ⟨held, closing, ordered, same, unwritten, unlocked⟩ := orderly
  rw [program] at ordered
  cases ordered with
  | write =>
    -- This is the write of a call without a lock.
    rw [locked] at same
    cases same
  | rewrite absent present =>
    exact ⟨⟨true, closing, absent, same, unwritten, unlocked⟩,
      fun row changes => ⟨true, closing, present row, same, unwritten, unlocked⟩⟩

/-- An orderly call that waits for its row has locked none, and may have written the log first. -/
theorem Orderly.of_waiting (orderly : s.Orderly rowFirst logFirst) (waits : s.waiting = true)
    (needs : s.program.needsRow = true) :
    s.held.isSome = false ∧ (s.closed ≠ [] → logFirst = true) := by
  obtain ⟨held, closing, ordered, same, unwritten, unlocked⟩ := orderly
  obtain rfl : held = false := unlocked waits
  refine ⟨same, fun written => ?_⟩
  -- Whoever has written the log stands behind the statement that does so.
  have closes : closing = true := by
    cases closing with
    | true => rfl
    | false => exact absurd (unwritten rfl) written
  generalize s.program = program at ordered needs
  cases ordered with
  | lock allowed => exact allowed closes
  | write allowed => exact allowed closes
  | finish | commit | read | insertLog | updateLog => cases needs

/-- An orderly call that is about to write the log has not done so, and may have locked its row. -/
theorem Orderly.of_closing (orderly : s.Orderly rowFirst logFirst)
    (closes : s.program.closesLog = true) :
    s.closed = [] ∧ (s.held.isSome = true → rowFirst = true) := by
  -- The statement that writes the log is the only one of its transaction.
  obtain ⟨held, closing, ordered, same, unwritten, -⟩ := orderly
  generalize s.program = program at ordered closes
  cases ordered with
  | updateLog allowed => exact ⟨unwritten rfl, fun locked => allowed (same ▸ locked)⟩
  | finish | commit | lock | write | rewrite | read | insertLog => cases closes

end Session

namespace Machine

variable [DecidableEq κ] [DecidableEq ι] {m m' : Machine key index τ α ι} {i j : ι}

/-- Whether a call waits for a lock that another one holds. -/
def waitsFor (m : Machine key index τ α ι) (i j : ι) : Bool :=
  decide (i ≠ j) &&
    match (m.session i).program with
    | .updateLog hit _ _ => (m.hits i hit).any fun entry =>
      (m.session j).closed.any fun written => written.1 == entry.2
    | program => (m.session i).waiting && program.needsRow && (m.session j).held.isSome &&
      decide ((m.session j).target = (m.session i).target)

/-- Some calls wait for each other in a circle. -/
def Deadlocked (m : Machine key index τ α ι) : Prop :=
  ∃ i, Relation.TransGen (fun i j => m.waitsFor i j = true) i i

/-- A call that waits asks for its row, or it is about to write entries of the log. -/
theorem waitsFor_inv (waits : m.waitsFor i j = true) :
    i ≠ j ∧ (((m.session i).waiting = true ∧ (m.session i).program.needsRow = true ∧
        (m.session j).held.isSome = true ∧ (m.session j).target = (m.session i).target) ∨
      ((m.session i).program.closesLog = true ∧ (m.session j).closed ≠ [])) := by
  -- The next statement says which kind of lock is in question.
  unfold waitsFor at waits
  rw [Bool.and_eq_true, decide_eq_true_eq] at waits
  obtain ⟨apart, waits⟩ := waits
  refine ⟨apart, ?_⟩
  split at waits
  · -- One of the entries to write has been written by the other call.
    rename_i hit set next program
    right
    refine ⟨by rw [program]; rfl, ?_⟩
    obtain ⟨entry, -, written⟩ := List.any_eq_true.mp waits
    intro empty
    simp [empty] at written
  · left
    simp only [Bool.and_eq_true, decide_eq_true_eq] at waits
    exact ⟨waits.1.1.1, waits.1.1.2, waits.1.2, waits.2⟩

variable {rowFirst logFirst : ι → Bool}

/-- Two calls of one row, one with the lock of the row and one with uncommitted log entries. -/
def Entangled (rowFirst logFirst : ι → Bool) (m : Machine key index τ α ι) : Prop :=
  ∃ i j, i ≠ j ∧ rowFirst i = true ∧ logFirst j = true ∧
    (m.session i).target = (m.session j).target ∧
    (m.session i).held.isSome = true ∧ (m.session j).closed ≠ []

omit [DecidableEq κ] [DecidableEq ι] in
/-- Whoever is on a circle leads to somebody else on it. -/
theorem cycle_next {r : ι → ι → Prop} (cycle : Relation.TransGen r i i) :
    ∃ j, r i j ∧ Relation.TransGen r j j := by
  obtain ⟨j, first, rest⟩ := Relation.TransGen.head'_iff.mp cycle
  exact ⟨j, first, .tail' rest first⟩

/-- From a call that waits for the log it takes two more calls on the circle. -/
theorem entangled_of_closing
    (orderly : ∀ i, (m.session i).Orderly (rowFirst i) (logFirst i))
    (cycle : Relation.TransGen (fun i j => m.waitsFor i j = true) j j)
    (written : (m.session j).closed ≠ []) : m.Entangled rowFirst logFirst := by
  -- The first has written the log, so it waits for its row.
  obtain ⟨k, waits, cycle⟩ := cycle_next cycle
  obtain ⟨apart, ⟨waiting, needs, locked, same⟩ | ⟨closes, -⟩⟩ := waitsFor_inv waits
  · have late : logFirst j = true := ((orderly j).of_waiting waiting needs).2 written
    -- The second has locked that row, so it waits for the log.
    obtain ⟨l, waits, -⟩ := cycle_next cycle
    obtain ⟨-, ⟨waiting', needs', -⟩ | ⟨closes, -⟩⟩ := waitsFor_inv waits
    · rw [((orderly k).of_waiting waiting' needs').1] at locked
      cases locked
    · exact ⟨k, j, apart.symm, ((orderly k).of_closing closes).2 locked, late, same, locked,
        written⟩
  · exact absurd ((orderly j).of_closing closes).1 written

/-- Calls that take their locks in order only wait in a circle if two of them are entangled. -/
theorem entangled_of_deadlocked
    (orderly : ∀ i, (m.session i).Orderly (rowFirst i) (logFirst i)) (stuck : m.Deadlocked) :
    m.Entangled rowFirst logFirst := by
  obtain ⟨i, cycle⟩ := stuck
  obtain ⟨j, waits, cycle⟩ := cycle_next cycle
  obtain ⟨-, ⟨-, -, locked, -⟩ | ⟨-, written⟩⟩ := waitsFor_inv waits
  · -- Whoever has locked a row waits for the log.
    obtain ⟨k, waits, cycle⟩ := cycle_next cycle
    obtain ⟨-, ⟨waiting, needs, -⟩ | ⟨-, written⟩⟩ := waitsFor_inv waits
    · rw [((orderly j).of_waiting waiting needs).1] at locked
      cases locked
    · exact entangled_of_closing orderly cycle written
  · exact entangled_of_closing orderly cycle written

variable [Fintype ι]

/--
Whether a call takes its first lock while another call of the row, which takes its locks in the
other order, has already taken its own.
-/
def crosses (rowFirst logFirst : ι → Bool) (m : Machine key index τ α ι) : Event ρ α ι → Bool
  | .statement i => decide <| ∃ j, j ≠ i ∧ (m.session j).target = (m.session i).target ∧
      (rowFirst i = true ∧ (m.session i).waiting = true ∧ logFirst j = true ∧
          (m.session j).closed.isEmpty = false ∨
        logFirst i = true ∧ (m.session i).program.closesLog = true ∧ rowFirst j = true ∧
          (m.session j).held.isSome = true)
  | _ => false

/-- A call that takes its locks in order goes on doing so. -/
theorem Moves.orderly {s : Session key index τ α} {early late : Bool} (moves : m.Moves i s)
    (orderly : (m.session i).Orderly early late) : s.Orderly early late := by
  -- The order only depends on what is locked and written, and each move keeps track of that.
  cases moves with
  | miss asks => exact (orderly.of_asks asks).1
  | wait asks => exact (orderly.of_asks asks).2.1
  | take asks => exact (orderly.of_asks asks).2.2 _
  | unmet program locked => exact (orderly.of_locked program locked).1
  | rewrite program locked => exact (orderly.of_locked program locked).2 _ _
  | read program =>
    obtain ⟨held, closing, ordered, same, unwritten, unlocked⟩ := orderly
    rw [program] at ordered
    cases ordered with
    | read rest => exact ⟨held, closing, rest _, same, unwritten, unlocked⟩
  | insertLog program =>
    obtain ⟨held, closing, ordered, same, unwritten, unlocked⟩ := orderly
    rw [program] at ordered
    cases ordered with
    | insertLog rest => exact ⟨held, closing, rest, same, unwritten, unlocked⟩
  | updateLog program =>
    obtain ⟨held, closing, ordered, same, unwritten, unlocked⟩ := orderly
    rw [program] at ordered
    cases ordered with
    | updateLog allowed rest => exact ⟨held, true, rest, same, nofun, unlocked⟩

/-- A row is locked by a call that has waited for it. -/
theorem Moves.held {s : Session key index τ α} (moves : m.Moves i s)
    (locks : s.held.isSome = true) :
    (m.session i).held.isSome = true ∨ (m.session i).waiting = true := by
  cases moves with
  | take _ waited => exact .inr waited
  | miss | wait | unmet | rewrite | read | insertLog | updateLog => exact .inl locks

/-- Entries of the log are written by the statement that does so. -/
theorem Moves.closed {s : Session key index τ α} (moves : m.Moves i s) (writes : s.closed ≠ []) :
    (m.session i).closed ≠ [] ∨ (m.session i).program.closesLog = true := by
  cases moves with
  | take asks => cases asks <;> exact .inl writes
  | updateLog program => exact .inr (by rw [program]; rfl)
  | miss | wait | unmet | rewrite | read | insertLog => exact .inl writes

/-- Every event leaves the calls in order. -/
theorem happens_orderly [DecidableEq υ] {e : Event ρ α ι}
    (orderly : ∀ i, (m.session i).Orderly (rowFirst i) (logFirst i)) (made : m.Happens e m')
    (j : ι) : (m'.session j).Orderly (rowFirst j) (logFirst j) := by
  rcases happens_session made with same | ⟨i, s, moved, goes⟩
  · rw [same]
    exact orderly j
  · rw [moved]
    by_cases own : j = i
    · subst own
      rw [Function.update_self]
      rcases goes with ⟨-, moves⟩ | ⟨next, rfl, program | ⟨reply, rfl⟩⟩
      · exact moves.orderly (orderly j)
      · -- A commit gives all locks back, as the rest of the program expects.
        obtain ⟨held, closing, ordered, -⟩ := orderly j
        rw [program] at ordered
        cases ordered with
        | commit rest => exact Session.orderly_start _ rest
      · exact Session.orderly_start _ .finish
    · rw [Function.update_of_ne own]
      exact orderly j

/-- Two calls only get entangled when one of them crosses the other. -/
theorem happens_entangled [DecidableEq υ] {e : Event ρ α ι} (made : m.Happens e m')
    (entangled : m'.Entangled rowFirst logFirst) :
    m.Entangled rowFirst logFirst ∨ m.crosses rowFirst logFirst e = true := by
  obtain ⟨i, j, apart, early, late, same, locked, written⟩ := entangled
  rcases happens_session made with kept | ⟨k, s, moved, goes⟩
  · rw [kept] at same locked written
    exact .inl ⟨i, j, apart, early, late, same, locked, written⟩
  rw [moved] at same locked written
  by_cases first : i = k
  · -- The call that locks the row has moved, and the other one has not.
    subst first
    rw [Function.update_self] at same locked
    rw [Function.update_of_ne apart.symm] at same written
    rcases goes with ⟨rfl, moves⟩ | ⟨next, rfl, -⟩
    · rw [moves.target] at same
      rcases moves.held locked with before | waited
      · exact .inl ⟨i, j, apart, early, late, same, before, written⟩
      · -- The lock is new, so the other call was already writing the log.
        refine .inr (decide_eq_true ⟨j, apart.symm, same.symm, .inl ⟨early, waited, late, ?_⟩⟩)
        exact List.isEmpty_eq_false_iff.mpr written
    · cases locked
  · rw [Function.update_of_ne first] at same locked
    by_cases second : j = k
    · -- The call that writes the log has moved, and the other one has not.
      subst second
      rw [Function.update_self] at same written
      rcases goes with ⟨rfl, moves⟩ | ⟨next, rfl, -⟩
      · rw [moves.target] at same
        rcases moves.closed written with before | closes
        · exact .inl ⟨i, j, apart, early, late, same, locked, before⟩
        · exact .inr (decide_eq_true ⟨i, apart, same, .inr ⟨late, closes, early, locked⟩⟩)
      · exact absurd rfl written
    · rw [Function.update_of_ne second] at same written
      exact .inl ⟨i, j, apart, early, late, same, locked, written⟩

/-- Calls that take their locks in order and never cross each other never wait in a circle. -/
theorem not_deadlocked_of_run [DecidableEq υ]
    {past : List (Step (Machine key index τ α ι) (Event ρ α ι))} (run : Run Happens m past m')
    (orderly : ∀ i, (m.session i).Orderly (rowFirst i) (logFirst i))
    (free : ∀ i, (m.session i).held = none)
    (apart : ∀ e ∈ past, e.pre.crosses rowFirst logFirst e.label = false) : ¬ m'.Deadlocked := by
  -- The calls stay in order, and no two of them get entangled.
  have kept := run.along
    (fun m => (∀ i, (m.session i).Orderly (rowFirst i) (logFirst i)) ∧
      ¬ m.Entangled rowFirst logFirst)
    ⟨orderly, fun ⟨i, _, _, _, _, _, locked, _⟩ => by simp [free i] at locked⟩
    fun m e m' taken ⟨ordered, loose⟩ made => by
      refine ⟨happens_orderly ordered made, fun entangled => ?_⟩
      rcases happens_entangled made entangled with before | crossed
      · exact loose before
      · exact Bool.false_ne_true ((apart _ taken).symm.trans crossed)
  exact fun stuck => kept.2 (entangled_of_deadlocked kept.1 stuck)

end Machine

end Relational
