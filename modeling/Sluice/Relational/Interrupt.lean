import Sluice.Relational.Event

/-! Calls that an error stops on their way, and what they have committed by then. -/

namespace Relational

variable {κ υ ρ τ α ι : Type} {key : ρ → κ} {index : ρ → Option υ}

/-- A call that commits once, as the last thing it does. -/
inductive Program.Whole : Program key index τ α → Prop where
  | finish (reply : α) : Whole (.finish reply)
  | commit (reply : α) : Whole (.commit (.finish reply))
  | lock {holds : ρ → Bool} {skipLocked : Bool} {missing : Program key index τ α}
      {found : ρ → Program key index τ α} (absent : Whole missing)
      (present : ∀ row, Whole (found row)) : Whole (.lock holds skipLocked missing found)
  | write {holds : ρ → Bool} {change : Change key index} {missing : Program key index τ α}
      {found : ρ → Program key index τ α} (absent : Whole missing)
      (present : ∀ row, Whole (found row)) : Whole (.write holds change missing found)
  | read {next : Option ρ → Program key index τ α} (rest : ∀ row, Whole (next row)) :
      Whole (.read next)
  | insertLog {entry : ρ → τ} {next : Program key index τ α} (rest : Whole next) :
      Whole (.insertLog entry next)
  | updateLog {hit : τ → Bool} {set : τ → Option τ} {next : Program key index τ α}
      (rest : Whole next) : Whole (.updateLog hit set next)

/-- A call, or the rest of one, that has no statement on the table left. -/
inductive Program.LogOnly : Program key index τ α → Prop where
  | finish (reply : α) : LogOnly (.finish reply)
  | commit {next : Program key index τ α} (rest : LogOnly next) : LogOnly (.commit next)
  | updateLog {hit : τ → Bool} {set : τ → Option τ} {next : Program key index τ α}
      (rest : LogOnly next) : LogOnly (.updateLog hit set next)

namespace Machine

variable [DecidableEq κ] [DecidableEq ι] [Fintype ι] {m m' : Machine key index τ α ι} {i : ι}

/-- One statement of a call to its end, which locks its row as soon as it has found it. -/
def statement (m : Machine key index τ α ι) (i : ι) : Machine key index τ α ι :=
  let m' := m.move i
  if (m'.session i).waiting then m'.move i else m'

/-- A number of statements and commits of one call while all others rest. -/
def advance (m : Machine key index τ α ι) (i : ι) : Nat → Machine key index τ α ι
  | 0 => m
  | n + 1 => (m.advance i n).statement i

/-- Everything but a commit leaves the committed state alone. -/
theorem step?_uncommitted (made : m.step? i = some m')
    (other : ∀ next, (m.session i).program ≠ .commit next) :
    m'.table = m.table ∧ m'.log = m.log := by
  rcases step?_inv made with ⟨next, program, -⟩ | ⟨s, -, rfl⟩
  · exact absurd program (other next)
  · exact ⟨rfl, rfl⟩

/-- Every statement but a commit leaves a whole call whole. -/
theorem Moves.whole {s : Session key index τ α} (moves : m.Moves i s)
    (whole : (m.session i).program.Whole) : s.program.Whole := by
  cases moves with
  | miss asks =>
    cases asks with
    | lock program | write program =>
      rw [program] at whole
      cases whole
      assumption
  | wait => exact whole
  | take asks =>
    -- The row decides how the call goes on, and every way is whole.
    cases asks with
    | lock program =>
      rw [program] at whole
      cases whole with
      | lock _ present => exact present _
    | write program =>
      rw [program] at whole
      cases whole with
      | write _ present => exact present _
  | unmet program =>
    rw [program] at whole
    cases whole with
    | write absent => exact absent
  | rewrite program =>
    rw [program] at whole
    cases whole with
    | write _ present => exact present _
  | read program =>
    rw [program] at whole
    cases whole with
    | read rest => exact rest _
  | insertLog program =>
    rw [program] at whole
    cases whole with
    | insertLog rest => exact rest
  | updateLog program =>
    rw [program] at whole
    cases whole with
    | updateLog rest => exact rest

/-- A whole call goes on as a whole call, or has committed and is finished. -/
theorem step?_whole (made : m.step? i = some m') (whole : (m.session i).program.Whole) :
    (∃ reply, (m'.session i).program = .finish reply) ∨ (m'.session i).program.Whole := by
  rcases step?_inv made with ⟨next, program, rfl⟩ | ⟨s, moves, rfl⟩
  · -- The only commit of a whole call is followed by its answer.
    rw [program] at whole
    cases whole with
    | commit reply => exact .inl ⟨reply, by simp [Session.start]⟩
  · right
    rw [put_session]
    exact moves.whole whole

/-- What every step of a call keeps, its statements keep as well. -/
theorem advance_invariant {P : Machine key index τ α ι → Prop} (keeps : ∀ m, P m → P (m.move i))
    (initial : P m) (n : Nat) : P (m.advance i n) := by
  -- A statement is one step or two.
  induction n with
  | zero => exact initial
  | succ n ih =>
    unfold advance statement
    dsimp only
    split
    · exact keeps _ (keeps _ ih)
    · exact keeps _ ih

/-- A call goes on from where it stands. -/
theorem advance_add (m : Machine key index τ α ι) (i : ι) (n k : Nat) :
    m.advance i (n + k) = (m.advance i n).advance i k := by
  induction k with
  | zero => rfl
  | succ k ih => exact congrArg (·.statement i) ih

/-- An answer is the end of a call. -/
theorem advance_answered {reply : α} (answered : (m.session i).program = .finish reply) (n : Nat) :
    m.advance i n = m := by
  refine advance_invariant (P := (· = m)) ?_ rfl n
  rintro _ rfl
  simp [move, step?, answered]

/-- A whole call has committed nothing as long as it has not answered. -/
theorem advance_whole (whole : (m.session i).program.Whole) (n : Nat) :
    (∃ reply, ((m.advance i n).session i).program = .finish reply) ∨
      (m.advance i n).table = m.table ∧ (m.advance i n).log = m.log := by
  -- The call stays whole until its only commit, which is followed by its answer.
  let kept (m' : Machine key index τ α ι) : Prop :=
    (∃ reply, (m'.session i).program = .finish reply) ∨
      (m'.session i).program.Whole ∧ m'.table = m.table ∧ m'.log = m.log
  have keeps (m' : Machine key index τ α ι) (before : kept m') : kept (m'.move i) := by
    unfold move
    cases made : m'.step? i with
    | none => exact before
    | some m'' =>
      rcases before with ⟨reply, finished⟩ | ⟨rest, table, log⟩
      · simp [step?, finished] at made
      · rcases step?_whole made rest with ended | rest'
        · exact .inl ended
        · by_cases committing : ∃ next, (m'.session i).program = .commit next
          · obtain ⟨next, program⟩ := committing
            rw [program] at rest
            cases rest with
            | commit reply =>
              simp only [step?, program, Option.some.injEq] at made
              exact .inl ⟨reply, by simp [← made, commit, Session.start]⟩
          · obtain ⟨table', log'⟩ := step?_uncommitted made (not_exists.mp committing)
            exact .inr ⟨rest', table'.trans table, log'.trans log⟩
  rcases advance_invariant (P := kept) keeps (.inr ⟨whole, rfl, rfl⟩) n with
    ended | ⟨-, table, log⟩
  · exact .inl ended
  · exact .inr ⟨table, log⟩

/-- A call that has only the log left never writes the table again. -/
theorem move_logOnly (rest : (m.session i).program.LogOnly) (clean : (m.session i).changes = []) :
    ((m.move i).session i).program.LogOnly ∧ ((m.move i).session i).changes = [] ∧
      (m.move i).table = m.table := by
  unfold move
  cases made : m.step? i with
  | none => exact ⟨rest, clean, rfl⟩
  | some m' =>
    unfold step? at made
    dsimp only at made
    generalize program : (m.session i).program = p at made rest
    cases rest with
    | finish => cases made
    | commit rest =>
      cases made
      simp [commit, Session.start, rest, clean]
    | updateLog rest =>
      dsimp only at made
      split at made
      · cases made
      · cases made
        simp [rest, clean, put]

/-- The rest of a call that has only the log left keeps the table. -/
theorem advance_logOnly (rest : (m.session i).program.LogOnly)
    (clean : (m.session i).changes = []) (n : Nat) : (m.advance i n).table = m.table := by
  -- The open transaction never has a change for the table.
  let kept (m' : Machine key index τ α ι) : Prop :=
    (m'.session i).program.LogOnly ∧ (m'.session i).changes = [] ∧ m'.table = m.table
  have keeps (m' : Machine key index τ α ι) (before : kept m') : kept (m'.move i) := by
    obtain ⟨rest, clean, table⟩ := before
    obtain ⟨rest', clean', table'⟩ := move_logOnly rest clean
    exact ⟨rest', clean', table'.trans table⟩
  exact (advance_invariant (P := kept) keeps ⟨rest, clean, rfl⟩ n).2.2

/-- A commit, whose session starts afresh. -/
theorem statement_commit {next : Program key index τ α}
    (program : (m.session i).program = .commit next) : m.statement i = m.commit i next := by
  simp [statement, move, step?, program, commit, Session.start]

/-- An update that no other call is in the way of, up to the end of its statement. -/
theorem statement_write {holds : ρ → Bool} {change : Change key index}
    {missing : Program key index τ α} {found : ρ → Program key index τ α} {k : κ}
    (fresh : m.session i = .start k (.write holds change missing found))
    (alone : ∀ j, j = i) :
    (m.statement i).table = m.table ∧ (m.statement i).log = m.log ∧
      (m.statement i).session i = ((m.table.find? k).filter holds).elim (.start k missing)
        fun row => { Session.start k (found ((change.row row).getD row)) with
          held := some row, changes := [change] } := by
  have free (m' : Machine key index τ α ι) : m'.locked i = false := by
    simp [locked, alone]
  cases row : (m.table.find? k).filter holds with
  | none => simp [statement, move, step?, acquire, fresh, row, Session.start, put]
  | some row' => simp [statement, move, step?, acquire, fresh, row, Session.start, put, free]

/-- A locking read that no other call is in the way of, up to the end of its statement. -/
theorem statement_lock {holds : ρ → Bool} {skipLocked : Bool} {missing : Program key index τ α}
    {found : ρ → Program key index τ α} {k : κ} {row : ρ}
    (fresh : m.session i = .start k (.lock holds skipLocked missing found)) (alone : ∀ j, j = i)
    (hit : (m.table.find? k).filter holds = some row) :
    m.statement i = m.put i { Session.start k (found row) with held := some row } := by
  -- The statement looks at the row, waits for a lock that nobody holds, and looks again.
  have free (m' : Machine key index τ α ι) : m'.locked i = false := by
    simp [locked, alone]
  have kept (s : Session key index τ α) : (m.put i s).table = m.table := rfl
  simp [statement, move, step?, acquire, fresh, hit, kept, Session.start, free]

/-- An update of the row that the transaction has locked. -/
theorem statement_write_locked {holds : ρ → Bool} {change : Change key index}
    {missing : Program key index τ α} {found : ρ → Program key index τ α} {row : ρ}
    {s : Session key index τ α} (program : s.program = .write holds change missing found)
    (running : s.waiting = false) (held : s.held.isSome = true)
    (version : s.version.filter holds = some row) :
    (m.put i s).statement i = m.put i { s with
      program := found ((change.row row).getD row), changes := s.changes ++ [change] } := by
  simp [statement, move, step?, program, running, held, version]

/-- An update of the log that no other call is in the way of and that does not fail. -/
theorem statement_updateLog {hit : τ → Bool} {set : τ → Option τ} {next : Program key index τ α}
    {s : Session key index τ α} (program : s.program = .updateLog hit set next)
    (running : s.waiting = false) (untouched : s.closed = []) (alone : ∀ j, j = i)
    (closable : ∀ entry ∈ m.log, hit entry = true → (set entry).isSome = true) :
    ∃ closed, (m.put i s).statement i = m.put i { s with program := next, closed } := by
  have free (hits : List (τ × Nat)) : (m.put i s).logLocked i hits = false := by
    simp [logLocked, alone]
  -- The transaction has not written the log before, so it meets the committed entries.
  have fits : ((m.put i s).hits i hit).all (fun entry => (set entry.1).isSome) = true := by
    refine List.all_eq_true.mpr fun entry listed => ?_
    simp only [hits, put_session, Session.rewritten, untouched, List.foldl_nil,
      List.mem_filter] at listed
    exact closable entry.1 (List.fst_mem_of_mem_zipIdx listed.1) listed.2
  refine ⟨s.closed ++ ((m.put i s).hits i hit).filterMap fun entry =>
    (set entry.1).map fun new => (entry.2, new), ?_⟩
  simp [statement, move, step?, program, running, free, fits]

section Autocommit

variable {holds : ρ → Bool} {change : Change key index} {reply : α} {next : Program key index τ α}
  {k : κ}
  (fresh : m.session i = .start k (.write holds change (.finish reply) fun _ => .commit next))
  (alone : ∀ j, j = i)

include fresh alone

/-- A write that finds no row ends the call. -/
theorem advance_missed (missed : (m.table.find? k).filter holds = none) (n : Nat) :
    ((m.advance i (n + 1)).session i).program = .finish reply := by
  obtain ⟨-, -, session⟩ := statement_write fresh alone
  have answered : ((m.statement i).session i).program = .finish reply := by
    rw [session, missed]
    rfl
  rw [Nat.add_comm, advance_add]
  exact (advance_answered (m := m.statement i) answered n).symm ▸ answered

/-- A write that commits by itself stays in the table, however far the call comes with the log. -/
theorem advance_committed (rest : next.LogOnly) {row : ρ}
    (found : (m.table.find? k).filter holds = some row) (n : Nat) :
    (m.advance i (n + 2)).table = change.apply k m.table := by
  -- The commit follows the write, and what comes later concerns the log.
  obtain ⟨table, -, session⟩ := statement_write fresh alone
  rw [found] at session
  have committed : m.advance i 2 = (m.statement i).commit i next :=
    statement_commit (m := m.statement i) (by rw [session]; rfl)
  have after : ((m.advance i 2).session i) = .start k next := by
    rw [committed]
    simp [commit, session, Session.start]
  rw [Nat.add_comm, advance_add, advance_logOnly (by rw [after]; exact rest) (by rw [after]; rfl),
    committed]
  simp [commit, session, table, Session.start]

end Autocommit

section Transaction

variable {holds : ρ → Bool} {skipLocked : Bool} {missing : Program key index τ α}
  {names : ρ → Bool} {change : ρ → Change key index} {close : ρ → Program key index τ α}
  {hit : τ → Bool} {set : τ → Option τ} {reply : α} {k : κ} {row : ρ}

/--
A transaction that locks its row, changes it, and closes entries of the log.

All it does to the table is in its commit, which is the fourth thing it does.
-/
theorem advance_transaction
    (fresh : m.session i = .start k (.lock holds skipLocked missing fun row =>
      .write names (change row) (close row) fun _ => close row))
    (alone : ∀ j, j = i) (found : (m.table.find? k).filter holds = some row)
    (named : names row = true) (closes : close row = .updateLog hit set (.commit (.finish reply)))
    (closable : ∀ entry ∈ m.log, hit entry = true → (set entry).isSome = true) (n : Nat) :
    (m.advance i n).table = if 4 ≤ n then (change row).apply k m.table else m.table := by
  -- The four things are the lock, the write, the update of the log, and the commit.
  have first : m.advance i 1 = _ := statement_lock fresh alone found
  have second : m.advance i 2 = m.put i { Session.start k (close row) with
      held := some row, changes := [change row] } :=
    (congrArg (·.statement i) first).trans
      (statement_write_locked rfl rfl rfl (Option.filter_eq_some_iff.mpr ⟨rfl, named⟩))
  have third : ∃ closed, m.advance i 3 = m.put i { Session.start k (.commit (.finish reply)) with
      held := some row, changes := [change row], closed } := by
    have next : m.advance i 3 = (m.advance i 2).statement i := rfl
    rw [next, second]
    exact statement_updateLog closes rfl rfl alone closable
  obtain ⟨closed, third⟩ := third
  have fourth : m.advance i 4 = _ :=
    (congrArg (·.statement i) third).trans (statement_commit (by simp; rfl))
  by_cases late : 4 ≤ n
  · -- Nothing follows the commit but the answer.
    obtain ⟨rest, rfl⟩ := Nat.exists_eq_add_of_le late
    have ended : ((m.advance i 4).session i).program = .finish reply := by
      rw [fourth]
      simp [commit, Session.start]
    rw [advance_add, advance_answered ended, if_pos late, fourth]
    simp [commit, Session.start, put]
  · rw [if_neg late]
    obtain rfl | rfl | rfl | rfl : n = 0 ∨ n = 1 ∨ n = 2 ∨ n = 3 := by omega
    · rfl
    · rw [first]; rfl
    · rw [second]; rfl
    · rw [third]; rfl

end Transaction

end Machine

end Relational
