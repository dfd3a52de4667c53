import Sluice.Relational.Event

/-! Answers that a call only gives with a commit under the lock of its row. -/

namespace Relational

open Transition

variable {κ υ ρ τ α ι : Type} {key : ρ → κ} {index : ρ → Option υ}

/--
A program that gives certain answers only with a commit under its lock.

It may hold a lock, with the row as it was when the lock was taken and as the transaction sees it.
A commit that may be followed by such an answer finds these two versions as they should be.
-/
inductive Program.Earns (won : α → Prop) (good : ρ → Option ρ → Prop) :
    Option (ρ × Option ρ) → Program key index τ α → Prop where
  | finish {lock : Option (ρ × Option ρ)} {reply : α} (lost : ¬ won reply) :
      Earns won good lock (.finish reply)
  | commit {lock : Option (ρ × Option ρ)} {next : Program key index τ α}
      (rest : Earns won good none next) : Earns won good lock (.commit next)
  | earn {row : ρ} {version : Option ρ} {reply : α} (earned : good row version) :
      Earns won good (some (row, version)) (.commit (.finish reply))
  | lock {holds : ρ → Bool} {skipLocked : Bool} {missing : Program key index τ α}
      {found : ρ → Program key index τ α} (absent : Earns won good none missing)
      (present : ∀ row, holds row = true → Earns won good (some (row, some row)) (found row)) :
      Earns won good none (.lock holds skipLocked missing found)
  | write {holds : ρ → Bool} {change : Change key index} {missing : Program key index τ α}
      {found : ρ → Program key index τ α} (absent : Earns won good none missing)
      (present : ∀ row, holds row = true →
        Earns won good (some (row, change.row row)) (found ((change.row row).getD row))) :
      Earns won good none (.write holds change missing found)
  | rewrite {row : ρ} {version : Option ρ} {holds : ρ → Bool} {change : Change key index}
      {missing : Program key index τ α} {found : ρ → Program key index τ α}
      (absent : Earns won good (some (row, version)) missing)
      (present : ∀ seen, version = some seen → holds seen = true →
        Earns won good (some (row, change.row seen)) (found ((change.row seen).getD seen))) :
      Earns won good (some (row, version)) (.write holds change missing found)
  | read {lock : Option (ρ × Option ρ)} {next : Option ρ → Program key index τ α}
      (rest : ∀ row, Earns won good lock (next row)) : Earns won good lock (.read next)
  | insertLog {lock : Option (ρ × Option ρ)} {entry : ρ → τ} {next : Program key index τ α}
      (rest : Earns won good lock next) : Earns won good lock (.insertLog entry next)
  | updateLog {lock : Option (ρ × Option ρ)} {hit : τ → Bool} {set : τ → Option τ}
      {next : Program key index τ α} (rest : Earns won good lock next) :
      Earns won good lock (.updateLog hit set next)

namespace Session

/-- The two versions of the row that a transaction has locked. -/
def versions (s : Session key index τ α) : Option (ρ × Option ρ) :=
  s.held.map fun row => (row, s.version)

/-- A call that still has to earn its answer. -/
def Earns (won : α → Prop) (good : ρ → Option ρ → Prop) (s : Session key index τ α) : Prop :=
  ∃ lock, s.program.Earns won good lock ∧ s.versions = lock

variable {won : α → Prop} {good : ρ → Option ρ → Prop} {s : Session key index τ α}

/-- A call that asks for its row goes on as its program says. -/
theorem Earns.of_asks {holds : ρ → Bool} {missing : Program key index τ α}
    {taken : ρ → Session key index τ α} (earns : s.Earns won good)
    (asks : s.Asks holds missing taken) (clean : s.held = none → s.changes = []) :
    { s with program := missing, waiting := false }.Earns won good ∧
      ∀ row, holds row = true → (taken row).Earns won good := by
  obtain ⟨lock, earns, same⟩ := earns
  cases asks with
  | lock program =>
    rw [program] at earns
    cases earns with
    | lock absent present =>
      -- With no lock held nothing is changed yet, so the new version is the row itself.
      have free : s.held = none := Option.map_eq_none_iff.mp same
      refine ⟨⟨none, absent, same⟩, fun row hit => ⟨_, present row hit, ?_⟩⟩
      simp [versions, version, clean free]
  | write program free =>
    rw [program] at earns
    cases earns with
    | write absent present =>
      -- The statement that takes the lock makes the first change.
      refine ⟨⟨none, absent, same⟩, fun row hit => ⟨_, present row hit, ?_⟩⟩
      simp [versions, version]
    | rewrite => simp [versions, free] at same

/-- Under its lock a call writes the row as its program says. -/
theorem Earns.of_locked {holds : ρ → Bool} {change : Change key index}
    {missing : Program key index τ α} {found : ρ → Program key index τ α}
    (earns : s.Earns won good) (program : s.program = .write holds change missing found)
    (locked : s.held.isSome = true) :
    { s with program := missing }.Earns won good ∧ ∀ row, s.version = some row →
      holds row = true → { s with
        program := found ((change.row row).getD row)
        changes := s.changes ++ [change] }.Earns won good := by
  obtain ⟨lock, earns, same⟩ := earns
  rw [program] at earns
  cases earns with
  | write =>
    -- This is the statement of a call without a lock.
    rw [Option.map_eq_none_iff.mp same] at locked
    cases locked
  | rewrite absent present =>
    refine ⟨⟨_, absent, same⟩, fun row seen hit => ?_⟩
    obtain ⟨old, held, both⟩ := Option.map_eq_some_iff.mp same
    cases both
    -- The new version is what the change makes of the one before.
    have next : version { s with changes := s.changes ++ [change] } = change.row row := by
      unfold version at seen ⊢
      rw [List.foldl_append, seen]
      rfl
    refine ⟨_, present row seen hit, ?_⟩
    rw [← next, versions, held]
    rfl

/-- A commit ends the transaction, and the call with it if its answer is earned. -/
theorem Earns.of_commit {next : Program key index τ α} (earns : s.Earns won good)
    (program : s.program = .commit next) (k : κ) :
    (start k next).Earns won good ∨ ∃ reply, next = .finish reply := by
  obtain ⟨lock, earns, -⟩ := earns
  rw [program] at earns
  cases earns with
  | commit rest => exact .inl ⟨none, rest, rfl⟩
  | earn => exact .inr ⟨_, rfl⟩

end Session

namespace Machine

variable [DecidableEq κ] [DecidableEq ι] [Fintype ι] {m m' : Machine key index τ α ι} {i j : ι}
  {won : α → Prop} {good : ρ → Option ρ → Prop}

/-- Every statement but a commit leaves the answer to be earned. -/
theorem Moves.earns {s : Session key index τ α} (moves : m.Moves i s) (coherent : m.Coherent)
    (earns : (m.session i).Earns won good) : s.Earns won good := by
  -- A statement on the row may take the lock or change the version, and the others do neither.
  cases moves with
  | miss asks => exact (earns.of_asks asks (coherent.guarded i)).1
  | wait => exact earns
  | take asks _ _ _ hit => exact (earns.of_asks asks (coherent.guarded i)).2 _ hit
  | unmet program locked => exact (earns.of_locked program locked).1
  | rewrite program locked seen hit => exact (earns.of_locked program locked).2 _ seen hit
  | read program =>
    obtain ⟨lock, earns, same⟩ := earns
    rw [program] at earns
    cases earns with
    | read rest => exact ⟨lock, rest _, same⟩
  | insertLog program =>
    obtain ⟨lock, earns, same⟩ := earns
    rw [program] at earns
    cases earns with
    | insertLog rest => exact ⟨lock, rest, same⟩
  | updateLog program =>
    obtain ⟨lock, earns, same⟩ := earns
    rw [program] at earns
    cases earns with
    | updateLog rest => exact ⟨lock, rest, same⟩

/-- A call answers with the statement that ends it, and with none if an error does. -/
def Answers (i : ι) (reply : α) (e : Step (Machine key index τ α ι) (Event ρ α ι)) : Prop :=
  e.label = .statement i ∧ e.post.reply? i = some reply

/-- A call that still has to earn its answer, or has ended. -/
def Pending (won : α → Prop) (good : ρ → Option ρ → Prop) (i : ι)
    (m : Machine key index τ α ι) : Prop :=
  (m.session i).Earns won good ∨ ∃ reply, (m.session i).program = .finish reply

/-- Nothing moves a call that has ended. -/
theorem Moves.unfinished {s : Session key index τ α} (moves : m.Moves i s) (reply : α) :
    (m.session i).program ≠ .finish reply := by
  intro ended
  -- Each kind of move belongs to a program that has a statement left.
  cases moves with
  | miss asks | wait asks | take asks =>
    cases asks with
    | lock program | write program => simp [ended] at program
  | unmet program | rewrite program | read program | insertLog program | updateLog program =>
    simp [ended] at program

variable [DecidableEq υ]

/-- Every event leaves the answer to be earned, or ends the call. -/
theorem Pending.happens {e : Event ρ α ι} (pending : m.Pending won good i)
    (coherent : m.Coherent) (made : m.Happens e m') : m'.Pending won good i := by
  -- Only events of the call itself matter, and an error ends it at once.
  unfold Pending
  rcases happens_session made with same | ⟨j, s, moved, goes⟩
  · rw [same]
    exact pending
  rw [moved]
  by_cases own : i = j
  · subst own
    rw [Function.update_self]
    rcases goes with ⟨-, moves⟩ | ⟨next, rfl, program | ended⟩
    · rcases pending with earns | ⟨reply, ended⟩
      · exact .inl (moves.earns coherent earns)
      · exact absurd ended (moves.unfinished reply)
    · rcases pending with earns | ⟨reply, ended⟩
      · exact earns.of_commit program _
      · rw [ended] at program
        cases program
    · exact .inr ended
  · rw [Function.update_of_ne own]
    exact pending

/-- An answer that has to be earned comes with a commit under the lock of the row. -/
theorem earned_of_answers {e : Step (Machine key index τ α ι) (Event ρ α ι)} {reply : α}
    (coherent : e.pre.Coherent) (pending : e.pre.Pending won good i)
    (made : e.pre.Happens e.label e.post) (answers : Answers i reply e) (wins : won reply) :
    ∃ row, (e.pre.session i).held = some row ∧
      e.pre.table.find? (e.pre.session i).target = some row ∧
      good row (e.post.table.find? (e.pre.session i).target) := by
  obtain ⟨pre, label, post⟩ := e
  obtain ⟨statement, given⟩ := answers
  dsimp only at *
  subst statement
  rw [reply?_eq_some] at given
  rcases pending with earns | ⟨reply', ended⟩
  · rcases step?_inv made with ⟨next, program, rfl⟩ | ⟨s, moves, rfl⟩
    · -- The commit is followed by the answer, so it is the one that earns it.
      obtain ⟨lock, earns, same⟩ := earns
      rw [commit_session] at given
      change next = .finish reply at given
      subst given
      rw [program] at earns
      cases earns with
      | commit rest =>
        cases rest with
        | finish lost => exact absurd wins lost
      | earn earned =>
        obtain ⟨row, held, both⟩ := Option.map_eq_some_iff.mp same
        cases both
        -- What the transaction has made of the row is what the commit leaves.
        refine ⟨_, held, coherent.stored i _ held, ?_⟩
        rw [coherent.find?_commit_self _ (by rw [held]; rfl)]
        exact earned
    · -- Any other statement would have left the answer to be earned.
      obtain ⟨lock, earns, -⟩ := moves.earns coherent earns
      rw [put_session] at given
      rw [given] at earns
      cases earns with
      | finish lost => exact absurd wins lost
  · -- A call that has ended has no statement to make.
    rcases step?_inv made with ⟨next, program, -⟩ | ⟨s, moves, -⟩
    · rw [ended] at program
      cases program
    · exact absurd ended (moves.unfinished reply')

/-- The locks are in order, and the answer is to be earned, all along a run. -/
theorem earned_of_run {past : List (Step (Machine key index τ α ι) (Event ρ α ι))}
    {table : Table key index} {log : List τ} {target : ι → κ}
    {program : ι → Program key index τ α}
    (run : Run Happens (start table log target program) past m)
    (earns : (program i).Earns won good none) : m.Coherent ∧ m.Pending won good i := by
  refine run.invariant (fun m => m.Coherent ∧ m.Pending won good i)
    ⟨coherent_start .., .inl ⟨none, earns, rfl⟩⟩ ?_
  intro m e m' ⟨coherent, pending⟩ made
  exact ⟨coherent.happens made, pending.happens coherent made⟩

end Machine

end Relational
