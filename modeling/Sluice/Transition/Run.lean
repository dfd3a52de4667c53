import Mathlib.Data.List.Basic
import Mathlib.Data.List.Induction

/-! Finite runs of a transition system, with the rules that lift steps to whole runs. -/

namespace Transition

variable {σ α : Type}

/-- One transition as it happened: where it started, what it was, and where it led. -/
structure Step (σ α : Type) where
  pre : σ
  label : α
  post : σ

/-- A run from a start state, with the steps taken in order and the state they lead to. -/
inductive Run (next : σ → α → σ → Prop) (start : σ) : List (Step σ α) → σ → Prop
  | nil : Run next start [] start
  -- Histories grow at their end, so the last step is the latest.
  | snoc {past : List (Step σ α)} {s s' : σ} {a : α} (run : Run next start past s)
      (step : next s a s') : Run next start (past ++ [⟨s, a, s'⟩]) s'

variable {next : σ → α → σ → Prop} {start : σ}

namespace Run

/-- Whatever holds at the start and survives each step holds at the end of every run. -/
theorem invariant {past : List (Step σ α)} {s : σ} (run : Run next start past s)
    (Inv : σ → Prop) (init : Inv start)
    (keep : ∀ s a s', Inv s → next s a s' → Inv s') : Inv s := by
  -- The last step starts where the shorter run ends.
  induction run with
  | nil => exact init
  | snoc run step ih => exact keep _ _ _ ih step

/-- The same rule when only the steps of this run are known to keep the fact. -/
theorem along {past : List (Step σ α)} {s : σ} (run : Run next start past s)
    (Inv : σ → Prop) (init : Inv start)
    (keep : ∀ s a s', ⟨s, a, s'⟩ ∈ past → Inv s → next s a s' → Inv s') : Inv s := by
  induction run with
  | nil => exact init
  | snoc run step ih =>
    -- The steps of the shorter run are steps of the whole run too.
    refine keep _ _ _ (by simp) (ih fun s a s' listed => ?_) step
    exact keep s a s' (List.mem_append_left _ listed)

/-- The same rule for facts about the steps taken so far. -/
theorem history {past : List (Step σ α)} {s : σ} (run : Run next start past s)
    (Inv : List (Step σ α) → σ → Prop) (init : Inv [] start)
    (keep : ∀ past s a s', Run next start past s → Inv past s → next s a s' →
      Inv (past ++ [⟨s, a, s'⟩]) s') : Inv past s := by
  -- The induction is on the run, so the history grows together with the state.
  induction run with
  | nil => exact init
  | snoc run step ih => exact keep _ _ _ _ run ih step

/-- Two runs that meet can be joined. -/
theorem append {past later : List (Step σ α)} {s s' : σ} (run : Run next start past s)
    (rest : Run next s later s') : Run next start (past ++ later) s' := by
  -- The steps of the second run are taken over one by one.
  induction rest with
  | nil => rwa [List.append_nil]
  | snoc rest step ih =>
    rw [← List.append_assoc]
    exact ih.snoc step

/-- A run can be cut at any point of its history. -/
theorem cut {past later : List (Step σ α)} {s : σ} (run : Run next start (past ++ later) s) :
    ∃ mid, Run next start past mid ∧ Run next mid later s := by
  -- Steps are peeled off the end until the cut point is reached.
  induction later using List.reverseRecOn generalizing s with
  | nil => exact ⟨s, by rwa [List.append_nil] at run, .nil⟩
  | append_singleton later last ih =>
    rw [← List.append_assoc] at run
    generalize joined : past ++ later ++ [last] = steps at run
    cases run with
    | nil => simp at joined
    | snoc run step =>
      -- The last step of the run is the last entry of the history.
      obtain ⟨same, tail⟩ := List.append_inj' joined rfl
      subst same
      obtain ⟨mid, front, back⟩ := ih run
      rw [List.cons.injEq] at tail
      rw [tail.1]
      exact ⟨mid, front, back.snoc step⟩

/-- Every recorded step was taken from a state that the run had reached. -/
theorem at_step {past later : List (Step σ α)} {e : Step σ α} {s : σ}
    (run : Run next start (past ++ e :: later) s) :
    Run next start past e.pre ∧ next e.pre e.label e.post ∧ Run next e.post later s := by
  -- Cutting twice isolates the single step.
  rw [← List.singleton_append, ← List.append_assoc] at run
  obtain ⟨mid, front, back⟩ := run.cut
  generalize joined : past ++ [e] = steps at front
  cases front with
  | nil => simp at joined
  | snoc front step =>
    obtain ⟨same, tail⟩ := List.append_inj' joined rfl
    subst same
    rw [List.cons.injEq] at tail
    rw [tail.1]
    exact ⟨front, step, back⟩

/-- The same rule for facts about the period that some step has begun. -/
theorem period {past later : List (Step σ α)} {e : Step σ α} {s : σ}
    (run : Run next start (past ++ e :: later) s) (Inv : List (Step σ α) → σ → Prop)
    (init : next e.pre e.label e.post → Inv [] e.post)
    (keep : ∀ later s a s', Run next start (past ++ e :: later) s → Inv later s → next s a s' →
      Inv (later ++ [⟨s, a, s'⟩]) s') : Inv later s := by
  -- Every state of the period is one that the whole run has reached.
  obtain ⟨front, step, back⟩ := run.at_step
  refine (back.history (fun later s => Run next start (past ++ e :: later) s ∧ Inv later s)
    ⟨front.snoc step, init step⟩ ?_).2
  intro later s a s' _ held step
  have longer := held.1.snoc step
  rw [List.append_assoc, List.cons_append] at longer
  exact ⟨longer, keep later s a s' held.1 held.2 step⟩

/-- The same for a step that is only known to be recorded. -/
theorem of_mem {past : List (Step σ α)} {e : Step σ α} {s : σ} (run : Run next start past s)
    (listed : e ∈ past) :
    (∃ earlier, Run next start earlier e.pre) ∧ next e.pre e.label e.post := by
  -- Membership places the step somewhere in the history.
  obtain ⟨earlier, later, rfl⟩ := List.append_of_mem listed
  exact ⟨⟨earlier, run.at_step.1⟩, run.at_step.2.1⟩

/-- A fact holds all along a run exactly if no step is one of those that lose it. -/
theorem always_iff {past : List (Step σ α)} {s : σ} (run : Run next start past s)
    (Fact : σ → Prop) (loses : Step σ α → Bool) (init : Fact start)
    (keep : ∀ past s a s', Run next start past s → Fact s → next s a s' →
      (Fact s' ↔ loses ⟨s, a, s'⟩ = false)) :
    (∀ e ∈ past, Fact e.post) ↔ ∀ e ∈ past, loses e = false := by
  -- As long as the fact has held all along, it holds in the last state.
  suffices both : ((∀ e ∈ past, Fact e.post) ↔ ∀ e ∈ past, loses e = false) ∧
      ((∀ e ∈ past, Fact e.post) → Fact s) from both.1
  induction run with
  | nil => exact ⟨by simp, fun _ => init⟩
  | @snoc past s s' a run step ih =>
    simp only [List.forall_mem_append, List.forall_mem_singleton]
    refine ⟨⟨fun held => ?_, fun quiet => ?_⟩, fun held => held.2⟩
    · exact ⟨ih.1.mp held.1, (keep past s a s' run (ih.2 held.1) step).mp held.2⟩
    · have before := ih.1.mpr quiet.1
      exact ⟨before, (keep past s a s' run (ih.2 before) step).mpr quiet.2⟩

/-- Steps that establish a fact nothing undoes can only establish it once. -/
theorem countP_le_one {past : List (Step σ α)} {s : σ} (run : Run next start past s)
    (marked : Step σ α → Bool) (Fact : σ → Prop)
    (keep : ∀ s a s', Fact s → next s a s' → Fact s')
    (establish : ∀ s a s', next s a s' → marked ⟨s, a, s'⟩ = true → ¬ Fact s ∧ Fact s') :
    past.countP marked ≤ 1 ∧ (0 < past.countP marked → Fact s) := by
  -- As long as no marked step was taken the fact may be missing, and afterwards it stays.
  refine run.history (fun past s => past.countP marked ≤ 1 ∧ (0 < past.countP marked → Fact s))
    (by simp) ?_
  intro past s a s' _ ih step
  rw [List.countP_append, List.countP_singleton]
  by_cases mark : marked ⟨s, a, s'⟩ = true
  · -- The fact was missing before this step, so no earlier step was marked.
    obtain ⟨missing, made⟩ := establish s a s' step mark
    have unmarked : past.countP marked = 0 := by
      by_contra some_mark
      exact missing (ih.2 (Nat.pos_of_ne_zero some_mark))
    simp only [mark, if_true, unmarked]
    exact ⟨by omega, fun _ => made⟩
  · simp only [mark, Bool.false_eq_true, if_false, Nat.add_zero]
    exact ⟨ih.1, fun positive => keep s a s' (ih.2 positive) step⟩

end Run

/-- The steps a deterministic system takes on a list of labels. -/
def trace (act : σ → α → σ) : σ → List α → List (Step σ α)
  | _, [] => []
  | s, a :: labels => ⟨s, a, act s a⟩ :: trace act (act s a) labels

/-- Carrying out a list of labels is a run when every step on the way is admissible. -/
theorem run_trace {act : σ → α → σ} {labels : List α} {s : σ}
    (admissible : ∀ e ∈ trace act s labels, next e.pre e.label e.post) :
    Run next s (trace act s labels) (labels.foldl act s) := by
  -- A trace is consumed from its front, whereas runs grow at their end.
  induction labels generalizing s with
  | nil => exact .nil
  | cons a labels ih =>
    -- The first step makes a run of its own, which the rest continues.
    rw [trace, List.forall_mem_cons] at admissible
    have first : Run next s ([] ++ [⟨s, a, act s a⟩]) (act s a) := .snoc .nil admissible.1
    exact first.append (ih admissible.2)

/-- The steps of a trace carry out the given labels. -/
theorem mem_trace {act : σ → α → σ} {labels : List α} {s : σ} {e : Step σ α}
    (listed : e ∈ trace act s labels) : e.label ∈ labels ∧ e.post = act e.pre e.label := by
  -- The step is the first one or belongs to the trace of the remaining labels.
  induction labels generalizing s with
  | nil => cases listed
  | cons a labels ih =>
    rcases List.mem_cons.mp listed with rfl | later
    · exact ⟨List.mem_cons_self, rfl⟩
    · obtain ⟨member, made⟩ := ih later
      exact ⟨List.mem_cons_of_mem a member, made⟩

/-- Carrying out labels that are all possible is a run of a system with partial steps. -/
theorem run_of_some (step? : σ → α → Option σ) (labels : List α) (s : σ)
    (possible : (trace (fun s a => (step? s a).getD s) s labels).all
      (fun e => (step? e.pre e.label).isSome) = true) :
    Run (fun s a s' => step? s a = some s') s (trace (fun s a => (step? s a).getD s) s labels)
      (labels.foldl (fun s a => (step? s a).getD s) s) := by
  apply run_trace
  intro e listed
  -- A step that can be made leads where the trace goes.
  obtain ⟨s', made⟩ := Option.isSome_iff_exists.mp (List.all_eq_true.mp possible e listed)
  rw [(mem_trace listed).2, made]
  rfl

/-- What a history shows once it is one step longer. -/
theorem filterMap_snoc {ε β : Type} (f : ε → Option β) (past : List ε) (last : ε) :
    (past ++ [last]).filterMap f = past.filterMap f ++ (f last).toList := by
  cases answer : f last <;> simp [answer]

/-- A longer history shows what it did before, and its last entry. -/
theorem mem_filterMap_snoc {ε β : Type} {f : ε → Option β} {past : List ε} {last : ε} {b : β} :
    b ∈ (past ++ [last]).filterMap f ↔ b ∈ past.filterMap f ∨ f last = some b := by
  rw [filterMap_snoc, List.mem_append, Option.mem_toList]

/-- Some entry began a period in which every later entry has been quiet. -/
def Since {ε : Type} (quiet begins : ε → Prop) (past : List ε) : Prop :=
  ∃ earlier e later, past = earlier ++ e :: later ∧ begins e ∧ ∀ x ∈ later, quiet x

namespace Since

variable {ε : Type} {quiet begins : ε → Prop} {past : List ε} {e : ε}

/-- A beginning entry starts a period of its own. -/
theorem begin (started : begins e) : Since quiet begins (past ++ [e]) :=
  ⟨past, e, [], rfl, started, by simp⟩

/-- A quiet entry prolongs the period. -/
theorem prolong (since : Since quiet begins past) (calm : quiet e) :
    Since quiet begins (past ++ [e]) := by
  obtain ⟨earlier, first, later, rfl, started, silent⟩ := since
  refine ⟨earlier, first, later ++ [e], by simp, started, fun x listed => ?_⟩
  -- The new entry joins the quiet ones at the end.
  rcases List.mem_append.mp listed with old | new
  · exact silent x old
  · rw [List.mem_singleton.mp new]
    exact calm

/-- Asking less of the later entries keeps the period. -/
theorem mono {quiet' : ε → Prop} (since : Since quiet begins past)
    (weaker : ∀ x, quiet x → quiet' x) : Since quiet' begins past := by
  obtain ⟨earlier, first, later, split, started, silent⟩ := since
  exact ⟨earlier, first, later, split, started, fun x listed => weaker x (silent x listed)⟩

end Since

/-! Runs of one system seen as runs of another one. -/

section Simulation

variable {τ β : Type}

/-- A step as another system sees it, unless it sees nothing. -/
def Step.project (view : σ → τ) (label : Step σ α → Option β) (e : Step σ α) : Option (Step τ β) :=
  (label e).map fun b => ⟨view e.pre, b, view e.post⟩

/--
A run is a run of the other system if every step is one there or cannot be seen.

The steps may be looked at under what the run has established so far.
-/
theorem Run.project {next : σ → α → σ → Prop} {next' : τ → β → τ → Prop} {start s : σ}
    {past : List (Step σ α)} (view : σ → τ) (label : Step σ α → Option β)
    (simulates : ∀ past s a s', Run next start past s → next s a s' →
      (∃ b, label ⟨s, a, s'⟩ = some b ∧ next' (view s) b (view s')) ∨
        (label ⟨s, a, s'⟩ = none ∧ view s' = view s))
    (run : Run next start past s) :
    Run next' (view start) (past.filterMap (Step.project view label)) (view s) := by
  induction run with
  | nil => exact .nil
  | @snoc past s s' a run step ih =>
    rw [filterMap_snoc, Step.project]
    rcases simulates past s a s' run step with ⟨b, seen, made⟩ | ⟨unseen, same⟩
    · rw [seen]
      exact ih.snoc made
    · rw [unseen, same, Option.map_none, Option.toList_none, List.append_nil]
      exact ih

/-- The steps of the other system come from steps that it can see. -/
theorem Step.mem_project {view : σ → τ} {label : Step σ α → Option β} {past : List (Step σ α)}
    {e : Step τ β} (listed : e ∈ past.filterMap (Step.project view label)) :
    ∃ x ∈ past, label x = some e.label ∧ e.pre = view x.pre ∧ e.post = view x.post := by
  obtain ⟨x, member, seen⟩ := List.mem_filterMap.mp listed
  obtain ⟨b, labelled, rfl⟩ := Option.map_eq_some_iff.mp seen
  exact ⟨x, member, labelled, rfl, rfl⟩

end Simulation

end Transition
