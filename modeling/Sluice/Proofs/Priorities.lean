import Mathlib.Data.List.Find
import Sluice.Proofs.Lanes

/-! A poll cycle goes through the tenants first and through their lanes second. -/

namespace Sluice

open Transition

/-- The entries of a lane, the next one first. -/
def Lane.entries (lane : Lane) (redis : Redis) : List String := (redis lane.key).reverse

/-- The identifier in an entry of a lane, if there is such an entry and it can be read. -/
def Lane.entry (lane : Lane) (redis : Redis) (k : Nat) : Option UUID :=
  (lane.entries redis)[k]?.bind UUID.parse

/-- The lane that serves a tenant once a number of visits have taken one entry off each lane. -/
def serving (redis : Redis) (tenantID : UUID) (visits : Nat) : Option Lane :=
  (tenantLanes tenantID).find? fun lane => (lane.entry redis visits).isSome

/-- The lane is the first to serve the tenant within a number of visits. -/
def ServedFrom (redis : Redis) (tenantID : UUID) (visits : Nat) (lane : Lane) : Prop :=
  ∃ k < visits, serving redis tenantID k = some lane ∧ ∀ j < k, serving redis tenantID j = none

instance (redis : Redis) (tenantID : UUID) (visits : Nat) (lane : Lane) :
    Decidable (ServedFrom redis tenantID visits lane) := by
  unfold ServedFrom
  infer_instance

/-- Every more urgent lane of the listed tenants is empty. -/
def UrgentEmpty (redis : Redis) (tenants : List TenantWeight) (lane : Lane) : Prop :=
  ∀ t ∈ tenants, ∀ other ∈ tenantLanes t.id, other.rank < lane.rank → redis other.key = []

instance (redis : Redis) (tenants : List TenantWeight) (lane : Lane) :
    Decidable (UrgentEmpty redis tenants lane) := by
  unfold UrgentEmpty
  infer_instance

/-- An undisturbed poll cycle is served from the most urgent lane that holds anything. -/
def LanesFirst (redis : Redis) (tenants : List TenantWeight) : Prop :=
  ∀ workerID draws order, weightedShuffle draws tenants = some order →
    ∀ lane id redis', scan workerID (scanLanes order) redis = (some (lane, id), redis') →
      UrgentEmpty redis tenants lane

/-- A look takes the next entry off its lane. -/
theorem look_entries (workerID : String) (lane other : Lane) (redis : Redis) :
    other.entries (look workerID lane redis).2 =
      if other = lane then (other.entries redis).tail else other.entries redis := by
  unfold Lane.entries
  rw [look_lane]
  split
  · rename_i same
    rw [same, List.tail_reverse]
  · rfl

/-- A look answers with the next entry of its lane. -/
theorem look_entry (workerID : String) (lane : Lane) (redis : Redis) :
    (look workerID lane redis).1 = lane.entry redis 0 := by
  rw [look_answer, Lane.entry, Lane.entries, ← List.head?_eq_getElem?, List.head?_reverse]

/-- A scan of some lanes before others. -/
theorem scan_append (workerID : String) (lanes others : List Lane) (redis : Redis) :
    scan workerID (lanes ++ others) redis =
      match scan workerID lanes redis with
      | (some answer, redis) => (some answer, redis)
      | (none, redis) => scan workerID others redis := by
  -- The lists vary, since each look may take an entry off one of them.
  induction lanes generalizing redis with
  | nil => rfl
  | cons lane lanes ih =>
    rw [List.cons_append, scan, scan]
    cases (look workerID lane redis) with
    | mk answer redis' =>
      cases answer with
      | none => exact ih redis'
      | some id => rfl

/-- A scan whose first lanes are scanned in vain. -/
theorem scan_append_none {workerID : String} {lanes : List Lane} {redis : Redis}
    (vain : (scan workerID lanes redis).1 = none) (others : List Lane) :
    scan workerID (lanes ++ others) redis =
      scan workerID others (scan workerID lanes redis).2 := by
  have result : scan workerID lanes redis = (none, (scan workerID lanes redis).2) :=
    Prod.ext vain rfl
  rw [scan_append, result]

/-- A scan that is served from one of its first lanes. -/
theorem scan_append_some {workerID : String} {lanes : List Lane} {redis : Redis}
    {answer : Lane × UUID} (served : (scan workerID lanes redis).1 = some answer)
    (others : List Lane) :
    scan workerID (lanes ++ others) redis = (some answer, (scan workerID lanes redis).2) := by
  have result : scan workerID lanes redis = (some answer, (scan workerID lanes redis).2) :=
    Prod.ext served rfl
  rw [scan_append, result]

/-- A call that nobody disturbs goes through its poll cycle as the scan does. -/
theorem run_of_scan {s : Queues} {call : Nat} {c : DequeueCall} (called : s.calls call = some c) :
    ∃ past s', Run Queues.Next s past s' ∧ (∀ e ∈ past, e.label = .look call) ∧
      s'.redis = (scan c.workerID c.lanes s.redis).2 ∧
      past.filterMap returned = (scan c.workerID c.lanes s.redis).1.toList := by
  -- The call has one lane less to look at after each of its steps.
  obtain ⟨workerID, tenants, lanes⟩ := c
  induction lanes generalizing s with
  | nil => exact ⟨[], s, .nil, by simp, rfl, rfl⟩
  | cons lane lanes ih =>
    cases looked : look workerID lane s.redis with
    | mk answer redis =>
      -- The first look is a step of the call.
      have made : s.Next (.look call) ({ s with redis }.put call
          (if answer.isSome then none else some ⟨workerID, tenants, lanes⟩)) := by
        simp only [Queues.Next, Queues.step?, called, looked]
      have first := Run.snoc .nil made
      have answers : ∀ s', returned ⟨s, .look call, s'⟩ = answer.map fun id => (lane, id) := by
        intro s'
        rw [returned_of_look called rfl, looked]
      cases answer with
      | some id =>
        refine ⟨_, _, first, by simp, ?_, ?_⟩
        · simp [scan, looked, Queues.put]
        · simp [scan, looked, answers]
      | none =>
        -- The call goes on where the look has left the lists.
        obtain ⟨past, s', rest, labels, lists, returns⟩ :=
          ih (s := { s with redis }.put call (some ⟨workerID, tenants, lanes⟩))
            (by simp [Queues.put])
        refine ⟨_, s', first.append rest, ?_, ?_, ?_⟩
        · simpa using labels
        · simpa [scan, looked, Queues.put] using lists
        · simpa [scan, looked, answers, Queues.put] using returns

/-- A scan that begins with a look in vain. -/
theorem scan_cons_none {workerID : String} {lane : Lane} {redis : Redis}
    (vain : lane.entry redis 0 = none) (lanes : List Lane) :
    scan workerID (lane :: lanes) redis = scan workerID lanes (look workerID lane redis).2 := by
  have looked : look workerID lane redis = (none, (look workerID lane redis).2) :=
    Prod.ext ((look_entry workerID lane redis).trans vain) rfl
  rw [scan, looked]

/-- A scan that is served from its first lane. -/
theorem scan_cons_some {workerID : String} {lane : Lane} {redis : Redis} {id : UUID}
    (served : lane.entry redis 0 = some id) (lanes : List Lane) :
    scan workerID (lane :: lanes) redis = (some (lane, id), (look workerID lane redis).2) := by
  have looked : look workerID lane redis = (some id, (look workerID lane redis).2) :=
    Prod.ext ((look_entry workerID lane redis).trans served) rfl
  rw [scan, looked]

/-- A scan of different lanes is served from the first one whose next entry can be read. -/
theorem scan_find {lanes : List Lane} (distinct : lanes.Nodup) (workerID : String) (redis : Redis) :
    (scan workerID lanes redis).1.map Prod.fst =
      lanes.find? fun lane => (lane.entry redis 0).isSome := by
  induction lanes generalizing redis with
  | nil => rfl
  | cons lane lanes ih =>
    obtain ⟨fresh, distinct⟩ := List.nodup_cons.mp distinct
    cases next : lane.entry redis 0 with
    | some id => simp [scan_cons_some next, next]
    | none =>
      rw [scan_cons_none next, ih distinct, List.find?_cons, next]
      -- The look has not touched the lanes that are left.
      refine List.find?_congr fun other listed => ?_
      have apart : other ≠ lane := fun same => fresh (same ▸ listed)
      rw [Lane.entry, look_entries, if_neg apart, ← Lane.entry]

/-- A scan in vain has taken one entry off each of its lanes. -/
theorem scan_vain {lanes : List Lane} (distinct : lanes.Nodup) {workerID : String} {redis : Redis}
    (vain : ∀ lane ∈ lanes, lane.entry redis 0 = none) (other : Lane) :
    (scan workerID lanes redis).1 = none ∧
      other.entries (scan workerID lanes redis).2 =
        if other ∈ lanes then (other.entries redis).tail else other.entries redis := by
  induction lanes generalizing redis with
  | nil => exact ⟨rfl, rfl⟩
  | cons lane lanes ih =>
    obtain ⟨fresh, distinct⟩ := List.nodup_cons.mp distinct
    obtain ⟨first, later⟩ := List.forall_mem_cons.mp vain
    rw [scan_cons_none first]
    -- The other lanes are what they were before the look at the first one.
    have remaining : ∀ l ∈ lanes, l.entry (look workerID lane redis).2 0 = none := by
      intro l listed
      have apart : l ≠ lane := fun same => fresh (same ▸ listed)
      rw [Lane.entry, look_entries, if_neg apart, ← Lane.entry]
      exact later l listed
    obtain ⟨unanswered, entries⟩ := ih distinct remaining
    refine ⟨unanswered, ?_⟩
    rw [entries, look_entries]
    by_cases own : other = lane
    · subst own
      simp [fresh]
    · simp [own]

/-- A tenant's lanes are different ones. -/
theorem tenantLanes_nodup (tenantID : UUID) : (tenantLanes tenantID).Nodup := by
  -- One of two lanes is more urgent than the other.
  refine (tenantLanes_sorted tenantID).imp ?_
  intro lane other urgent same
  rw [same] at urgent
  exact absurd urgent (Nat.lt_irrefl _)

/-- A visit to a tenant is served from the lane that is next to serve. -/
theorem visit_serving (workerID : String) (tenantID : UUID) (redis : Redis) :
    (scan workerID (tenantLanes tenantID) redis).1.map Prod.fst = serving redis tenantID 0 :=
  scan_find (tenantLanes_nodup tenantID) workerID redis

/-- What serves a tenant after some of its entries are gone. -/
theorem serving_drop {redis redis' : Redis} {tenantID : UUID} {n : Nat}
    (after : ∀ lane ∈ tenantLanes tenantID, lane.entries redis' = (lane.entries redis).drop n)
    (k : Nat) : serving redis' tenantID k = serving redis tenantID (n + k) := by
  -- Each lane shows its later entries a few visits earlier.
  refine List.find?_congr fun lane listed => ?_
  rw [Lane.entry, after lane listed, List.getElem?_drop, ← Lane.entry]

/-- A visit in vain takes one entry off each lane of the tenant. -/
theorem visit_vain {tenantID : UUID} {redis : Redis} (vain : serving redis tenantID 0 = none)
    (workerID : String) (lane : Lane) :
    (scan workerID (tenantLanes tenantID) redis).1 = none ∧
      lane.entries (scan workerID (tenantLanes tenantID) redis).2 =
        (lane.entries redis).drop (if lane.tenantID = tenantID then 1 else 0) := by
  -- No lane has a readable entry in front, so the scan passes them all.
  have missed : ∀ l ∈ tenantLanes tenantID, l.entry redis 0 = none := by
    intro l listed
    have unread := List.find?_eq_none.mp vain l listed
    simpa using unread
  obtain ⟨unanswered, entries⟩ := scan_vain (tenantLanes_nodup tenantID) missed lane
  refine ⟨unanswered, ?_⟩
  rw [entries]
  by_cases own : lane.tenantID = tenantID
  · rw [if_pos (mem_tenantLanes.mpr own), if_pos own, List.drop_one]
  · rw [if_neg (mt mem_tenantLanes.mp own), if_neg own, List.drop_zero]

/-- A poll cycle is served from a lane that is the first to serve its tenant. -/
theorem servedFrom_of_scan {workerID : String} {order : List UUID} {redis : Redis} {lane : Lane}
    {id : UUID} (front : List UUID) {redis' : Redis}
    (vain : ∀ tenantID, ∀ j < front.count tenantID, serving redis tenantID j = none)
    (after : ∀ l : Lane, l.entries redis' = (l.entries redis).drop (front.count l.tenantID))
    (answered : (scan workerID (scanLanes order) redis').1 = some (lane, id)) :
    ServedFrom redis lane.tenantID ((front ++ order).count lane.tenantID) lane := by
  -- The induction is on the tenants still to visit, and the others were visited in vain.
  induction order generalizing front redis' with
  | nil => cases answered
  | cons tenantID order ih =>
    have parts : scanLanes (tenantID :: order) = tenantLanes tenantID ++ scanLanes order := rfl
    have shorter : ∀ l ∈ tenantLanes tenantID,
        l.entries redis' = (l.entries redis).drop (front.count tenantID) := by
      intro l listed
      rw [after l, mem_tenantLanes.mp listed]
    have next := serving_drop shorter 0
    rw [Nat.add_zero] at next
    have visit := visit_serving workerID tenantID redis'
    rw [parts] at answered
    cases now : (scan workerID (tenantLanes tenantID) redis').1 with
    | some served =>
      -- This visit is served, after those to the same tenant that were not.
      rw [scan_append_some now] at answered
      cases answered
      rw [now, next] at visit
      have own : lane.tenantID = tenantID :=
        mem_tenantLanes.mp (List.mem_of_find?_eq_some visit.symm)
      rw [own]
      exact ⟨front.count tenantID, by simp, visit.symm, vain tenantID⟩
    | none =>
      rw [scan_append_none now] at answered
      rw [now, next] at visit
      have missed := next.trans visit.symm
      have rest := ih (front ++ [tenantID]) ?_ ?_ answered
      · rwa [List.append_assoc] at rest
      · -- One more visit to this tenant was in vain.
        intro other j below
        rw [List.count_append, List.count_singleton] at below
        by_cases own : tenantID = other
        · subst own
          rcases Nat.lt_succ_iff_lt_or_eq.mp (by simpa using below) with earlier | rfl
          · exact vain tenantID j earlier
          · exact visit.symm
        · exact vain other j (by simpa [own] using below)
      · -- Each of the tenant's lanes has lost one more entry.
        intro l
        rw [(visit_vain missed workerID l).2, after l, List.drop_drop, List.count_append,
          List.count_singleton]
        by_cases own : l.tenantID = tenantID
        · simp [own]
        · simp [own, Ne.symm own]

/-- Repeated visits to a tenant end with the lane that is the first to serve it. -/
theorem scan_of_serving {tenantID : UUID} {lane : Lane} {k : Nat} {redis : Redis}
    (served : serving redis tenantID k = some lane)
    (vain : ∀ j < k, serving redis tenantID j = none) (workerID : String) (rest : List UUID) :
    ∃ id, (scan workerID (scanLanes (List.replicate k tenantID ++ tenantID :: rest)) redis).1 =
      some (lane, id) := by
  -- The induction is on the visits in vain, each of which shortens the lists.
  have visit := visit_serving workerID tenantID redis
  induction k generalizing redis with
  | zero =>
    have parts : scanLanes (List.replicate 0 tenantID ++ tenantID :: rest) =
      tenantLanes tenantID ++ scanLanes rest := rfl
    rw [served] at visit
    obtain ⟨⟨own, id⟩, now, rfl⟩ := Option.map_eq_some_iff.mp visit
    rw [parts, scan_append_some now]
    exact ⟨id, rfl⟩
  | succ k ih =>
    have parts : scanLanes (List.replicate (k + 1) tenantID ++ tenantID :: rest) =
      tenantLanes tenantID ++ scanLanes (List.replicate k tenantID ++ tenantID :: rest) := rfl
    have first := vain 0 (by omega)
    have now := (visit_vain first workerID lane).1
    -- The remaining visits find each lane one entry shorter.
    have shorter : ∀ l ∈ tenantLanes tenantID,
        l.entries (scan workerID (tenantLanes tenantID) redis).2 = (l.entries redis).drop 1 := by
      intro l listed
      rw [(visit_vain first workerID l).2, if_pos (mem_tenantLanes.mp listed)]
    have shifted := serving_drop shorter
    rw [parts, scan_append_none now]
    refine ih ?_ ?_ (visit_serving workerID tenantID _)
    · rw [shifted, Nat.add_comm]
      exact served
    · intro j below
      rw [shifted]
      exact vain (1 + j) (by omega)

/--
Lanes come before tenants exactly if no tenant can be served past a more urgent lane of the others.

What serves a tenant is what the entries of its own lanes say, whatever the order of the tenants.
The sums that bound the draws are exact where `totalWeight_lt` applies, which it does to all lists
of at most 2^32 tenants with weights from an `INT` column.
-/
theorem lanes_first_iff {tenants : List TenantWeight} (positive : ∀ t ∈ tenants, 0 < t.weight)
    (redis : Redis) :
    LanesFirst redis tenants ↔
      ∀ t ∈ tenants, ∀ lane ∈ tenantLanes t.id,
        ServedFrom redis t.id ((tenants.map TenantWeight.id).count t.id) lane →
          UrgentEmpty redis tenants lane := by
  constructor
  · intro first t listed lane own served
    obtain ⟨k, within, serves, vain⟩ := served
    -- The draws can put all visits to this tenant in front.
    have enough : (List.replicate (k + 1) t.id).Sublist (tenants.map TenantWeight.id) :=
      List.replicate_sublist_iff.mpr within
    obtain ⟨rest, permuted⟩ := enough.exists_perm_append
    obtain ⟨draws, shuffled⟩ := exists_draws positive permuted.symm
    rw [List.replicate_succ', List.append_assoc] at shuffled
    obtain ⟨id, answered⟩ := scan_of_serving serves vain "" rest
    exact first "" draws _ shuffled lane id _ (Prod.ext answered rfl)
  · -- Whatever the order, the lane that serves is one that its own tenant's entries name.
    intro clear workerID draws order shuffled lane id redis' scanned
    have permuted := weightedShuffle_perm shuffled
    have answered : (scan workerID (scanLanes order) redis).1 = some (lane, id) := by
      rw [scanned]
    have untouched : ∀ l : Lane,
        l.entries redis = (l.entries redis).drop (([] : List UUID).count l.tenantID) := by simp
    have served := servedFrom_of_scan [] (by simp) untouched answered
    rw [List.nil_append, permuted.count_eq] at served
    -- The lane belongs to a listed tenant, since one of its visits was served.
    have visited : 0 < (tenants.map TenantWeight.id).count lane.tenantID := by
      obtain ⟨k, within, -⟩ := served
      omega
    obtain ⟨t, listed, own⟩ := List.mem_map.mp (List.count_pos_iff.mp visited)
    rw [← own] at served
    exact clear t listed lane (mem_tenantLanes.mpr own.symm) served

/-- Lists with one job each of two tenants. -/
def twoTenants (lane other : Lane) : Redis := fun key =>
  if key = lane.key then [UUID.toString 11] else if key = other.key then [UUID.toString 22] else []

theorem lanes_first_alike :
    LanesFirst (twoTenants (.ofPriority 1 5) (.ofPriority 2 5)) [⟨1, 100⟩, ⟨2, 50⟩] := by
  apply (lanes_first_iff (by decide) _).mpr
  decide +kernel

theorem lanes_first_fails :
    ¬ ∀ (redis : Redis) (tenants : List TenantWeight), (∀ t ∈ tenants, 0 < t.weight) →
      LanesFirst redis tenants := by
  intro first
  -- The draws take the first tenant first, whose only job is one of low priority.
  have clear := first (twoTenants (.ofPriority 1 10) (.ofPriority 2 1)) [⟨1, 100⟩, ⟨2, 100⟩]
    (by decide) "w" [0, 0] [1, 2] (by decide) (.ofPriority 1 10) 11 _
    (Prod.ext (by decide +kernel) rfl)
  have empty := clear ⟨2, 100⟩ (by decide) (.ofPriority 2 1) (by decide) (by decide)
  exact absurd empty (by decide +kernel)

end Sluice
