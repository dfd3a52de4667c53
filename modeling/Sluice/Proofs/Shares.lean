import Mathlib
import Sluice.Proofs.Priorities
import Sluice.Proofs.Shuffle
import Sluice.Random.Order

/-! Tenants whose jobs wait share the poll cycles by their weights. -/

namespace Sluice

open scoped ENNReal

/-- The numbers that are drawn in a number of rounds of `weightedShuffle`. -/
noncomputable def drawLaw : ℕ → List TenantWeight → PMF (List Int)
  | 0, _ => .pure []
  | n + 1, tenants =>
    if range : (Finset.Ico 0 (totalWeight tenants)).Nonempty then
      (PMF.uniformOfFinset _ range).bind fun r =>
        (drawLaw n ((pick r 0 tenants).elim tenants Prod.snd)).map (r :: ·)
    else .pure []

/-- The lane and the identifier that an undisturbed poll cycle of `Dequeue` comes back with. -/
noncomputable def pollLaw (workerID : String) (tenants : List TenantWeight) (redis : Redis) :
    PMF (Option (Lane × UUID)) :=
  (drawLaw tenants.length tenants).map fun draws =>
    (weightedShuffle draws tenants).bind fun order => (scan workerID (scanLanes order) redis).1

variable {tenants : List TenantWeight}

/-- A weight as a number of draws. -/
def TenantWeight.draws (t : TenantWeight) : ℕ := t.weight.toNat

theorem draws_pos_iff : (∀ t ∈ tenants, 0 < t.draws) ↔ ∀ t ∈ tenants, 0 < t.weight := by
  simp [TenantWeight.draws]

theorem total_draws (positive : ∀ t ∈ tenants, 0 < t.weight) :
    (Random.total TenantWeight.draws tenants : Int) = totalWeight tenants := by
  induction tenants with
  | nil => rfl
  | cons t rest ih =>
    obtain ⟨first, others⟩ := List.forall_mem_cons.mp positive
    have later := ih others
    simp only [Random.total, List.map_cons, List.sum_cons, totalWeight_cons, TenantWeight.draws]
      at later ⊢
    omega

/-- The place on which a draw falls, or the end of the list where there is none. -/
noncomputable def placeLaw (tenants : List TenantWeight) : PMF ℕ :=
  if range : (Finset.Ico 0 (totalWeight tenants)).Nonempty then
    (PMF.uniformOfFinset _ range).map fun r => (pickIndex r 0 tenants).getD tenants.length
  else .pure tenants.length

/-- The draws fall on a tenant in proportion to its weight. -/
theorem placeLaw_proportional : Random.Proportional TenantWeight.draws placeLaw := by
  intro tenants weighty i t found
  have positive := draws_pos_iff.mp weighty
  have listed := List.mem_of_getElem? found
  have total := total_draws positive
  have range : (Finset.Ico 0 (totalWeight tenants)).Nonempty :=
    Finset.nonempty_Ico.mpr (totalWeight_pos positive (List.ne_nil_of_mem listed))
  -- The end of the list is not one of its places.
  have falls : ∀ r, r ∈ Set.preimage (fun r => (pickIndex r 0 tenants).getD tenants.length) {i} ↔
      pickIndex r 0 tenants = some i := by
    intro r
    have place : i < tenants.length := (List.getElem?_eq_some_iff.mp found).1
    simp only [Set.mem_preimage, Set.mem_singleton_iff]
    cases pickIndex r 0 tenants with
    | none => simp [place.ne']
    | some j => simp
  have own := card_pickIndex positive found
  rw [placeLaw, dif_pos range, ← PMF.toOuterMeasure_apply_singleton, PMF.toOuterMeasure_map_apply,
    PMF.toOuterMeasure_uniformOfFinset_apply]
  simp only [falls, Int.card_Ico, Int.sub_zero]
  congr 2
  · simp only [TenantWeight.draws, ← own, Int.toNat_natCast]
  · omega

/-- A round goes on with the tenants that its draw leaves. -/
theorem weightedShuffle_round {r : Int} {rest : List TenantWeight} {id : UUID} (low : 0 ≤ r)
    (high : r < totalWeight tenants) (picked : pick r 0 tenants = some (id, rest))
    (draws : List Int) :
    weightedShuffle (r :: draws) tenants = (weightedShuffle draws rest).map (id :: ·) := by
  cases tenants with
  | nil => cases picked
  | cons t others => rw [weightedShuffle, if_pos ⟨low, high⟩, picked]

/-- The orders that `weightedShuffle` gives are drawn tenant by tenant. -/
theorem shuffle_law (positive : ∀ t ∈ tenants, 0 < t.weight) {n : ℕ}
    (size : tenants.length = n) :
    (drawLaw n tenants).map (weightedShuffle · tenants) =
      (Random.order placeLaw n tenants).map fun order => some (order.map TenantWeight.id) := by
  induction n generalizing tenants with
  | zero =>
    rw [List.eq_nil_of_length_eq_zero size, drawLaw, Random.order, PMF.pure_map, PMF.pure_map]
    rfl
  | succ n ih =>
    have nonempty : tenants ≠ [] := by
      rintro rfl
      cases size
    have range : (Finset.Ico 0 (totalWeight tenants)).Nonempty :=
      Finset.nonempty_Ico.mpr (totalWeight_pos positive nonempty)
    rw [drawLaw, dif_pos range, Random.order, placeLaw, dif_pos range, PMF.bind_map, PMF.map_bind,
      PMF.map_bind]
    refine Random.bind_congr fun r drawn => ?_
    -- The draw falls on a tenant, and the other rounds go on with those left.
    obtain ⟨low, high⟩ := Finset.mem_Ico.mp ((PMF.mem_support_uniformOfFinset_iff _ _).mp drawn)
    obtain ⟨i, falls⟩ : ∃ i, pickIndex r 0 tenants = some i :=
      exists_pickIndex 0 low (by simpa using high)
    have place := pickIndex_lt falls
    have picked : pick r 0 tenants = some (tenants[i].id, tenants.eraseIdx i) := by
      rw [pick_eq, falls, Option.bind_some, List.getElem?_eq_getElem place, Option.map_some]
    have shorter : (tenants.eraseIdx i).length = n := by
      rw [List.length_eraseIdx_of_lt place]
      omega
    have later := ih (fun t member => positive t (List.mem_of_mem_eraseIdx member)) shorter
    calc ((drawLaw n ((pick r 0 tenants).elim tenants Prod.snd)).map (r :: ·)).map
          (weightedShuffle · tenants)
        = ((drawLaw n (tenants.eraseIdx i)).map (weightedShuffle · (tenants.eraseIdx i))).map
            (Option.map (tenants[i].id :: ·)) := by
          rw [picked, PMF.map_comp, PMF.map_comp]
          exact congrArg (PMF.map · _) (funext (weightedShuffle_round low high picked))
      _ = ((Random.order placeLaw n (tenants.eraseIdx i)).map (tenants[i] :: ·)).map
            fun order => some (order.map TenantWeight.id) := by
          rw [later, PMF.map_comp, PMF.map_comp]
          rfl
      _ = _ := by
          rw [Function.comp_apply, falls, Option.getD_some, List.getElem?_eq_getElem place,
            Option.elim_some]

/-- Whether a visit to a tenant would find a job. -/
def waiting (redis : Redis) (tenantID : UUID) : Bool := (serving redis tenantID 0).isSome

/-- The lanes of a poll cycle that visits no tenant twice are different ones. -/
theorem scanLanes_nodup {order : List UUID} (distinct : order.Nodup) :
    (scanLanes order).Nodup := by
  refine List.nodup_flatMap.mpr ⟨fun tenantID _ => tenantLanes_nodup tenantID, ?_⟩
  refine distinct.imp fun {tenantID other} apart lane first second => ?_
  exact apart ((mem_tenantLanes.mp first).symm.trans (mem_tenantLanes.mp second))

/-- A poll cycle is served by the first tenant on its way whose jobs wait. -/
theorem scan_tenant {order : List UUID} (distinct : order.Nodup) (workerID : String)
    (redis : Redis) :
    (scan workerID (scanLanes order) redis).1.map (fun served => served.1.tenantID) =
      order.find? (waiting redis) := by
  have lanes := scan_find (scanLanes_nodup distinct) workerID redis
  rw [show (fun served : Lane × UUID => served.1.tenantID) = Lane.tenantID ∘ Prod.fst from rfl,
    ← Option.map_map, lanes]
  clear distinct lanes
  induction order with
  | nil => rfl
  | cons tenantID order ih =>
    have parts : scanLanes (tenantID :: order) = tenantLanes tenantID ++ scanLanes order := rfl
    rw [parts, List.find?_append, List.find?_cons, waiting, serving]
    cases own : (tenantLanes tenantID).find? fun lane => (lane.entry redis 0).isSome with
    | none => simpa using ih
    | some lane => simp [mem_tenantLanes.mp (List.mem_of_find?_eq_some own)]

/-- The tenant that serves a poll cycle is the first one drawn whose jobs wait. -/
theorem served_law (positive : ∀ t ∈ tenants, 0 < t.weight)
    (distinct : (tenants.map TenantWeight.id).Nodup) (workerID : String) (redis : Redis) :
    (pollLaw workerID tenants redis).map (Option.map fun served => served.1.tenantID) =
      ((Random.order placeLaw tenants.length tenants).map
        (List.find? fun t => waiting redis t.id)).map (Option.map TenantWeight.id) := by
  have served : ∀ draws, ((weightedShuffle draws tenants).bind fun order =>
      (scan workerID (scanLanes order) redis).1).map (fun served => served.1.tenantID) =
      (weightedShuffle draws tenants).bind (List.find? (waiting redis)) := by
    intro draws
    cases shuffled : weightedShuffle draws tenants with
    | none => rfl
    | some order =>
      exact scan_tenant ((weightedShuffle_perm shuffled).nodup_iff.mpr distinct) workerID redis
  calc (pollLaw workerID tenants redis).map (Option.map fun served => served.1.tenantID)
      = ((drawLaw tenants.length tenants).map (weightedShuffle · tenants)).map
          (Option.bind · (List.find? (waiting redis))) := by
        rw [pollLaw, PMF.map_comp, PMF.map_comp]
        exact congrArg (PMF.map · _) (funext served)
    _ = _ := by
        rw [shuffle_law positive rfl, PMF.map_comp, PMF.map_comp]
        refine congrArg (PMF.map · _) (funext fun order => ?_)
        simp [List.find?_map]

/--
A poll cycle serves a tenant whose jobs wait with a chance of its weight over the weights of all
tenants whose jobs wait.

Tenants with nothing in their lists take no share from the others.
-/
theorem dequeue_share {rows : List Tenant} (distinct : (rows.map Tenant.id).Nodup)
    (workerID : String) (redis : Redis) {t : TenantWeight} (listed : t ∈ loadTenants rows)
    (queued : waiting redis t.id = true) :
    (pollLaw workerID (loadTenants rows) redis).map (Option.map fun served => served.1.tenantID)
        (some t.id) =
      t.draws / Random.total TenantWeight.draws
        ((loadTenants rows).filter fun t => waiting redis t.id) := by
  have positive := loadTenants_positive rows
  have ids : ((loadTenants rows).map TenantWeight.id).Nodup := by
    simpa [loadTenants, Function.comp_def] using distinct
  rw [served_law positive ids, show some t.id = Option.map TenantWeight.id (some t) from rfl,
    Random.map_apply_of_only]
  · exact Random.find?_order placeLaw_proportional rfl (draws_pos_iff.mpr positive)
      (List.Nodup.of_map _ ids) listed queued
  · -- No two tenants have the same identifier.
    intro served possible same
    obtain ⟨order, drawn, rfl⟩ := (PMF.mem_support_map_iff _ _ _).mp possible
    obtain ⟨other, found, equal⟩ := Option.map_eq_some_iff.mp same
    have member := Random.mem_of_order drawn (List.mem_of_find?_eq_some found)
    rw [found, List.inj_on_of_nodup_map ids member listed equal]

/-- Three tenants, of which two have a job in their lists. -/
def sharingTenants : List Tenant :=
  [⟨1, "a", "key-a", 10, 100, "active"⟩, ⟨2, "b", "key-b", 10, 300, "active"⟩,
    ⟨3, "c", "key-c", 10, 500, "active"⟩]

theorem dequeue_share_idle :
    (pollLaw "w" (loadTenants sharingTenants)
        (enqueue 1 7 10 (enqueue 2 8 5 fun _ => []))).map
      (Option.map fun served => served.1.tenantID) (some 2) = 300 / 400 := by
  have distinct : (sharingTenants.map Tenant.id).Nodup := by decide
  have share := dequeue_share distinct "w" (enqueue 1 7 10 (enqueue 2 8 5 fun _ => []))
    (t := ⟨2, 300⟩) (by decide) (by decide +kernel)
  have total : Random.total TenantWeight.draws ((loadTenants sharingTenants).filter fun t =>
      waiting (enqueue 1 7 10 (enqueue 2 8 5 fun _ => [])) t.id) = 400 := by decide +kernel
  rw [total] at share
  exact share

end Sluice
