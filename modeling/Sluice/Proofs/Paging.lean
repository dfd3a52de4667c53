import Sluice.Api.Handler
import Sluice.Relational.Paging
import Sluice.Text.Decimal

/-! Whether the pages of a job listing have every job once. -/

namespace Sluice

open Relational

/-- Digits are read as they stand, since none of them is a sign. -/
theorem atoi_of_digits {text : String} {n : Nat} (filled : text.toList ≠ [])
    (digits : ∀ c ∈ text.toList, c.isDigit = true)
    (value : Nat.ofDigitChars 10 text.toList 0 = n) (small : n ≤ 9223372036854775807) :
    atoi text = some (n : Int) := by
  have read : text.toList.foldl (fun n c => n * 10 + (c.toNat - '0'.toNat)) 0 = n := by
    simpa only [Nat.ofDigitChars, Nat.mul_comm] using value
  have plain : ¬(text.toList = [] ∨ text.toList.any (fun c => !c.isDigit) = true) := by
    simpa [filled] using digits
  unfold atoi
  split
  · rename_i negative digits' split
    split at split
    · rename_i rest sign
      exact absurd (digits '-' (by rw [sign]; exact List.mem_cons_self)) (by decide)
    · rename_i rest sign
      exact absurd (digits '+' (by rw [sign]; exact List.mem_cons_self)) (by decide)
    · cases split
      rw [if_neg plain, read]
      simp
      omega

/-- A number of 64 bits reads back from its decimal text. -/
theorem atoi_toString {n : Nat} (small : n ≤ 9223372036854775807) :
    atoi (toString n) = some (n : Int) := by
  have text : (toString n).toList = Nat.toDigits 10 n := by
    simp [toString, Nat.repr_eq_ofList_toDigits]
  refine atoi_of_digits ?_ ?_ ?_ small
  · rw [text]
    exact Nat.toDigits_ne_nil
  · rw [text]
    exact fun c listed => Nat.isDigit_of_mem_toDigits (by decide) (by decide) listed
  · rw [text]
    exact Nat.ofDigitChars_ten_toDigits

/-- The jobs that a listing is about. -/
def listedBy (t : Tenant) (label : String) (j : Job) : Bool :=
  j.tenantID == t.id && (label == "" || j.state.label == label)

/-- The jobs of a tenant, all of them or those in a state. -/
def matching (t : Tenant) (label : String) (s : ApiState) : List Job :=
  s.db.jobs.rows.filter (listedBy t label)

/-- The request for one of the pages. -/
def pageParams (label : String) (n i : Nat) : ListParams := ⟨label, toString n, toString (i * n)⟩

/-- The texts that a listing takes for a state. -/
def stateAsked (label : String) : Bool := label == "" || (State.ofLabel label).isSome

theorem State.label_of_ofLabel {label : String} {state : State}
    (read : State.ofLabel label = some state) : state.label = label := by
  simpa using List.find?_some read

theorem State.label_inj {state state' : State} (same : state.label = state'.label) :
    state = state' := by
  cases state <;> cases state' <;> first | rfl | exact absurd same (by decide)

/-- The listing's own query, before it is cut into pages. -/
def listingQuery (t : Tenant) (label : String) : Query Job where
  holds := listedBy t label
  before a b := decide (b.createdAt ≤ a.createdAt)
  offset := 0
  limit := none

section Pages

variable {t : Tenant} {label : String} {s : ApiState} (asked : stateAsked label = true)

include asked

/-- A page is asked for with a page of the listing's query. -/
theorem listJobs_page {n i : Nat} (positive : 0 < n) (bounded : n ≤ 500)
    (small : i * n ≤ 9223372036854775807) :
    ∃ filter, (pageParams label n i).filter t = some filter ∧
      listJobs filter = (listingQuery t label).page n i := by
  have fits : (0 : Int) < n ∧ (n : Int) ≤ 500 := by omega
  have filled : n ≠ 0 := by omega
  simp only [ListParams.filter, pageParams, atoi_toString (show n ≤ 9223372036854775807 by omega),
    atoi_toString small, if_pos fits, Int.toNat_natCast]
  by_cases all : label = ""
  · refine ⟨_, if_pos all, ?_⟩
    simp only [listJobs, listingQuery, Query.page, if_neg filled, Query.mk.injEq, and_true]
    funext j
    simp [listedBy, all, Bool.beq_comm]
  · rw [if_neg all]
    have known : (State.ofLabel label).isSome = true := by simpa [stateAsked, all] using asked
    obtain ⟨state, read⟩ := Option.isSome_iff_exists.mp known
    refine ⟨_, by rw [read]; rfl, ?_⟩
    have same : ∀ j : Job, (state == j.state) = (j.state.label == label) := by
      intro j
      rw [Bool.eq_iff_iff, beq_iff_eq, beq_iff_eq, ← State.label_of_ofLabel read]
      exact ⟨fun is => by rw [is], fun is => (State.label_inj is).symm⟩
    simp only [listJobs, listingQuery, Query.page, if_neg filled, Query.mk.injEq, and_true]
    funext j
    have blank : (label == "") = false := beq_false_of_ne all
    simp only [Option.all_some, same, listedBy, blank, Bool.false_or]
    rw [Bool.beq_comm]

/-- A page is answered with a page of the listing. -/
theorem handleListJobs_page {n i : Nat} (positive : 0 < n) (bounded : n ≤ 500)
    (small : i * n ≤ 9223372036854775807) {page : List Job} :
    HandleListJobs t (pageParams label n i) s ⟨200, .jobs page⟩ ↔
      ((listingQuery t label).page n i).Answers s.db.jobs.rows page := by
  obtain ⟨filter, asks, same⟩ := listJobs_page (t := t) asked positive bounded small
  simp [HandleListJobs, asks, same]

/--
The pages of a listing have every job exactly once, whatever their size and however the database
orders ties, exactly if no two of the jobs were created at the same time.
-/
theorem pages_complete_iff (few : (matching t label s).length ≤ 9223372036854775807) :
    (∀ n k (pages : Nat → List Job), 0 < n → n ≤ 500 → (matching t label s).length ≤ k * n →
      k * n ≤ 9223372036854775807 →
      (∀ i < k, HandleListJobs t (pageParams label n i) s ⟨200, .jobs (pages i)⟩) →
      ((List.range k).flatMap pages).Perm (matching t label s)) ↔
    ∀ a ∈ matching t label s, ∀ b ∈ matching t label s, a.createdAt = b.createdAt → a = b := by
  constructor
  · intro complete a left b right same
    by_contra distinct
    have tied : (listingQuery t label).before a b = true ∧
        (listingQuery t label).before b a = true :=
      ⟨decide_eq_true (same ▸ Int.le_refl _), decide_eq_true (same ▸ Int.le_refl _)⟩
    have trans : ∀ a b c, (listingQuery t label).before a b = true →
        (listingQuery t label).before b c = true → (listingQuery t label).before a c = true := by
      intro a b c first second
      exact decide_eq_true (Int.le_trans (of_decide_eq_true second) (of_decide_eq_true first))
    have total : ∀ a b, (listingQuery t label).before a b = true ∨
        (listingQuery t label).before b a = true := by
      intro a b
      exact (Int.le_total b.createdAt a.createdAt).imp decide_eq_true decide_eq_true
    -- Pages of one job each can have one of the two jobs twice.
    obtain ⟨pages, answered, repeats⟩ := Query.exists_pages_repeat trans total left right distinct
      tied
    have perm := complete 1 (matching t label s).length pages (by decide) (by decide) (by omega)
      (by omega) fun i listed =>
        (handleListJobs_page asked (by decide) (by decide) (by omega)).mpr (answered i)
    exact repeats (perm.nodup_iff.mpr ((List.Nodup.of_map _ s.db.jobs.keyed).filter _))
  · intro distinct n k pages positive bounded enough small answered
    refine Query.pages_perm (q := listingQuery t label) ?_ (fun i listed => ?_) enough
    · intro a left b right first second
      exact distinct a left b right
        (Int.le_antisymm (of_decide_eq_true second) (of_decide_eq_true first))
    · have within : i * n ≤ k * n := Nat.mul_le_mul_right n (Nat.le_of_lt listed)
      exact (handleListJobs_page asked positive bounded (within.trans small)).mp (answered i listed)

end Pages

/-- Two jobs that were submitted at the same time. -/
def twoAtOnce : ApiState :=
  { ApiState.initial with
    db := [8, 9].foldl (fun db id =>
      (insertJob (submittedJob devTenant.id (.bare "mail" (.object .nil)) id 0) db).2) .empty }

theorem pages_complete_iff_tied :
    ¬∀ n k (pages : Nat → List Job), 0 < n → n ≤ 500 →
      (matching devTenant "" twoAtOnce).length ≤ k * n → k * n ≤ 9223372036854775807 →
      (∀ i < k, HandleListJobs devTenant (pageParams "" n i) twoAtOnce ⟨200, .jobs (pages i)⟩) →
      ((List.range k).flatMap pages).Perm (matching devTenant "" twoAtOnce) := by
  have few : (matching devTenant "" twoAtOnce).length ≤ 9223372036854775807 := by decide +kernel
  rw [pages_complete_iff rfl few]
  decide +kernel

end Sluice
