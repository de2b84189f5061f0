import Curtail.Proofs.Engine.Budget
import Curtail.Proofs.Engine.Evidence
import Mathlib.Data.List.TFAE
import Mathlib.Tactic.TFAE

/-!
What the sites of an event come to together. Main results: the total of the reductions is their sum, cut
off once at 64 bits; the total of the payouts is their sum, cut off once and in whatever order the rows
are, exactly if no order of them goes beyond a limit and comes back.
-/

namespace Curtail

namespace Progress

theorem toNat_addReduction (total reduction : UInt64) :
    (addReduction total reduction).toNat = min (total.toNat + reduction.toNat) (2 ^ 64 - 1) := by
  have := total.toNat_lt
  have := reduction.toNat_lt
  unfold addReduction
  split
  case isTrue within => rw [UInt64.toNat_add]; omega
  case isFalse beyond =>
    rw [show (18446744073709551615 : UInt64).toNat = 2 ^ 64 - 1 from rfl]
    omega

theorem toNat_foldl_addReduction (reductions : List UInt64) (total : UInt64) :
    (reductions.foldl addReduction total).toNat =
      min (total.toNat + (reductions.map (·.toNat)).sum) (2 ^ 64 - 1) := by
  -- Reductions have no sign, so that what is cut off once stays cut off.
  induction reductions generalizing total with
  | nil =>
    have := total.toNat_lt
    simp only [List.foldl_nil, List.map_nil, List.sum_nil]
    omega
  | cons reduction rest ih =>
    rw [List.foldl_cons, ih, toNat_addReduction, List.map_cons, List.sum_cons]
    omega

def nearest (value : Int) : Int := max (-2 ^ 63) (min (2 ^ 63 - 1) value)

theorem toInt_addPayout (total payout : Int64) :
    (addPayout total payout).toInt = nearest (total.toInt + payout.toInt) := by
  unfold addPayout
  rw [Int64.toInt_ofInt_of_le]
  · rfl
  · exact le_max_left _ _
  · exact Int.lt_add_one_of_le (max_le (by decide) (min_le_left _ _))

def earned (payouts : List Int64) : Int := (payouts.map fun p => max 0 p.toInt).sum

def owed (payouts : List Int64) : Int := (payouts.map fun p => max 0 (-p.toInt)).sum

/-- In no order do the payouts go beyond a limit and come back from it. -/
def Steady (payouts : List Int64) : Prop :=
  owed payouts = 0 ∨ earned payouts = 0 ∨ earned payouts < 2 ^ 63 ∧ owed payouts ≤ 2 ^ 63

instance (payouts : List Int64) : Decidable (Steady payouts) :=
  inferInstanceAs (Decidable (_ ∨ _ ∨ _ ∧ _))

variable {payouts : List Int64} {payout total : Int64}

theorem earned_cons : earned (payout :: payouts) = max 0 payout.toInt + earned payouts :=
  List.sum_cons

theorem owed_cons : owed (payout :: payouts) = max 0 (-payout.toInt) + owed payouts :=
  List.sum_cons

theorem earned_nonneg (payouts : List Int64) : 0 ≤ earned payouts := by
  induction payouts with
  | nil => exact le_rfl
  | cons payout rest ih => rw [earned_cons]; omega

theorem owed_nonneg (payouts : List Int64) : 0 ≤ owed payouts := by
  induction payouts with
  | nil => exact le_rfl
  | cons payout rest ih => rw [owed_cons]; omega

theorem sum_eq_earned_sub_owed : (payouts.map (·.toInt)).sum = earned payouts - owed payouts := by
  induction payouts with
  | nil => rfl
  | cons payout rest ih => rw [List.map_cons, List.sum_cons, ih, earned_cons, owed_cons]; omega

theorem nearest_toInt : nearest total.toInt = total.toInt := by
  have := total.toInt_lt
  have := total.le_toInt
  unfold nearest
  omega

theorem foldl_addPayout_of_owed (nothing : owed payouts = 0) :
    (payouts.foldl addPayout total).toInt = nearest (total.toInt + earned payouts) := by
  -- The total only goes up, and stays at the limit.
  induction payouts generalizing total with
  | nil => exact (nearest_toInt.symm.trans (congrArg nearest (Int.add_zero _).symm))
  | cons payout rest ih =>
    have := owed_nonneg rest
    have := earned_nonneg rest
    rw [owed_cons] at nothing
    rw [List.foldl_cons, ih (by omega), toInt_addPayout, earned_cons]
    have := total.le_toInt
    unfold nearest
    omega

theorem foldl_addPayout_of_earned (nothing : earned payouts = 0) :
    (payouts.foldl addPayout total).toInt = nearest (total.toInt - owed payouts) := by
  -- The total only goes down, and stays at the limit.
  induction payouts generalizing total with
  | nil => exact (nearest_toInt.symm.trans (congrArg nearest (Int.sub_zero _).symm))
  | cons payout rest ih =>
    have := owed_nonneg rest
    have := earned_nonneg rest
    rw [earned_cons] at nothing
    rw [List.foldl_cons, ih (by omega), toInt_addPayout, owed_cons]
    have := total.toInt_lt
    unfold nearest
    omega

theorem foldl_addPayout_of_within (below : total.toInt + earned payouts < 2 ^ 63)
    (above : -2 ^ 63 ≤ total.toInt - owed payouts) :
    (payouts.foldl addPayout total).toInt = total.toInt + earned payouts - owed payouts := by
  induction payouts generalizing total with
  | nil => simp [earned, owed]
  | cons payout rest ih =>
    rw [earned_cons] at below
    rw [owed_cons] at above
    have := owed_nonneg rest
    have := earned_nonneg rest
    have moved : (addPayout total payout).toInt = total.toInt + payout.toInt := by
      rw [toInt_addPayout]
      unfold nearest
      omega
    rw [List.foldl_cons, ih (by omega) (by omega), moved, earned_cons, owed_cons]
    omega

theorem Steady.foldl_addPayout (steady : Steady payouts) :
    (payouts.foldl addPayout 0).toInt = nearest (payouts.map (·.toInt)).sum := by
  rw [sum_eq_earned_sub_owed]
  obtain nothing | nothing | ⟨below, above⟩ := steady
  · rw [foldl_addPayout_of_owed nothing, nothing, Int.sub_zero, Int64.toInt_zero, Int.zero_add]
  · rw [foldl_addPayout_of_earned nothing, nothing, Int64.toInt_zero]
  · rw [foldl_addPayout_of_within (by simpa using below) (by simpa using above), Int64.toInt_zero]
    have := owed_nonneg payouts
    have := earned_nonneg payouts
    unfold nearest
    omega

/-! ## Two orders -/

variable {paid owing : List Int64}

theorem earned_append : earned (paid ++ owing) = earned paid + earned owing := by
  rw [earned, List.map_append, List.sum_append]
  rfl

theorem owed_append : owed (paid ++ owing) = owed paid + owed owing := by
  rw [owed, List.map_append, List.sum_append]
  rfl

theorem owed_of_paid (allPaid : ∀ p ∈ paid, 0 ≤ p.toInt) : owed paid = 0 := by
  refine List.sum_eq_zero (List.forall_mem_map.mpr fun p listed => ?_)
  have := allPaid p listed
  omega

theorem earned_of_owing (allOwing : ∀ p ∈ owing, p.toInt < 0) : earned owing = 0 := by
  refine List.sum_eq_zero (List.forall_mem_map.mpr fun p listed => ?_)
  have := allOwing p listed
  omega

/-- If a limit cuts off some of the one side, it matters which side comes first. -/
theorem steady_of_foldl_eq (allPaid : ∀ p ∈ paid, 0 ≤ p.toInt) (allOwing : ∀ p ∈ owing, p.toInt < 0)
    (same : (owing ++ paid).foldl addPayout 0 = (paid ++ owing).foldl addPayout 0) :
    Steady (paid ++ owing) := by
  have none := owed_of_paid allPaid
  have nothing := earned_of_owing allOwing
  have gains := earned_nonneg paid
  have losses := owed_nonneg owing
  have totals := congrArg Int64.toInt same
  rw [List.foldl_append, List.foldl_append, foldl_addPayout_of_owed none,
    foldl_addPayout_of_earned nothing, foldl_addPayout_of_earned nothing,
    foldl_addPayout_of_owed none, Int64.toInt_zero] at totals
  unfold Steady
  rw [earned_append, owed_append, none, nothing]
  unfold nearest at totals
  omega

theorem steady_congr {others : List Int64} (reordered : others.Perm payouts) :
    Steady others ↔ Steady payouts := by
  unfold Steady earned owed
  rw [(reordered.map _).sum_eq, (reordered.map _).sum_eq]

/-! ## The totals of an event -/

variable (c : Configuration) (event : Event) (proofs : List Proof) (settlements : List Settlement)
  (audit : Option AuditRequest)

/-- The total of the payouts is their sum, cut off once, exactly if it is the same in any order. -/
theorem totals_are_sums :
    (∀ listed : List Proof, listed.Perm proofs →
      (Progress.of c event listed settlements audit).totalReduction.toNat =
        min (proofs.map (·.reduction.toNat)).sum (2 ^ 64 - 1)) ∧
    [∀ rows : List Settlement, rows.Perm settlements →
        (Progress.of c event proofs rows audit).totalPayout.toInt =
          max (-2 ^ 63) (min (2 ^ 63 - 1) (settlements.map (·.payout.toInt)).sum),
      ∀ rows : List Settlement, rows.Perm settlements →
        (Progress.of c event proofs rows audit).totalPayout =
          (Progress.of c event proofs settlements audit).totalPayout,
      Steady (settlements.map (·.payout))].TFAE := by
  constructor
  · intro listed reordered
    rw [← (reordered.map _).sum_eq]
    simpa [Progress.of, Function.comp_def] using
      toNat_foldl_addReduction (listed.map (·.reduction)) 0
  tfae_have 1 → 2 := fun exact rows reordered =>
    Int64.toInt_inj.mp ((exact rows reordered).trans (exact settlements (.refl _)).symm)
  tfae_have 2 → 3 := by
    intro same
    let gets : Settlement → Bool := fun row => 0 ≤ row.payout.toInt
    let paid := settlements.filter gets
    let owing := settlements.filter fun row => !gets row
    have split : (paid ++ owing).Perm settlements := List.filter_append_perm gets settlements
    have swapped : (owing ++ paid).Perm settlements := List.perm_append_comm.trans split
    rw [← steady_congr (split.map _), List.map_append]
    refine steady_of_foldl_eq ?_ ?_ ?_
    · exact List.forall_mem_map.mpr fun row listed => by simpa [gets] using (List.mem_filter.mp listed).2
    · exact List.forall_mem_map.mpr fun row listed => by simpa [gets] using (List.mem_filter.mp listed).2
    · rw [← List.map_append, ← List.map_append]
      exact (same _ swapped).trans (same _ split).symm
  tfae_have 3 → 1 := by
    intro steady rows reordered
    have total := ((steady_congr (reordered.map _)).mpr steady).foldl_addPayout
    rw [List.map_map, (reordered.map _).sum_eq] at total
    exact total
  tfae_finish

end Progress

namespace Service

def vastSeason : List Task :=
  let rate : UInt64 := 0x100000000
  let submission (site : String) (baseline : UInt64) : Task :=
    .submitProof ⟨⟨"DR-1"⟩, ⟨site⟩, baseline, 0, ⟨"meter"⟩, "u", none, none, ⟨"participant"⟩⟩
  [.createEvent ⟨⟨"DR-1"⟩, .ofSeconds 0, .ofSeconds 3600, 3 * rate, rate, rate⟩,
    submission "site-a" rate, submission "site-b" rate, submission "site-c" 0,
    .closeEvent ⟨"DR-1"⟩, .settleEvent ⟨"DR-1"⟩ []]

/-- The sum fits into 64 bits, but what goes beyond the limit on the way is lost. -/
theorem total_of_vastSeason : ∃ (s : Service) (index : Index) (progress : Progress),
    Relation.ReflTransGen Step ⟨.memory .empty, [], []⟩ s ∧ s.storage = .memory index ∧
    (Surroundings.confirming (.ofSeconds 10)).result .standard index (.getSummary ⟨"DR-1"⟩) =
      .ok progress ∧
    index.paidOut ⟨"DR-1"⟩ = 2 ^ 63 - 2 ∧ progress.totalPayout.toInt = -1 := by
  obtain ⟨s, run, here⟩ := reaches_tasks (.confirming (.ofSeconds 10)) .standard vastSeason
    (s := ⟨.memory .empty, [], []⟩) rfl
  exact ⟨s, _, _, run, here, rfl, by rfl, by rfl⟩

end Service

end Curtail
