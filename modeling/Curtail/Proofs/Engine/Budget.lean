import Curtail.Proofs.Engine.Service
import Curtail.Proofs.Scoring
import Mathlib.Algebra.Order.BigOperators.Group.List

namespace Curtail

namespace Index

variable {index : Index} {id : EventId} {e : Event}

def paidOut (index : Index) (id : EventId) : Int :=
  ((rowsOf index.settlements id).map (·.payout.toInt)).sum

theorem Pays.share_le (pays : index.Pays id e) : ∃ share : UInt64,
    ((rowsOf index.settlements id).length : Int) * share.toNat ≤ e.target.toNat ∧
    ∀ row ∈ rowsOf index.settlements id,
      ∃ reduction, row.payout = Scoring.payout reduction share e.rewardRate e.penaltyRate := by
  obtain ⟨share, shared, paid⟩ := pays
  obtain ⟨-, equal⟩ := targetShare_eq_some shared
  refine ⟨share, ?_, ?_⟩
  · rw [length_rowsOf, equal]
    -- The share is rounded down.
    exact_mod_cast Nat.mul_div_le _ _
  · intro row listed
    obtain ⟨site, present⟩ := mem_rowsOf.mp listed
    obtain ⟨p, -, payout⟩ := paid site row present
    exact ⟨p.reduction, payout⟩

theorem Pays.paidOut_le (pays : index.Pays id e) :
    index.paidOut id ≤ e.target.toNat * e.rewardRate.toNat := by
  obtain ⟨share, within, paid⟩ := pays.share_le
  calc index.paidOut id
      ≤ ((rowsOf index.settlements id).map (·.payout.toInt)).length •
          (share.toNat * e.rewardRate.toNat : Int) := by
        apply List.sum_le_card_nsmul
        rw [List.forall_mem_map]
        intro row listed
        obtain ⟨reduction, payout⟩ := paid row listed
        rw [payout]
        exact Scoring.payout_le _ _ _ _
    _ = (rowsOf index.settlements id).length * share.toNat * e.rewardRate.toNat := by
        rw [List.length_map, nsmul_eq_mul, mul_assoc]
    _ ≤ e.target.toNat * e.rewardRate.toNat := Int.mul_le_mul_of_nonneg_right within (by omega)

theorem Pays.le_paidOut (pays : index.Pays id e) :
    -(e.target.toNat * e.penaltyRate.toNat : Int) ≤ index.paidOut id := by
  obtain ⟨share, within, paid⟩ := pays.share_le
  calc -(e.target.toNat * e.penaltyRate.toNat : Int)
      ≤ -((rowsOf index.settlements id).length * share.toNat * e.penaltyRate.toNat) :=
        Int.neg_le_neg (Int.mul_le_mul_of_nonneg_right within (by omega))
    _ = ((rowsOf index.settlements id).map (·.payout.toInt)).length •
          -(share.toNat * e.penaltyRate.toNat : Int) := by
        rw [List.length_map, nsmul_eq_mul, mul_assoc, mul_neg]
    _ ≤ index.paidOut id := by
        apply List.card_nsmul_le_sum
        rw [List.forall_mem_map]
        intro row listed
        obtain ⟨reduction, payout⟩ := paid row listed
        rw [payout]
        exact Scoring.le_payout _ _ _ _

theorem Pays.payout_le (pays : index.Pays id e) {site other : SiteId} {row paid : Settlement} {p q : Proof}
    (settled : index.settlements.get? ⟨id, site⟩ = some row)
    (proven : index.proofs.get? ⟨id, site⟩ = some p)
    (settled' : index.settlements.get? ⟨id, other⟩ = some paid)
    (proven' : index.proofs.get? ⟨id, other⟩ = some q) (le : p.reduction ≤ q.reduction) :
    row.payout ≤ paid.payout := by
  obtain ⟨share, -, pays⟩ := pays
  obtain ⟨p', found, payout⟩ := pays site row settled
  obtain ⟨q', found', payout'⟩ := pays other paid settled'
  obtain rfl := Option.some.inj (proven.symm.trans found)
  obtain rfl := Option.some.inj (proven'.symm.trans found')
  rw [payout, payout']
  exact Scoring.payout_mono _ _ _ _ le

end Index

namespace Service

/-- A settled event costs no more than the reward for its target, and takes in no more than the penalty.
-/
theorem budget_of_run {first s : Service} (begins : first.Begins)
    (run : Relation.ReflTransGen Step first s) {id : EventId} {e : Event}
    (found : s.index.events.get? id = some e) (done : e.status = .settled) :
    s.index.paidOut id ≤ e.target.toNat * e.rewardRate.toNat ∧
      -(e.target.toNat * e.penaltyRate.toNat : Int) ≤ s.index.paidOut id := by
  have pays := (sound_of_run begins run).made.pays found done
  exact ⟨pays.paidOut_le, pays.le_paidOut⟩

theorem budget_of_season : ∃ s : Service,
    s.index.paidOut ⟨"DR-1"⟩ = 260 ∧ s.index.paidOut ⟨"DR-1"⟩ ≤ 100 * 3 ∧
      -(100 * 1) ≤ s.index.paidOut ⟨"DR-1"⟩ := by
  obtain ⟨s, run, here⟩ := reaches_tasks (.confirming (.ofSeconds 10)) .standard season
    (s := ⟨.memory .empty, [], []⟩) rfl
  have event : ∃ e, s.index.events.get? ⟨"DR-1"⟩ = some e ∧ e.status = .settled ∧
      e.target = 100 ∧ e.rewardRate = 3 ∧ e.penaltyRate = 1 := by
    rw [index, here]
    exact ⟨_, rfl, rfl, rfl, rfl, rfl⟩
  have paid : s.index.paidOut ⟨"DR-1"⟩ = 260 := by
    rw [index, here]
    rfl
  obtain ⟨e, found, done, target, reward, penalty⟩ := event
  have budget := budget_of_run .memory run found done
  rw [target, reward, penalty] at budget
  exact ⟨s, paid, budget⟩

/-- With one share and one pair of rates more reduction never pays less. -/
theorem payouts_rise_of_run :
    (∀ reduction more share reward penalty : UInt64, reduction ≤ more →
      Scoring.payout reduction share reward penalty ≤ Scoring.payout more share reward penalty) ∧
    ∀ first s : Service, first.Begins → Relation.ReflTransGen Step first s →
      ∀ (id : EventId) (e : Event), s.index.events.get? id = some e → e.status = .settled →
      ∀ (site other : SiteId) (row paid : Settlement) (p q : Proof),
        s.index.settlements.get? ⟨id, site⟩ = some row → s.index.proofs.get? ⟨id, site⟩ = some p →
        s.index.settlements.get? ⟨id, other⟩ = some paid → s.index.proofs.get? ⟨id, other⟩ = some q →
        p.reduction ≤ q.reduction → row.payout ≤ paid.payout := by
  constructor
  · intro reduction more share reward penalty le
    exact Scoring.payout_mono _ _ _ _ le
  · intro first s begins run id e found done site other row paid p q settled proven settled' proven' le
    have pays := (sound_of_run begins run).made.pays found done
    exact pays.payout_le settled proven settled' proven' le

theorem payouts_rise_of_season : ∃ (s : Service) (row paid : Settlement) (p q : Proof),
    s.index.settlements.get? ⟨⟨"DR-1"⟩, ⟨"site-b"⟩⟩ = some row ∧
    s.index.settlements.get? ⟨⟨"DR-1"⟩, ⟨"site-a"⟩⟩ = some paid ∧
    s.index.proofs.get? ⟨⟨"DR-1"⟩, ⟨"site-b"⟩⟩ = some p ∧
    s.index.proofs.get? ⟨⟨"DR-1"⟩, ⟨"site-a"⟩⟩ = some q ∧ p.reduction = 40 ∧ q.reduction = 60 ∧
    row.payout ≤ paid.payout ∧ Scoring.payout 40 50 3 1 ≤ Scoring.payout 60 50 3 1 := by
  obtain ⟨s, run, here⟩ := reaches_tasks (.confirming (.ofSeconds 10)) .standard season
    (s := ⟨.memory .empty, [], []⟩) rfl
  have event : ∃ e, s.index.events.get? ⟨"DR-1"⟩ = some e ∧ e.status = .settled := by
    rw [index, here]
    exact ⟨_, rfl, rfl⟩
  have rows : ∃ row paid p q,
      s.index.settlements.get? ⟨⟨"DR-1"⟩, ⟨"site-b"⟩⟩ = some row ∧
      s.index.settlements.get? ⟨⟨"DR-1"⟩, ⟨"site-a"⟩⟩ = some paid ∧
      s.index.proofs.get? ⟨⟨"DR-1"⟩, ⟨"site-b"⟩⟩ = some p ∧
      s.index.proofs.get? ⟨⟨"DR-1"⟩, ⟨"site-a"⟩⟩ = some q ∧ p.reduction = 40 ∧ q.reduction = 60 := by
    rw [index, here]
    exact ⟨_, _, _, _, rfl, rfl, rfl, rfl, rfl, rfl⟩
  obtain ⟨e, found, done⟩ := event
  obtain ⟨row, paid, p, q, settled, settled', proven, proven', less, more⟩ := rows
  obtain ⟨alone, among⟩ := payouts_rise_of_run
  have le : p.reduction ≤ q.reduction := by
    rw [less, more]
    decide
  refine ⟨s, row, paid, p, q, settled, settled', proven, proven', less, more, ?_, alone _ _ _ _ _ (by decide)⟩
  exact among _ s .memory run _ e found done _ _ row paid p q settled proven settled' proven' le

end Service

end Curtail
