import Curtail.Ledger.Simulated
import Mathlib.Tactic.Common

namespace Curtail

namespace SimulatedLedger

variable {ledger : SimulatedLedger} {handle other : TxHandle} {count : Nat}

/-- The ledger has been asked this often about a transaction not confirmed at once. -/
def Counts (ledger : SimulatedLedger) (handle : TxHandle) (count : Nat) : Prop :=
  ledger.unconfirmed.lookup handle =
    if count < ledger.checksUntilConfirm.toNat then some (.ofNat count) else none

theorem lookup_others (entries : List (TxHandle × UInt32)) (handle other : TxHandle) :
    (entries.filter fun entry => entry.1 ≠ handle).lookup other =
      if other = handle then none else entries.lookup other := by
  induction entries with
  | nil => exact (ite_self none).symm
  | cons entry entries ih =>
      obtain ⟨key, count⟩ := entry
      by_cases own : key = handle
      · rw [List.filter_cons_of_neg (by simpa using own), ih]
        by_cases same : other = handle
        · rw [if_pos same, if_pos same]
        · have unlike : (other == key) = false := beq_false_of_ne (own ▸ same)
          rw [if_neg same, if_neg same, List.lookup_cons, unlike]
      · rw [List.filter_cons_of_pos (by simpa using own), List.lookup_cons, ih, List.lookup_cons]
        by_cases found : other = key
        · have unlike : other ≠ handle := found ▸ own
          simp [found, own]
        · have unlike : (other == key) = false := beq_false_of_ne found
          rw [unlike]

theorem lookup_replaced {entries : List (TxHandle × UInt32)} {seen : UInt32}
    (distinct : other ≠ handle) :
    ((handle, seen) :: entries.filter fun entry => entry.1 ≠ handle).lookup other =
      entries.lookup other := by
  have unlike : (other == handle) = false := beq_false_of_ne distinct
  rw [List.lookup_cons, unlike]
  exact (lookup_others entries handle other).trans (if_neg distinct)

section Submit

variable (now : Instant) (action : LedgerAction) (payload : Json.Value) (mode : ConfirmMode)

theorem checksUntilConfirm_submit :
    (ledger.submit now action payload mode).2.checksUntilConfirm = ledger.checksUntilConfirm := by
  unfold submit
  simp only
  split <;> rfl

theorem submit_cases : let (result, later) := ledger.submit now action payload mode
    result.outcome.state = .confirmed ∨
      result.fee = none ∧ result.outcome = .submitted ∧ later.Counts result.handle 0 := by
  unfold submit Counts
  by_cases atOnce : mode = .sync ∨ ledger.checksUntilConfirm = 0
  · simp [atOnce, TxOutcome.state]
  · have some_ : 0 < ledger.checksUntilConfirm.toNat := by
      have nonzero : ledger.checksUntilConfirm ≠ 0 := fun zero => atOnce (.inr zero)
      have toNat := UInt32.toNat_inj.not.mpr nonzero
      exact Nat.pos_of_ne_zero toNat
    simp [atOnce, some_]

theorem Counts.submit (counts : ledger.Counts handle count)
    (distinct : handle ≠ (ledger.submit now action payload mode).1.handle) :
    (ledger.submit now action payload mode).2.Counts handle count := by
  unfold Counts at counts ⊢
  rw [checksUntilConfirm_submit, ← counts]
  unfold SimulatedLedger.submit at distinct ⊢
  by_cases atOnce : (mode = .sync || ledger.checksUntilConfirm = 0) = true
  · rw [if_pos atOnce]
  · rw [if_neg atOnce] at distinct ⊢
    exact lookup_replaced distinct

end Submit

theorem checksUntilConfirm_check (now : Instant) (handle : TxHandle) :
    (ledger.check now handle).2.checksUntilConfirm = ledger.checksUntilConfirm := by
  unfold check
  simp only
  split
  · split <;> rfl
  · rfl

theorem Counts.check_other (counts : ledger.Counts handle count) (now : Instant)
    (distinct : handle ≠ other) : (ledger.check now other).2.Counts handle count := by
  unfold Counts at counts ⊢
  rw [checksUntilConfirm_check, ← counts]
  unfold SimulatedLedger.check
  simp only
  split
  · split
    · exact lookup_replaced distinct
    · exact (lookup_others ..).trans (if_neg distinct)
  · rfl

theorem Counts.check (counts : ledger.Counts handle count) (now : Instant) :
    (ledger.check now handle).1 =
        (if count + 1 < ledger.checksUntilConfirm.toNat then ⟨none, .submitted⟩
          else ⟨some 0, .confirmed now⟩) ∧
      (ledger.check now handle).2.Counts handle (count + 1) := by
  have bound := ledger.checksUntilConfirm.toNat_lt
  unfold Counts at counts ⊢
  rw [checksUntilConfirm_check]
  unfold SimulatedLedger.check
  rw [counts]
  by_cases known : count < ledger.checksUntilConfirm.toNat
  · have small : (UInt32.ofNat (count + 1)).toNat = count + 1 := by
      rw [UInt32.toNat_ofNat']
      exact Nat.mod_eq_of_lt (by omega)
    have succ : UInt32.ofNat count + 1 = UInt32.ofNat (count + 1) := by simp
    have next : UInt32.ofNat (count + 1) < ledger.checksUntilConfirm ↔
        count + 1 < ledger.checksUntilConfirm.toNat := by
      rw [UInt32.lt_iff_toNat_lt, small]
    rw [if_pos known]
    simp only [succ, next]
    by_cases further : count + 1 < ledger.checksUntilConfirm.toNat
    · rw [if_pos further, if_pos further, if_pos further]
      exact ⟨rfl, List.lookup_cons_self⟩
    · rw [if_neg further, if_neg further, if_neg further]
      exact ⟨rfl, (lookup_others ..).trans (if_pos rfl)⟩
  · have past : ¬count + 1 < ledger.checksUntilConfirm.toNat := by omega
    rw [if_neg known, if_neg past, if_neg past]
    exact ⟨rfl, counts.trans (if_neg known)⟩

end SimulatedLedger

end Curtail
