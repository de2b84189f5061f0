import Curtail.Engine.Progress
import Mathlib.Algebra.Order.Ring.Int

namespace Curtail

namespace Instant

variable {s t : Instant}

theorem le_iff : s ≤ t ↔ s.seconds < t.seconds ∨ s.seconds = t.seconds ∧ s.nanos ≤ t.nanos := by
  change ((compare s.seconds t.seconds).then (compare s.nanos t.nanos)).isLE ↔ _
  rcases lt_trichotomy s.seconds t.seconds with before | same | after
  · simp [compare_lt_iff_lt.mpr before, before]
  · simp [same, Nat.isLE_compare]
  · simp [compare_gt_iff_gt.mpr after, not_lt_of_gt after, ne_of_gt after]

theorem lt_iff : s < t ↔ s.seconds < t.seconds ∨ s.seconds = t.seconds ∧ s.nanos < t.nanos := by
  change (compare s.seconds t.seconds).then (compare s.nanos t.nanos) = .lt ↔ _
  rw [Ordering.then_eq_lt, compare_lt_iff_lt, compare_eq_iff_eq, compare_lt_iff_lt]

instance : PartialOrder Instant where
  le_refl t := le_iff.mpr (by omega)
  le_trans s t u := by
    simp only [le_iff]
    omega
  lt_iff_le_not_ge s t := by
    simp only [le_iff, lt_iff]
    omega
  le_antisymm s t before after := by
    rw [le_iff] at before after
    obtain ⟨seconds, nanos, _, _⟩ := s
    obtain ⟨seconds', nanos', _, _⟩ := t
    simp only at before after
    obtain rfl : seconds = seconds' := by omega
    obtain rfl : nanos = nanos' := by omega
    rfl

theorem le_of_not_lt (late : ¬s < t) : t ≤ s := by
  rw [lt_iff] at late
  rw [le_iff]
  omega

theorem wholeSecond_parts (t : Instant) : t.wholeSecond.seconds = t.seconds ∧
    t.wholeSecond.nanos = if t.nanos < 1000000000 then 0 else 1000000000 := by
  unfold wholeSecond
  by_cases ordinary : t.nanos < 1000000000
  · simp [ordinary, ofSeconds]
  · simp [ordinary, ofParts?, t.leap (Nat.le_of_not_lt ordinary)]

theorem wholeSecond_le (before : s ≤ t) : s.wholeSecond ≤ t.wholeSecond := by
  obtain ⟨seconds, nanos⟩ := wholeSecond_parts s
  obtain ⟨seconds', nanos'⟩ := wholeSecond_parts t
  rw [le_iff] at before ⊢
  rw [seconds, seconds', nanos, nanos']
  split <;> split <;> omega

theorem le_later_left : s ≤ later s t := by
  unfold later
  split
  case isTrue before => exact le_of_lt before
  case isFalse => exact le_rfl

theorem le_later_right : t ≤ later s t := by
  unfold later
  split
  case isTrue => exact le_rfl
  case isFalse late => exact le_of_not_lt late

theorem later_mem : later s t = s ∨ later s t = t := by
  unfold later
  split
  · exact .inr rfl
  · exact .inl rfl

end Instant

namespace Progress

variable {t : Instant} {ts : List Instant}

theorem foldl_later (t : Instant) (ts : List Instant) :
    ts.foldl Instant.later t ∈ t :: ts ∧ ∀ u ∈ t :: ts, u ≤ ts.foldl Instant.later t := by
  induction ts generalizing t with
  | nil => simp
  | cons s ts ih =>
      obtain ⟨listed, most⟩ := ih (t.later s)
      rw [List.foldl_cons]
      constructor
      · rcases List.mem_cons.mp listed with same | rest
        · rcases Instant.later_mem (s := t) (t := s) with first | second
          · rw [same, first]
            exact List.mem_cons_self
          · rw [same, second]
            exact List.mem_cons_of_mem _ List.mem_cons_self
        · exact List.mem_cons_of_mem _ (List.mem_cons_of_mem _ rest)
      · have least := most _ List.mem_cons_self
        simp only [List.forall_mem_cons]
        exact ⟨Instant.le_later_left.trans least, Instant.le_later_right.trans least,
          fun u rest => most u (List.mem_cons_of_mem _ rest)⟩

theorem latest_eq_some_iff : latest ts = some t ↔ t ∈ ts ∧ ∀ u ∈ ts, u ≤ t := by
  cases ts with
  | nil => simp [latest]
  | cons s ts =>
      obtain ⟨listed, most⟩ := foldl_later s ts
      rw [latest, Option.some_inj]
      constructor
      · rintro rfl
        exact ⟨listed, most⟩
      · rintro ⟨member, last⟩
        exact le_antisymm (last _ listed) (most t member)

end Progress

end Curtail
