import Curtail.Json.Reader
import Curtail.Instant.Text
import Mathlib.Algebra.Group.Nat.Defs
import Mathlib.Tactic.Common

namespace Curtail

/-- A row of digits, zeros in front allowed, that stands for `n`. -/
structure Spells (ds : List Char) (n : Nat) : Prop where
  digits : ∀ c ∈ ds, c.isDigit = true
  value : Nat.ofDigitChars 10 ds 0 = n

namespace Spells

theorem nil : Spells [] 0 :=
  ⟨by simp, by simp⟩

theorem toDigits (n : Nat) : Spells (Nat.toDigits 10 n) n :=
  ⟨fun _ member => Nat.isDigit_of_mem_toDigits (by decide) (by decide) member, by simp⟩

theorem zeros {ds : List Char} {n : Nat} (spells : Spells ds n) (k : Nat) :
    Spells (List.replicate k '0' ++ ds) n := by
  refine ⟨fun c member => ?_, ?_⟩
  · rcases List.mem_append.mp member with h | h
    · rw [List.eq_of_mem_replicate h]
      rfl
    · exact spells.digits c h
  · rw [Nat.ofDigitChars_append, Nat.ofDigitChars_replicate_zero, Nat.mul_zero]
    exact spells.value

end Spells

theorem length_toDigits_le {n count : Nat} (small : n < 10 ^ count) (positive : 0 < count) :
    (Nat.toDigits 10 n).length ≤ count :=
  (Nat.length_toDigits_le_iff (by decide) positive).mpr small

theorem head_toDigits_ne_zero {n : Nat} (positive : 0 < n) : (Nat.toDigits 10 n).head? ≠ some '0' := by
  induction n using Nat.strongRecOn with
  | _ n ih =>
    rw [Nat.toDigits_eq_if (by decide)]
    split
    · rename_i small
      have cases : n = 1 ∨ n = 2 ∨ n = 3 ∨ n = 4 ∨ n = 5 ∨ n = 6 ∨ n = 7 ∨ n = 8 ∨ n = 9 := by omega
      rcases cases with rfl | rfl | rfl | rfl | rfl | rfl | rfl | rfl | rfl <;> decide
    · have front := ih (n / 10) (by omega) (by omega)
      cases row : Nat.toDigits 10 (n / 10) with
      | nil => exact absurd row Nat.toDigits_ne_nil
      | cons d ds =>
          rw [row] at front
          exact front

theorem isDigit_bounds {c : Char} (digit : c.isDigit = true) : '0' ≤ c ∧ c ≤ '9' := by
  simp only [Char.isDigit, Bool.and_eq_true, decide_eq_true_eq] at digit
  exact digit

namespace Json

theorem digit?_of_isDigit {c : Char} (digit : c.isDigit = true) : digit? c = some (c.toNat - 48) :=
  if_pos (isDigit_bounds digit)

theorem isDigit_of_digit? {c : Char} {d : Nat} (digit : digit? c = some d) : c.isDigit = true := by
  unfold digit? at digit
  split at digit
  · rename_i bounds
    simp only [Char.isDigit, Bool.and_eq_true, decide_eq_true_eq]
    exact bounds
  · cases digit

def NoDigit (rest : List Char) : Prop := ∀ c ∈ rest.head?, digit? c = none

theorem takeDigits_append {ds rest : List Char} (digits : ∀ c ∈ ds, c.isDigit = true)
    (stop : NoDigit rest) (value count : Nat) :
    takeDigits value count (ds ++ rest) = (Nat.ofDigitChars 10 ds value, count + ds.length, rest) := by
  induction ds generalizing value count with
  | nil =>
    cases rest with
    | nil => rfl
    | cons c cs => simp [takeDigits, stop c rfl]
  | cons d ds ih =>
    have head := digit?_of_isDigit (digits d List.mem_cons_self)
    simp only [List.cons_append, takeDigits, head]
    rw [ih fun c member => digits c (List.mem_cons_of_mem _ member)]
    simp only [Nat.ofDigitChars_cons, List.length_cons, Prod.mk.injEq, and_true]
    exact ⟨by rw [Nat.mul_comm]; rfl, by omega⟩

theorem takeDigits_spells {ds rest : List Char} {n : Nat} (spells : Spells ds n)
    (stop : NoDigit rest) : takeDigits 0 0 (ds ++ rest) = (n, ds.length, rest) := by
  rw [takeDigits_append spells.digits stop, spells.value, Nat.zero_add]

end Json

namespace Instant

theorem digit?_of_isDigit {c : Char} (digit : c.isDigit = true) : digit? c = some (c.toNat - 48) :=
  if_pos (isDigit_bounds digit)

theorem takeDigits_append {ds rest : List Char} (digits : ∀ c ∈ ds, c.isDigit = true) {most : Nat}
    (stop : ds.length = most ∨ (ds.length < most ∧ ∀ c ∈ rest.head?, digit? c = none))
    (value count : Nat) :
    takeDigits value count most (ds ++ rest) =
      (Nat.ofDigitChars 10 ds value, count + ds.length, rest) := by
  induction ds generalizing value count most with
  | nil =>
    rcases stop with full | ⟨room, stop⟩
    · obtain rfl : most = 0 := full.symm
      simp [takeDigits]
    · obtain ⟨k, rfl⟩ := Nat.exists_eq_succ_of_ne_zero (Nat.ne_of_gt room)
      cases rest with
      | nil => rfl
      | cons c cs => simp [takeDigits, stop c rfl]
  | cons d ds ih =>
    obtain ⟨k, rfl⟩ : ∃ k, most = k + 1 := ⟨most - 1, by simp only [List.length_cons] at stop; omega⟩
    have head := digit?_of_isDigit (digits d List.mem_cons_self)
    simp only [List.cons_append, takeDigits, head]
    rw [ih (fun c member => digits c (List.mem_cons_of_mem _ member))
      (by simpa only [List.length_cons, Nat.add_right_cancel_iff, Nat.add_lt_add_iff_right] using stop)]
    simp only [Nat.ofDigitChars_cons, List.length_cons, Prod.mk.injEq, and_true]
    exact ⟨by rw [Nat.mul_comm]; rfl, by omega⟩

theorem takeDigits_spells {ds rest : List Char} {n most : Nat} (spells : Spells ds n)
    (stop : ds.length = most ∨ (ds.length < most ∧ ∀ c ∈ rest.head?, digit? c = none)) :
    takeDigits 0 0 most (ds ++ rest) = (n, ds.length, rest) := by
  rw [takeDigits_append spells.digits stop, spells.value, Nat.zero_add]

end Instant

end Curtail
