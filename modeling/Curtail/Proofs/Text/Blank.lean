import Curtail.Text.Blank
import Mathlib.Data.List.TakeWhile
import Mathlib.Data.String.Basic
import Mathlib.Tactic.Common

namespace Curtail.Text

variable {front core back cs : List Char}

theorem exists_eq_append_trimStart (cs : List Char) :
    ∃ front, cs = front ++ trimStart cs ∧ ∀ c ∈ front, isBlank c = true :=
  ⟨cs.takeWhile isBlank, List.takeWhile_append_dropWhile.symm, fun _ => List.mem_takeWhile_imp⟩

theorem exists_eq_append_trim (cs : List Char) :
    ∃ front back, cs = front ++ trim cs ++ back ∧ ∀ c ∈ front ++ back, isBlank c = true := by
  obtain ⟨front, start, blankFront⟩ := exists_eq_append_trimStart cs
  obtain ⟨back, stop, blankBack⟩ := exists_eq_append_trimStart (trimStart cs).reverse
  refine ⟨front, back.reverse, ?_, ?_⟩
  · rw [trim, List.append_assoc, ← List.reverse_append, ← stop, List.reverse_reverse]
    exact start
  · intro c listed
    rcases List.mem_append.mp listed with before | after
    · exact blankFront c before
    · exact blankBack c (List.mem_reverse.mp after)

theorem trimStart_append (blank : ∀ c ∈ front, isBlank c = true) (present : core ≠ [])
    (inked : ∀ c ∈ core, isBlank c = false) : trimStart (front ++ (core ++ back)) = core ++ back := by
  obtain ⟨c, others, rfl⟩ := List.exists_cons_of_ne_nil present
  rw [trimStart, List.dropWhile_append_of_pos blank]
  exact List.dropWhile_cons_of_neg (by simp [inked c])

theorem trim_append (blank : ∀ c ∈ front ++ back, isBlank c = true) (present : core ≠ [])
    (inked : ∀ c ∈ core, isBlank c = false) : trim (front ++ core ++ back) = core := by
  have start : trimStart (front ++ core ++ back) = core ++ back := by
    rw [List.append_assoc]
    exact trimStart_append (fun c listed => blank c (List.mem_append_left _ listed)) present inked
  have stop : trimStart (back.reverse ++ (core.reverse ++ [])) = core.reverse ++ [] := by
    apply trimStart_append
    · exact fun c listed => blank c (List.mem_append_right _ (List.mem_reverse.mp listed))
    · exact List.reverse_ne_nil_iff.mpr present
    · exact fun c listed => inked c (List.mem_reverse.mp listed)
  rw [List.append_nil] at stop
  rw [trim, start, List.reverse_append, stop, List.reverse_reverse]

theorem trim_of_blank {cs : List Char} (blank : ∀ c ∈ cs, isBlank c = true) : trim cs = [] := by
  have nothing : trimStart cs = [] := List.dropWhile_eq_nil_iff.mpr blank
  rw [trim, nothing]
  rfl

theorem pieces_eq_splitOn (mark : Char) (cs : List Char) : pieces mark cs = cs.splitOn mark := by
  induction cs with
  | nil => rfl
  | cons c cs ih =>
      rw [pieces, ih, List.splitOn, List.splitOn, List.splitOnP_cons_eq_if_modifyHead]
      by_cases here : c = mark
      · simp [here]
      · obtain ⟨piece, others, found⟩ := List.exists_cons_of_ne_nil (List.splitOnP_ne_nil (· == mark) cs)
        simp [here, found]

theorem toNat_toLower (c : Char) :
    c.toLower.toNat = c.toNat ∧ ¬(65 ≤ c.toNat ∧ c.toNat ≤ 90) ∨
      c.toLower.toNat = c.toNat + 32 ∧ 65 ≤ c.toNat ∧ c.toNat ≤ 90 := by
  unfold Char.toLower
  split
  case isTrue upper =>
    obtain ⟨low, high⟩ := upper
    have low : 65 ≤ c.val.toNat := low
    have high : c.val.toNat ≤ 90 := high
    refine .inr ⟨?_, low, high⟩
    change (c.val + ('a'.val - 'A'.val)).toNat = c.val.toNat + 32
    rw [UInt32.toNat_add]
    change (c.val.toNat + 32) % 4294967296 = c.val.toNat + 32
    omega
  case isFalse other => exact .inl ⟨rfl, other⟩

theorem isBlank_toLower (c : Char) : isBlank c.toLower = isBlank c := by
  have lowered := toNat_toLower c
  rw [Bool.eq_iff_iff]
  simp only [isBlank, Bool.or_eq_true, Bool.and_eq_true, decide_eq_true_eq, beq_iff_eq]
  omega

theorem utf8Size_toLower (c : Char) : c.toLower.utf8Size = c.utf8Size := by
  have lowered := toNat_toLower c
  have size (d : Char) : d.utf8Size = if d.toNat ≤ 127 then 1 else if d.toNat ≤ 2047 then 2
      else if d.toNat ≤ 65535 then 3 else 4 := by
    simp only [Char.utf8Size, UInt32.le_iff_toNat_le]
    rfl
  rw [size, size]
  grind

theorem utf8Len_lower (cs : List Char) : String.utf8Len (lower cs) = String.utf8Len cs := by
  induction cs with
  | nil => rfl
  | cons c cs ih =>
    unfold lower at ih ⊢
    rw [List.map_cons, String.utf8Len_cons, String.utf8Len_cons, ih, utf8Size_toLower]

end Curtail.Text
