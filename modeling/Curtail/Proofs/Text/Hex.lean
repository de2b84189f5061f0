import Curtail.Text.Hex
import Mathlib.Algebra.Group.Nat.Defs
import Mathlib.Tactic.Common

namespace Curtail

namespace Text

theorem hexDigit?_hexDigit {n : Nat} (small : n < 16) : hexDigit? (hexDigit n) = some n := by
  have all : ∀ k : Fin 16, hexDigit? (hexDigit k.val) = some k.val := by decide
  exact all ⟨n, small⟩

theorem hexFour?_hexFour {n : Nat} (small : n < 65536) :
    hexFour? (hexDigit (n / 4096 % 16)) (hexDigit (n / 256 % 16)) (hexDigit (n / 16 % 16))
      (hexDigit (n % 16)) = some n := by
  unfold hexFour?
  rw [hexDigit?_hexDigit (Nat.mod_lt _ (by decide)), hexDigit?_hexDigit (Nat.mod_lt _ (by decide)),
    hexDigit?_hexDigit (Nat.mod_lt _ (by decide)), hexDigit?_hexDigit (Nat.mod_lt _ (by decide))]
  simp only [Option.bind_eq_bind, Option.bind_some]
  congr 1
  omega

end Text

namespace Bytes

theorem length_littleEndian (count n : Nat) : (littleEndian count n).length = count := by
  induction count generalizing n with
  | zero => rfl
  | succ count ih => simp [littleEndian, ih]

theorem number_littleEndian {count n : Nat} (small : n < 256 ^ count) :
    number (littleEndian count n) = n := by
  induction count generalizing n with
  | zero =>
      simp only [Nat.pow_zero, Nat.lt_one_iff] at small
      simp [littleEndian, number, small]
  | succ count ih =>
      have quotient : n / 256 < 256 ^ count := by
        rw [Nat.pow_succ] at small
        exact Nat.div_lt_of_lt_mul (by omega)
      simp only [littleEndian, number, ih quotient, UInt8.toNat_ofNat']
      omega

theorem number_injective {left right : Bytes} (lengths : left.length = right.length)
    (same : number left = number right) : left = right := by
  induction left generalizing right with
  | nil => exact (List.length_eq_zero_iff.mp lengths.symm).symm
  | cons b left ih =>
      cases right with
      | nil => cases lengths
      | cons c right =>
          have low := b.toNat_lt
          have high := c.toNat_lt
          simp only [number] at same
          obtain rfl : b = c := UInt8.toNat_inj.mp (by omega)
          rw [ih (Nat.succ.inj lengths) (by omega)]

theorem toText?_ofText (text : String) : toText? (ofText text) = some text := by
  have bytes : (⟨(ofText text).toArray⟩ : ByteArray) = text.toUTF8 := by simp [ofText]
  unfold toText? String.fromUTF8?
  rw [bytes]
  exact dif_pos text.isValidUTF8

theorem ofText_append (s t : String) : ofText (s ++ t) = ofText s ++ ofText t := by
  simp [ofText]

theorem length_ofText (s : String) : (ofText s).length = s.utf8ByteSize := by
  simp [ofText]

theorem ofText_of_toText? {bytes : Bytes} {text : String} (read : toText? bytes = some text) :
    ofText text = bytes := by
  unfold toText? String.fromUTF8? at read
  split at read
  · cases read
    rfl
  · cases read

theorem exists_append_of_ofText {s t : String} {more : Bytes} (front : ofText t = ofText s ++ more) :
    ∃ u, t = s ++ u ∧ ofText u = more := by
  have encoded : s.toList.utf8Encode ++ ⟨more.toArray⟩ = t.toList.utf8Encode := by
    apply ByteArray.ext
    simpa [ofText, ← Array.toList_inj] using front.symm
  obtain ⟨u, same⟩ := List.isPrefix_of_utf8Encode_append_eq_utf8Encode _ encoded
  have whole : t = s ++ String.ofList u := by
    rw [← String.toList_inj, String.toList_append, String.toList_ofList, same]
  refine ⟨String.ofList u, whole, ?_⟩
  rw [whole, ofText_append] at front
  exact List.append_cancel_left front

end Bytes

end Curtail
