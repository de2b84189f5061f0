import Curtail.Index.Store
import Curtail.Proofs.Digest.ProofHash
import Curtail.Proofs.Instant.Text
import Curtail.Proofs.Journal.Frame
import Curtail.Proofs.Json.Size

namespace Curtail

open Journal Json Tree

namespace IdentifierKind

variable {kind : IdentifierKind} {c : Char}

theorem isVerbatim_of_mark {marks : List Char} (plain : AllVerbatim marks)
    (either : (c.isAlphanum || marks.contains c) = true) : IsVerbatim c := by
  rcases Bool.or_eq_true_iff.mp either with alphanum | mark
  · exact isVerbatim_of_isAlphanum alphanum
  · exact plain c (List.contains_iff_mem.mp mark)

theorem isAlphanum_of_isLower (lower : c.isLower = true) : c.isAlphanum = true :=
  have letter : c.isAlpha = true := Bool.or_eq_true_iff.mpr (.inr lower)
  Bool.or_eq_true_iff.mpr (.inl letter)

theorem isVerbatim_of_isFirst (first : kind.isFirst c = true) : IsVerbatim c := by
  cases kind with
  | event | site | actor => exact isVerbatim_of_isAlphanum first
  | method => exact isVerbatim_of_isAlphanum (isAlphanum_of_isLower first)
  | handle => exact isVerbatim_of_mark (by decide) first

theorem isVerbatim_of_isLater (later : kind.isLater c = true) : IsVerbatim c := by
  cases kind with
  | event | site | handle => exact isVerbatim_of_mark (by decide) later
  | actor => exact isVerbatim_of_mark (by decide) later
  | method =>
      simp only [isLater, Bool.or_eq_true] at later
      rcases later with (lower | digit) | mark
      · exact isVerbatim_of_isAlphanum (isAlphanum_of_isLower lower)
      · exact isVerbatim_of_isDigit digit
      · exact isVerbatim_of_mark (by decide) (Bool.or_eq_true_iff.mpr (.inr mark))

theorem verbatim_of_admits {cs : List Char} (admitted : kind.admits cs = true) :
    Verbatim cs kind.maxLength := by
  match cs with
  | [] => cases admitted
  | c :: cs =>
      simp only [admits, Bool.and_eq_true, decide_eq_true_eq, List.all_eq_true] at admitted
      obtain ⟨⟨first, later⟩, short⟩ := admitted
      exact ⟨List.forall_mem_cons.mpr ⟨isVerbatim_of_isFirst first,
        fun d member => isVerbatim_of_isLater (later d member)⟩, short⟩

end IdentifierKind

namespace Identifier

variable {kind : IdentifierKind}

def IsAdmitted (id : Identifier kind) : Prop := kind.admits id.text.toList = true

instance (id : Identifier kind) : Decidable id.IsAdmitted := inferInstanceAs (Decidable (_ = true))

theorem IsAdmitted.size_le {id : Identifier kind} (admitted : id.IsAdmitted) :
    (encode id).size ≤ kind.maxLength + 2 :=
  size_text_le (IdentifierKind.verbatim_of_admits admitted)

end Identifier

namespace Instant

theorem verbatim_padded {width n most : Nat} (wide : width ≤ most) (small : n < 10 ^ most)
    (positive : 0 < most) : Verbatim (padded width n).toList most := by
  refine ⟨fun c member => isVerbatim_of_isDigit ((padded_spells width n).digits c member), ?_⟩
  have digits := length_toDigits_le small positive
  rw [toList_padded, List.length_append, List.length_replicate]
  omega

theorem verbatim_yearText {year : Int} (first : Day.firstYear ≤ year) (last : year ≤ Day.lastYear) :
    Verbatim (yearText year).toList 7 := by
  unfold Day.firstYear Day.lastYear at *
  unfold yearText
  split
  · exact (verbatim_padded (Nat.le_refl 4) (by omega) (by decide)).weaken (by decide)
  · have digits : Verbatim (padded 4 year.natAbs).toList 6 :=
      verbatim_padded (by decide) (by omega) (by decide)
    rw [String.toList_append]
    split
    · exact .cons (by decide) digits
    · exact .cons (by decide) digits

theorem verbatim_dateText {t : Instant} (within : t.inRange = true) : Verbatim t.dateText.toList 13 := by
  have known : t.day.exists? = true := Day.ofNumber_exists _
  simp only [Day.exists?, Bool.and_eq_true, decide_eq_true_eq] at known
  have last := Day.lastOf_le t.day.year t.day.month
  obtain ⟨low, high⟩ := year_of_inRange within
  have month : Verbatim (padded 2 t.day.month).toList 2 :=
    verbatim_padded (Nat.le_refl 2) (by omega) (by decide)
  have day : Verbatim (padded 2 t.day.day).toList 2 :=
    verbatim_padded (Nat.le_refl 2) (by omega) (by decide)
  rw [toList_dateText]
  exact (verbatim_yearText low high).append (.cons (by decide) (month.append (.cons (by decide) day)))

theorem verbatim_clockText (t : Instant) : Verbatim t.clockText.toList 8 := by
  have small := t.nanos_lt
  have two {n : Nat} (small : n < 100) : Verbatim (padded 2 n).toList 2 :=
    verbatim_padded (Nat.le_refl 2) small (by decide)
  rw [toList_clockText]
  exact (two (by omega)).append (.cons (by decide) ((two (by omega)).append
    (.cons (by decide) (two (by omega)))))

theorem verbatim_fractionText (t : Instant) : Verbatim t.fractionText.toList 10 := by
  have digits {width n : Nat} (wide : width ≤ 9) (small : n < 10 ^ 9) :
      Verbatim ("." ++ padded width n).toList 10 := by
    rw [String.toList_append]
    exact .cons (by decide) (verbatim_padded wide small (by decide))
  unfold fractionText
  simp only
  split
  · exact Verbatim.nil.weaken (by decide)
  split
  · exact digits (by decide) (by omega)
  split
  · exact digits (by decide) (by omega)
  · exact digits (by decide) (by omega)

theorem size_le {t : Instant} (within : t.inRange = true) : (encode t).size ≤ 35 := by
  apply size_text_le
  rw [toList_text]
  exact (verbatim_dateText within).append (.cons (by decide) ((verbatim_clockText t).append
    ((verbatim_fractionText t).append (.cons (by decide) .nil))))

end Instant

theorem ProofHash.IsPlain.size_le {h : ProofHash} (plain : h.IsPlain) : (encode h).size ≤ 73 := by
  apply size_text_le
  have digits : Verbatim h.digits.toList 64 := by
    refine ⟨fun c member => ?_, Nat.le_of_eq plain.1⟩
    have bounds := isLowerHex_iff.mp (List.all_eq_true.mp plain.2 c member)
    unfold IsVerbatim
    omega
  have scheme : Verbatim scheme.toList 7 := ⟨by decide, Nat.le_refl 7⟩
  rw [toList_text]
  exact scheme.append digits

theorem UInt64.size_le (n : UInt64) : (encode n).size ≤ 20 := by
  have small := n.toNat_lt
  exact size_nat_le (by omega) (by decide)

theorem Int64.size_le (n : Int64) : (encode n).size ≤ 20 := by
  have low := n.le_toInt
  have high := n.toInt_lt
  exact size_int_le (by omega) (by decide)

namespace TxRecord

/-- The bytes within which the records of the ledger's transactions are expected to stay. -/
def shortSize : Nat := 14 * 1024

def IsShort (r : TxRecord) : Prop := (encode r).size ≤ shortSize

instance (r : TxRecord) : Decidable r.IsShort := inferInstanceAs (Decidable (_ ≤ _))

end TxRecord

namespace Proof

structure IsAdmitted (p : Proof) : Prop where
  event : p.event.IsAdmitted
  site : p.site.IsAdmitted
  method : p.method.IsAdmitted
  submitter : p.submitter.IsAdmitted

theorem size_le {p : Proof} (admitted : p.IsAdmitted) (plain : p.hash.IsPlain)
    (within : p.submittedAt.inRange = true) (short : p.submitTx.IsShort) :
    (encode p).size ≤ (text p.payload).size + (text p.uri).size + TxRecord.shortSize + 800 := by
  have event : (encode p.event).size ≤ 130 := admitted.event.size_le
  have site : (encode p.site).size ≤ 130 := admitted.site.size_le
  have method : (encode p.method).size ≤ 34 := admitted.method.size_le
  have submitter : (encode p.submitter).size ≤ 130 := admitted.submitter.size_le
  have baseline := UInt64.size_le p.baseline
  have actual := UInt64.size_le p.actual
  have reduction := UInt64.size_le p.reduction
  have hash := plain.size_le
  have submittedAt := Instant.size_le within
  have submitTx : (encode p.submitTx).size ≤ TxRecord.shortSize := short
  have uri : (encode p.uri).size = (text p.uri).size := rfl
  have payload : (encode p.payload).size = (text p.payload).size := rfl
  refine size_record_le (by simp [field]) ?_
  simp (disch := decide) only [membersSize_append, membersSize_field, size_text_of_verbatim,
    String.reduceToList, List.length_cons, List.length_nil]
  omega

end Proof

namespace Event

structure IsFresh (e : Event) : Prop where
  id : e.id.IsAdmitted
  createTx : e.createTx.IsShort
  within : e.start.inRange = true ∧ e.stop.inRange = true ∧ e.createdAt.inRange = true
  status : e.status = .active
  running : e.closeTx = none ∧ e.closedAt = none ∧ e.settledAt = none

theorem IsFresh.size_le {e : Event} (fresh : e.IsFresh) : (encode e).size ≤ TxRecord.shortSize + 501 := by
  have id : (encode e.id).size ≤ 130 := fresh.id.size_le
  have start := Instant.size_le fresh.within.1
  have stop := Instant.size_le fresh.within.2.1
  have createdAt := Instant.size_le fresh.within.2.2
  have target := UInt64.size_le e.target
  have rewardRate := UInt64.size_le e.rewardRate
  have penaltyRate := UInt64.size_le e.penaltyRate
  have createTx : (encode e.createTx).size ≤ TxRecord.shortSize := fresh.createTx
  have status : (encode EventStatus.active).size = 8 := by decide
  refine size_record_le (by simp [field]) ?_
  simp (disch := decide) only [membersSize_append, membersSize_field, membersSize_optionalField,
    fresh.status, fresh.running, status, size_text_of_verbatim, String.reduceToList, List.length_cons,
    List.length_nil]
  omega

end Event

namespace TxRef

def IsAdmitted : TxRef → Prop
  | ⟨event, .create⟩ | ⟨event, .close⟩ => event.IsAdmitted
  | ⟨event, .submit site⟩ | ⟨event, .settle site⟩ | ⟨event, .claim site⟩ =>
    event.IsAdmitted ∧ site.IsAdmitted

theorem size_slot_le {name : String} {site : SiteId} (verbatim : Verbatim name.toList 12)
    (admitted : site.IsAdmitted) : (record (field name site)).size ≤ 147 := by
  have name := size_text_le verbatim
  have site : (encode site).size ≤ 130 := admitted.size_le
  rw [size_record (by simp [field]), membersSize_field]
  omega

theorem IsAdmitted.event_slot {r : TxRef} (admitted : r.IsAdmitted) :
    (encode r.event).size ≤ 130 ∧ (encode r.slot).size ≤ 147 := by
  obtain ⟨event, slot⟩ := r
  have words : (text "event_create").size ≤ 147 ∧ (text "event_close").size ≤ 147 := by decide
  cases slot with
  | create => exact ⟨Identifier.IsAdmitted.size_le admitted, words.1⟩
  | close => exact ⟨Identifier.IsAdmitted.size_le admitted, words.2⟩
  | submit site => exact ⟨admitted.1.size_le, size_slot_le ⟨by decide, by decide⟩ admitted.2⟩
  | settle site => exact ⟨admitted.1.size_le, size_slot_le ⟨by decide, by decide⟩ admitted.2⟩
  | claim site => exact ⟨admitted.1.size_le, size_slot_le ⟨by decide, by decide⟩ admitted.2⟩

theorem IsAdmitted.size_le {r : TxRef} (admitted : r.IsAdmitted) : (encode r).size ≤ 300 := by
  obtain ⟨event, slot⟩ := admitted.event_slot
  refine size_record_le (by simp [field]) ?_
  simp (disch := decide) only [membersSize_append, membersSize_field, size_text_of_verbatim,
    String.reduceToList, List.length_cons, List.length_nil]
  omega

end TxRef

theorem TxUpdate.size_le {u : TxUpdate} (admitted : u.target.IsAdmitted) (short : u.record.IsShort) :
    (encode u).size ≤ TxRecord.shortSize + 321 := by
  have target := admitted.size_le
  have tx : (encode u.record).size ≤ TxRecord.shortSize := short
  refine size_record_le (by simp [field]) ?_
  simp (disch := decide) only [membersSize_append, membersSize_field, size_text_of_verbatim,
    String.reduceToList, List.length_cons, List.length_nil]
  omega

theorem TxUpdate.size_record_le (u : TxUpdate) : (encode u.record).size ≤ (encode u).size := by
  refine Nat.le_trans ?_ (Nat.le_of_eq (size_record (by simp [field])).symm)
  simp only [membersSize_append, membersSize_field]
  omega

namespace Settlement

theorem size_settleTx_le (s : Settlement) : (encode s.settleTx).size ≤ (encode s).size := by
  refine Nat.le_trans ?_ (Nat.le_of_eq (size_record (by simp [field])).symm)
  simp only [membersSize_append, membersSize_field]
  omega

structure IsFresh (s : Settlement) : Prop where
  event : s.event.IsAdmitted
  site : s.site.IsAdmitted
  settleTx : s.settleTx.IsShort
  settledAt : s.settledAt.inRange = true
  status : s.status = .settled
  unclaimed : s.claimTx = none ∧ s.claimedAt = none

theorem IsFresh.size_le {s : Settlement} (fresh : s.IsFresh) :
    (encode s).size ≤ TxRecord.shortSize + 403 := by
  have event : (encode s.event).size ≤ 130 := fresh.event.size_le
  have site : (encode s.site).size ≤ 130 := fresh.site.size_le
  have payout := Int64.size_le s.payout
  have settleTx : (encode s.settleTx).size ≤ TxRecord.shortSize := fresh.settleTx
  have settledAt := Instant.size_le fresh.settledAt
  have status : (encode SettlementStatus.settled).size = 9 := by decide
  refine size_record_le (by simp [field]) ?_
  simp (disch := decide) only [membersSize_append, membersSize_field, membersSize_optionalField,
    fresh.status, fresh.unclaimed, status, size_text_of_verbatim, String.reduceToList, List.length_cons,
    List.length_nil]
  omega

end Settlement

theorem JournaledIndex.frameOf_fits_iff {commit : Commit} :
    (JournaledIndex.frameOf commit).Fits ↔ (encode commit).size ≤ maxPayload := by
  have length : (JournaledIndex.frameOf commit).payload.length = (encode commit).size :=
    Bytes.length_ofText _
  rw [Frame.Fits, length]

namespace Commit

theorem size_eq (seq : UInt64) {change : Change} (filled : change.content ≠ []) :
    (encode (Commit.mk seq change)).size =
      (encode seq).size + (text change.name).size + membersSize change.content + 24 := by
  have wrapped : (encode change).size =
      (text change.name).size + (record change.content).size + 3 := by
    refine (size_record (List.cons_ne_nil _ _)).trans ?_
    rw [membersSize, membersSize]
    omega
  refine (size_record (by simp [field])).trans ?_
  simp (disch := decide) only [membersSize_append, membersSize_field, size_text_of_verbatim,
    String.reduceToList, List.length_cons, List.length_nil, wrapped, size_record filled]
  omega

theorem size_insertEvent (seq : UInt64) (e : Event) :
    (encode (Commit.mk seq (.insertEvent e))).size = (encode seq).size + (encode e).size + 47 := by
  rw [size_eq seq (by simp [Change.content, field])]
  simp (disch := decide) only [Change.name, Change.content, membersSize_field, size_text_of_verbatim,
    String.reduceToList, List.length_cons, List.length_nil]
  omega

theorem size_insertProof (seq : UInt64) (p : Proof) :
    (encode (Commit.mk seq (.insertProof p))).size = (encode seq).size + (encode p).size + 47 := by
  rw [size_eq seq (by simp [Change.content, field])]
  simp (disch := decide) only [Change.name, Change.content, membersSize_field, size_text_of_verbatim,
    String.reduceToList, List.length_cons, List.length_nil]
  omega

theorem size_settleEvent (seq : UInt64) (id : EventId) (rows : List Settlement) (settledAt : Instant) :
    (encode (Commit.mk seq (.settleEvent id rows settledAt))).size =
      (encode seq).size + (encode id).size + (encode rows).size + (encode settledAt).size + 79 := by
  rw [size_eq seq (by simp [Change.content, field])]
  simp (disch := decide) only [Change.name, Change.content, membersSize_append, membersSize_field,
    size_text_of_verbatim, String.reduceToList, List.length_cons, List.length_nil]
  omega

theorem size_applyTxUpdates (seq : UInt64) (updates : List TxUpdate) :
    (encode (Commit.mk seq (.applyTxUpdates updates))).size =
      (encode seq).size + (encode updates).size + 53 := by
  rw [size_eq seq (by simp [Change.content, field])]
  simp (disch := decide) only [Change.name, Change.content, membersSize_field, size_text_of_verbatim,
    String.reduceToList, List.length_cons, List.length_nil]
  omega

end Commit

namespace Change

/-- So many settlements or updates fit in one frame if their records are short. -/
def batchRoom : Nat := 1138

def Fits (change : Change) : Prop := ∀ seq, (JournaledIndex.frameOf ⟨seq, change⟩).Fits

def Outgrows (change : Change) : Prop := ∀ seq, ¬(JournaledIndex.frameOf ⟨seq, change⟩).Fits

theorem fits_insertEvent {e : Event} (fresh : e.IsFresh) : (insertEvent e).Fits := by
  intro seq
  have number := UInt64.size_le seq
  have event := fresh.size_le
  rw [JournaledIndex.frameOf_fits_iff, Commit.size_insertEvent]
  unfold TxRecord.shortSize at event
  unfold maxPayload
  omega

theorem fits_insertProof {p : Proof} (small : (encode p).size + 67 ≤ maxPayload) :
    (insertProof p).Fits := by
  intro seq
  have number := UInt64.size_le seq
  rw [JournaledIndex.frameOf_fits_iff, Commit.size_insertProof]
  omega

theorem fits_settleEvent {id : EventId} (admitted : id.IsAdmitted) {rows : List Settlement}
    (fresh : ∀ row ∈ rows, row.IsFresh) (few : rows.length ≤ batchRoom) {settledAt : Instant}
    (within : settledAt.inRange = true) : (settleEvent id rows settledAt).Fits := by
  intro seq
  have number := UInt64.size_le seq
  have event : (encode id).size ≤ 130 := admitted.size_le
  have time := Instant.size_le within
  have items := size_list_le fun row listed => (fresh row listed).size_le
  rw [JournaledIndex.frameOf_fits_iff, Commit.size_settleEvent]
  unfold batchRoom at few
  unfold TxRecord.shortSize at items
  unfold maxPayload
  omega

theorem fits_applyTxUpdates {updates : List TxUpdate} (admitted : ∀ u ∈ updates, u.target.IsAdmitted)
    (short : ∀ u ∈ updates, u.record.IsShort) (few : updates.length ≤ batchRoom) :
    (applyTxUpdates updates).Fits := by
  intro seq
  have number := UInt64.size_le seq
  have items := size_list_le fun u listed => TxUpdate.size_le (admitted u listed) (short u listed)
  rw [JournaledIndex.frameOf_fits_iff, Commit.size_applyTxUpdates]
  unfold batchRoom at few
  unfold TxRecord.shortSize at items
  unfold maxPayload
  omega

theorem outgrows_settleEvent {rows : List Settlement} {least : Nat}
    (long : ∀ row ∈ rows, least ≤ (encode row.settleTx).size)
    (many : maxPayload < rows.length * (least + 1)) (id : EventId) (settledAt : Instant) :
    (settleEvent id rows settledAt).Outgrows := by
  intro seq
  have items := le_size_list fun row listed => (long row listed).trans row.size_settleTx_le
  rw [JournaledIndex.frameOf_fits_iff, Commit.size_settleEvent]
  omega

theorem outgrows_applyTxUpdates {updates : List TxUpdate} {least : Nat}
    (long : ∀ u ∈ updates, least ≤ (encode u.record).size)
    (many : maxPayload < updates.length * (least + 1)) : (applyTxUpdates updates).Outgrows := by
  intro seq
  have items := le_size_list fun u listed => (long u listed).trans u.size_record_le
  rw [JournaledIndex.frameOf_fits_iff, Commit.size_applyTxUpdates]
  omega

end Change

end Curtail
