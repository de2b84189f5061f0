import Curtail.Proofs.Engine.Rely
import Curtail.Proofs.Index.Pending
import Curtail.Proofs.Index.Refusal
import Curtail.Proofs.Index.Size
import Mathlib.Data.List.Perm.Subperm

namespace Curtail

open Journal Json

def crowdId (n : Nat) : EventId := ⟨Instant.padded 4 n⟩

theorem crowdId_isAdmitted {n : Nat} (small : n < 10 ^ 4) : (crowdId n).IsAdmitted := by
  have digits := (Instant.padded_spells 4 n).digits
  have length := Instant.length_padded 4 small (by decide)
  change IdentifierKind.event.admits (Instant.padded 4 n).toList = true
  generalize (Instant.padded 4 n).toList = cs at digits length
  match cs with
  | [] => cases length
  | c :: cs =>
      have alphanum {d : Char} (member : d ∈ c :: cs) : d.isAlphanum = true := by
        simp [Char.isAlphanum, digits d member]
      have later : cs.all IdentifierKind.event.isLater = true := by
        rw [List.all_eq_true]
        exact fun d member => Bool.or_eq_true_iff.mpr (.inl (alphanum (List.mem_cons_of_mem c member)))
      have count : cs.length = 3 := Nat.succ.inj length
      simp [IdentifierKind.admits, IdentifierKind.isFirst, IdentifierKind.maxLength, later, count,
        alphanum List.mem_cons_self]

theorem crowdId_injective : Function.Injective crowdId := by
  intro m n same
  have texts : Instant.padded 4 m = Instant.padded 4 n := congrArg Identifier.text same
  rw [← (Instant.padded_spells 4 m).value, texts, (Instant.padded_spells 4 n).value]

def crowdTx : TxRecord := .ofResult ⟨⟨"tx"⟩, none, .submitted, .ofSeconds 10⟩

def crowdPlan (n : Nat) : EventPlan := ⟨crowdId n, .ofSeconds 0, .ofSeconds 3600, 100, 3, 1⟩

def crowdEvent (n : Nat) : Event := (crowdPlan n).event crowdTx (.ofSeconds 10)

theorem crowdEvent_isFresh {n : Nat} (small : n < 10 ^ 4) : (crowdEvent n).IsFresh where
  id := crowdId_isAdmitted small
  createTx := by
    change crowdTx.IsShort
    decide +kernel
  within := ⟨rfl, rfl, rfl⟩
  status := rfl
  running := ⟨rfl, rfl, rfl⟩

structure IsCrowd (n : Nat) (store : JournaledIndex) (file : Bytes) : Prop where
  held : Held store file
  made : store.index.Made
  events : ∀ id e, store.index.events.get? id = some e ↔ ∃ i < n, id = crowdId i ∧ e = crowdEvent i
  others : store.index.proofs = .empty ∧ store.index.settlements = .empty

namespace IsCrowd

variable {n : Nat} {store : JournaledIndex} {file : Bytes}

theorem succ (crowd : IsCrowd n store file) (small : n < 10 ^ 4) :
    ∃ after longer, IsCrowd (n + 1) after longer := by
  have allowed : store.index.Allows (.insertEvent (crowdEvent n)) := by
    refine Option.eq_none_iff_forall_ne_some.mpr fun e found => ?_
    obtain ⟨i, earlier, same, -⟩ := (crowd.events _ e).mp found
    exact absurd (crowdId_injective same) (Nat.ne_of_gt earlier)
  have committed := JournaledIndex.commit_of_fits crowd.held.length.1
    (Index.check_eq_ok_iff.mpr allowed) (Change.fits_insertEvent (crowdEvent_isFresh small) _)
  have window : (crowdPlan n).start < (crowdPlan n).stop := by
    change Instant.ofSeconds 0 < .ofSeconds 3600
    decide
  obtain ⟨history, made⟩ := crowd.made
  refine ⟨_, _, .committed crowd.held committed,
    ⟨_, .change made allowed (.createEvent window (TxRecord.coherent_ofResult _))⟩, ?_, crowd.others⟩
  intro id e
  change (store.index.events.insert (crowdId n) (crowdEvent n)).get? id = some e ↔ _
  rw [Table.get?_insert]
  by_cases new : id = crowdId n
  · rw [if_pos new]
    refine ⟨?_, ?_⟩
    · intro same
      exact ⟨n, Nat.lt_succ_self n, new, (Option.some.inj same).symm⟩
    · rintro ⟨i, -, same, rfl⟩
      rw [crowdId_injective (new.symm.trans same)]
  · rw [if_neg new, crowd.events]
    refine ⟨?_, ?_⟩
    · rintro ⟨i, earlier, same⟩
      exact ⟨i, Nat.lt_succ_of_lt earlier, same⟩
    · rintro ⟨i, within, rfl, same⟩
      have other : i ≠ n := fun last => new (congrArg crowdId last)
      exact ⟨i, Nat.lt_of_le_of_ne (Nat.le_of_lt_succ within) other, rfl, same⟩

theorem mem_pending (crowd : IsCrowd n store file) {item : PendingTx} :
    item ∈ store.index.pending .all ↔ ∃ i < n, item = ⟨⟨crowdId i, .create⟩, crowdTx⟩ := by
  rw [Index.mem_pending_iff crowd.made.lifecycle.toKeyed]
  obtain ⟨noProofs, noSettlements⟩ := crowd.others
  refine ⟨?_, ?_⟩
  · obtain ⟨⟨id, slot⟩, r⟩ := item
    rintro ⟨-, found, -⟩
    cases slot with
    | create =>
        obtain ⟨e, here, rfl⟩ := Option.map_eq_some_iff.mp found
        obtain ⟨i, earlier, rfl, rfl⟩ := (crowd.events _ e).mp here
        exact ⟨i, earlier, rfl⟩
    | close =>
        obtain ⟨e, here, closed⟩ := Option.bind_eq_some_iff.mp found
        obtain ⟨i, -, -, rfl⟩ := (crowd.events _ e).mp here
        cases closed
    | submit site =>
        rw [Index.record?, noProofs] at found
        cases found
    | settle site | claim site =>
        rw [Index.record?, noSettlements] at found
        cases found
  · rintro ⟨i, earlier, rfl⟩
    have found := (crowd.events _ _).mpr ⟨i, earlier, rfl, rfl⟩
    exact ⟨rfl, congrArg (Option.map Event.createTx) found, rfl⟩

theorem le_length_pending (crowd : IsCrowd n store file) : n ≤ (store.index.pending .all).length := by
  let items := (List.range n).map fun i => (⟨⟨crowdId i, .create⟩, crowdTx⟩ : PendingTx)
  have distinct : items.Nodup := by
    apply List.nodup_range.map
    intro i j same
    exact crowdId_injective (congrArg (fun item => item.target.event) same)
  have listed : items ⊆ store.index.pending .all := by
    intro item member
    obtain ⟨i, earlier, rfl⟩ := List.mem_map.mp member
    exact crowd.mem_pending.mpr ⟨i, List.mem_range.mp earlier, rfl⟩
  have count := (List.subperm_of_subset distinct listed).length_le
  rwa [List.length_map, List.length_range] at count

end IsCrowd

theorem exists_crowd {n : Nat} (small : n ≤ 10 ^ 4) : ∃ store file, IsCrowd n store file := by
  induction n with
  | zero =>
      obtain ⟨started, -⟩ := Keeps.opened (.inl rfl)
      refine ⟨_, _, .opened started, ⟨[], .empty⟩, fun id e => ⟨?_, ?_⟩, rfl, rfl⟩
      · intro found
        cases found
      · rintro ⟨i, none_before, -⟩
        exact (Nat.not_lt_zero i none_before).elim
  | succ n ih =>
      obtain ⟨store, file, crowd⟩ := ih (Nat.le_of_succ_le small)
      exact crowd.succ small

def crowdCheck (length : Nat) : TxCheck := ⟨none, .failed (String.ofList (List.replicate length 'x'))⟩

theorem size_replicate (length : Nat) :
    (encode (String.ofList (List.replicate length 'x'))).size = length + 2 := by
  change (Tree.text _).size = _
  rw [Tree.size_text_of_verbatim]
  · rw [String.toList_ofList, List.length_replicate]
  · rw [String.toList_ofList]
    intro c member
    rw [List.eq_of_mem_replicate member]
    decide

theorem crowdTx_advanced (length : Nat) : ∃ record, crowdTx.advanced (crowdCheck length) = some record ∧
    (encode record).size = length + 81 := by
  refine ⟨⟨⟨"tx"⟩, none, .failed, .ofSeconds 10, none, some _⟩, rfl, ?_⟩
  have handle : (encode (⟨"tx"⟩ : TxHandle)).size = 4 := by decide
  have state : (encode TxState.failed).size = 8 := by decide
  have time : (encode (Instant.ofSeconds 10)).size = 22 := by decide +kernel
  refine (Tree.size_record (by simp [Tree.field])).trans ?_
  simp (disch := decide) only [Tree.membersSize_append, Tree.membersSize_field,
    Tree.membersSize_optionalField, Tree.size_text_of_verbatim, String.reduceToList, List.length_cons,
    List.length_nil, handle, state, time, size_replicate]
  omega

end Curtail
