import Curtail.Proofs.Engine.Stale

namespace Curtail.Service

/-- What is listed as pending is each submitted record without a fee, once, and its place leads to it
alone. -/
theorem pending_of_run {first s : Service} (begins : first.Begins)
    (run : Relation.ReflTransGen Step first s) (scope : Scope) :
    ((s.index.pending scope).map (·.target)).Nodup ∧
    (∀ target r, ⟨target, r⟩ ∈ s.index.pending scope ↔
      s.index.Holds target r ∧ scope.contains target.event ∧ r.state = .submitted ∧ r.fee = none) ∧
    (∀ item ∈ s.index.pending scope, s.index.record? item.target = some item.record ∧
      ∀ update : TxRecord, update.handle = item.record.handle → ∀ target r,
        (s.index.apply (.applyTxUpdates [⟨item.target, update⟩])).Holds target r ↔
          if target = item.target then r = update else s.index.Holds target r) ∧
    ∀ id, s.index.pending (.event id) =
      (s.index.pending .all).filter fun item => item.target.event = id := by
  have keyed := (lifecycle_of_run begins run).toKeyed
  have waiting {r : TxRecord} : r.isPending ↔ r.state = .submitted ∧ r.fee = none := by
    simp [TxRecord.isPending]
  refine ⟨Index.pending_targets_nodup keyed scope, fun target r => ?_, fun item listed => ?_,
    s.index.pending_event⟩
  · rw [Index.mem_pending_iff keyed, Index.holds_iff keyed, waiting]
    exact and_left_comm
  · obtain ⟨-, found, submitted⟩ := (Index.mem_pending_iff keyed).mp listed
    refine ⟨found, fun update same target r => ?_⟩
    rw [Index.holds_iff (keyed.applyTxUpdates _),
      Index.record?_update found (waiting.mp submitted).1 same.symm]
    by_cases here : target = item.target
    · rw [if_pos here, if_pos here, Option.some.injEq, eq_comm]
    · rw [if_neg here, if_neg here, Index.holds_iff keyed]

/-- While no transaction of the season is confirmed, all are pending. -/
theorem pending_of_season : ∃ s : Service,
    (s.index.pending .all).map (·.target) = [⟨⟨"DR-1"⟩, .create⟩, ⟨⟨"DR-1"⟩, .close⟩,
      ⟨⟨"DR-1"⟩, .submit ⟨"site-a"⟩⟩, ⟨⟨"DR-1"⟩, .submit ⟨"site-b"⟩⟩, ⟨⟨"DR-1"⟩, .settle ⟨"site-a"⟩⟩,
      ⟨⟨"DR-1"⟩, .claim ⟨"site-a"⟩⟩, ⟨⟨"DR-1"⟩, .settle ⟨"site-b"⟩⟩] ∧
    ((s.index.pending .all).map (·.target)).Nodup ∧
    (s.index.pending .all).filter (fun item => item.target.event = ⟨"DR-2"⟩) = [] ∧
    ∃ item ∈ s.index.pending .all, item.target = ⟨⟨"DR-1"⟩, .claim ⟨"site-a"⟩⟩ ∧
      (s.index.apply (.applyTxUpdates [⟨item.target, { item.record with state := .confirmed }⟩])).Holds
        item.target { item.record with state := .confirmed } := by
  obtain ⟨s, run, here⟩ := reaches_tasks (.waiting (.ofSeconds 10)) .standard season
    (s := ⟨.memory .empty, [], []⟩) rfl
  obtain ⟨distinct, -, reached, ofEvent⟩ := pending_of_run .memory run .all
  have targets : (s.index.pending .all).map (·.target) = [⟨⟨"DR-1"⟩, .create⟩, ⟨⟨"DR-1"⟩, .close⟩,
      ⟨⟨"DR-1"⟩, .submit ⟨"site-a"⟩⟩, ⟨⟨"DR-1"⟩, .submit ⟨"site-b"⟩⟩, ⟨⟨"DR-1"⟩, .settle ⟨"site-a"⟩⟩,
      ⟨⟨"DR-1"⟩, .claim ⟨"site-a"⟩⟩, ⟨⟨"DR-1"⟩, .settle ⟨"site-b"⟩⟩] := by
    rw [index, here]
    rfl
  have elsewhere : s.index.pending (.event ⟨"DR-2"⟩) = [] := by
    rw [index, here]
    rfl
  have waiting : (⟨⟨"DR-1"⟩, .claim ⟨"site-a"⟩⟩ : TxRef) ∈ (s.index.pending .all).map (·.target) := by
    rw [targets]
    decide
  obtain ⟨item, listed, named⟩ := List.mem_map.mp waiting
  refine ⟨s, targets, distinct, (ofEvent _).symm.trans elsewhere, item, listed, named, ?_⟩
  rw [(reached item listed).2 { item.record with state := .confirmed } rfl, if_pos rfl]

end Curtail.Service
