import Curtail.Index.Store
import Curtail.Proofs.Entity.RoundTrip
import Curtail.Proofs.Journal.Frame

namespace Curtail

open Journal Json

theorem TxSlot.readsBack (slot : TxSlot) : ReadsBack slot := by
  cases slot with
  | create => exact ⟨rfl, nofun, rfl⟩
  | close => exact ⟨rfl, nofun, rfl⟩
  | submit site => exact ⟨⟨rfl, rfl, trivial⟩, nofun, rfl⟩
  | settle site => exact ⟨⟨rfl, rfl, trivial⟩, nofun, rfl⟩
  | claim site => exact ⟨⟨rfl, rfl, trivial⟩, nofun, rfl⟩

theorem TxRef.readsBack (r : TxRef) : ReadsBack r := by
  have event := r.event.readsBack
  have slot := r.slot.readsBack
  have fields := Fields.field "event_id" event
    |>.append (.field "slot" slot)
  refine ⟨fields.isPlain, nofun, (fields.bind_of? (by decide) _).trans ?_⟩
  simp only [Members.required_record, List.lookup_append, Tree.lookup_field]
  simp [event.decode_encode, slot.decode_encode]

theorem TxUpdate.readsBack {u : TxUpdate} (within : ∀ t ∈ u.record.instants, t.inRange = true) :
    ReadsBack u := by
  have target := u.target.readsBack
  have record := TxRecord.readsBack within
  have fields := Fields.field "target" target
    |>.append (.field "record" record)
  refine ⟨fields.isPlain, nofun, (fields.bind_of? (by decide) _).trans ?_⟩
  simp only [Members.required_record, List.lookup_append, Tree.lookup_field]
  simp [target.decode_encode, record.decode_encode]

namespace Change

def instants : Change → List Instant
  | .insertEvent event => event.instants
  | .closeEvent _ closeTx closedAt => closeTx.instants ++ [closedAt]
  | .insertProof proof => proof.instants
  | .settleEvent _ rows settledAt => rows.flatMap Settlement.instants ++ [settledAt]
  | .claimSettlement _ _ claimTx claimedAt => claimTx.instants ++ [claimedAt]
  | .upsertAudit request => [request.requestedAt]
  | .applyTxUpdates updates => updates.flatMap fun u => u.record.instants
  | .recordOrphan orphan => orphan.instants

def hashes : Change → List ProofHash
  | .insertProof proof => [proof.hash]
  | _ => []

/-- Whether every instant has a year of four digits and every hash is plain. -/
def IsStorable (c : Change) : Prop :=
  (∀ t ∈ c.instants, t.HasFourDigitYear) ∧ ∀ h ∈ c.hashes, h.IsPlain

instance (c : Change) : Decidable c.IsStorable :=
  inferInstanceAs (Decidable (_ ∧ _))

def IsWritable (c : Change) : Prop :=
  (∀ t ∈ c.instants, t.inRange = true) ∧ ∀ h ∈ c.hashes, h.IsPlain

theorem IsStorable.isWritable {c : Change} (storable : c.IsStorable) : c.IsWritable :=
  ⟨fun t member => Instant.inRange_of_fourDigits (storable.1 t member), storable.2⟩

theorem readsBack_of_content {c : Change} (plain : (Tree.record c.content).IsPlain)
    (opened : ofContent? c.name (.record c.content) = some c) : ReadsBack c := by
  refine ⟨⟨rfl, plain, trivial⟩, nofun, ?_⟩
  exact opened

theorem readsBack {c : Change} (writable : c.IsWritable) : ReadsBack c := by
  obtain ⟨within, plain⟩ := writable
  cases c with
  | insertEvent event =>
      have event := Event.readsBack (e := event) within
      have fields := Fields.field "event" event
      refine readsBack_of_content fields.isPlain ?_
      refine (fields.bind_of? (by decide) _).trans ?_
      simp [Members.required_record, Tree.lookup_field, event.decode_encode]
  | closeEvent id closeTx closedAt =>
      have event := id.readsBack
      have closeTx : ReadsBack closeTx := by
        apply TxRecord.readsBack
        intro t member
        exact within t (by simp [instants, member])
      have closedAt := Instant.readsBack (within closedAt (by simp [instants]))
      have fields := Fields.field "event_id" event
        |>.append (.field "close_tx" closeTx)
        |>.append (.field "closed_at" closedAt)
      refine readsBack_of_content fields.isPlain ?_
      refine (fields.bind_of? (by decide) _).trans ?_
      simp only [Members.required_record, List.lookup_append, Tree.lookup_field]
      simp [event.decode_encode, closeTx.decode_encode, closedAt.decode_encode]
  | insertProof proof =>
      have proof := Proof.readsBack (p := proof) within (plain proof.hash (by simp [hashes]))
      have fields := Fields.field "proof" proof
      refine readsBack_of_content fields.isPlain ?_
      refine (fields.bind_of? (by decide) _).trans ?_
      simp [Members.required_record, Tree.lookup_field, proof.decode_encode]
  | settleEvent id rows settledAt =>
      have event := id.readsBack
      have rows : ReadsBack rows := by
        apply ReadsBack.list
        intro row present
        apply Settlement.readsBack
        intro t member
        apply within t
        simp only [instants, List.mem_append, List.mem_flatMap]
        exact Or.inl ⟨row, present, member⟩
      have settledAt := Instant.readsBack (within settledAt (by simp [instants]))
      have fields := Fields.field "event_id" event
        |>.append (.field "settlements" rows)
        |>.append (.field "settled_at" settledAt)
      refine readsBack_of_content fields.isPlain ?_
      refine (fields.bind_of? (by decide) _).trans ?_
      simp only [Members.required_record, List.lookup_append, Tree.lookup_field]
      simp [event.decode_encode, rows.decode_encode, settledAt.decode_encode]
  | claimSettlement id site claimTx claimedAt =>
      have event := id.readsBack
      have site := site.readsBack
      have claimTx : ReadsBack claimTx := by
        apply TxRecord.readsBack
        intro t member
        exact within t (by simp [instants, member])
      have claimedAt := Instant.readsBack (within claimedAt (by simp [instants]))
      have fields := Fields.field "event_id" event
        |>.append (.field "site_id" site)
        |>.append (.field "claim_tx" claimTx)
        |>.append (.field "claimed_at" claimedAt)
      refine readsBack_of_content fields.isPlain ?_
      refine (fields.bind_of? (by decide) _).trans ?_
      simp only [Members.required_record, List.lookup_append, Tree.lookup_field]
      simp [event.decode_encode, site.decode_encode, claimTx.decode_encode, claimedAt.decode_encode]
  | upsertAudit request =>
      have request := AuditRequest.readsBack (within request.requestedAt (by simp [instants]))
      have fields := Fields.field "request" request
      refine readsBack_of_content fields.isPlain ?_
      refine (fields.bind_of? (by decide) _).trans ?_
      simp [Members.required_record, Tree.lookup_field, request.decode_encode]
  | applyTxUpdates updates =>
      have updates : ReadsBack updates := by
        apply ReadsBack.list
        intro update present
        apply TxUpdate.readsBack
        intro t member
        exact within t (List.mem_flatMap.mpr ⟨update, present, member⟩)
      have fields := Fields.field "updates" updates
      refine readsBack_of_content fields.isPlain ?_
      refine (fields.bind_of? (by decide) _).trans ?_
      simp [Members.required_record, Tree.lookup_field, updates.decode_encode]
  | recordOrphan orphan =>
      have orphan := Orphan.readsBack (o := orphan) within
      have fields := Fields.field "orphan" orphan
      refine readsBack_of_content fields.isPlain ?_
      refine (fields.bind_of? (by decide) _).trans ?_
      simp [Members.required_record, Tree.lookup_field, orphan.decode_encode]

end Change

instance : Codec.IsPlain TxSlot := ⟨fun slot => slot.readsBack.plain⟩

instance : Codec.IsPlain TxRef := ⟨fun _ => PlainFields.record (by simp)⟩

instance : Codec.IsPlain TxUpdate := ⟨fun _ => PlainFields.record (by simp)⟩

instance : Codec.IsPlain Change := by
  refine ⟨fun change => PlainFields.record (List.forall_mem_singleton.mpr (PlainFields.record ?_))⟩
  cases change <;> simp [Change.content]

instance : Codec.IsPlain Commit := ⟨fun _ => PlainFields.record (by simp)⟩

namespace Commit

theorem encode_isPlain (commit : Commit) : (encode commit).IsPlain := Codec.IsPlain.isPlain commit

theorem decode_encode (commit : Commit) :
    (decode (encode commit) : Option Commit) =
      (decode (encode commit.change)).map (Commit.mk commit.seq) := by
  have names : ((Tree.field "seq" commit.seq ++ Tree.field "mutation" commit.change).map
      Prod.fst).Sublist ["seq", "mutation"] := List.Sublist.refl _
  have seq := (ReadsBack.uint64 commit.seq).decode_encode
  refine (congrArg (· >>= _) (Members.of?_record (by decide) names)).trans ?_
  simp only [Members.required_record, List.lookup_append, Tree.lookup_field, Option.bind_eq_bind,
    Option.bind_some]
  change ((decode (encode commit.seq)).bind fun number =>
    (decode (encode commit.change)).bind fun change => some (Commit.mk number change)) = _
  rw [seq, Option.bind_some, Option.map_eq_bind]
  rfl

theorem seq_of_commits {commit : Commit} {item : Option Commit}
    (selected : commits decode (JournaledIndex.frameOf commit) = .ok item) :
    ∃ found, item = some found ∧ found.seq = commit.seq := by
  unfold commits JournaledIndex.frameOf at selected
  rw [if_neg (by simp), Bytes.toText?_ofText] at selected
  simp only [Tree.ofText?_compactText commit.encode_isPlain, Option.bind_some, decode_encode] at selected
  cases read : (decode (encode commit.change) : Option Change) with
  | none =>
      rw [read] at selected
      cases selected
  | some change =>
      rw [read] at selected
      cases selected
      exact ⟨_, rfl, rfl⟩

theorem readsBack_of_isWritable {commit : Commit} (writable : commit.change.IsWritable) :
    ReadsBack commit := by
  have seq := ReadsBack.uint64 commit.seq
  have change := Change.readsBack writable
  have fields := Fields.field "seq" seq
    |>.append (.field "mutation" change)
  refine ⟨fields.isPlain, nofun, (fields.bind_of? (by decide) _).trans ?_⟩
  simp only [Members.required_record, List.lookup_append, Tree.lookup_field]
  simp [seq.decode_encode, change.decode_encode]

theorem readsBack {commit : Commit} (storable : commit.change.IsStorable) : ReadsBack commit :=
  readsBack_of_isWritable storable.isWritable

theorem commits_of_isWritable {commit : Commit} (writable : commit.change.IsWritable) :
    commits decode (JournaledIndex.frameOf commit) = .ok (some commit) := by
  have back := readsBack_of_isWritable writable
  unfold commits JournaledIndex.frameOf
  rw [if_neg (by simp), Bytes.toText?_ofText]
  simp only [Tree.ofText?_compactText back.plain, Option.bind_some, back.decode_encode]

theorem commits_frameOf {commit : Commit} (storable : commit.change.IsStorable) :
    commits decode (JournaledIndex.frameOf commit) = .ok (some commit) :=
  commits_of_isWritable storable.isWritable

/-- A commit survives its text, and the frame that holds it, wherever that stands. -/
theorem read_back (commit : Commit) (storable : commit.change.IsStorable) :
    (Tree.ofText? (encode commit).compactText).bind decode = some commit ∧
    commits decode (JournaledIndex.frameOf commit) = .ok (some commit) ∧
    ∀ data, (JournaledIndex.frameOf commit).encode = .ok data → ∀ mode offset rest,
      scan mode (commits decode) offset (data ++ rest) =
        .cons (some commit) (scan mode (commits decode) (offset + data.length) rest) := by
  have back := readsBack storable
  refine ⟨?_, commits_frameOf storable, ?_⟩
  · rw [Tree.ofText?_compactText back.plain]
    exact back.decode_encode
  · intro data encoded mode offset rest
    by_cases fits : (JournaledIndex.frameOf commit).Fits
    · rw [Frame.encode_of_fits fits] at encoded
      cases encoded
      exact scan_bytes fits (commits_frameOf storable) rest
    · rw [Frame.encode_of_not_fits fits] at encoded
      cases encoded

def orphanOfFullDisk : Change :=
  .recordOrphan ⟨.closeEvent, ⟨"DR-1"⟩, none,
    ⟨⟨"tx"⟩, some (Fin.last _), .submitted, .ofSeconds 0, none, none⟩, "\"full\"\n\u0001", .ofSeconds 1⟩

theorem orphanOfFullDisk_fits : (JournaledIndex.frameOf ⟨1, orphanOfFullDisk⟩).Fits := by
  decide +kernel

theorem orphanOfFullDisk_read_back :
    (commits decode (JournaledIndex.frameOf ⟨1, orphanOfFullDisk⟩) : Except _ (Option Commit)) =
      .ok (some ⟨1, orphanOfFullDisk⟩) :=
  (read_back ⟨1, orphanOfFullDisk⟩ (by decide)).2.1

end Commit

end Curtail
