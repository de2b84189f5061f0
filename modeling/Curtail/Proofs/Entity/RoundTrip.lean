import Curtail.Entity.Event
import Curtail.Entity.Proof
import Curtail.Entity.Settlement
import Curtail.Proofs.Digest.ProofHash
import Curtail.Proofs.Instant.Text

namespace Curtail

open Json

theorem Identifier.readsBack {kind : IdentifierKind} (id : Identifier kind) : ReadsBack id :=
  ⟨rfl, nofun, rfl⟩

theorem Instant.readsBack {t : Instant} (within : t.inRange = true) : ReadsBack t := by
  refine ⟨rfl, nofun, ?_⟩
  simp [encode, decode, Tree.text, Instant.ofText?_text within]

namespace TxRecord

def instants (r : TxRecord) : List Instant := r.submittedAt :: r.confirmedAt.toList

theorem readsBack {r : TxRecord} (within : ∀ t ∈ r.instants, t.inRange = true) : ReadsBack r := by
  have handle := r.handle.readsBack
  have fee : ∀ f ∈ r.fee, ReadsBack f := fun f _ => .fin f
  have state : ReadsBack r.state := by cases r.state <;> exact ⟨rfl, nofun, rfl⟩
  have submittedAt := Instant.readsBack (within r.submittedAt (by simp [instants]))
  have confirmedAt : ∀ t ∈ r.confirmedAt, ReadsBack t := by
    intro t member
    exact Instant.readsBack (within t (by simp_all [instants]))
  have error : ∀ e ∈ r.error, ReadsBack e := fun e _ => .string e
  have fields := Fields.field "handle" handle
    |>.append (.optionalField "fee_wei" fee)
    |>.append (.field "state" state)
    |>.append (.field "submitted_at" submittedAt)
    |>.append (.optionalField "confirmed_at" confirmedAt)
    |>.append (.optionalField "error" error)
  refine ⟨fields.isPlain, nofun, (fields.bind_of? (by decide) _).trans ?_⟩
  simp only [Members.required_record, Members.optional_record, List.lookup_append,
    Tree.lookup_field, Tree.lookup_optionalField]
  simp [handle.decode_encode, state.decode_encode, submittedAt.decode_encode,
    Members.readOptional_map fee, Members.readOptional_map confirmedAt,
    Members.readOptional_map error]

end TxRecord

namespace Event

def instants (e : Event) : List Instant :=
  [e.start, e.stop] ++ e.createTx.instants ++ e.closeTx.toList.flatMap TxRecord.instants ++
    [e.createdAt] ++ e.closedAt.toList ++ e.settledAt.toList

theorem readsBack {e : Event} (within : ∀ t ∈ e.instants, t.inRange = true) : ReadsBack e := by
  have id := e.id.readsBack
  have start := Instant.readsBack (within e.start (by simp [instants]))
  have stop := Instant.readsBack (within e.stop (by simp [instants]))
  have target := ReadsBack.uint64 e.target
  have rewardRate := ReadsBack.uint64 e.rewardRate
  have penaltyRate := ReadsBack.uint64 e.penaltyRate
  have status : ReadsBack e.status := by cases e.status <;> exact ⟨rfl, nofun, rfl⟩
  have createTx : ReadsBack e.createTx := by
    apply TxRecord.readsBack
    intro t member
    exact within t (by simp [instants, member])
  have closeTx : ∀ r ∈ e.closeTx, ReadsBack r := by
    intro r present
    apply TxRecord.readsBack
    intro t member
    exact within t (by simp_all [instants])
  have createdAt := Instant.readsBack (within e.createdAt (by simp [instants]))
  have closedAt : ∀ t ∈ e.closedAt, ReadsBack t := by
    intro t member
    exact Instant.readsBack (within t (by simp_all [instants]))
  have settledAt : ∀ t ∈ e.settledAt, ReadsBack t := by
    intro t member
    exact Instant.readsBack (within t (by simp_all [instants]))
  have fields := Fields.field "event_id" id
    |>.append (.field "start_time" start)
    |>.append (.field "end_time" stop)
    |>.append (.field "target_kw" target)
    |>.append (.field "reward_rate" rewardRate)
    |>.append (.field "penalty_rate" penaltyRate)
    |>.append (.field "status" status)
    |>.append (.field "create_tx" createTx)
    |>.append (.optionalField "close_tx" closeTx)
    |>.append (.field "created_at" createdAt)
    |>.append (.optionalField "closed_at" closedAt)
    |>.append (.optionalField "settled_at" settledAt)
  refine ⟨fields.isPlain, nofun, (fields.bind_of? (by decide) _).trans ?_⟩
  simp only [Members.required_record, Members.optional_record, List.lookup_append,
    Tree.lookup_field, Tree.lookup_optionalField]
  simp [id.decode_encode, start.decode_encode, stop.decode_encode, target.decode_encode,
    rewardRate.decode_encode, penaltyRate.decode_encode, status.decode_encode,
    createTx.decode_encode, createdAt.decode_encode, Members.readOptional_map closeTx,
    Members.readOptional_map closedAt, Members.readOptional_map settledAt]

end Event

namespace Proof

def instants (p : Proof) : List Instant := p.submitTx.instants ++ [p.submittedAt]

theorem readsBack {p : Proof} (within : ∀ t ∈ p.instants, t.inRange = true) (plain : p.hash.IsPlain) :
    ReadsBack p := by
  have event := p.event.readsBack
  have site := p.site.readsBack
  have baseline := ReadsBack.uint64 p.baseline
  have actual := ReadsBack.uint64 p.actual
  have reduction := ReadsBack.uint64 p.reduction
  have method := p.method.readsBack
  have uri := ReadsBack.string p.uri
  have payload := ReadsBack.string p.payload
  have hash := ProofHash.readsBack plain
  have submitTx : ReadsBack p.submitTx := by
    apply TxRecord.readsBack
    intro t member
    exact within t (by simp [instants, member])
  have submitter := p.submitter.readsBack
  have submittedAt := Instant.readsBack (within p.submittedAt (by simp [instants]))
  have fields := Fields.field "event_id" event
    |>.append (.field "site_id" site)
    |>.append (.field "baseline_kwh" baseline)
    |>.append (.field "actual_kwh" actual)
    |>.append (.field "reduction_kwh" reduction)
    |>.append (.field "baseline_method" method)
    |>.append (.field "uri" uri)
    |>.append (.field "payload" payload)
    |>.append (.field "proof_hash" hash)
    |>.append (.field "submit_tx" submitTx)
    |>.append (.field "submitter" submitter)
    |>.append (.field "submitted_at" submittedAt)
  refine ⟨fields.isPlain, nofun, (fields.bind_of? (by decide) _).trans ?_⟩
  simp only [Members.required_record, List.lookup_append, Tree.lookup_field]
  simp [event.decode_encode, site.decode_encode, baseline.decode_encode, actual.decode_encode,
    reduction.decode_encode, method.decode_encode, uri.decode_encode, payload.decode_encode,
    hash.decode_encode, submitTx.decode_encode, submitter.decode_encode, submittedAt.decode_encode]

end Proof

namespace Settlement

def instants (s : Settlement) : List Instant :=
  s.settleTx.instants ++ s.claimTx.toList.flatMap TxRecord.instants ++ [s.settledAt] ++
    s.claimedAt.toList

theorem readsBack {s : Settlement} (within : ∀ t ∈ s.instants, t.inRange = true) : ReadsBack s := by
  have event := s.event.readsBack
  have site := s.site.readsBack
  have payout := ReadsBack.int64 s.payout
  have status : ReadsBack s.status := by cases s.status <;> exact ⟨rfl, nofun, rfl⟩
  have settleTx : ReadsBack s.settleTx := by
    apply TxRecord.readsBack
    intro t member
    exact within t (by simp [instants, member])
  have claimTx : ∀ r ∈ s.claimTx, ReadsBack r := by
    intro r present
    apply TxRecord.readsBack
    intro t member
    exact within t (by simp_all [instants])
  have settledAt := Instant.readsBack (within s.settledAt (by simp [instants]))
  have claimedAt : ∀ t ∈ s.claimedAt, ReadsBack t := by
    intro t member
    exact Instant.readsBack (within t (by simp_all [instants]))
  have fields := Fields.field "event_id" event
    |>.append (.field "site_id" site)
    |>.append (.field "payout" payout)
    |>.append (.field "status" status)
    |>.append (.field "settle_tx" settleTx)
    |>.append (.optionalField "claim_tx" claimTx)
    |>.append (.field "settled_at" settledAt)
    |>.append (.optionalField "claimed_at" claimedAt)
  refine ⟨fields.isPlain, nofun, (fields.bind_of? (by decide) _).trans ?_⟩
  simp only [Members.required_record, Members.optional_record, List.lookup_append,
    Tree.lookup_field, Tree.lookup_optionalField]
  simp [event.decode_encode, site.decode_encode, payout.decode_encode, status.decode_encode,
    settleTx.decode_encode, settledAt.decode_encode, Members.readOptional_map claimTx,
    Members.readOptional_map claimedAt]

end Settlement

theorem AuditRequest.readsBack {r : AuditRequest} (within : r.requestedAt.inRange = true) :
    ReadsBack r := by
  have event := r.event.readsBack
  have site := r.site.readsBack
  have requestedAt := Instant.readsBack within
  have fields := Fields.field "event_id" event
    |>.append (.field "site_id" site)
    |>.append (.field "requested_at" requestedAt)
  refine ⟨fields.isPlain, nofun, (fields.bind_of? (by decide) _).trans ?_⟩
  simp only [Members.required_record, List.lookup_append, Tree.lookup_field]
  simp [event.decode_encode, site.decode_encode, requestedAt.decode_encode]

theorem LedgerAction.readsBack (action : LedgerAction) : ReadsBack action := by
  cases action <;> exact ⟨rfl, nofun, rfl⟩

namespace Orphan

def instants (o : Orphan) : List Instant := o.tx.instants ++ [o.recordedAt]

theorem readsBack {o : Orphan} (within : ∀ t ∈ o.instants, t.inRange = true) : ReadsBack o := by
  have action := o.action.readsBack
  have event := o.event.readsBack
  have site : ∀ s ∈ o.site, ReadsBack s := fun s _ => s.readsBack
  have tx : ReadsBack o.tx := by
    apply TxRecord.readsBack
    intro t member
    exact within t (by simp [instants, member])
  have reason := ReadsBack.string o.reason
  have recordedAt := Instant.readsBack (within o.recordedAt (by simp [instants]))
  have fields := Fields.field "action" action
    |>.append (.field "event_id" event)
    |>.append (.optionalField "site_id" site)
    |>.append (.field "tx" tx)
    |>.append (.field "reason" reason)
    |>.append (.field "recorded_at" recordedAt)
  refine ⟨fields.isPlain, nofun, (fields.bind_of? (by decide) _).trans ?_⟩
  simp only [Members.required_record, Members.optional_record, List.lookup_append,
    Tree.lookup_field, Tree.lookup_optionalField]
  simp [action.decode_encode, event.decode_encode, tx.decode_encode, reason.decode_encode,
    recordedAt.decode_encode, Members.readOptional_map site]

end Orphan

theorem Instant.inRange_of_decode {tree : Tree} {t : Instant} (read : decode tree = some t) :
    t.inRange = true := by
  obtain ⟨s, -, read⟩ := Option.bind_eq_some_iff.mp read
  unfold Instant.ofText? Instant.ofChars? at read
  simp only [Option.bind_eq_bind, Option.bind_eq_some_iff] at read
  obtain ⟨_, -, _, -, _, -, _, -, read⟩ := read
  split at read
  · cases read
  · obtain ⟨_, -, read⟩ := Option.bind_eq_some_iff.mp read
    split at read
    case isTrue within => exact Option.some.inj read ▸ within
    case isFalse => cases read

theorem TxRecord.inRange_of_decode {tree : Tree} {r : TxRecord} (read : decode tree = some r) :
    ∀ t ∈ r.instants, t.inRange = true := by
  iterate 4 obtain ⟨_, -, read⟩ := Option.bind_eq_some_iff.mp read
  obtain ⟨submittedAt, submitted, read⟩ := Option.bind_eq_some_iff.mp read
  obtain ⟨confirmedAt, confirmed, read⟩ := Option.bind_eq_some_iff.mp read
  obtain ⟨_, -, same⟩ := Option.bind_eq_some_iff.mp read
  cases same
  intro t listed
  rcases List.mem_cons.mp listed with rfl | optional
  · obtain ⟨_, found⟩ := Members.exists_of_required submitted
    exact Instant.inRange_of_decode found
  · obtain rfl := Option.mem_toList.mp optional
    obtain ⟨_, found⟩ := Members.exists_of_optional confirmed
    exact Instant.inRange_of_decode found

theorem Proof.of_decode {tree : Tree} {p : Proof} (read : decode tree = some p) :
    (∀ t ∈ p.instants, t.inRange = true) ∧ ∃ value, ProofHash.parse value = .ok p.hash := by
  -- The hash comes after the members of the content, and eight fields.
  iterate 9 obtain ⟨_, -, read⟩ := Option.bind_eq_some_iff.mp read
  obtain ⟨hash, hashed, read⟩ := Option.bind_eq_some_iff.mp read
  obtain ⟨_, sent, read⟩ := Option.bind_eq_some_iff.mp read
  obtain ⟨_, -, read⟩ := Option.bind_eq_some_iff.mp read
  obtain ⟨_, timed, same⟩ := Option.bind_eq_some_iff.mp read
  cases same
  constructor
  · intro t listed
    rcases List.mem_append.mp listed with inside | last
    · obtain ⟨_, found⟩ := Members.exists_of_required sent
      exact TxRecord.inRange_of_decode found t inside
    · obtain rfl := List.mem_singleton.mp last
      obtain ⟨_, found⟩ := Members.exists_of_required timed
      exact Instant.inRange_of_decode found
  · obtain ⟨_, found⟩ := Members.exists_of_required hashed
    obtain ⟨value, -, parsed⟩ := Option.bind_eq_some_iff.mp found
    refine ⟨value, ?_⟩
    unfold Except.toOption at parsed
    split at parsed
    case h_1 h same => exact same.trans (congrArg _ (Option.some.inj parsed))
    case h_2 => cases parsed

theorem Proof.decode_encode_eq_none {p : Proof} (unread : ∀ h, ProofHash.parse p.hash.text ≠ .ok h) :
    (decode (encode p) : Option Proof) = none := by
  have lost : (decode (encode p.hash) : Option ProofHash) = none := by
    change (ProofHash.parse p.hash.text).toOption = none
    cases parsed : ProofHash.parse p.hash.text with
    | ok h => exact absurd parsed (unread h)
    | error _ => rfl
  have names : ((Tree.field "event_id" p.event ++ Tree.field "site_id" p.site ++
      Tree.field "baseline_kwh" p.baseline ++ Tree.field "actual_kwh" p.actual ++
      Tree.field "reduction_kwh" p.reduction ++ Tree.field "baseline_method" p.method ++
      Tree.field "uri" p.uri ++ Tree.field "payload" p.payload ++ Tree.field "proof_hash" p.hash ++
      Tree.field "submit_tx" p.submitTx ++ Tree.field "submitter" p.submitter ++
      Tree.field "submitted_at" p.submittedAt).map Prod.fst).Sublist ["event_id", "site_id", "baseline_kwh",
      "actual_kwh", "reduction_kwh", "baseline_method", "uri", "payload", "proof_hash", "submit_tx",
      "submitter", "submitted_at"] := List.Sublist.refl _
  rw [Option.eq_none_iff_forall_ne_some]
  intro q read
  rw [show (decode (encode p) : Option Proof) = _ from
    congrArg (· >>= _) (Members.of?_record (by decide) names)] at read
  obtain ⟨ms, members, read⟩ := Option.bind_eq_some_iff.mp read
  obtain rfl := Option.some.inj members
  iterate 8 obtain ⟨_, -, read⟩ := Option.bind_eq_some_iff.mp read
  obtain ⟨hash, hashed, -⟩ := Option.bind_eq_some_iff.mp read
  simp only [Members.required_record, List.lookup_append, Tree.lookup_field] at hashed
  simp [lost] at hashed

instance {kind : IdentifierKind} : Codec.IsPlain (Identifier kind) := ⟨fun id => id.readsBack.plain⟩

instance : Codec.IsPlain Instant := ⟨fun _ => rfl⟩

instance : Codec.IsPlain ProofHash := ⟨fun _ => rfl⟩

instance : Codec.IsPlain TxState := ⟨fun _ => rfl⟩

instance : Codec.IsPlain EventStatus := ⟨fun _ => rfl⟩

instance : Codec.IsPlain SettlementStatus := ⟨fun _ => rfl⟩

instance : Codec.IsPlain LedgerAction := ⟨fun action => action.readsBack.plain⟩

instance : Codec.IsPlain TxRecord := ⟨fun _ => PlainFields.record (by simp)⟩

instance : Codec.IsPlain Event := ⟨fun _ => PlainFields.record (by simp)⟩

instance : Codec.IsPlain Proof := ⟨fun _ => PlainFields.record (by simp)⟩

instance : Codec.IsPlain Settlement := ⟨fun _ => PlainFields.record (by simp)⟩

instance : Codec.IsPlain AuditRequest := ⟨fun _ => PlainFields.record (by simp)⟩

instance : Codec.IsPlain Orphan := ⟨fun _ => PlainFields.record (by simp)⟩

end Curtail
