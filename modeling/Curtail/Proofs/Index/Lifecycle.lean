import Curtail.Proofs.Index.Range
import Curtail.Proofs.Index.Updates

/-!
The lifecycle of events and of what belongs to them, as an invariant of the index, with what each
change has to bring along for it to be kept.
-/

namespace Curtail

structure TxRecord.Coherent (r : TxRecord) : Prop where
  confirmed : r.confirmedAt.isSome ↔ r.state = .confirmed
  failed : r.error.isSome ↔ r.state = .failed

structure Event.WellFormed (e : Event) : Prop where
  window : e.start < e.stop
  createTx : e.createTx.Coherent
  closeTx : ∀ r, e.closeTx = some r → r.Coherent
  closed : e.closeTx.isSome ↔ e.status ≠ .active
  closedAt : e.closedAt.isSome ↔ e.status ≠ .active
  settledAt : e.settledAt.isSome ↔ e.status = .settled

structure Settlement.WellFormed (s : Settlement) : Prop where
  settleTx : s.settleTx.Coherent
  claimTx : ∀ r, s.claimTx = some r → r.Coherent
  claimed : s.claimTx.isSome ↔ s.status = .claimed
  claimedAt : s.claimedAt.isSome ↔ s.status = .claimed

def Settlement.ofPayout (id : EventId) (tx : TxRecord) (settledAt : Instant) (pay : SiteId × Int64) :
    Settlement :=
  ⟨id, pay.1, pay.2, .settled, tx, none, settledAt, none⟩

namespace TxRecord

theorem coherent_ofResult (r : TxResult) : (ofResult r).Coherent := by
  cases outcome : r.outcome <;>
    exact ⟨by simp [ofResult, outcome, TxOutcome.confirmedAt?, TxOutcome.state],
      by simp [ofResult, outcome, TxOutcome.error?, TxOutcome.state]⟩

theorem Coherent.advanced {r later : TxRecord} {check : TxCheck} (coherent : r.Coherent)
    (advanced : r.advanced check = some later) : later.Coherent := by
  unfold TxRecord.advanced at advanced
  split at advanced
  · cases advanced
  · rename_i waiting
    obtain rfl := Option.some.inj advanced
    have submitted : r.state = .submitted := by
      cases state : r.state <;> simp_all [TxState.isTerminal]
    have unconfirmed : r.confirmedAt = none := by
      simpa [submitted] using coherent.confirmed
    cases outcome : check.outcome <;>
      exact ⟨by simp [unconfirmed, TxOutcome.confirmedAt?, TxOutcome.state],
        by simp [TxOutcome.error?, TxOutcome.state]⟩

theorem Coherent.updatedBy {r : TxRecord} {records : List TxRecord} (coherent : r.Coherent)
    (others : ∀ record ∈ records, record.Coherent) : (Index.updatedBy records r).Coherent := by
  induction records generalizing r with
  | nil => exact coherent
  | cons record records ih =>
      have one : (Index.updated r record).Coherent := by
        unfold Index.updated
        split
        · exact others record List.mem_cons_self
        · exact coherent
      exact ih one fun record member => others record (List.mem_cons_of_mem _ member)

end TxRecord

namespace Index

/-- The settlements of an event are one batch, with one transaction at one time. -/
structure Lifecycle (index : Index) : Prop extends Keyed index where
  eventRows : ∀ id e, index.events.get? id = some e → e.WellFormed
  proofRows : ∀ key p, index.proofs.get? key = some p → p.submitTx.Coherent
  settlementRows : ∀ key s, index.settlements.get? key = some s → s.WellFormed
  orphanRows : ∀ orphan ∈ index.orphans, orphan.tx.Coherent
  announced : ∀ key p, index.proofs.get? key = some p → ∃ e, index.events.get? key.event = some e
  proven : ∀ key s, index.settlements.get? key = some s → ∃ p, index.proofs.get? key = some p
  audited : ∀ key r, index.audits.get? key = some r → ∃ p, index.proofs.get? key = some p
  settled : ∀ key s, index.settlements.get? key = some s → ∃ e,
    index.events.get? key.event = some e ∧ e.status = .settled ∧ e.settledAt = some s.settledAt
  batch : ∀ id site other s t, index.settlements.get? ⟨id, site⟩ = some s →
    index.settlements.get? ⟨id, other⟩ = some t → s.settleTx = t.settleTx
  paid : ∀ id e, index.events.get? id = some e → e.status = .settled →
    ∃ site s, index.settlements.get? ⟨id, site⟩ = some s

variable {index later : Index}

theorem lifecycle_empty : empty.Lifecycle where
  events _ _ found := by cases found
  proofs _ _ found := by cases found
  settlements _ _ found := by cases found
  audits _ _ found := by cases found
  eventRows _ _ found := by cases found
  proofRows _ _ found := by cases found
  settlementRows _ _ found := by cases found
  orphanRows _ listed := by cases listed
  announced _ _ found := by cases found
  proven _ _ found := by cases found
  audited _ _ found := by cases found
  settled _ _ found := by cases found
  batch _ _ _ _ _ found := by cases found
  paid _ _ found := by cases found

namespace Lifecycle

theorem announced_onward (lifecycle : index.Lifecycle) (onward : index.Onward later) {key : SiteKey}
    {p : Proof} (found : index.proofs.get? key = some p) :
    ∃ e, later.events.get? key.event = some e := by
  obtain ⟨e, here⟩ := lifecycle.announced key p found
  obtain ⟨f, present, -⟩ := onward.events _ e here
  exact ⟨f, present⟩

theorem settled_onward (lifecycle : index.Lifecycle) (onward : index.Onward later) {key : SiteKey}
    {s : Settlement} (found : index.settlements.get? key = some s) : ∃ e,
    later.events.get? key.event = some e ∧ e.status = .settled ∧ e.settledAt = some s.settledAt := by
  obtain ⟨e, here, done, time⟩ := lifecycle.settled key s found
  obtain ⟨f, present, becomes⟩ := onward.events _ e here
  exact ⟨f, present, becomes.settled done, (becomes.settledAt done).trans time⟩

theorem proven_onward (onward : index.Onward later) {key : SiteKey} {p : Proof}
    (found : index.proofs.get? key = some p) : ∃ p, later.proofs.get? key = some p := by
  obtain ⟨q, present, -⟩ := onward.proofs key p found
  exact ⟨q, present⟩

theorem unsettled (lifecycle : index.Lifecycle) {id : EventId} {e : Event}
    (found : index.events.get? id = some e) (before : e.status ≠ .settled) (site : SiteId) :
    index.settlements.get? ⟨id, site⟩ = none := by
  cases present : index.settlements.get? ⟨id, site⟩ with
  | none => rfl
  | some s =>
      obtain ⟨f, here, done, -⟩ := lifecycle.settled _ s present
      obtain rfl := Option.some.inj (found.symm.trans here)
      exact (before done).elim

theorem insertEvent (lifecycle : index.Lifecycle) {event : Event}
    (allowed : index.Allows (.insertEvent event)) (wellFormed : event.WellFormed)
    (active : event.status = .active) : (index.apply (.insertEvent event)).Lifecycle := by
  have onward := onward_apply allowed
  refine { lifecycle with events := ?_, eventRows := ?_, announced := ?_, settled := ?_, paid := ?_ }
  · intro id e found
    rcases Table.get?_insert_cases found with ⟨rfl, rfl⟩ | ⟨-, old⟩
    · rfl
    · exact lifecycle.events id e old
  · intro id e found
    rcases Table.get?_insert_cases found with ⟨-, rfl⟩ | ⟨-, old⟩
    · exact wellFormed
    · exact lifecycle.eventRows id e old
  · intro key p found
    exact lifecycle.announced_onward onward found
  · intro key s found
    exact lifecycle.settled_onward onward found
  · intro id e found done
    rcases Table.get?_insert_cases found with ⟨-, rfl⟩ | ⟨-, old⟩
    · cases active.symm.trans done
    · exact lifecycle.paid id e old done

theorem closeEvent (lifecycle : index.Lifecycle) {id : EventId} {tx : TxRecord} {closedAt : Instant}
    (allowed : index.Allows (.closeEvent id tx closedAt)) (coherent : tx.Coherent) :
    (index.apply (.closeEvent id tx closedAt)).Lifecycle := by
  have onward := onward_apply allowed
  obtain ⟨event, here, active⟩ := allowed
  refine { lifecycle with events := ?_, eventRows := ?_, announced := ?_, settled := ?_, paid := ?_ }
  · intro other e found
    rcases Table.get?_modify_cases found with ⟨rfl, f, old, rfl⟩ | ⟨-, old⟩
    · exact lifecycle.events other f old
    · exact lifecycle.events other e old
  · intro other e found
    rcases Table.get?_modify_cases found with ⟨rfl, f, old, rfl⟩ | ⟨-, old⟩
    · obtain rfl := Option.some.inj (here.symm.trans old)
      have row := lifecycle.eventRows other event old
      have unsettled := row.settledAt
      refine ⟨row.window, row.createTx, ?_, by simp, by simp, by simpa [active] using unsettled⟩
      rintro r same
      exact Option.some.inj same ▸ coherent
    · exact lifecycle.eventRows other e old
  · intro key p found
    exact lifecycle.announced_onward onward found
  · intro key s found
    exact lifecycle.settled_onward onward found
  · intro other e found done
    rcases Table.get?_modify_cases found with ⟨-, f, -, rfl⟩ | ⟨-, old⟩
    · cases done
    · exact lifecycle.paid other e old done

theorem insertProof (lifecycle : index.Lifecycle) {proof : Proof}
    (allowed : index.Allows (.insertProof proof)) (coherent : proof.submitTx.Coherent) :
    (index.apply (.insertProof proof)).Lifecycle := by
  have onward := onward_apply allowed
  obtain ⟨⟨event, here, -⟩, -⟩ := allowed
  refine { lifecycle with proofs := ?_, proofRows := ?_, announced := ?_, proven := ?_, audited := ?_ }
  · intro key p found
    rcases Table.get?_insert_cases found with ⟨rfl, rfl⟩ | ⟨-, old⟩
    · rfl
    · exact lifecycle.proofs key p old
  · intro key p found
    rcases Table.get?_insert_cases found with ⟨-, rfl⟩ | ⟨-, old⟩
    · exact coherent
    · exact lifecycle.proofRows key p old
  · intro key p found
    rcases Table.get?_insert_cases found with ⟨rfl, rfl⟩ | ⟨-, old⟩
    · exact ⟨event, here⟩
    · exact lifecycle.announced key p old
  · intro key s found
    obtain ⟨p, present⟩ := lifecycle.proven key s found
    exact proven_onward onward present
  · intro key r found
    obtain ⟨p, present⟩ := lifecycle.audited key r found
    exact proven_onward onward present

section Settle

variable {id : EventId} {tx : TxRecord} {settledAt : Instant} {payouts : List (SiteId × Int64)}

theorem settlement_cases {key : SiteKey} {s : Settlement}
    (found : (index.apply (.settleEvent id (payouts.map (.ofPayout id tx settledAt)) settledAt)).settlements.get?
      key = some s) :
    (∃ pay ∈ payouts, key = ⟨id, pay.1⟩ ∧ s = .ofPayout id tx settledAt pay) ∨
      index.settlements.get? key = some s := by
  rcases get?_insertRows index.settlements id (payouts.map (.ofPayout id tx settledAt)) key with
    ⟨row, member, same, here⟩ | ⟨-, kept⟩
  · obtain ⟨pay, listed, rfl⟩ := List.mem_map.mp member
    exact .inl ⟨pay, listed, same, Option.some.inj (found.symm.trans here)⟩
  · exact .inr (kept.symm.trans found)

theorem settleEvent (lifecycle : index.Lifecycle)
    (allowed : index.Allows (.settleEvent id (payouts.map (.ofPayout id tx settledAt)) settledAt))
    (filled : payouts ≠ []) (coherent : tx.Coherent) :
    (index.apply (.settleEvent id (payouts.map (.ofPayout id tx settledAt)) settledAt)).Lifecycle := by
  have onward := onward_apply allowed
  obtain ⟨⟨event, here, closed⟩, free⟩ := allowed
  have none_yet := lifecycle.unsettled here (by simp [closed])
  refine { lifecycle with
    events := ?_, settlements := ?_, eventRows := ?_, settlementRows := ?_, announced := ?_,
    proven := ?_, settled := ?_, batch := ?_, paid := ?_ }
  · intro other e found
    rcases Table.get?_modify_cases found with ⟨rfl, f, old, rfl⟩ | ⟨-, old⟩
    · exact lifecycle.events other f old
    · exact lifecycle.events other e old
  · intro key s found
    rcases settlement_cases found with ⟨pay, -, rfl, rfl⟩ | old
    · exact ⟨rfl, rfl⟩
    · exact lifecycle.settlements key s old
  · intro other e found
    rcases Table.get?_modify_cases found with ⟨rfl, f, old, rfl⟩ | ⟨-, old⟩
    · obtain rfl := Option.some.inj (here.symm.trans old)
      have row := lifecycle.eventRows other event old
      refine ⟨row.window, row.createTx, row.closeTx, ?_, ?_, by simp⟩
      · simpa [closed] using row.closed
      · simpa [closed] using row.closedAt
    · exact lifecycle.eventRows other e old
  · intro key s found
    rcases settlement_cases found with ⟨pay, -, -, rfl⟩ | old
    · exact ⟨coherent, nofun, by simp [Settlement.ofPayout], by simp [Settlement.ofPayout]⟩
    · exact lifecycle.settlementRows key s old
  · intro key p found
    exact lifecycle.announced_onward onward found
  · intro key s found
    rcases settlement_cases found with ⟨pay, listed, rfl, -⟩ | old
    · exact Option.ne_none_iff_exists'.mp
        (free (.ofPayout id tx settledAt pay) (List.mem_map_of_mem listed)).1
    · exact lifecycle.proven key s old
  · intro key s found
    rcases settlement_cases found with ⟨pay, -, rfl, rfl⟩ | old
    · refine ⟨{ event with status := .settled, settledAt := some settledAt }, ?_, rfl, rfl⟩
      simp [apply, Table.get?_modify, here]
    · exact lifecycle.settled_onward onward old
  · intro other site place s t first second
    rcases settlement_cases first with ⟨pay, -, same, rfl⟩ | old <;>
      rcases settlement_cases second with ⟨other_pay, -, equal, rfl⟩ | older
    · rfl
    · obtain ⟨rfl, -⟩ := SiteKey.mk.inj same
      cases (none_yet place).symm.trans older
    · obtain ⟨rfl, -⟩ := SiteKey.mk.inj equal
      cases (none_yet site).symm.trans old
    · exact lifecycle.batch other site place s t old older
  · intro other e found done
    rcases Table.get?_modify_cases found with ⟨rfl, -⟩ | ⟨-, old⟩
    · obtain ⟨pay, listed⟩ := List.exists_mem_of_ne_nil payouts filled
      refine ⟨pay.1, ?_⟩
      rcases get?_insertRows index.settlements other (payouts.map (.ofPayout other tx settledAt))
        ⟨other, pay.1⟩ with ⟨row, -, -, present⟩ | ⟨unlike, -⟩
      · exact ⟨row, present⟩
      · exact (unlike _ (List.mem_map_of_mem listed) rfl).elim
    · obtain ⟨site, s, before⟩ := lifecycle.paid other e old done
      obtain ⟨t, present, -⟩ := onward.settlements _ s before
      exact ⟨site, t, present⟩

end Settle

theorem claimSettlement (lifecycle : index.Lifecycle) {id : EventId} {site : SiteId} {tx : TxRecord}
    {claimedAt : Instant} (allowed : index.Allows (.claimSettlement id site tx claimedAt))
    (coherent : tx.Coherent) : (index.apply (.claimSettlement id site tx claimedAt)).Lifecycle := by
  have onward := onward_apply allowed
  have before : ∀ key s, (index.apply (.claimSettlement id site tx claimedAt)).settlements.get? key = some s →
      ∃ old, index.settlements.get? key = some old ∧ s.event = old.event ∧ s.site = old.site ∧
        s.settledAt = old.settledAt ∧ s.settleTx = old.settleTx := by
    intro key s found
    rcases Table.get?_modify_cases found with ⟨rfl, old, here, rfl⟩ | ⟨-, here⟩
    · exact ⟨old, here, rfl, rfl, rfl, rfl⟩
    · exact ⟨s, here, rfl, rfl, rfl, rfl⟩
  refine { lifecycle with
    settlements := ?_, settlementRows := ?_, proven := ?_, settled := ?_, batch := ?_, paid := ?_ }
  · intro key s found
    obtain ⟨old, here, event, place, -⟩ := before key s found
    rw [event, place]
    exact lifecycle.settlements key old here
  · intro key s found
    rcases Table.get?_modify_cases found with ⟨-, old, here, rfl⟩ | ⟨-, here⟩
    · refine ⟨(lifecycle.settlementRows _ old here).settleTx, ?_, by simp, by simp⟩
      rintro r same
      exact Option.some.inj same ▸ coherent
    · exact lifecycle.settlementRows key s here
  · intro key s found
    obtain ⟨old, here, -⟩ := before key s found
    exact lifecycle.proven key old here
  · intro key s found
    obtain ⟨old, here, -, -, time, -⟩ := before key s found
    rw [time]
    exact lifecycle.settled key old here
  · intro other first second s t found others
    obtain ⟨old, here, -, -, -, same⟩ := before _ s found
    obtain ⟨older, there, -, -, -, equal⟩ := before _ t others
    rw [same, equal]
    exact lifecycle.batch other first second old older here there
  · intro other e found done
    obtain ⟨place, s, here⟩ := lifecycle.paid other e found done
    obtain ⟨t, present, -⟩ := onward.settlements _ s here
    exact ⟨place, t, present⟩

theorem upsertAudit (lifecycle : index.Lifecycle) {request : AuditRequest}
    (allowed : index.Allows (.upsertAudit request)) : (index.apply (.upsertAudit request)).Lifecycle := by
  refine { lifecycle with audits := ?_, audited := ?_ }
  · intro key r found
    rcases Table.get?_insert_cases found with ⟨rfl, rfl⟩ | ⟨-, old⟩
    · rfl
    · exact lifecycle.audits key r old
  · intro key r found
    rcases Table.get?_insert_cases found with ⟨rfl, -⟩ | ⟨-, old⟩
    · exact Option.ne_none_iff_exists'.mp allowed
    · exact lifecycle.audited key r old

theorem recordOrphan (lifecycle : index.Lifecycle) {orphan : Orphan} (coherent : orphan.tx.Coherent) :
    (index.apply (.recordOrphan orphan)).Lifecycle := by
  refine { lifecycle with orphanRows := ?_ }
  intro other listed
  rcases List.mem_append.mp listed with old | new
  · exact lifecycle.orphanRows other old
  · exact List.mem_singleton.mp new ▸ coherent

end Lifecycle

def Unites (index : Index) (updates : List TxUpdate) : Prop :=
  ∀ id site other, index.settlements.get? ⟨id, site⟩ ≠ none →
    index.settlements.get? ⟨id, other⟩ ≠ none →
      recordsFor ⟨id, .settle site⟩ updates = recordsFor ⟨id, .settle other⟩ updates

theorem Keyed.applyTxUpdates (keyed : index.Keyed) (updates : List TxUpdate) :
    (index.apply (.applyTxUpdates updates)).Keyed := by
  refine ⟨?_, ?_, ?_, ?_⟩
  · intro id e found
    obtain ⟨old, here, rfl⟩ := Table.get?_map_cases (get?_events_applyTxUpdates index updates) found
    exact keyed.events id old here
  · intro key p found
    obtain ⟨old, here, rfl⟩ := Table.get?_map_cases (get?_proofs_applyTxUpdates index updates) found
    exact keyed.proofs key old here
  · intro key s found
    obtain ⟨old, here, rfl⟩ := Table.get?_map_cases (get?_settlements_applyTxUpdates index updates) found
    exact keyed.settlements key old here
  · intro key r found
    change (updates.foldl applyTxUpdate index).audits.get? key = some r at found
    rw [audits_applyTxUpdates] at found
    exact keyed.audits key r found

theorem Lifecycle.applyTxUpdates (lifecycle : index.Lifecycle) {updates : List TxUpdate}
    (coherent : ∀ u ∈ updates, u.record.Coherent) (unites : index.Unites updates) :
    (index.apply (.applyTxUpdates updates)).Lifecycle := by
  have offered : ∀ target, ∀ record ∈ recordsFor target updates, record.Coherent := by
    intro target record member
    exact coherent _ (mem_recordsFor.mp member)
  have keyed : (updates.foldl applyTxUpdate index).Keyed := lifecycle.toKeyed.applyTxUpdates updates
  have events := get?_events_applyTxUpdates index updates
  have proofs := get?_proofs_applyTxUpdates index updates
  have settlements := get?_settlements_applyTxUpdates index updates
  have audits := audits_applyTxUpdates index updates
  have orphans := orphans_applyTxUpdates index updates
  change (updates.foldl applyTxUpdate index).Lifecycle
  generalize updates.foldl applyTxUpdate index = later at *
  -- Each row comes from an old one under its key, of which only the records are new.
  refine ⟨keyed, ?_, ?_, ?_, orphans ▸ lifecycle.orphanRows, ?_, ?_, ?_, ?_, ?_, ?_⟩
  · intro id e found
    obtain ⟨old, here, rfl⟩ := Table.get?_map_cases events found
    have row := lifecycle.eventRows id old here
    refine ⟨row.window, row.createTx.updatedBy (offered _), ?_, ?_, row.closedAt, row.settledAt⟩
    · intro r present
      obtain ⟨before, closed, rfl⟩ := Option.map_eq_some_iff.mp present
      exact (row.closeTx before closed).updatedBy (offered _)
    · simpa [Event.updatedBy] using row.closed
  · intro key p found
    obtain ⟨old, here, rfl⟩ := Table.get?_map_cases proofs found
    exact (lifecycle.proofRows key old here).updatedBy (offered _)
  · intro key s found
    obtain ⟨old, here, rfl⟩ := Table.get?_map_cases settlements found
    have row := lifecycle.settlementRows key old here
    refine ⟨row.settleTx.updatedBy (offered _), ?_, ?_, row.claimedAt⟩
    · intro r present
      obtain ⟨before, claimed, rfl⟩ := Option.map_eq_some_iff.mp present
      exact (row.claimTx before claimed).updatedBy (offered _)
    · simpa [Settlement.updatedBy] using row.claimed
  · intro key p found
    obtain ⟨old, here, rfl⟩ := Table.get?_map_cases proofs found
    obtain ⟨e, present⟩ := lifecycle.announced key old here
    exact ⟨_, by rw [events, present, Option.map_some]⟩
  · intro key s found
    obtain ⟨old, here, rfl⟩ := Table.get?_map_cases settlements found
    obtain ⟨p, present⟩ := lifecycle.proven key old here
    exact ⟨_, by rw [proofs, present, Option.map_some]⟩
  · intro key r found
    rw [audits] at found
    obtain ⟨p, present⟩ := lifecycle.audited key r found
    exact ⟨_, by rw [proofs, present, Option.map_some]⟩
  · intro key s found
    obtain ⟨old, here, rfl⟩ := Table.get?_map_cases settlements found
    obtain ⟨e, present, done, time⟩ := lifecycle.settled key old here
    exact ⟨e.updatedBy updates key.event, by rw [events, present, Option.map_some], done, time⟩
  · -- Equal records that go through the same updates stay equal.
    intro id site other s t found others
    obtain ⟨old, here, rfl⟩ := Table.get?_map_cases settlements found
    obtain ⟨older, there, rfl⟩ := Table.get?_map_cases settlements others
    have same := lifecycle.batch id site other old older here there
    have offers := unites id site other (by simp [here]) (by simp [there])
    simp only [Settlement.updatedBy, same, offers]
  · intro id e found done
    obtain ⟨old, here, rfl⟩ := Table.get?_map_cases events found
    obtain ⟨site, s, present⟩ := lifecycle.paid id old here done
    exact ⟨site, _, by rw [settlements, present, Option.map_some]⟩

end Index

end Curtail
