import Curtail.Proofs.Index.Handles

namespace Curtail

def EventStatus.rank : EventStatus → Nat
  | .active => 0
  | .closed => 1
  | .settled => 2

theorem EventStatus.rank_le (status : EventStatus) : status.rank ≤ EventStatus.settled.rank := by
  cases status <;> decide

def Event.plan (e : Event) : EventPlan :=
  ⟨e.id, e.start, e.stop, e.target, e.rewardRate, e.penaltyRate⟩

structure TxRecord.Becomes (r later : TxRecord) : Prop where
  handle : later.handle = r.handle
  terminal : r.state ≠ .submitted → later = r

structure Event.Becomes (e later : Event) : Prop where
  plan : later.plan = e.plan
  createdAt : later.createdAt = e.createdAt
  createTx : e.createTx.Becomes later.createTx
  status : e.status.rank ≤ later.status.rank
  closedAt : e.status ≠ .active → later.closedAt = e.closedAt
  settledAt : e.status = .settled → later.settledAt = e.settledAt

structure Proof.Becomes (p later : Proof) : Prop where
  submitTx : p.submitTx.Becomes later.submitTx
  others : later = { p with submitTx := later.submitTx }

structure Settlement.Becomes (s later : Settlement) : Prop where
  event : later.event = s.event
  site : later.site = s.site
  payout : later.payout = s.payout
  settledAt : later.settledAt = s.settledAt
  settleTx : s.settleTx.Becomes later.settleTx
  claimed : s.status = .claimed → later.status = .claimed

theorem TxRecord.Becomes.refl (r : TxRecord) : r.Becomes r := ⟨rfl, fun _ => rfl⟩

theorem TxRecord.Becomes.trans {r s t : TxRecord} (first : r.Becomes s) (second : s.Becomes t) :
    r.Becomes t := by
  refine ⟨second.handle.trans first.handle, ?_⟩
  intro settled
  obtain rfl := first.terminal settled
  exact second.terminal settled

theorem Event.Becomes.not_active {e later : Event} (becomes : e.Becomes later)
    (past : e.status ≠ .active) : later.status ≠ .active := by
  have forward := becomes.status
  intro active
  cases known : e.status <;> simp_all [EventStatus.rank]

theorem Event.Becomes.settled {e later : Event} (becomes : e.Becomes later)
    (done : e.status = .settled) : later.status = .settled := by
  have forward := becomes.status
  cases known : later.status <;> simp_all [EventStatus.rank]

theorem Event.Becomes.refl (e : Event) : e.Becomes e :=
  ⟨rfl, rfl, .refl _, Nat.le_refl _, fun _ => rfl, fun _ => rfl⟩

theorem Event.Becomes.trans {d e f : Event} (first : d.Becomes e) (second : e.Becomes f) :
    d.Becomes f := by
  refine ⟨second.plan.trans first.plan, second.createdAt.trans first.createdAt,
    first.createTx.trans second.createTx, Nat.le_trans first.status second.status, ?_, ?_⟩
  · intro past
    exact (second.closedAt (first.not_active past)).trans (first.closedAt past)
  · intro done
    exact (second.settledAt (first.settled done)).trans (first.settledAt done)

theorem Proof.Becomes.refl (p : Proof) : p.Becomes p := ⟨.refl _, rfl⟩

theorem Proof.Becomes.trans {p q r : Proof} (first : p.Becomes q) (second : q.Becomes r) :
    p.Becomes r := by
  refine ⟨first.submitTx.trans second.submitTx, ?_⟩
  have others := second.others
  rw [first.others] at others
  exact others

theorem Settlement.Becomes.refl (s : Settlement) : s.Becomes s := ⟨rfl, rfl, rfl, rfl, .refl _, id⟩

theorem Settlement.Becomes.trans {s t u : Settlement} (first : s.Becomes t) (second : t.Becomes u) :
    s.Becomes u :=
  ⟨second.event.trans first.event, second.site.trans first.site, second.payout.trans first.payout,
    second.settledAt.trans first.settledAt, first.settleTx.trans second.settleTx,
    second.claimed ∘ first.claimed⟩

namespace Index

/-- What an index has kept on its way to a later one. -/
structure Onward (index later : Index) : Prop where
  events : index.events.Grows Event.Becomes later.events
  proofs : index.proofs.Grows Proof.Becomes later.proofs
  settlements : index.settlements.Grows Settlement.Becomes later.settlements
  audits : index.audits.Grows (fun _ _ => True) later.audits
  orphans : index.orphans <+: later.orphans
  proven : ∀ id e site, index.events.get? id = some e → e.status ≠ .active →
    later.proofs.get? ⟨id, site⟩ ≠ none → index.proofs.get? ⟨id, site⟩ ≠ none
  settled : ∀ id e site, index.events.get? id = some e → e.status = .settled →
    later.settlements.get? ⟨id, site⟩ ≠ none → index.settlements.get? ⟨id, site⟩ ≠ none

variable {index later last : Index}

theorem Onward.refl (index : Index) : index.Onward index :=
  ⟨.refl .refl _, .refl .refl _, .refl .refl _, .refl (fun _ => trivial) _, List.prefix_refl _,
    fun _ _ _ _ _ present => present, fun _ _ _ _ _ present => present⟩

theorem Onward.trans (first : index.Onward later) (second : later.Onward last) :
    index.Onward last := by
  refine ⟨first.events.trans .trans second.events, first.proofs.trans .trans second.proofs,
    first.settlements.trans .trans second.settlements,
    first.audits.trans (fun _ _ => trivial) second.audits, first.orphans.trans second.orphans, ?_, ?_⟩
  · intro id e site found past present
    obtain ⟨f, between, becomes⟩ := first.events id e found
    exact first.proven id e site found past
      (second.proven id f site between (becomes.not_active past) present)
  · intro id e site found done present
    obtain ⟨f, between, becomes⟩ := first.events id e found
    exact first.settled id e site found done
      (second.settled id f site between (becomes.settled done) present)

def Allows (index : Index) : Change → Prop
  | .insertEvent event => index.events.get? event.id = none
  | .closeEvent id _ _ => ∃ e, index.events.get? id = some e ∧ e.status = .active
  | .insertProof proof =>
    (∃ e, index.events.get? proof.event = some e ∧ e.status = .active) ∧
      index.proofs.get? proof.key = none
  | .settleEvent id rows _ =>
    (∃ e, index.events.get? id = some e ∧ e.status = .closed) ∧
      ∀ row ∈ rows, index.proofs.get? ⟨id, row.site⟩ ≠ none ∧
        index.settlements.get? ⟨id, row.site⟩ = none
  | .claimSettlement id site _ _ =>
    ∃ row, index.settlements.get? ⟨id, site⟩ = some row ∧ row.status = .settled
  | .upsertAudit request => index.proofs.get? request.key ≠ none
  | .applyTxUpdates _ | .recordOrphan _ => True

theorem expectStatus_eq_ok_iff {id : EventId} {status : EventStatus} :
    index.expectStatus id status = .ok () ↔
      ∃ e, index.events.get? id = some e ∧ e.status = status := by
  refine ⟨expectStatus_ok, ?_⟩
  rintro ⟨e, found, same⟩
  simp [expectStatus, found, same]

theorem expectStatus_of_ne {id : EventId} {e : Event} {status : EventStatus}
    (found : index.events.get? id = some e) (other : e.status ≠ status) :
    index.expectStatus id status = .error (.conflict (.eventStatus id status e.status)) := by
  simp [expectStatus, found, other]

theorem checkRows_eq_ok_iff {id : EventId} {rows : List Settlement} :
    index.checkRows id rows = .ok () ↔
      ∀ row ∈ rows, index.proofs.get? ⟨id, row.site⟩ ≠ none ∧
        index.settlements.get? ⟨id, row.site⟩ = none := by
  induction rows with
  | nil => simp [checkRows]
  | cons row rows ih =>
      have first : index.checkRow id row = .ok () ↔ index.proofs.get? ⟨id, row.site⟩ ≠ none ∧
          index.settlements.get? ⟨id, row.site⟩ = none := by
        cases proven : index.proofs.get? ⟨id, row.site⟩ <;>
          cases settled : index.settlements.get? ⟨id, row.site⟩ <;>
          simp [checkRow, Table.contains, proven, settled]
      rw [List.forall_mem_cons, ← first, ← ih, checkRows]
      cases index.checkRow id row <;> simp

theorem check_eq_ok_iff {change : Change} : index.check change = .ok () ↔ index.Allows change := by
  cases change with
  | insertEvent event =>
      cases found : index.events.get? event.id <;> simp [check, Allows, Table.contains, found]
  | closeEvent id closeTx closedAt => exact expectStatus_eq_ok_iff
  | insertProof proof =>
      simp only [Allows, check]
      rw [← expectStatus_eq_ok_iff]
      cases index.expectStatus proof.event .active <;>
        cases found : index.proofs.get? proof.key <;> simp [Table.contains, found]
  | settleEvent id rows settledAt =>
      simp only [Allows, check]
      rw [← expectStatus_eq_ok_iff, ← checkRows_eq_ok_iff]
      cases index.expectStatus id .closed <;> simp
  | claimSettlement id site claimTx claimedAt =>
      cases found : index.settlements.get? ⟨id, site⟩ <;> simp [check, Allows, found]
  | upsertAudit request =>
      cases found : index.proofs.get? request.key <;> simp [check, Allows, Table.contains, found]
  | applyTxUpdates updates => simp [check, Allows]
  | recordOrphan orphan => simp [check, Allows]

theorem updated_becomes (record update : TxRecord) : record.Becomes (updated record update) := by
  refine ⟨handle_updated record update, ?_⟩
  intro settled
  exact if_neg fun matching => settled matching.1

theorem onward_applyTxUpdate (index : Index) (u : TxUpdate) : index.Onward (index.applyTxUpdate u) := by
  obtain ⟨⟨id, slot⟩, record⟩ := u
  have same := Onward.refl index
  cases slot with
  | create =>
      refine { same with events := ?_ }
      apply Table.Grows.modify .refl
      intro e _
      exact ⟨rfl, rfl, updated_becomes _ _, Nat.le_refl _, fun _ => rfl, fun _ => rfl⟩
  | close =>
      refine { same with events := ?_ }
      apply Table.Grows.modify .refl
      intro e _
      exact ⟨rfl, rfl, .refl _, Nat.le_refl _, fun _ => rfl, fun _ => rfl⟩
  | submit site =>
      refine { same with proofs := ?_, proven := ?_ }
      · apply Table.Grows.modify .refl
        intro p _
        exact ⟨updated_becomes _ _, rfl⟩
      · intro other e place _ _ present
        exact fun absent => present (Table.get?_modify_eq_none_iff.mpr absent)
  | settle site =>
      refine { same with settlements := ?_, settled := ?_ }
      · apply Table.Grows.modify .refl
        intro s _
        exact ⟨rfl, rfl, rfl, rfl, updated_becomes _ _, fun claimed => claimed⟩
      · intro other e place _ _ present
        exact fun absent => present (Table.get?_modify_eq_none_iff.mpr absent)
  | claim site =>
      refine { same with settlements := ?_, settled := ?_ }
      · apply Table.Grows.modify .refl
        intro s _
        exact ⟨rfl, rfl, rfl, rfl, .refl _, fun claimed => claimed⟩
      · intro other e place _ _ present
        exact fun absent => present (Table.get?_modify_eq_none_iff.mpr absent)

theorem onward_apply {change : Change} (allowed : index.Allows change) :
    index.Onward (index.apply change) := by
  have same := Onward.refl index
  cases change with
  | insertEvent event =>
      refine { same with events := ?_ }
      apply Table.Grows.insert .refl
      intro old found
      cases allowed.symm.trans found
  | closeEvent id closeTx closedAt =>
      obtain ⟨e, found, active⟩ := allowed
      refine { same with events := ?_ }
      apply Table.Grows.modify .refl
      intro f here
      obtain rfl := Option.some.inj (found.symm.trans here)
      refine ⟨rfl, rfl, .refl _, ?_, fun past => (past active).elim, fun _ => rfl⟩
      rw [active]
      exact Nat.zero_le _
  | insertProof proof =>
      obtain ⟨⟨e, found, active⟩, absent⟩ := allowed
      refine { same with proofs := ?_, proven := ?_ }
      · apply Table.Grows.insert .refl
        intro old here
        cases absent.symm.trans here
      · -- The new proof is of an active event.
        intro id f site here past present
        have distinct : (⟨id, site⟩ : SiteKey) ≠ proof.key := by
          intro equal
          obtain rfl : id = proof.event := congrArg SiteKey.event equal
          obtain rfl := Option.some.inj (found.symm.trans here)
          exact past active
        rw [apply, Table.get?_insert, if_neg distinct] at present
        exact present
  | settleEvent id rows settledAt =>
      obtain ⟨⟨e, found, closed⟩, free⟩ := allowed
      refine { same with events := ?_, settlements := ?_, settled := ?_ }
      · apply Table.Grows.modify .refl
        intro f here
        obtain rfl := Option.some.inj (found.symm.trans here)
        refine ⟨rfl, rfl, .refl _, e.status.rank_le, fun _ => rfl, ?_⟩
        intro done
        cases closed.symm.trans done
      · intro key s here
        rcases get?_insertRows index.settlements id rows key with ⟨row, member, rfl, -⟩ | ⟨-, kept⟩
        · cases (free row member).2.symm.trans here
        · exact ⟨s, kept.trans here, .refl s⟩
      · -- The new rows are of an event that has only been closed.
        intro other f site here done present
        rcases get?_insertRows index.settlements id rows ⟨other, site⟩ with
          ⟨row, -, equal, -⟩ | ⟨-, kept⟩
        · obtain rfl : other = id := congrArg SiteKey.event equal
          obtain rfl := Option.some.inj (found.symm.trans here)
          cases closed.symm.trans done
        · rw [← kept]
          exact present
  | claimSettlement id site claimTx claimedAt =>
      refine { same with settlements := ?_, settled := ?_ }
      · apply Table.Grows.modify .refl
        intro s _
        exact ⟨rfl, rfl, rfl, rfl, .refl _, fun _ => rfl⟩
      · intro other e place _ _ present
        exact fun absent => present (Table.get?_modify_eq_none_iff.mpr absent)
  | upsertAudit request =>
      refine { same with audits := ?_ }
      exact Table.Grows.insert (fun _ => trivial) fun _ _ => trivial
  | applyTxUpdates updates =>
      change index.Onward (updates.foldl applyTxUpdate index)
      clear allowed same
      induction updates generalizing index with
      | nil => exact .refl index
      | cons update updates ih => exact (onward_applyTxUpdate index update).trans ih
  | recordOrphan orphan =>
      refine { same with orphans := ?_ }
      exact List.prefix_append _ _

end Index

end Curtail
