import Curtail.Proofs.Index.Lifecycle

namespace Curtail

def Change.places : Change → List TxRef
  | .insertEvent event => [⟨event.id, .create⟩, ⟨event.id, .close⟩]
  | .closeEvent id _ _ => [⟨id, .close⟩]
  | .insertProof proof => [⟨proof.event, .submit proof.site⟩]
  | .settleEvent id rows _ => rows.flatMap fun row => [⟨id, .settle row.site⟩, ⟨id, .claim row.site⟩]
  | .claimSettlement id site _ _ => [⟨id, .claim site⟩]
  | .upsertAudit _ | .applyTxUpdates _ | .recordOrphan _ => []

/-- Only the transactions of the event are told of differently. -/
structure Event.Retold (e later : Event) : Prop where
  others : later = { e with createTx := later.createTx, closeTx := later.closeTx }
  createTx : e.createTx.Becomes later.createTx
  closeTx : Option.Rel TxRecord.Becomes e.closeTx later.closeTx

structure Settlement.Retold (s later : Settlement) : Prop where
  others : later = { s with settleTx := later.settleTx, claimTx := later.claimTx }
  settleTx : s.settleTx.Becomes later.settleTx
  claimTx : Option.Rel TxRecord.Becomes s.claimTx later.claimTx

namespace Index

structure Retold (index later : Index) : Prop where
  events : ∀ id, Option.Rel Event.Retold (index.events.get? id) (later.events.get? id)
  proofs : ∀ key, Option.Rel Proof.Becomes (index.proofs.get? key) (later.proofs.get? key)
  settlements : ∀ key, Option.Rel Settlement.Retold (index.settlements.get? key) (later.settlements.get? key)
  audits : later.audits = index.audits
  orphans : later.orphans = index.orphans

variable {index later : Index} {updates : List TxUpdate} {change : Change}

theorem ext_get? (events : ∀ id, index.events.get? id = later.events.get? id)
    (proofs : ∀ key, index.proofs.get? key = later.proofs.get? key)
    (settlements : ∀ key, index.settlements.get? key = later.settlements.get? key)
    (audits : index.audits = later.audits) (orphans : index.orphans = later.orphans) :
    index = later := by
  cases index
  cases later
  obtain rfl := Table.ext_get? events
  obtain rfl := Table.ext_get? proofs
  obtain rfl := Table.ext_get? settlements
  obtain rfl := audits
  obtain rfl := orphans
  rfl

structure Updates (index : Index) (updates : List TxUpdate) (later : Index) : Prop where
  events : ∀ id, later.events.get? id = (index.events.get? id).map (Event.updatedBy updates id)
  proofs : ∀ key, later.proofs.get? key = (index.proofs.get? key).map (Proof.updatedBy updates key)
  settlements : ∀ key,
    later.settlements.get? key = (index.settlements.get? key).map (Settlement.updatedBy updates key)
  audits : later.audits = index.audits
  orphans : later.orphans = index.orphans

theorem updates_apply (index : Index) (updates : List TxUpdate) :
    index.Updates updates (index.apply (.applyTxUpdates updates)) where
  events := get?_events_applyTxUpdates index updates
  proofs := get?_proofs_applyTxUpdates index updates
  settlements := get?_settlements_applyTxUpdates index updates
  audits := audits_applyTxUpdates index updates
  orphans := orphans_applyTxUpdates index updates

theorem Updates.eq_apply (brought : index.Updates updates later) :
    later = index.apply (.applyTxUpdates updates) := by
  have same := index.updates_apply updates
  apply ext_get?
  · intro id
    rw [brought.events, same.events]
  · intro key
    rw [brought.proofs, same.proofs]
  · intro key
    rw [brought.settlements, same.settlements]
  · rw [brought.audits, same.audits]
  · rw [brought.orphans, same.orphans]

theorem updatedBy_becomes (records : List TxRecord) (r : TxRecord) : r.Becomes (updatedBy records r) := by
  induction records generalizing r with
  | nil => exact .refl r
  | cons record records ih => exact (updated_becomes r record).trans (ih _)

theorem rel_map {α : Type} {rel : α → α → Prop} {f : α → α} (related : ∀ x, rel x (f x)) (x : Option α) :
    Option.Rel rel x (x.map f) := by
  cases x with
  | none => exact .none
  | some x => exact .some (related x)

theorem Updates.retold (brought : index.Updates updates later) : index.Retold later where
  events id := by
    rw [brought.events]
    exact rel_map (fun e => ⟨rfl, updatedBy_becomes _ _, rel_map (updatedBy_becomes _) _⟩) _
  proofs key := by
    rw [brought.proofs]
    exact rel_map (fun p => ⟨updatedBy_becomes _ _, rfl⟩) _
  settlements key := by
    rw [brought.settlements]
    exact rel_map (fun s => ⟨rfl, updatedBy_becomes _ _, rel_map (updatedBy_becomes _) _⟩) _
  audits := brought.audits
  orphans := brought.orphans

namespace Updates

variable (brought : index.Updates updates later)

include brought

theorem expectStatus (id : EventId) (status : EventStatus) :
    later.expectStatus id status = index.expectStatus id status := by
  rw [Index.expectStatus, Index.expectStatus, brought.events]
  cases index.events.get? id <;> rfl

theorem checkRows (id : EventId) (rows : List Settlement) :
    later.checkRows id rows = index.checkRows id rows := by
  induction rows with
  | nil => rfl
  | cons row rows ih =>
      have first : later.checkRow id row = index.checkRow id row := by
        simp only [checkRow, Table.contains_map brought.proofs, Table.contains_map brought.settlements]
      rw [Index.checkRows, Index.checkRows, first, ih]

theorem check (change : Change) : later.check change = index.check change := by
  cases change with
  | insertEvent event => rw [Index.check, Index.check, Table.contains_map brought.events]
  | closeEvent id closeTx closedAt => exact brought.expectStatus id .active
  | insertProof proof =>
      rw [Index.check, Index.check, brought.expectStatus, Table.contains_map brought.proofs]
  | settleEvent id rows settledAt =>
      rw [Index.check, Index.check, brought.expectStatus, brought.checkRows]
  | claimSettlement id site claimTx claimedAt =>
      rw [Index.check, Index.check, brought.settlements]
      cases index.settlements.get? ⟨id, site⟩ <;> rfl
  | upsertAudit request => rw [Index.check, Index.check, Table.contains_map brought.proofs]
  | applyTxUpdates others => rfl
  | recordOrphan orphan => rfl

end Updates

theorem get?_insertRows_map {t later : Table SiteKey Settlement} {f : SiteKey → Settlement → Settlement}
    (id : EventId) {rows : List Settlement} (maps : ∀ key, later.get? key = (t.get? key).map (f key))
    (kept : ∀ row ∈ rows, f ⟨id, row.site⟩ row = row) (key : SiteKey) :
    (rows.foldl (fun table row => table.insert ⟨id, row.site⟩ row) later).get? key =
      ((rows.foldl (fun table row => table.insert ⟨id, row.site⟩ row) t).get? key).map (f key) := by
  induction rows generalizing t later with
  | nil => exact maps key
  | cons row rows ih =>
      rw [List.forall_mem_cons] at kept
      exact ih (Table.get?_insert_map maps kept.1) kept.2

/-- A change commutes with a batch of updates that says nothing of the places that it fills. -/
theorem apply_comm (business : ∀ others, change ≠ .applyTxUpdates others)
    (unspoken : ∀ target ∈ change.places, recordsFor target updates = []) :
    (index.apply (.applyTxUpdates updates)).apply change =
      (index.apply change).apply (.applyTxUpdates updates) := by
  apply Updates.eq_apply
  have brought := index.updates_apply updates
  cases change with
  | insertEvent event =>
      have create := unspoken ⟨event.id, .create⟩ (by simp [Change.places])
      have close := unspoken ⟨event.id, .close⟩ (by simp [Change.places])
      refine { brought with events := Table.get?_insert_map brought.events ?_ }
      simp [Event.updatedBy, create, close]
  | closeEvent id closeTx closedAt =>
      have close := unspoken ⟨id, .close⟩ List.mem_cons_self
      refine { brought with events := Table.get?_modify_map brought.events ?_ }
      intro e
      simp [Event.updatedBy, close]
  | insertProof proof =>
      have submit := unspoken ⟨proof.event, .submit proof.site⟩ List.mem_cons_self
      refine { brought with proofs := Table.get?_insert_map brought.proofs ?_ }
      simp [Proof.updatedBy, Proof.key, submit]
  | settleEvent id rows settledAt =>
      refine { brought with
        events := Table.get?_modify_map brought.events fun e => rfl
        settlements := get?_insertRows_map id brought.settlements ?_ }
      intro row listed
      have settle := unspoken ⟨id, .settle row.site⟩ (List.mem_flatMap.mpr ⟨row, listed, by simp⟩)
      have claim := unspoken ⟨id, .claim row.site⟩ (List.mem_flatMap.mpr ⟨row, listed, by simp⟩)
      simp [Settlement.updatedBy, settle, claim]
  | claimSettlement id site claimTx claimedAt =>
      have claim := unspoken ⟨id, .claim site⟩ List.mem_cons_self
      refine { brought with settlements := Table.get?_modify_map brought.settlements ?_ }
      intro s
      simp [Settlement.updatedBy, claim]
  | upsertAudit request =>
      exact { brought with audits := congrArg (·.insert request.key request) brought.audits }
  | applyTxUpdates others => exact (business others rfl).elim
  | recordOrphan orphan => exact { brought with orphans := congrArg (· ++ [orphan]) brought.orphans }

theorem updatedBy_of_passed {records : List TxRecord} {r : TxRecord}
    (passed : ∀ record ∈ records, updated r record = r) : updatedBy records r = r := by
  induction records with
  | nil => rfl
  | cons record records ih =>
      rw [List.forall_mem_cons] at passed
      change updatedBy records (updated r record) = r
      rw [passed.1, ih passed.2]

theorem updatedBy_cases {records : List TxRecord}
    (settled : ∀ record ∈ records, record.state ≠ .submitted) (r : TxRecord) :
    (updatedBy records r).state ≠ .submitted ∨ ∀ record ∈ records, updated r record = r := by
  induction records with
  | nil => exact .inr nofun
  | cons record records ih =>
      rw [List.forall_mem_cons] at settled
      rw [List.forall_mem_cons]
      change (updatedBy records (updated r record)).state ≠ .submitted ∨ _
      by_cases matching : r.state = .submitted ∧ r.handle = record.handle
      · have taken : updated r record = record := if_pos matching
        rw [taken, (updatedBy_becomes records record).terminal settled.1]
        exact .inl settled.1
      · have passed : updated r record = r := if_neg matching
        rw [passed]
        exact (ih settled.2).imp_right fun others => ⟨rfl, others⟩

theorem updatedBy_of_same {records : List TxRecord} {r record : TxRecord} (filled : records ≠ [])
    (same : ∀ other ∈ records, other = record) (taken : updated r record = record)
    (settled : record.state ≠ .submitted) : updatedBy records r = record := by
  cases records with
  | nil => exact (filled rfl).elim
  | cons first others =>
      obtain rfl := same first List.mem_cons_self
      change updatedBy others (updated r first) = first
      rw [taken]
      exact (updatedBy_becomes others first).terminal settled

theorem updatedBy_idem {records : List TxRecord}
    (settled : ∀ record ∈ records, record.state ≠ .submitted) (r : TxRecord) :
    updatedBy records (updatedBy records r) = updatedBy records r := by
  rcases updatedBy_cases settled r with terminal | passed
  · exact (updatedBy_becomes records _).terminal terminal
  · rw [updatedBy_of_passed passed, updatedBy_of_passed passed]

theorem apply_idem (settled : ∀ u ∈ updates, u.record.state ≠ .submitted) :
    (index.apply (.applyTxUpdates updates)).apply (.applyTxUpdates updates) =
      index.apply (.applyTxUpdates updates) := by
  have idem : ∀ target r, updatedBy (recordsFor target updates) (updatedBy (recordsFor target updates) r) =
      updatedBy (recordsFor target updates) r := by
    intro target
    apply updatedBy_idem
    intro record member
    exact settled _ (mem_recordsFor.mp member)
  have brought := index.updates_apply updates
  refine (Updates.eq_apply ⟨?_, ?_, ?_, rfl, rfl⟩).symm
  · intro id
    rw [brought.events]
    cases index.events.get? id <;> simp [Event.updatedBy, idem, Function.comp_def]
  · intro key
    rw [brought.proofs]
    cases index.proofs.get? key <;> simp [Proof.updatedBy, idem]
  · intro key
    rw [brought.settlements]
    cases index.settlements.get? key <;> simp [Settlement.updatedBy, idem, Function.comp_def]

theorem Lifecycle.unclosed (lifecycle : index.Lifecycle) (onward : index.Onward later) {id : EventId}
    {f : Event} (found : later.events.get? id = some f) (active : f.status = .active) :
    index.record? ⟨id, .close⟩ = none := by
  cases before : index.events.get? id with
  | none => simp [record?, before]
  | some e =>
      obtain ⟨g, present, becomes⟩ := onward.events id e before
      obtain rfl := Option.some.inj (found.symm.trans present)
      have unclosed : ¬e.closeTx.isSome := by
        rw [(lifecycle.eventRows id e before).closed]
        exact fun past => becomes.not_active past active
      simpa [record?, before] using unclosed

theorem Lifecycle.unclaimed (lifecycle : index.Lifecycle) (onward : index.Onward later) {id : EventId}
    {site : SiteId} {t : Settlement} (found : later.settlements.get? ⟨id, site⟩ = some t)
    (settled : t.status = .settled) : index.record? ⟨id, .claim site⟩ = none := by
  cases before : index.settlements.get? ⟨id, site⟩ with
  | none => simp [record?, before]
  | some s =>
      obtain ⟨g, present, becomes⟩ := onward.settlements _ s before
      obtain rfl := Option.some.inj (found.symm.trans present)
      have unclaimed : ¬s.claimTx.isSome := by
        rw [(lifecycle.settlementRows _ s before).claimed]
        intro claimed
        cases settled.symm.trans (becomes.claimed claimed)
      simpa [record?, before] using unclaimed

theorem Lifecycle.record?_eq_none (lifecycle : index.Lifecycle) (onward : index.Onward later)
    (allowed : later.Allows change) : ∀ target ∈ change.places, index.record? target = none := by
  cases change with
  | insertEvent event =>
      have absent := onward.events.absent allowed
      simp [Change.places, record?, absent]
  | closeEvent id closeTx closedAt =>
      obtain ⟨f, found, active⟩ := allowed
      simpa [Change.places] using lifecycle.unclosed onward found active
  | insertProof proof =>
      have absent : index.proofs.get? ⟨proof.event, proof.site⟩ = none := onward.proofs.absent allowed.2
      simp [Change.places, record?, absent]
  | settleEvent id rows settledAt =>
      intro target listed
      obtain ⟨row, member, here⟩ := List.mem_flatMap.mp listed
      have absent := onward.settlements.absent (allowed.2 row member).2
      rw [List.mem_cons, List.mem_singleton] at here
      rcases here with rfl | rfl <;> simp [record?, absent]
  | claimSettlement id site claimTx claimedAt =>
      obtain ⟨t, found, settled⟩ := allowed
      simpa [Change.places] using lifecycle.unclaimed onward found settled
  | _ => exact fun _ listed => absurd listed List.not_mem_nil

end Index

end Curtail
