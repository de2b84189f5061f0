import Curtail.Index.Basic
import Curtail.Proofs.Index.Table

namespace Curtail

namespace Index

def record? (index : Index) (target : TxRef) : Option TxRecord :=
  match target.slot with
  | .create => (index.events.get? target.event).map (·.createTx)
  | .close => (index.events.get? target.event).bind (·.closeTx)
  | .submit site => (index.proofs.get? ⟨target.event, site⟩).map (·.submitTx)
  | .settle site => (index.settlements.get? ⟨target.event, site⟩).map (·.settleTx)
  | .claim site => (index.settlements.get? ⟨target.event, site⟩).bind (·.claimTx)

def handle? (index : Index) (target : TxRef) : Option TxHandle :=
  (index.record? target).map (·.handle)

end Index

def Event.handles (e : Event) : TxHandle × Option TxHandle :=
  (e.createTx.handle, e.closeTx.map (·.handle))

def Settlement.handles (s : Settlement) : TxHandle × Option TxHandle :=
  (s.settleTx.handle, s.claimTx.map (·.handle))

namespace Index

theorem handle?_congr {index other : Index}
    (events : ∀ id, (index.events.get? id).map Event.handles = (other.events.get? id).map Event.handles)
    (proofs : ∀ key, (index.proofs.get? key).map (·.submitTx.handle) =
      (other.proofs.get? key).map (·.submitTx.handle))
    (settlements : ∀ key, (index.settlements.get? key).map Settlement.handles =
      (other.settlements.get? key).map Settlement.handles) (target : TxRef) :
    index.handle? target = other.handle? target := by
  obtain ⟨id, slot⟩ := target
  cases slot with
  | create =>
      have view := congrArg (Option.map Prod.fst) (events id)
      simpa [handle?, record?, Event.handles, Function.comp_def] using view
  | close =>
      have view := congrArg (Option.bind · Prod.snd) (events id)
      simpa [handle?, record?, Event.handles, Option.map_bind, Option.bind_map, Function.comp_def] using view
  | submit site =>
      have view := proofs ⟨id, site⟩
      simpa [handle?, record?, Function.comp_def] using view
  | settle site =>
      have view := congrArg (Option.map Prod.fst) (settlements ⟨id, site⟩)
      simpa [handle?, record?, Settlement.handles, Function.comp_def] using view
  | claim site =>
      have view := congrArg (Option.bind · Prod.snd) (settlements ⟨id, site⟩)
      simpa [handle?, record?, Settlement.handles, Option.map_bind, Option.bind_map, Function.comp_def] using
        view

theorem handle_updated (record update : TxRecord) : (updated record update).handle = record.handle := by
  unfold updated
  by_cases matching : record.state = .submitted ∧ record.handle = update.handle
  · rw [if_pos matching]
    exact matching.2.symm
  · rw [if_neg matching]

theorem handle?_applyTxUpdate (index : Index) (u : TxUpdate) (target : TxRef) :
    (index.applyTxUpdate u).handle? target = index.handle? target := by
  obtain ⟨⟨id, slot⟩, record⟩ := u
  cases slot with
  | create =>
      apply handle?_congr
      · intro other
        apply Table.map_get?_modify
        intro e
        simp [Event.handles, handle_updated]
      · exact fun _ => rfl
      · exact fun _ => rfl
  | close =>
      apply handle?_congr
      · intro other
        apply Table.map_get?_modify
        intro e
        simp [Event.handles, handle_updated, Function.comp_def]
      · exact fun _ => rfl
      · exact fun _ => rfl
  | submit site =>
      apply handle?_congr
      · exact fun _ => rfl
      · intro other
        apply Table.map_get?_modify
        intro p
        exact handle_updated p.submitTx record
      · exact fun _ => rfl
  | settle site =>
      apply handle?_congr
      · exact fun _ => rfl
      · exact fun _ => rfl
      · intro other
        apply Table.map_get?_modify
        intro s
        simp [Settlement.handles, handle_updated]
  | claim site =>
      apply handle?_congr
      · exact fun _ => rfl
      · exact fun _ => rfl
      · intro other
        apply Table.map_get?_modify
        intro s
        simp [Settlement.handles, handle_updated, Function.comp_def]

end Index

def Change.targets : Change → List TxRef
  | .insertEvent event => [⟨event.id, .create⟩]
  | .closeEvent id _ _ => [⟨id, .close⟩]
  | .insertProof proof => [⟨proof.event, .submit proof.site⟩]
  | .settleEvent id rows _ => rows.map fun row => ⟨id, .settle row.site⟩
  | .claimSettlement id site _ _ => [⟨id, .claim site⟩]
  | .upsertAudit _ | .applyTxUpdates _ | .recordOrphan _ => []

def Change.Carries (tx : TxRecord) : Change → Prop
  | .insertEvent event => event.createTx = tx ∧ event.closeTx = none
  | .closeEvent _ closeTx _ => closeTx = tx
  | .insertProof proof => proof.submitTx = tx
  | .settleEvent _ rows _ => rows ≠ [] ∧ ∀ row ∈ rows, row.settleTx = tx ∧ row.claimTx = none
  | .claimSettlement _ _ claimTx _ => claimTx = tx
  | .upsertAudit _ | .applyTxUpdates _ | .recordOrphan _ => False

theorem Change.Carries.targets_ne_nil {change : Change} {tx : TxRecord} (carries : change.Carries tx) :
    change.targets ≠ [] := by
  cases change with
  | settleEvent id rows settledAt =>
      have filled : rows ≠ [] := carries.1
      simpa [targets] using filled
  | upsertAudit request => exact carries.elim
  | applyTxUpdates updates => exact carries.elim
  | recordOrphan orphan => exact carries.elim
  | _ => simp [targets]

def Change.IsQuiet : Change → Prop
  | .upsertAudit _ | .applyTxUpdates _ | .recordOrphan _ => True
  | _ => False

def Change.orphans : Change → List Orphan
  | .recordOrphan orphan => [orphan]
  | _ => []

theorem Change.Carries.orphans_eq_nil {change : Change} {tx : TxRecord} (carries : change.Carries tx) :
    change.orphans = [] := by
  cases change with
  | recordOrphan orphan => exact carries.elim
  | _ => rfl

theorem Change.Carries.not_isQuiet {change : Change} {tx : TxRecord} (carries : change.Carries tx) :
    ¬change.IsQuiet := by
  cases change with
  | upsertAudit request => exact carries.elim
  | applyTxUpdates updates => exact carries.elim
  | recordOrphan orphan => exact carries.elim
  | _ => exact id

theorem Change.Carries.eq {change : Change} {tx other : TxRecord} (carries : change.Carries tx)
    (also : change.Carries other) : other = tx := by
  cases change with
  | insertEvent event => exact also.1.symm.trans carries.1
  | settleEvent id rows settledAt =>
      obtain ⟨row, listed⟩ := List.exists_mem_of_ne_nil rows carries.1
      exact (also.2 row listed).1.symm.trans (carries.2 row listed).1
  | upsertAudit request => exact carries.elim
  | applyTxUpdates updates => exact carries.elim
  | recordOrphan orphan => exact carries.elim
  | _ => exact Eq.trans (Eq.symm also) carries

theorem Change.event_eq_of_targets {change : Change} {target other : TxRef}
    (listed : target ∈ change.targets) (also : other ∈ change.targets) : other.event = target.event := by
  cases change with
  | settleEvent id rows settledAt =>
      obtain ⟨row, -, rfl⟩ := List.mem_map.mp listed
      obtain ⟨row, -, rfl⟩ := List.mem_map.mp also
      rfl
  | upsertAudit request => cases listed
  | applyTxUpdates updates => cases listed
  | recordOrphan orphan => cases listed
  | _ => rw [List.mem_singleton.mp listed, List.mem_singleton.mp also]

namespace Index

structure Regular (index : Index) : Prop where
  events : index.events.All fun e => e.status = .active → e.closeTx = none
  settlements : index.settlements.All fun s => s.status = .settled → s.claimTx = none

/-- The places were free and carry the handle now; all others carry what they did. -/
structure Fills (index later : Index) (targets : List TxRef) (handle : TxHandle) : Prop where
  free : ∀ target ∈ targets, index.handle? target = none
  filled : ∀ target, later.handle? target =
    if target ∈ targets then some handle else index.handle? target

structure Receives (index later : Index) (targets : List TxRef) (tx : TxRecord) : Prop where
  free : ∀ target ∈ targets, index.record? target = none
  filled : ∀ target, later.record? target =
    if target ∈ targets then some tx else index.record? target

variable {index : Index} {tx : TxRecord}

theorem Receives.fills {later : Index} {targets : List TxRef}
    (receives : Receives index later targets tx) : Fills index later targets tx.handle where
  free target listed := by rw [handle?, receives.free target listed, Option.map_none]
  filled target := by
    rw [handle?, receives.filled]
    by_cases listed : target ∈ targets
    · rw [if_pos listed, if_pos listed, Option.map_some]
    · rw [if_neg listed, if_neg listed, handle?]

theorem expectStatus_ok {id : EventId} {status : EventStatus}
    (expected : index.expectStatus id status = .ok ()) :
    ∃ e, index.events.get? id = some e ∧ e.status = status := by
  unfold expectStatus at expected
  cases found : index.events.get? id with
  | none =>
      simp only [found] at expected
      cases expected
  | some e =>
      simp only [found] at expected
      by_cases same : e.status = status
      · exact ⟨e, rfl, same⟩
      · rw [if_neg same] at expected
        cases expected

theorem insertEvent_receives {event : Event} (carries : event.createTx = tx ∧ event.closeTx = none)
    (accepted : index.check (.insertEvent event) = .ok ()) :
    Receives index (index.apply (.insertEvent event)) [⟨event.id, .create⟩] tx := by
  have absent : index.events.get? event.id = none := by
    apply Table.get?_of_not_contains
    cases present : index.events.contains event.id with
    | false => rfl
    | true => simp [check, present] at accepted
  refine ⟨?_, ?_⟩
  · intro target member
    obtain rfl := List.mem_singleton.mp member
    simp [record?, absent]
  · rintro ⟨id, slot⟩
    cases slot with
    | create =>
        by_cases same : id = event.id <;>
          simp [record?, apply, Table.get?_insert, same, carries]
    | close =>
        by_cases same : id = event.id <;>
          simp [record?, apply, Table.get?_insert, same, carries, absent]
    | submit site => simp [record?, apply]
    | settle site => simp [record?, apply]
    | claim site => simp [record?, apply]

theorem closeEvent_receives (regular : index.Regular) {id : EventId} {closedAt : Instant}
    (accepted : index.check (.closeEvent id tx closedAt) = .ok ()) :
    Receives index (index.apply (.closeEvent id tx closedAt)) [⟨id, .close⟩] tx := by
  obtain ⟨e, found, active⟩ := expectStatus_ok accepted
  have unclosed := regular.events id e found active
  refine ⟨?_, ?_⟩
  · intro target member
    obtain rfl := List.mem_singleton.mp member
    simp [record?, found, unclosed]
  · rintro ⟨other, slot⟩
    cases slot with
    | create =>
        by_cases same : other = id <;>
          simp [record?, apply, Table.get?_modify, same, found]
    | close =>
        by_cases same : other = id <;>
          simp [record?, apply, Table.get?_modify, same, found]
    | submit site => simp [record?, apply]
    | settle site => simp [record?, apply]
    | claim site => simp [record?, apply]

theorem insertProof_receives {proof : Proof} (carries : proof.submitTx = tx)
    (accepted : index.check (.insertProof proof) = .ok ()) :
    Receives index (index.apply (.insertProof proof)) [⟨proof.event, .submit proof.site⟩] tx := by
  have absent : index.proofs.get? ⟨proof.event, proof.site⟩ = none := by
    apply Table.get?_of_not_contains
    cases present : index.proofs.contains ⟨proof.event, proof.site⟩ with
    | false => rfl
    | true =>
        cases active : index.expectStatus proof.event .active <;>
          simp [check, active, Proof.key, present] at accepted
  refine ⟨?_, ?_⟩
  · intro target member
    obtain rfl := List.mem_singleton.mp member
    simp [record?, absent]
  · rintro ⟨id, slot⟩
    cases slot with
    | create => simp [record?, apply]
    | close => simp [record?, apply]
    | submit site =>
        by_cases same : id = proof.event ∧ site = proof.site <;>
          simp [record?, apply, Table.get?_insert, Proof.key, same, carries]
    | settle site => simp [record?, apply]
    | claim site => simp [record?, apply]

theorem claimSettlement_receives (regular : index.Regular) {id : EventId} {site : SiteId}
    {claimedAt : Instant} (accepted : index.check (.claimSettlement id site tx claimedAt) = .ok ()) :
    Receives index (index.apply (.claimSettlement id site tx claimedAt)) [⟨id, .claim site⟩] tx := by
  obtain ⟨row, found, settled⟩ :
      ∃ row, index.settlements.get? ⟨id, site⟩ = some row ∧ row.status = .settled := by
    cases found : index.settlements.get? ⟨id, site⟩ with
    | none => simp [check, found] at accepted
    | some row =>
        by_cases settled : row.status = .settled
        · exact ⟨row, rfl, settled⟩
        · simp [check, found, settled] at accepted
  have unclaimed := regular.settlements _ row found settled
  refine ⟨?_, ?_⟩
  · intro target member
    obtain rfl := List.mem_singleton.mp member
    simp [record?, found, unclaimed]
  · rintro ⟨other, slot⟩
    cases slot with
    | create => simp [record?, apply]
    | close => simp [record?, apply]
    | submit place => simp [record?, apply]
    | settle place =>
        by_cases same : other = id ∧ place = site <;>
          simp [record?, apply, Table.get?_modify, same, found]
    | claim place =>
        by_cases same : other = id ∧ place = site <;>
          simp [record?, apply, Table.get?_modify, same, found]

theorem checkRows_ok {id : EventId} {rows : List Settlement}
    (accepted : index.checkRows id rows = .ok ()) :
    ∀ row ∈ rows, index.settlements.get? ⟨id, row.site⟩ = none := by
  induction rows with
  | nil => simp
  | cons first rows ih =>
      unfold checkRows at accepted
      cases checked : index.checkRow id first with
      | error cause => simp [checked] at accepted
      | ok _ =>
          simp only [checked] at accepted
          intro row member
          rcases List.mem_cons.mp member with rfl | later
          · apply Table.get?_of_not_contains
            cases present : index.settlements.contains ⟨id, row.site⟩ with
            | false => rfl
            | true => cases proven : index.proofs.contains ⟨id, row.site⟩ <;>
                simp [checkRow, present, proven] at checked
          · exact ih accepted row later

theorem get?_insertRows (table : Table SiteKey Settlement) (id : EventId) (rows : List Settlement)
    (key : SiteKey) :
    (∃ row ∈ rows, key = ⟨id, row.site⟩ ∧
      (rows.foldl (fun t row => t.insert ⟨id, row.site⟩ row) table).get? key = some row) ∨
    ((∀ row ∈ rows, key ≠ ⟨id, row.site⟩) ∧
      (rows.foldl (fun t row => t.insert ⟨id, row.site⟩ row) table).get? key = table.get? key) := by
  induction rows generalizing table with
  | nil => exact .inr ⟨by simp, rfl⟩
  | cons first rows ih =>
      rw [List.foldl_cons]
      rcases ih (table.insert ⟨id, first.site⟩ first) with ⟨row, member, same, found⟩ | ⟨absent, found⟩
      · exact .inl ⟨row, List.mem_cons_of_mem _ member, same, found⟩
      · rw [Table.get?_insert] at found
        by_cases same : key = ⟨id, first.site⟩
        · rw [if_pos same] at found
          exact .inl ⟨first, List.mem_cons_self, same, found⟩
        · rw [if_neg same] at found
          refine .inr ⟨?_, found⟩
          intro row member
          rcases List.mem_cons.mp member with rfl | later
          · exact same
          · exact absent row later

theorem settleEvent_receives {id : EventId} {rows : List Settlement} {settledAt : Instant}
    (carries : ∀ row ∈ rows, row.settleTx = tx ∧ row.claimTx = none)
    (accepted : index.check (.settleEvent id rows settledAt) = .ok ()) :
    Receives index (index.apply (.settleEvent id rows settledAt))
      (rows.map fun row => ⟨id, .settle row.site⟩) tx := by
  have absent : ∀ row ∈ rows, index.settlements.get? ⟨id, row.site⟩ = none := by
    apply checkRows_ok
    cases closed : index.expectStatus id .closed with
    | error cause => simp [check, closed] at accepted
    | ok _ => simpa [check, closed] using accepted
  refine ⟨?_, ?_⟩
  · intro target member
    obtain ⟨row, present, rfl⟩ := List.mem_map.mp member
    simp [record?, absent row present]
  · rintro ⟨other, slot⟩
    cases slot with
    | create =>
        by_cases same : other = id <;>
          simp [record?, apply, Table.get?_modify, same, Function.comp_def]
    | close =>
        rcases eq_or_ne other id with rfl | unlike
        · cases found : index.events.get? other <;> simp [record?, apply, Table.get?_modify, found]
        · simp [record?, apply, Table.get?_modify, unlike]
    | submit place => simp [record?, apply]
    | settle place =>
        -- A site may be listed twice, but whichever row is kept has the same transaction.
        rcases get?_insertRows index.settlements id rows ⟨other, place⟩ with
          ⟨row, member, same, found⟩ | ⟨unlike, found⟩
        · obtain ⟨rfl, rfl⟩ := SiteKey.mk.inj same
          have listed : (⟨other, .settle row.site⟩ : TxRef) ∈
              rows.map fun row => ⟨other, .settle row.site⟩ := List.mem_map.mpr ⟨row, member, rfl⟩
          rw [if_pos listed]
          simp [record?, apply, found, carries row member]
        · have unlisted : (⟨other, .settle place⟩ : TxRef) ∉
              rows.map fun row => ⟨id, .settle row.site⟩ := by
            intro listed
            obtain ⟨row, member, same⟩ := List.mem_map.mp listed
            obtain ⟨rfl, slot⟩ := TxRef.mk.inj same
            exact unlike row member (congrArg (SiteKey.mk id) (TxSlot.settle.inj slot).symm)
          rw [if_neg unlisted]
          simp [record?, apply, found]
    | claim place =>
        rw [if_neg (by simp)]
        rcases get?_insertRows index.settlements id rows ⟨other, place⟩ with
          ⟨row, member, same, found⟩ | ⟨unlike, found⟩
        · obtain ⟨rfl, rfl⟩ := SiteKey.mk.inj same
          simp [record?, apply, found, carries row member, absent row member]
        · simp [record?, apply, found]

theorem apply_receives (regular : index.Regular) {change : Change} (carries : change.Carries tx)
    (accepted : index.check change = .ok ()) :
    Receives index (index.apply change) change.targets tx := by
  cases change with
  | insertEvent event => exact insertEvent_receives carries accepted
  | closeEvent id closeTx closedAt =>
      obtain rfl : closeTx = tx := carries
      exact closeEvent_receives regular accepted
  | insertProof proof => exact insertProof_receives carries accepted
  | settleEvent id rows settledAt => exact settleEvent_receives carries.2 accepted
  | claimSettlement id site claimTx claimedAt =>
      obtain rfl : claimTx = tx := carries
      exact claimSettlement_receives regular accepted
  | upsertAudit request => exact carries.elim
  | applyTxUpdates updates => exact carries.elim
  | recordOrphan orphan => exact carries.elim

theorem apply_fills (regular : index.Regular) {change : Change} (carries : change.Carries tx)
    (accepted : index.check change = .ok ()) :
    Fills index (index.apply change) change.targets tx.handle :=
  (apply_receives regular carries accepted).fills

theorem handle?_applyQuiet {change : Change} (quiet : change.IsQuiet) (target : TxRef) :
    (index.apply change).handle? target = index.handle? target := by
  cases change with
  | upsertAudit request => rfl
  | applyTxUpdates updates =>
      clear quiet
      change (updates.foldl applyTxUpdate index).handle? target = index.handle? target
      induction updates generalizing index with
      | nil => rfl
      | cons update updates ih =>
          rw [List.foldl_cons, ih]
          exact handle?_applyTxUpdate index update target
  | recordOrphan orphan => rfl
  | _ => exact quiet.elim

theorem Regular.applyTxUpdate (regular : index.Regular) (u : TxUpdate) :
    (index.applyTxUpdate u).Regular := by
  obtain ⟨events, settlements⟩ := regular
  obtain ⟨⟨id, slot⟩, record⟩ := u
  cases slot with
  | create => exact ⟨events.modify id fun e old => old, settlements⟩
  | close =>
      refine ⟨events.modify id ?_, settlements⟩
      intro e old active
      simp [old active]
  | submit site => exact ⟨events, settlements⟩
  | settle site => exact ⟨events, settlements.modify _ fun s old => old⟩
  | claim site =>
      refine ⟨events, settlements.modify _ ?_⟩
      intro s old settled
      simp [old settled]

theorem Regular.apply (regular : index.Regular) {change : Change}
    (carries : change.IsQuiet ∨ ∃ tx, change.Carries tx) :
    (index.apply change).Regular := by
  obtain ⟨events, settlements⟩ := regular
  cases change with
  | insertEvent event =>
      obtain ⟨tx, -, unclosed⟩ := carries.resolve_left fun quiet => quiet
      exact ⟨events.insert event.id fun _ => unclosed, settlements⟩
  | closeEvent id closeTx closedAt =>
      refine ⟨events.modify id ?_, settlements⟩
      intro e old active
      cases active
  | insertProof proof => exact ⟨events, settlements⟩
  | settleEvent id rows settledAt =>
      obtain ⟨tx, -, unclaimed⟩ := carries.resolve_left fun quiet => quiet
      refine ⟨events.modify id ?_, ?_⟩
      · intro e old active
        cases active
      · intro key row found settled
        rcases get?_insertRows index.settlements id rows key with
          ⟨given, member, same, here⟩ | ⟨unlike, here⟩
        · obtain rfl := Option.some.inj (here.symm.trans found)
          exact (unclaimed given member).2
        · exact settlements key row (here.symm.trans found) settled
  | claimSettlement id site claimTx claimedAt =>
      refine ⟨events, settlements.modify _ ?_⟩
      intro s old settled
      cases settled
  | upsertAudit request => exact ⟨events, settlements⟩
  | applyTxUpdates updates =>
      have regular : index.Regular := ⟨events, settlements⟩
      clear events settlements carries
      change (updates.foldl Index.applyTxUpdate index).Regular
      induction updates generalizing index with
      | nil => exact regular
      | cons update updates ih => exact ih (regular.applyTxUpdate update)
  | recordOrphan orphan => exact ⟨events, settlements⟩

theorem orphans_applyTxUpdates (index : Index) (updates : List TxUpdate) :
    (updates.foldl Index.applyTxUpdate index).orphans = index.orphans := by
  induction updates generalizing index with
  | nil => rfl
  | cons update updates ih =>
      rw [List.foldl_cons, ih]
      obtain ⟨⟨id, slot⟩, record⟩ := update
      cases slot <;> rfl

theorem orphans_apply (index : Index) (change : Change) :
    (index.apply change).orphans = index.orphans ++ change.orphans := by
  cases change with
  | applyTxUpdates updates =>
      exact (orphans_applyTxUpdates index updates).trans (List.append_nil _).symm
  | recordOrphan orphan => rfl
  | _ => exact (List.append_nil _).symm

end Index

end Curtail
