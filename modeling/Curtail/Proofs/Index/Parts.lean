import Curtail.Proofs.Index.Range
import Curtail.Proofs.Index.Recovery
import Curtail.Proofs.Index.Updates
import Mathlib.Data.List.Basic

namespace Curtail

inductive EventPart
  | event
  | proofs
  | settlements
  | audit
  deriving DecidableEq

def TxSlot.part : TxSlot → EventPart
  | .create | .close => .event
  | .submit _ => .proofs
  | .settle _ | .claim _ => .settlements

def Change.Touches (change : Change) (view : SiteKey) (part : EventPart) : Prop :=
  match change with
  | .insertEvent event => event.id = view.event ∧ part = .event
  | .closeEvent id _ _ => id = view.event ∧ part = .event
  | .insertProof proof => proof.event = view.event ∧ part = .proofs
  | .settleEvent id _ _ => id = view.event ∧ (part = .event ∨ part = .settlements)
  | .claimSettlement id _ _ _ => id = view.event ∧ part = .settlements
  | .upsertAudit request => request.key = view ∧ part = .audit
  | .applyTxUpdates updates => ∃ u ∈ updates, u.target.event = view.event ∧ u.target.slot.part = part
  | .recordOrphan _ => False

namespace Index

section Rows

variable {α : Type} {table other : Table SiteKey α} {id : EventId}

theorem rowsOf_eq_filterMap (table : Table SiteKey α) (id : EventId) :
    rowsOf table id = (sitesOf table id).filterMap fun site => table.get? ⟨id, site⟩ := by
  rw [rowsOf_eq_filter, sitesOf, List.filterMap_map, eq_comm, List.filterMap_eq_map_iff_forall_eq_some]
  intro entry listed
  obtain ⟨member, own⟩ := List.mem_filter.mp listed
  change table.get? ⟨id, entry.1.site⟩ = some entry.2
  rw [← of_decide_eq_true own]
  exact Table.get?_eq_some_iff.mpr member

theorem rowsOf_congr (same : ∀ site, table.get? ⟨id, site⟩ = other.get? ⟨id, site⟩) :
    rowsOf table id = rowsOf other id := by
  have sites : sitesOf table id = sitesOf other id := sitesOf_congr fun site => by rw [same]
  rw [rowsOf_eq_filterMap, rowsOf_eq_filterMap, sites]
  exact List.filterMap_congr fun site _ => same site

end Rows

def Agrees (index later : Index) (view : SiteKey) : EventPart → Prop
  | .event => later.events.get? view.event = index.events.get? view.event
  | .proofs => ∀ site, later.proofs.get? ⟨view.event, site⟩ = index.proofs.get? ⟨view.event, site⟩
  | .settlements => ∀ site, later.settlements.get? ⟨view.event, site⟩ = index.settlements.get? ⟨view.event, site⟩
  | .audit => later.audits.get? view = index.audits.get? view

namespace Agrees

variable {index between later : Index} {view : SiteKey} {part : EventPart}

theorem refl (index : Index) (view : SiteKey) (part : EventPart) : index.Agrees index view part := by
  cases part with
  | event | audit => exact rfl
  | proofs | settlements => exact fun _ => rfl

theorem symm (agrees : index.Agrees later view part) : later.Agrees index view part := by
  cases part with
  | event | audit => exact Eq.symm agrees
  | proofs | settlements => exact fun site => (agrees site).symm

theorem trans (first : index.Agrees between view part) (second : between.Agrees later view part) :
    index.Agrees later view part := by
  cases part with
  | event | audit => exact Eq.trans second first
  | proofs | settlements => exact fun site => (second site).trans (first site)

end Agrees

variable {view : SiteKey} {part : EventPart}

theorem recordsFor_eq_nil {updates : List TxUpdate} {target : TxRef} (spared : ∀ u ∈ updates, u.target ≠ target) :
    recordsFor target updates = [] := by
  unfold recordsFor
  rw [List.filter_eq_nil_iff.mpr (by simpa using spared)]
  rfl

theorem agrees_applyTxUpdates (index : Index) {updates : List TxUpdate}
    (spared : ¬(Change.applyTxUpdates updates).Touches view part) :
    index.Agrees (index.apply (.applyTxUpdates updates)) view part := by
  have none_for (slot : TxSlot) (here : slot.part = part) : recordsFor ⟨view.event, slot⟩ updates = [] := by
    apply recordsFor_eq_nil
    rintro u listed same
    exact spared ⟨u, listed, by rw [same], by rw [same]; exact here⟩
  cases part with
  | event =>
      change (updates.foldl applyTxUpdate index).events.get? _ = _
      rw [get?_events_applyTxUpdates]
      cases index.events.get? view.event <;>
        simp [Event.updatedBy, none_for .create rfl, none_for .close rfl]
  | proofs =>
      intro site
      change (updates.foldl applyTxUpdate index).proofs.get? _ = _
      rw [get?_proofs_applyTxUpdates]
      cases index.proofs.get? ⟨view.event, site⟩ <;> simp [Proof.updatedBy, none_for (.submit site) rfl]
  | settlements =>
      intro site
      change (updates.foldl applyTxUpdate index).settlements.get? _ = _
      rw [get?_settlements_applyTxUpdates]
      cases index.settlements.get? ⟨view.event, site⟩ <;>
        simp [Settlement.updatedBy, none_for (.settle site) rfl, none_for (.claim site) rfl]
  | audit =>
      change (updates.foldl applyTxUpdate index).audits.get? _ = _
      rw [audits_applyTxUpdates]

theorem agrees_apply (index : Index) {change : Change} (spared : ¬change.Touches view part) :
    index.Agrees (index.apply change) view part := by
  have same := Agrees.refl index view part
  cases change with
  | insertEvent event =>
      cases part with
      | event => exact (Table.get?_insert ..).trans (if_neg fun here => spared ⟨here.symm, rfl⟩)
      | _ => exact same
  | closeEvent id closeTx closedAt =>
      cases part with
      | event => exact (Table.get?_modify ..).trans (if_neg fun here => spared ⟨here.symm, rfl⟩)
      | _ => exact same
  | insertProof proof =>
      cases part with
      | proofs =>
          intro site
          refine (Table.get?_insert ..).trans (if_neg fun here => ?_)
          exact spared ⟨(congrArg SiteKey.event here).symm, rfl⟩
      | _ => exact same
  | settleEvent id rows settledAt =>
      cases part with
      | event => exact (Table.get?_modify ..).trans (if_neg fun here => spared ⟨here.symm, .inl rfl⟩)
      | settlements =>
          intro site
          rcases get?_insertRows index.settlements id rows ⟨view.event, site⟩ with ⟨_, -, here, -⟩ | ⟨-, kept⟩
          · exact (spared ⟨(congrArg SiteKey.event here).symm, .inr rfl⟩).elim
          · exact kept
      | _ => exact same
  | claimSettlement id site claimTx claimedAt =>
      cases part with
      | settlements =>
          intro site
          refine (Table.get?_modify ..).trans (if_neg fun here => ?_)
          exact spared ⟨(congrArg SiteKey.event here).symm, rfl⟩
      | _ => exact same
  | upsertAudit request =>
      cases part with
      | audit => exact (Table.get?_insert ..).trans (if_neg fun here => spared ⟨here.symm, rfl⟩)
      | _ => exact same
  | applyTxUpdates updates => exact index.agrees_applyTxUpdates spared
  | recordOrphan orphan => cases part <;> exact same

theorem agrees_applyAll (index : Index) {changes : List Change}
    (spared : ∀ change ∈ changes, ¬change.Touches view part) :
    index.Agrees (index.applyAll changes) view part := by
  induction changes generalizing index with
  | nil => exact .refl index _ _
  | cons change changes ih =>
      obtain ⟨first, rest⟩ := List.forall_mem_cons.mp spared
      exact (index.agrees_apply first).trans (ih _ rest)

end Index

end Curtail
