import Curtail.Proofs.Index.Onward

namespace Curtail

theorem SiteKey.not_both {key other : SiteKey} (distinct : other ≠ key) :
    ¬(key.event = other.event ∧ key.site = other.site) := by
  rintro ⟨event, site⟩
  apply distinct
  cases key
  cases other
  simp_all

namespace Index

def recordsFor (target : TxRef) (updates : List TxUpdate) : List TxRecord :=
  (updates.filter fun u => u.target = target).map (·.record)

theorem mem_recordsFor {target : TxRef} {updates : List TxUpdate} {record : TxRecord} :
    record ∈ recordsFor target updates ↔ ⟨target, record⟩ ∈ updates := by
  refine ⟨?_, ?_⟩
  · intro offered
    obtain ⟨u, found, rfl⟩ := List.mem_map.mp offered
    obtain ⟨listed, here⟩ := List.mem_filter.mp found
    exact of_decide_eq_true here ▸ listed
  · intro listed
    exact List.mem_map.mpr ⟨_, List.mem_filter.mpr ⟨listed, decide_eq_true rfl⟩, rfl⟩

def updatedBy (records : List TxRecord) (r : TxRecord) : TxRecord := records.foldl updated r

@[simp] theorem updatedBy_nil : updatedBy [] = fun r => r := rfl

@[simp] theorem updatedBy_single (record : TxRecord) : updatedBy [record] = (updated · record) := rfl

theorem updatedBy_append (first second : List TxRecord) (r : TxRecord) :
    updatedBy (first ++ second) r = updatedBy second (updatedBy first r) :=
  List.foldl_append

theorem recordsFor_cons (target : TxRef) (u : TxUpdate) (updates : List TxUpdate) :
    recordsFor target (u :: updates) = recordsFor target [u] ++ recordsFor target updates := by
  by_cases same : u.target = target <;> simp [recordsFor, same]

@[simp] theorem recordsFor_single (target : TxRef) (u : TxUpdate) :
    recordsFor target [u] = if u.target = target then [u.record] else [] := by
  by_cases same : u.target = target <;> simp [recordsFor, same]

theorem updatedBy_cons (target : TxRef) (u : TxUpdate) (updates : List TxUpdate) :
    updatedBy (recordsFor target (u :: updates)) =
      fun r => updatedBy (recordsFor target updates) (updatedBy (recordsFor target [u]) r) := by
  funext r
  rw [recordsFor_cons, updatedBy_append]

end Index

open Index

def Event.updatedBy (updates : List TxUpdate) (key : EventId) (e : Event) : Event :=
  { e with
    createTx := Index.updatedBy (recordsFor ⟨key, .create⟩ updates) e.createTx
    closeTx := e.closeTx.map (Index.updatedBy (recordsFor ⟨key, .close⟩ updates)) }

def Proof.updatedBy (updates : List TxUpdate) (key : SiteKey) (p : Proof) : Proof :=
  { p with submitTx := Index.updatedBy (recordsFor ⟨key.event, .submit key.site⟩ updates) p.submitTx }

def Settlement.updatedBy (updates : List TxUpdate) (key : SiteKey) (s : Settlement) : Settlement :=
  { s with
    settleTx := Index.updatedBy (recordsFor ⟨key.event, .settle key.site⟩ updates) s.settleTx
    claimTx := s.claimTx.map (Index.updatedBy (recordsFor ⟨key.event, .claim key.site⟩ updates)) }

namespace Index

variable (index : Index)

theorem get?_events_applyTxUpdate (u : TxUpdate) (key : EventId) :
    (index.applyTxUpdate u).events.get? key = (index.events.get? key).map (Event.updatedBy [u] key) := by
  obtain ⟨⟨id, slot⟩, record⟩ := u
  cases slot with
  | create =>
      refine Table.get?_modify_eq_map _ ?_ ?_ key
      · funext e
        simp [Event.updatedBy]
      · intro other distinct
        funext e
        simp [Event.updatedBy, Ne.symm distinct]
  | close =>
      refine Table.get?_modify_eq_map _ ?_ ?_ key
      · funext e
        simp [Event.updatedBy]
      · intro other distinct
        funext e
        simp [Event.updatedBy, Ne.symm distinct]
  | _ =>
      change index.events.get? key = _
      cases index.events.get? key <;> simp [Event.updatedBy]

theorem get?_proofs_applyTxUpdate (u : TxUpdate) (key : SiteKey) :
    (index.applyTxUpdate u).proofs.get? key = (index.proofs.get? key).map (Proof.updatedBy [u] key) := by
  obtain ⟨⟨id, slot⟩, record⟩ := u
  cases slot with
  | submit site =>
      refine Table.get?_modify_eq_map _ ?_ ?_ key
      · funext p
        simp [Proof.updatedBy]
      · intro other distinct
        funext p
        simp [Proof.updatedBy, SiteKey.not_both distinct]
  | _ =>
      change index.proofs.get? key = _
      cases index.proofs.get? key <;> simp [Proof.updatedBy]

theorem get?_settlements_applyTxUpdate (u : TxUpdate) (key : SiteKey) :
    (index.applyTxUpdate u).settlements.get? key =
      (index.settlements.get? key).map (Settlement.updatedBy [u] key) := by
  obtain ⟨⟨id, slot⟩, record⟩ := u
  cases slot with
  | settle site =>
      refine Table.get?_modify_eq_map _ ?_ ?_ key
      · funext s
        simp [Settlement.updatedBy]
      · intro other distinct
        funext s
        simp [Settlement.updatedBy, SiteKey.not_both distinct]
  | claim site =>
      refine Table.get?_modify_eq_map _ ?_ ?_ key
      · funext s
        simp [Settlement.updatedBy]
      · intro other distinct
        funext s
        simp [Settlement.updatedBy, SiteKey.not_both distinct]
  | _ =>
      change index.settlements.get? key = _
      cases index.settlements.get? key <;> simp [Settlement.updatedBy]

theorem get?_events_applyTxUpdates (updates : List TxUpdate) (key : EventId) :
    (updates.foldl applyTxUpdate index).events.get? key =
      (index.events.get? key).map (Event.updatedBy updates key) := by
  induction updates generalizing index with
  | nil =>
      change index.events.get? key = _
      cases index.events.get? key <;> simp [Event.updatedBy, recordsFor]
  | cons u updates ih =>
      rw [List.foldl_cons, ih, get?_events_applyTxUpdate, Option.map_map]
      congr 1
      funext e
      simp [Event.updatedBy, updatedBy_cons _ u updates, Function.comp_def]

theorem get?_proofs_applyTxUpdates (updates : List TxUpdate) (key : SiteKey) :
    (updates.foldl applyTxUpdate index).proofs.get? key =
      (index.proofs.get? key).map (Proof.updatedBy updates key) := by
  induction updates generalizing index with
  | nil =>
      change index.proofs.get? key = _
      cases index.proofs.get? key <;> simp [Proof.updatedBy, recordsFor]
  | cons u updates ih =>
      rw [List.foldl_cons, ih, get?_proofs_applyTxUpdate, Option.map_map]
      congr 1
      funext p
      simp [Proof.updatedBy, updatedBy_cons _ u updates]

theorem get?_settlements_applyTxUpdates (updates : List TxUpdate) (key : SiteKey) :
    (updates.foldl applyTxUpdate index).settlements.get? key =
      (index.settlements.get? key).map (Settlement.updatedBy updates key) := by
  induction updates generalizing index with
  | nil =>
      change index.settlements.get? key = _
      cases index.settlements.get? key <;> simp [Settlement.updatedBy, recordsFor]
  | cons u updates ih =>
      rw [List.foldl_cons, ih, get?_settlements_applyTxUpdate, Option.map_map]
      congr 1
      funext s
      simp [Settlement.updatedBy, updatedBy_cons _ u updates, Function.comp_def]

theorem audits_applyTxUpdates (updates : List TxUpdate) :
    (updates.foldl applyTxUpdate index).audits = index.audits := by
  induction updates generalizing index with
  | nil => rfl
  | cons u updates ih =>
      obtain ⟨⟨id, slot⟩, record⟩ := u
      rw [List.foldl_cons, ih]
      cases slot <;> rfl

theorem record?_applyTxUpdates (updates : List TxUpdate) (target : TxRef) :
    (index.apply (.applyTxUpdates updates)).record? target =
      (index.record? target).map (updatedBy (recordsFor target updates)) := by
  change (updates.foldl applyTxUpdate index).record? target = _
  obtain ⟨id, slot⟩ := target
  cases slot <;>
    simp only [record?, get?_events_applyTxUpdates, get?_proofs_applyTxUpdates,
      get?_settlements_applyTxUpdates, Option.map_map, Option.bind_map, Option.map_bind,
      Function.comp_def, Event.updatedBy, Proof.updatedBy, Settlement.updatedBy]

end Index

end Curtail
