import Curtail.Proofs.Index.Lifecycle
import Mathlib.Data.List.Nodup

namespace Curtail.Index

variable {index : Index} {scope : Scope} {id : EventId} {slot : TxSlot} {item : PendingTx}

theorem mem_pendingAt {r : TxRecord} :
    item ∈ pendingAt id slot r ↔ item = ⟨⟨id, slot⟩, r⟩ ∧ r.isPending := by
  unfold pendingAt
  by_cases waiting : r.isPending <;> simp [waiting]

theorem flatMap_filter {α β : Type} (items : List α) (p : α → Bool) (f : α → List β) :
    (items.filter p).flatMap f = items.flatMap fun x => if p x then f x else [] := by
  induction items with
  | nil => rfl
  | cons x items ih => cases good : p x <;> simp [good, ih]

theorem filter_pendingAt (id other : EventId) (slot place : TxSlot) (r : TxRecord) :
    (pendingAt other place r).filter (fun item => item.target = ⟨id, slot⟩) =
      if other = id ∧ place = slot then pendingAt id slot r else [] := by
  by_cases waiting : r.isPending <;> by_cases same : other = id ∧ place = slot <;>
    simp [pendingAt, waiting, same]

theorem filter_pendingOfEvent (e : Event) (id : EventId) (slot : TxSlot) :
    (pendingOfEvent e).filter (fun item => item.target = ⟨id, slot⟩) =
      if e.id = id then
        match slot with
        | .create => pendingAt id .create e.createTx
        | .close => e.closeTx.elim [] (pendingAt id .close)
        | _ => []
      else [] := by
  by_cases own : e.id = id <;> cases slot <;> cases closed : e.closeTx <;>
    simp [pendingOfEvent, closed, filter_pendingAt, own]

theorem filter_pendingOfProof (p : Proof) (id : EventId) (slot : TxSlot) :
    (pendingOfProof p).filter (fun item => item.target = ⟨id, slot⟩) =
      if slot = .submit p.site ∧ p.event = id then pendingAt id slot p.submitTx else [] := by
  simp [pendingOfProof, filter_pendingAt, and_comm, eq_comm]

theorem filter_pendingOfSettlement (s : Settlement) (id : EventId) (slot : TxSlot) :
    (pendingOfSettlement s).filter (fun item => item.target = ⟨id, slot⟩) =
      if s.event = id then
        if slot = .settle s.site then pendingAt id slot s.settleTx
        else if slot = .claim s.site then s.claimTx.elim [] (pendingAt id slot)
        else []
      else [] := by
  by_cases own : s.event = id <;> cases slot <;> cases claimed : s.claimTx <;>
    simp [pendingOfSettlement, claimed, filter_pendingAt, own, eq_comm]

theorem Keyed.key_settlement (keyed : index.Keyed) (key : SiteKey) (s : Settlement)
    (found : index.settlements.get? key = some s) : (⟨s.event, s.site⟩ : SiteKey) = key := by
  obtain ⟨event, site⟩ := keyed.settlements key s found
  rw [event, site]

theorem filter_pending (keyed : index.Keyed) (scope : Scope) (id : EventId) (slot : TxSlot) :
    (index.pending scope).filter (fun item => item.target = ⟨id, slot⟩) =
      if scope.contains id then (index.record? ⟨id, slot⟩).elim [] (pendingAt id slot) else [] := by
  have nothing {α : Type} (rows : List α) : (rows.flatMap fun _ => ([] : List PendingTx)) = [] :=
    List.flatMap_eq_nil_iff.mpr fun _ _ => rfl
  simp only [pending, List.filter_append, List.filter_flatMap]
  simp only [flatMap_filter, filter_pendingOfEvent, filter_pendingOfProof, filter_pendingOfSettlement]
  -- Only one table has the place, and in it only the row with its key.
  cases slot with
  | create =>
      rw [index.events.flatMap_values keyed.events id fun e distinct => by simp [distinct]]
      cases found : index.events.get? id with
      | none => simp [record?, found]
      | some e => simp [record?, found, keyed.events id e found]
  | close =>
      rw [index.events.flatMap_values keyed.events id fun e distinct => by simp [distinct]]
      cases found : index.events.get? id with
      | none => simp [record?, found]
      | some e => cases closed : e.closeTx <;> simp [record?, found, keyed.events id e found, closed]
  | submit site =>
      rw [index.proofs.flatMap_values keyed.proofs ⟨id, site⟩]
      · cases found : index.proofs.get? ⟨id, site⟩ with
        | none => simp [record?, found]
        | some p =>
            obtain ⟨rfl, rfl⟩ := SiteKey.mk.inj (keyed.proofs _ p found)
            simp [record?, found, nothing]
      · intro p distinct
        have elsewhere : ¬(site = p.site ∧ p.event = id) := by
          rintro ⟨rfl, rfl⟩
          exact distinct rfl
        simp [elsewhere]
  | settle site =>
      rw [index.settlements.flatMap_values keyed.key_settlement ⟨id, site⟩]
      · cases found : index.settlements.get? ⟨id, site⟩ with
        | none => simp [record?, found]
        | some s =>
            obtain ⟨rfl, rfl⟩ := SiteKey.mk.inj (keyed.key_settlement _ s found)
            simp [record?, found, nothing]
      · intro s distinct
        have elsewhere : s.event = id → site ≠ s.site := fun event place => distinct (by rw [event, place])
        simp_all
  | claim site =>
      rw [index.settlements.flatMap_values keyed.key_settlement ⟨id, site⟩]
      · cases found : index.settlements.get? ⟨id, site⟩ with
        | none => simp [record?, found]
        | some s =>
            obtain ⟨rfl, rfl⟩ := SiteKey.mk.inj (keyed.key_settlement _ s found)
            cases claimed : s.claimTx <;> simp [record?, found, claimed, nothing]
      · intro s distinct
        have elsewhere : s.event = id → site ≠ s.site := fun event place => distinct (by rw [event, place])
        simp_all

theorem mem_pending_iff (keyed : index.Keyed) : item ∈ index.pending scope ↔
    scope.contains item.target.event ∧ index.record? item.target = some item.record ∧
      item.record.isPending := by
  obtain ⟨⟨id, slot⟩, record⟩ := item
  have own : (⟨⟨id, slot⟩, record⟩ : PendingTx) ∈ index.pending scope ↔ ⟨⟨id, slot⟩, record⟩ ∈
      (index.pending scope).filter fun other => other.target = ⟨id, slot⟩ := by simp
  rw [own, filter_pending keyed]
  by_cases covered : scope.contains id
  · rw [if_pos covered]
    cases found : index.record? ⟨id, slot⟩ with
    | none => simp
    | some r =>
        rw [Option.elim_some, mem_pendingAt]
        refine ⟨?_, ?_⟩
        · rintro ⟨same, waiting⟩
          obtain rfl := (PendingTx.mk.inj same).2
          exact ⟨covered, rfl, waiting⟩
        · rintro ⟨-, same, waiting⟩
          obtain rfl := Option.some.inj same
          exact ⟨rfl, waiting⟩
  · rw [if_neg covered]
    simp [covered]

theorem pending_targets_nodup (keyed : index.Keyed) (scope : Scope) :
    ((index.pending scope).map (·.target)).Nodup := by
  rw [List.nodup_iff_count_le_one]
  rintro ⟨id, slot⟩
  have counted : ((index.pending scope).map (·.target)).count ⟨id, slot⟩ =
      ((index.pending scope).filter fun item => item.target = ⟨id, slot⟩).length := by
    rw [List.count, List.countP_map, List.countP_eq_length_filter]
    congr 2
  rw [counted, filter_pending keyed]
  by_cases covered : scope.contains id
  · rw [if_pos covered]
    cases index.record? ⟨id, slot⟩ with
    | none => exact Nat.zero_le 1
    | some r =>
        rw [Option.elim_some, pendingAt]
        by_cases waiting : r.isPending <;> simp [waiting]
  · rw [if_neg covered]
    exact Nat.zero_le 1

/-- The place of a record by the identifiers that its row has in it. -/
inductive Holds (index : Index) : TxRef → TxRecord → Prop
  | create {id : EventId} {e : Event} : index.events.get? id = some e →
      Holds index ⟨e.id, .create⟩ e.createTx
  | close {id : EventId} {e : Event} {tx : TxRecord} : index.events.get? id = some e →
      e.closeTx = some tx → Holds index ⟨e.id, .close⟩ tx
  | submit {key : SiteKey} {p : Proof} : index.proofs.get? key = some p →
      Holds index ⟨p.event, .submit p.site⟩ p.submitTx
  | settle {key : SiteKey} {s : Settlement} : index.settlements.get? key = some s →
      Holds index ⟨s.event, .settle s.site⟩ s.settleTx
  | claim {key : SiteKey} {s : Settlement} {tx : TxRecord} : index.settlements.get? key = some s →
      s.claimTx = some tx → Holds index ⟨s.event, .claim s.site⟩ tx

theorem holds_iff (keyed : index.Keyed) {target : TxRef} {r : TxRecord} :
    index.Holds target r ↔ index.record? target = some r := by
  refine ⟨?_, ?_⟩
  · intro holds
    cases holds with
    | @create id e found =>
        obtain rfl := keyed.events id e found
        simp [record?, found]
    | @close id e tx found closed =>
        obtain rfl := keyed.events id e found
        simp [record?, found, closed]
    | @submit key p found =>
        obtain rfl := keyed.proofs key p found
        have here : index.proofs.get? ⟨p.event, p.site⟩ = some p := found
        simp [record?, here]
    | @settle key s found =>
        obtain ⟨event, site⟩ := keyed.settlements key s found
        simp [record?, event, site, found]
    | @claim key s tx found claimed =>
        obtain ⟨event, site⟩ := keyed.settlements key s found
        simp [record?, event, site, found, claimed]
  · intro found
    obtain ⟨id, slot⟩ := target
    cases slot with
    | create =>
        obtain ⟨e, here, rfl⟩ := Option.map_eq_some_iff.mp found
        obtain rfl := keyed.events id e here
        exact .create here
    | close =>
        obtain ⟨e, here, closed⟩ := Option.bind_eq_some_iff.mp found
        obtain rfl := keyed.events id e here
        exact .close here closed
    | submit site =>
        obtain ⟨p, here, rfl⟩ := Option.map_eq_some_iff.mp found
        obtain ⟨rfl, rfl⟩ := SiteKey.mk.inj (keyed.proofs _ p here)
        exact .submit here
    | settle site =>
        obtain ⟨s, here, rfl⟩ := Option.map_eq_some_iff.mp found
        obtain ⟨rfl, rfl⟩ := keyed.settlements _ s here
        exact .settle here
    | claim site =>
        obtain ⟨s, here, claimed⟩ := Option.bind_eq_some_iff.mp found
        obtain ⟨rfl, rfl⟩ := keyed.settlements _ s here
        exact .claim here claimed

theorem event_of_mem_pendingAt {r : TxRecord} (listed : item ∈ pendingAt id slot r) :
    item.target.event = id := by
  rw [(mem_pendingAt.mp listed).1]

theorem event_of_mem_pendingOfEvent (e : Event) (listed : item ∈ pendingOfEvent e) :
    item.target.event = e.id := by
  rcases List.mem_append.mp listed with create | close
  · exact event_of_mem_pendingAt create
  · cases closed : e.closeTx with
    | none => simp [closed] at close
    | some tx =>
        rw [closed] at close
        exact event_of_mem_pendingAt close

theorem event_of_mem_pendingOfProof (p : Proof) (listed : item ∈ pendingOfProof p) :
    item.target.event = p.event :=
  event_of_mem_pendingAt listed

theorem event_of_mem_pendingOfSettlement (s : Settlement) (listed : item ∈ pendingOfSettlement s) :
    item.target.event = s.event := by
  rcases List.mem_append.mp listed with settle | claim
  · exact event_of_mem_pendingAt settle
  · cases claimed : s.claimTx with
    | none => simp [claimed] at claim
    | some tx =>
        rw [claimed] at claim
        exact event_of_mem_pendingAt claim

theorem flatMap_filter_event {α : Type} {pendingOf : α → List PendingTx} {event : α → EventId}
    (own : ∀ x, ∀ item ∈ pendingOf x, item.target.event = event x) (rows : List α) (id : EventId) :
    (rows.filter fun x => (Scope.event id).contains (event x)).flatMap pendingOf =
      ((rows.filter fun x => Scope.all.contains (event x)).flatMap pendingOf).filter
        fun item => item.target.event = id := by
  rw [List.filter_flatMap, flatMap_filter, flatMap_filter]
  congr 1
  funext x
  by_cases same : event x = id
  · have all : (pendingOf x).filter (fun item => item.target.event = id) = pendingOf x :=
      List.filter_eq_self.mpr fun item listed => by simp [own x item listed, same]
    simp [Scope.contains, same, all]
  · have none : (pendingOf x).filter (fun item => item.target.event = id) = [] :=
      List.filter_eq_nil_iff.mpr fun item listed => by simp [own x item listed, same]
    simp [Scope.contains, Ne.symm same, none]

theorem pending_event (index : Index) (id : EventId) :
    index.pending (.event id) = (index.pending .all).filter fun item => item.target.event = id := by
  unfold pending
  rw [List.filter_append, List.filter_append, flatMap_filter_event fun e _ => event_of_mem_pendingOfEvent e,
    flatMap_filter_event fun p _ => event_of_mem_pendingOfProof p,
    flatMap_filter_event fun s _ => event_of_mem_pendingOfSettlement s]

theorem record?_update {update : TxRecord} (found : index.record? item.target = some item.record)
    (submitted : item.record.state = .submitted)
    (same : item.record.handle = update.handle) (target : TxRef) :
    (index.apply (.applyTxUpdates [⟨item.target, update⟩])).record? target =
      if target = item.target then some update else index.record? target := by
  rw [record?_applyTxUpdates, recordsFor_single]
  by_cases here : target = item.target
  · subst here
    simp [found, updated, submitted, same]
  · simp [here, Ne.symm here]

end Curtail.Index
