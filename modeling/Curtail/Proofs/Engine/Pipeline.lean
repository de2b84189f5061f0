import Curtail.Proofs.Engine.Inquiry
import Curtail.Proofs.Engine.Issued

namespace Curtail

namespace Pipeline

/-- Failed if one of the records failed, else submitted if one of them is pending. -/
def stateOf (records : List TxRecord) (handle : TxHandle) : TxState :=
  if records.any fun r => r.handle = handle && r.state = .failed then .failed
  else if records.any fun r => r.handle = handle && r.isPending then .submitted
  else .confirmed

theorem effectiveState_eq (r : TxRecord) : effectiveState r =
    if r.state = .failed then .failed else if r.isPending then .submitted else .confirmed := by
  unfold effectiveState TxRecord.isPending
  cases r.state <;> cases r.fee <;> rfl

theorem stateOf_append_singleton (records : List TxRecord) (r : TxRecord) (handle : TxHandle) :
    stateOf (records ++ [r]) handle =
      if handle = r.handle then merge (stateOf records handle) (effectiveState r)
      else stateOf records handle := by
  rw [effectiveState_eq]
  unfold stateOf
  simp only [List.any_append, List.any_cons, List.any_nil, Bool.or_false]
  by_cases own : handle = r.handle
  · cases records.any fun r => r.handle = handle && r.state = .failed <;>
      cases records.any fun r => r.handle = handle && r.isPending <;>
      cases r.isPending <;> cases r.state <;> simp [own, merge]
  · simp [own, Ne.symm own]

theorem stateOf_of_absent {records : List TxRecord} {handle : TxHandle}
    (absent : handle ∉ records.map (·.handle)) : stateOf records handle = .confirmed := by
  have unlike : ∀ r ∈ records, r.handle ≠ handle := by
    rintro r listed rfl
    exact absent (List.mem_map_of_mem listed)
  unfold stateOf
  rw [if_neg, if_neg]
  · simpa using fun r listed same => absurd same (unlike r listed)
  · simpa using fun r listed same => absurd same (unlike r listed)

theorem merge_confirmed (state : TxState) : merge .confirmed state = state := by
  cases state <;> rfl

theorem note_map {handles : List TxHandle} (distinct : handles.Nodup) {states : TxHandle → TxState}
    (r : TxRecord) (new : r.handle ∉ handles → states r.handle = .confirmed) :
    note (handles.map fun h => (h, states h)) r =
      (if r.handle ∈ handles then handles else handles ++ [r.handle]).map fun h =>
        (h, if h = r.handle then merge (states h) (effectiveState r) else states h) := by
  induction handles with
  | nil => simp [note, new List.not_mem_nil, merge_confirmed]
  | cons handle handles ih =>
      obtain ⟨apart, distinct⟩ := List.nodup_cons.mp distinct
      by_cases own : handle = r.handle
      · subst own
        have others : ∀ h ∈ handles, h ≠ r.handle := fun h listed same => apart (same ▸ listed)
        rw [List.map_cons, note, if_pos rfl, if_pos List.mem_cons_self, List.map_cons, if_pos rfl]
        exact congrArg _ (List.map_congr_left fun h listed => by rw [if_neg (others h listed)])
      · have same : r.handle ∈ handle :: handles ↔ r.handle ∈ handles := by simp [Ne.symm own]
        rw [List.map_cons, note, if_neg own, ih distinct fun absent => new (same.not.mpr absent)]
        simp only [same]
        split <;> simp [own]

theorem foldl_note (records : List TxRecord) : records.foldl note [] =
    (firsts (records.map (·.handle))).map fun handle => (handle, stateOf records handle) := by
  induction records using List.reverseRecOn with
  | nil => rfl
  | append_singleton records r ih =>
      rw [List.foldl_append, ih]
      change note _ r = _
      rw [note_map (firsts_nodup _) r fun absent =>
        stateOf_of_absent fun listed => absent (mem_firsts.mpr listed)]
      simp only [← stateOf_append_singleton]
      rw [List.map_append, List.map_singleton, firsts_append_singleton]

theorem ofRecords_eq (records : List TxRecord) : ofRecords records =
    let states := (firsts (records.map (·.handle))).map (stateOf records)
    ⟨states.length, states.count .submitted, states.count .confirmed, states.count .failed⟩ := by
  unfold ofRecords
  rw [foldl_note, List.map_map]
  rfl

/-- Each handle that the records have is counted once. -/
structure Counts (records : List TxRecord) (handles : List TxHandle) (p : Pipeline) : Prop where
  distinct : handles.Nodup
  listed : ∀ handle, handle ∈ handles ↔ ∃ r ∈ records, r.handle = handle
  total : p.total = handles.length
  failed : p.failed = handles.countP fun handle => ∃ r ∈ records, r.handle = handle ∧ r.state = .failed
  submitted : p.submitted = handles.countP fun handle =>
    (∃ r ∈ records, r.handle = handle ∧ r.isPending) ∧
      ¬∃ r ∈ records, r.handle = handle ∧ r.state = .failed
  confirmed : p.confirmed = handles.countP fun handle =>
    ¬∃ r ∈ records, r.handle = handle ∧ (r.isPending ∨ r.state = .failed)

section Counts

variable {records others : List TxRecord}

theorem count_map_eq_countP {handles : List TxHandle} {state : TxState} {test : TxHandle → Bool}
    (tested : ∀ handle, stateOf records handle = state ↔ test handle = true) :
    (handles.map (stateOf records)).count state = handles.countP test := by
  rw [List.count, List.countP_map]
  congr 1
  funext handle
  rw [Bool.eq_iff_iff, ← tested, Function.comp_apply, beq_iff_eq]

theorem ofRecords_counts (records : List TxRecord) :
    Counts records (firsts (records.map (·.handle))) (ofRecords records) := by
  rw [ofRecords_eq]
  refine ⟨firsts_nodup _, fun handle => ?_, List.length_map _, ?_, ?_, ?_⟩
  · rw [mem_firsts, List.mem_map]
  · apply count_map_eq_countP
    intro handle
    unfold stateOf
    grind
  · apply count_map_eq_countP
    intro handle
    unfold stateOf
    grind
  · apply count_map_eq_countP
    intro handle
    unfold stateOf
    grind

theorem length_eq_count (states : List TxState) :
    states.length = states.count .submitted + states.count .confirmed + states.count .failed := by
  induction states with
  | nil => rfl
  | cons state states ih => cases state <;> simp [ih] <;> omega

theorem total_eq (records : List TxRecord) : (ofRecords records).total =
    (ofRecords records).submitted + (ofRecords records).confirmed + (ofRecords records).failed :=
  length_eq_count _

theorem stateOf_congr (same : ∀ r, r ∈ records ↔ r ∈ others) : stateOf records = stateOf others := by
  have any (test : TxRecord → Bool) : records.any test = others.any test := by
    rw [Bool.eq_iff_iff, List.any_eq_true, List.any_eq_true]
    simp only [same]
  funext handle
  rw [stateOf, any, any, stateOf]

theorem ofRecords_congr (same : ∀ r, r ∈ records ↔ r ∈ others) : ofRecords records = ofRecords others := by
  have handles : (firsts (records.map (·.handle))).Perm (firsts (others.map (·.handle))) := by
    rw [List.perm_ext_iff_of_nodup (firsts_nodup _) (firsts_nodup _)]
    intro handle
    rw [mem_firsts, mem_firsts, List.mem_map, List.mem_map]
    simp only [same]
  have states := handles.map (stateOf records)
  rw [ofRecords_eq, ofRecords_eq, ← stateOf_congr same]
  simp only [states.length_eq, states.count_eq]

theorem mem_records_perm {event : Event} {proofs listed : List Proof} {settlements rows : List Settlement}
    (reordered : listed.Perm proofs) (rearranged : rows.Perm settlements) (r : TxRecord) :
    r ∈ Pipeline.records event listed rows ↔ r ∈ Pipeline.records event proofs settlements := by
  simp only [Pipeline.records, List.mem_append, List.mem_cons, (reordered.map _).mem_iff,
    (rearranged.map _).mem_iff, (rearranged.filterMap _).mem_iff]

end Counts

end Pipeline

namespace Index

/-- How often the ledger has been told something about an event. -/
def actions (index : Index) (e : Event) : Nat :=
  1 + (if e.status = .active then 0 else 1) + (rowsOf index.proofs e.id).length +
    (if rowsOf index.settlements e.id = [] then 0 else 1) +
    (rowsOf index.settlements e.id).countP fun s => s.status = .claimed

def progress (index : Index) (c : Configuration) (e : Event) : Progress :=
  .of c e (rowsOf index.proofs e.id) (rowsOf index.settlements e.id) (index.audits.get? ⟨e.id, c.focus⟩)

/-- All settlements of an event share a transaction, so only the first one is listed. -/
def places (index : Index) (id : EventId) : List TxRef :=
  ⟨id, .create⟩ :: ⟨id, .close⟩ :: (sitesOf index.proofs id).map (fun site => ⟨id, .submit site⟩) ++
    ((sitesOf index.settlements id).take 1).map (fun site => ⟨id, .settle site⟩) ++
    (sitesOf index.settlements id).map fun site => ⟨id, .claim site⟩

def handlesOf (index : Index) (id : EventId) : List TxHandle := (index.places id).filterMap index.handle?

variable {index : Index} {issued : List TxHandle} {id : EventId} {e : Event}

theorem Keyed.get?_of_mem_proofs (keyed : index.Keyed) {p : Proof} (listed : p ∈ rowsOf index.proofs id) :
    index.proofs.get? ⟨id, p.site⟩ = some p := by
  obtain ⟨site, found⟩ := mem_rowsOf.mp listed
  have own : p.site = site := congrArg SiteKey.site (keyed.proofs _ p found)
  rw [own]
  exact found

theorem Keyed.get?_of_mem_settlements (keyed : index.Keyed) {s : Settlement}
    (listed : s ∈ rowsOf index.settlements id) : index.settlements.get? ⟨id, s.site⟩ = some s := by
  obtain ⟨site, found⟩ := mem_rowsOf.mp listed
  have own : s.site = site := (keyed.settlements _ s found).2
  rw [own]
  exact found

theorem Keyed.mem_records (keyed : index.Keyed) (found : index.events.get? id = some e) (r : TxRecord) :
    r ∈ Pipeline.records e (rowsOf index.proofs id) (rowsOf index.settlements id) ↔
      ∃ slot, index.record? ⟨id, slot⟩ = some r := by
  simp only [Pipeline.records, List.mem_append, List.mem_cons, List.mem_map, List.mem_filterMap,
    Option.mem_toList]
  constructor
  · rintro ((((rfl | closed) | ⟨p, listed, rfl⟩) | ⟨s, listed, rfl⟩) | ⟨s, listed, claimed⟩)
    · exact ⟨.create, by simp [record?, found]⟩
    · exact ⟨.close, by simpa [record?, found] using closed⟩
    · exact ⟨.submit p.site, by simp [record?, keyed.get?_of_mem_proofs listed]⟩
    · exact ⟨.settle s.site, by simp [record?, keyed.get?_of_mem_settlements listed]⟩
    · exact ⟨.claim s.site, by simpa [record?, keyed.get?_of_mem_settlements listed] using claimed⟩
  · rintro ⟨slot, here⟩
    cases slot with
    | create => simp_all [record?]
    | close => simp_all [record?]
    | submit site =>
        obtain ⟨p, present, rfl⟩ := Option.map_eq_some_iff.mp here
        exact .inl (.inl (.inr ⟨p, mem_rowsOf.mpr ⟨site, present⟩, rfl⟩))
    | settle site =>
        obtain ⟨s, present, rfl⟩ := Option.map_eq_some_iff.mp here
        exact .inl (.inr ⟨s, mem_rowsOf.mpr ⟨site, present⟩, rfl⟩)
    | claim site =>
        obtain ⟨s, present, claimed⟩ := Option.bind_eq_some_iff.mp here
        exact .inr ⟨s, mem_rowsOf.mpr ⟨site, present⟩, claimed⟩

theorem mem_places {target : TxRef} : target ∈ index.places id ↔
    target = ⟨id, .create⟩ ∨ target = ⟨id, .close⟩ ∨
    (∃ site ∈ sitesOf index.proofs id, target = ⟨id, .submit site⟩) ∨
    (∃ site ∈ (sitesOf index.settlements id).take 1, target = ⟨id, .settle site⟩) ∨
    ∃ site ∈ sitesOf index.settlements id, target = ⟨id, .claim site⟩ := by
  unfold places
  generalize (sitesOf index.settlements id).take 1 = first
  simp [eq_comm]

theorem Lifecycle.mem_handlesOf (lifecycle : index.Lifecycle) (handle : TxHandle) :
    handle ∈ index.handlesOf id ↔ ∃ slot, index.handle? ⟨id, slot⟩ = some handle := by
  simp only [handlesOf, List.mem_filterMap, mem_places]
  constructor
  · rintro ⟨_, rfl | rfl | ⟨_, -, rfl⟩ | ⟨_, -, rfl⟩ | ⟨_, -, rfl⟩, carried⟩ <;> exact ⟨_, carried⟩
  · rintro ⟨slot, carried⟩
    obtain ⟨r, here, same⟩ := Option.map_eq_some_iff.mp carried
    cases slot with
    | create => exact ⟨_, .inl rfl, carried⟩
    | close => exact ⟨_, .inr (.inl rfl), carried⟩
    | submit site =>
        obtain ⟨p, present, -⟩ := Option.map_eq_some_iff.mp here
        have listed : site ∈ sitesOf index.proofs id := mem_sitesOf.mpr (by simp [present])
        exact ⟨_, .inr (.inr (.inl ⟨site, listed, rfl⟩)), carried⟩
    | settle site =>
        obtain ⟨s, present, rfl⟩ := Option.map_eq_some_iff.mp here
        have listed : site ∈ sitesOf index.settlements id := mem_sitesOf.mpr (by simp [present])
        obtain ⟨first, rest, sites⟩ := List.exists_cons_of_ne_nil (List.ne_nil_of_mem listed)
        have leads : first ∈ sitesOf index.settlements id := sites ▸ List.mem_cons_self
        obtain ⟨t, found⟩ := Option.ne_none_iff_exists'.mp (mem_sitesOf.mp leads)
        refine ⟨_, .inr (.inr (.inr (.inl ⟨first, by simp [sites], rfl⟩))), ?_⟩
        rw [← same, lifecycle.batch id _ _ _ _ present found]
        simp [handle?, record?, found]
    | claim site =>
        obtain ⟨s, present, -⟩ := Option.bind_eq_some_iff.mp here
        have listed : site ∈ sitesOf index.settlements id := mem_sitesOf.mpr (by simp [present])
        exact ⟨_, .inr (.inr (.inr (.inr ⟨site, listed, rfl⟩))), carried⟩

theorem places_nodup (index : Index) (id : EventId) : (index.places id).Nodup := by
  have proofs := sitesOf_nodup index.proofs id
  have settlements := sitesOf_nodup index.settlements id
  have single := settlements.sublist (List.take_sublist 1 _)
  unfold places
  generalize (sitesOf index.settlements id).take 1 = first at single
  have distinct {slot : SiteId → TxSlot} (injective : Function.Injective slot) {sites : List SiteId}
      (nodup : sites.Nodup) : (sites.map fun site => TxRef.mk id (slot site)).Nodup :=
    nodup.map fun _ _ same => injective (TxRef.mk.inj same).2
  have submit := distinct (fun _ _ => TxSlot.submit.inj) proofs
  have settle := distinct (fun _ _ => TxSlot.settle.inj) single
  have claim := distinct (fun _ _ => TxSlot.claim.inj) settlements
  simp [List.nodup_append, submit, settle, claim, or_imp, forall_and]

theorem places_apart (index : Index) (id : EventId) :
    (index.places id).Pairwise fun target other => ¬target.Shares other := by
  apply (places_nodup index id).pairwise_of_forall_ne
  rintro target listed other also apart (same | ⟨_, site, place, rfl, rfl⟩)
  · exact apart same
  · have listed := mem_places.mp listed
    have also := mem_places.mp also
    cases sites : sitesOf index.settlements id <;> simp_all

theorem Numbered.handlesOf_nodup (numbered : index.Numbered issued) (id : EventId) :
    (index.handlesOf id).Nodup := by
  rw [handlesOf, List.Nodup, List.pairwise_filterMap]
  apply (index.places_apart id).imp
  rintro target place apart handle carried other also rfl
  exact apart (numbered.shared target place handle carried also)

theorem isSome_handle?_submit {site : SiteId} :
    (index.handle? ⟨id, .submit site⟩).isSome ↔ site ∈ sitesOf index.proofs id := by
  simp [handle?, record?, mem_sitesOf, Option.isSome_iff_ne_none]

theorem isSome_handle?_settle {site : SiteId} :
    (index.handle? ⟨id, .settle site⟩).isSome ↔ site ∈ sitesOf index.settlements id := by
  simp [handle?, record?, mem_sitesOf, Option.isSome_iff_ne_none]

theorem Lifecycle.countP_claim (lifecycle : index.Lifecycle) (id : EventId) :
    (sitesOf index.settlements id).countP (fun site => (index.handle? ⟨id, .claim site⟩).isSome) =
      (rowsOf index.settlements id).countP fun s => s.status = .claimed := by
  rw [← map_rowsOf (f := Settlement.site) fun key s found => (lifecycle.settlements key s found).2,
    List.countP_map]
  apply List.countP_congr
  intro s listed
  have present := lifecycle.get?_of_mem_settlements listed
  simpa [handle?, record?, present] using (lifecycle.settlementRows _ s present).claimed

theorem Lifecycle.length_handlesOf (lifecycle : index.Lifecycle) (found : index.events.get? id = some e) :
    (index.handlesOf id).length = index.actions e := by
  obtain rfl := lifecycle.events id e found
  have create : (index.handle? ⟨e.id, .create⟩).isSome := by simp [handle?, record?, found]
  have close : (index.handle? ⟨e.id, .close⟩).isSome ↔ e.status ≠ .active := by
    simpa [handle?, record?, found] using (lifecycle.eventRows _ e found).closed
  have submit : (sitesOf index.proofs e.id).countP (fun site => (index.handle? ⟨e.id, .submit site⟩).isSome) =
      (rowsOf index.proofs e.id).length := by
    rw [length_rowsOf]
    exact List.countP_eq_length.mpr fun site => isSome_handle?_submit.mpr
  have settle : ((sitesOf index.settlements e.id).take 1).countP
      (fun site => (index.handle? ⟨e.id, .settle site⟩).isSome) =
      min 1 (rowsOf index.settlements e.id).length := by
    rw [length_rowsOf, ← List.length_take]
    exact List.countP_eq_length.mpr fun site listed =>
      isSome_handle?_settle.mpr (List.mem_of_mem_take listed)
  unfold handlesOf places actions
  rw [List.length_filterMap_eq_countP]
  simp only [List.countP_append, List.countP_cons, List.countP_map, Function.comp_def, create, close, submit,
    settle, lifecycle.countP_claim, ← List.length_eq_zero_iff, if_true, ite_not]
  split <;> split <;> omega

theorem Lifecycle.total_eq_actions (lifecycle : index.Lifecycle) (numbered : index.Numbered issued)
    (found : index.events.get? id = some e) (c : Configuration) :
    (index.progress c e).pipeline.total = index.actions e := by
  obtain rfl := lifecycle.events id e found
  obtain ⟨distinct, listed, total, -⟩ := Pipeline.ofRecords_counts
    (Pipeline.records e (rowsOf index.proofs e.id) (rowsOf index.settlements e.id))
  refine total.trans ?_
  rw [← lifecycle.length_handlesOf found]
  apply List.Perm.length_eq
  rw [List.perm_ext_iff_of_nodup distinct (numbered.handlesOf_nodup e.id)]
  intro handle
  rw [listed, lifecycle.mem_handlesOf]
  simp only [lifecycle.mem_records found, handle?, Option.map_eq_some_iff]
  grind

end Index

end Curtail
