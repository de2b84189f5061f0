import Curtail.Proofs.Engine.Rely
import Curtail.Proofs.Index.Pending

namespace Curtail

namespace Reconciliation.Pass

def record? (p : Pass) (r : TxRecord) : Option TxRecord :=
  (p.answers.lookup r.handle).join.bind r.advanced

def update? (p : Pass) (item : PendingTx) : Option TxUpdate :=
  (p.record? item.record).map fun record => ⟨item.target, record⟩

structure Extends (p : Pass) (items : List PendingTx) (later : Pass) : Prop where
  kept : ∀ handle answer, p.answers.lookup handle = some answer →
    later.answers.lookup handle = some answer
  updates : later.updates = (items.filterMap later.update?).reverse ++ p.updates

variable {p later : Pass} {item : PendingTx} {items : List PendingTx}

theorem settle_eq (p : Pass) (item : PendingTx) :
    p.settle item = { p with updates := (p.update? item).toList ++ p.updates } := by
  unfold settle update? record?
  cases (p.answers.lookup item.record.handle).join with
  | none => rfl
  | some check => cases advanced : item.record.advanced check <;> simp [advanced]

theorem lookup_answered (p : Pass) (handle other : TxHandle) (answer : Except LedgerError TxCheck) :
    (p.answered handle answer).answers.lookup other =
      if other = handle then some answer.toOption else p.answers.lookup other := by
  by_cases same : other = handle
  · cases answer <;> simp [answered, same, Except.toOption]
  · have unlike : (other == handle) = false := beq_false_of_ne same
    cases answer <;> simp [answered, List.lookup_cons, same, unlike]

theorem Extends.cons {given : Pass} {answer : Option TxCheck}
    (known : ∀ handle answer, p.answers.lookup handle = some answer →
      given.answers.lookup handle = some answer)
    (same : given.updates = p.updates) (found : given.answers.lookup item.record.handle = some answer)
    (extended : (given.settle item).Extends items later) : p.Extends (item :: items) later := by
  obtain ⟨kept, updates⟩ := extended
  rw [settle_eq] at kept updates
  have settled : later.update? item = given.update? item := by
    unfold update? record?
    rw [found, kept _ _ found]
  refine ⟨fun handle answer before => kept _ _ (known _ _ before), ?_⟩
  rw [updates, same, ← settled]
  cases made : later.update? item <;> simp [made]

end Reconciliation.Pass

open Reconciliation

theorem Program.Commits.mono {α : Type} {task : Task} {ends other : Index → α → Prop} {stands : Index}
    {p : Program α} (commits : p.Commits task ends stands)
    (weaker : ∀ index a, ends index a → other index a) : p.Commits task other stands := by
  induction p generalizing stands with
  | done a => exact fun index onward made => weaker index a (commits index onward made)
  | ask r next ih =>
      intro index onward made
      obtain ⟨makes, others⟩ := commits index onward made
      exact ⟨makes, fun reply later serves => ih reply (others reply later serves)⟩

theorem Operation.Commits.mono {α : Type} {task : Task} {ends other : Index → α → Prop}
    {stands : Index} {op : Operation α} (commits : op.Commits task ends stands)
    (weaker : ∀ index a, ends index a → other index a) : op.Commits task other stands :=
  ⟨commits.run.mono fun index _ reached a same => weaker index a (reached a same)⟩

theorem Reconciliation.check_commits (task : Task) (stands : Index) (p : Pass)
    (items : List PendingTx) :
    (check p items).Commits task (fun _ later => p.Extends items later) stands := by
  induction items generalizing p stands with
  | nil => exact .pure fun index _ _ => ⟨fun _ _ found => found, rfl⟩
  | cons item items ih =>
      simp only [check]
      cases found : p.answers.lookup item.record.handle with
      | some answer =>
          apply (ih stands _).mono
          intro _ later extended
          exact .cons (fun _ _ known => known) rfl found extended
      | none =>
          apply Operation.Commits.tryCheck
          intro reply
          apply (ih stands _).mono
          intro _ later extended
          have known := p.lookup_answered item.record.handle item.record.handle reply
          rw [if_pos rfl] at known
          refine .cons ?_ ?_ known extended
          · intro handle answer known
            have distinct : handle ≠ item.record.handle := by
              rintro rfl
              cases found.symm.trans known
            rw [Pass.lookup_answered, if_neg distinct]
            exact known
          · cases reply <;> rfl

namespace Index

variable {index read : Index}

theorem recordsFor_filterMap (record? : TxRecord → Option TxRecord) (items : List PendingTx)
    (target : TxRef) :
    recordsFor target (items.filterMap fun item => (record? item.record).map (⟨item.target, ·⟩)) =
      (items.filter fun item => item.target = target).filterMap fun item => record? item.record := by
  induction items with
  | nil => rfl
  | cons item items ih =>
      rw [List.filterMap_cons, List.filter_cons]
      cases made : record? item.record with
      | none => by_cases here : item.target = target <;> simp [made, here, ih]
      | some record =>
          simp only [Option.map_some]
          rw [recordsFor_cons, recordsFor_single, ih]
          by_cases here : item.target = target <;> simp [here, made]

theorem recordsFor_updates (p : Pass) (items : List PendingTx) (target : TxRef) :
    recordsFor target (items.filterMap p.update?) =
      (items.filter fun item => item.target = target).filterMap fun item => p.record? item.record :=
  recordsFor_filterMap p.record? items target

theorem record?_of_pending (keyed : index.Keyed) {scope : Scope} {item : PendingTx}
    (listed : item ∈ index.pending scope) : index.record? item.target = some item.record :=
  ((mem_pending_iff keyed).mp listed).2.1

namespace Lifecycle

theorem record_coherent (lifecycle : index.Lifecycle) {target : TxRef} {r : TxRecord}
    (found : index.record? target = some r) : r.Coherent := by
  obtain ⟨id, slot⟩ := target
  cases slot with
  | create =>
      obtain ⟨e, here, rfl⟩ := Option.map_eq_some_iff.mp found
      exact (lifecycle.eventRows id e here).createTx
  | close =>
      obtain ⟨e, here, closed⟩ := Option.bind_eq_some_iff.mp found
      exact (lifecycle.eventRows id e here).closeTx r closed
  | submit site =>
      obtain ⟨p, here, rfl⟩ := Option.map_eq_some_iff.mp found
      exact lifecycle.proofRows _ p here
  | settle site =>
      obtain ⟨s, here, rfl⟩ := Option.map_eq_some_iff.mp found
      exact (lifecycle.settlementRows _ s here).settleTx
  | claim site =>
      obtain ⟨s, here, claimed⟩ := Option.bind_eq_some_iff.mp found
      exact (lifecycle.settlementRows _ s here).claimTx r claimed

theorem pass_coherent (lifecycle : index.Lifecycle) (p : Pass) (scope : Scope) :
    ∀ u ∈ (index.pending scope).filterMap p.update?, u.record.Coherent := by
  intro u listed
  obtain ⟨item, waiting, made⟩ := List.mem_filterMap.mp listed
  obtain ⟨record, advanced, rfl⟩ := Option.map_eq_some_iff.mp made
  obtain ⟨check, -, further⟩ := Option.bind_eq_some_iff.mp advanced
  exact (lifecycle.record_coherent (record?_of_pending lifecycle.toKeyed waiting)).advanced further

theorem settle_record_eq (lifecycle : read.Lifecycle) (onward : read.Onward index) {id : EventId}
    {site other : SiteId} (first : index.settlements.get? ⟨id, site⟩ ≠ none)
    (second : index.settlements.get? ⟨id, other⟩ ≠ none) :
    read.record? ⟨id, .settle site⟩ = read.record? ⟨id, .settle other⟩ := by
  -- Both of them or neither was there at an earlier time.
  have together : ∀ one two s, index.settlements.get? ⟨id, two⟩ ≠ none →
      read.settlements.get? ⟨id, one⟩ = some s → read.settlements.get? ⟨id, two⟩ ≠ none := by
    intro one two s present found
    obtain ⟨e, here, done, -⟩ := lifecycle.settled _ s found
    exact onward.settled id e two here done present
  cases found : read.settlements.get? ⟨id, site⟩ with
  | none =>
      cases there : read.settlements.get? ⟨id, other⟩ with
      | none => simp [record?, found, there]
      | some t => exact (together other site t first there found).elim
  | some s =>
      obtain ⟨t, there⟩ := Option.ne_none_iff_exists'.mp (together site other s second found)
      simp [record?, found, there, lifecycle.batch id site other s t found there]

theorem pass_unites (lifecycle : read.Lifecycle) (onward : read.Onward index) (p : Pass)
    (scope : Scope) : index.Unites ((read.pending scope).filterMap p.update?) := by
  intro id site other first second
  rw [recordsFor_updates, recordsFor_updates, filter_pending lifecycle.toKeyed,
    filter_pending lifecycle.toKeyed, lifecycle.settle_record_eq onward first second]
  by_cases covered : scope.contains id
  · rw [if_pos covered, if_pos covered]
    cases read.record? ⟨id, .settle other⟩ with
    | none => rfl
    | some r =>
        by_cases waiting : r.isPending <;> cases made : p.record? r <;> simp [pendingAt, waiting, made]
  · rw [if_neg covered, if_neg covered]

end Lifecycle

end Index

end Curtail
