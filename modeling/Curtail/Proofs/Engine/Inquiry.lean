import Curtail.Proofs.Engine.Course
import Curtail.Proofs.Engine.Stale

namespace Curtail

section Bind

variable {α β γ : Type}

theorem Program.andThen_assoc (p : Program α) (f : α → Program β) (g : β → Program γ) :
    (p.andThen f).andThen g = p.andThen fun a => (f a).andThen g := by
  induction p with
  | done a => rfl
  | ask r next ih => exact congrArg (Program.ask r) (funext ih)

theorem Operation.bind_assoc (op : Operation α) (f : α → Operation β) (g : β → Operation γ) :
    (op >>= f >>= g) = op >>= fun a => f a >>= g := by
  change (op.run.andThen _).andThen _ = op.run.andThen _
  rw [Program.andThen_assoc]
  congr 1
  funext result
  cases result <;> rfl

end Bind

abbrev Findings := List (TxHandle × Except LedgerError TxCheck)

namespace Findings

def handles (told : Findings) : List TxHandle := told.map (·.1)

def calls (told : Findings) : List Exchange := told.map fun (handle, reply) => ⟨.check handle, reply⟩

def failures (told : Findings) : List (TxHandle × LedgerError) :=
  told.filterMap fun
    | (handle, .error e) => some (handle, e)
    | (_, .ok _) => none

def record? (told : Findings) (r : TxRecord) : Option TxRecord :=
  (told.lookup r.handle).bind fun reply => reply.toOption.bind r.advanced

def update? (told : Findings) (item : PendingTx) : Option TxUpdate :=
  (told.record? item.record).map fun record => ⟨item.target, record⟩

def updates (told : Findings) (items : List PendingTx) : List TxUpdate := items.filterMap told.update?

def verdict (told : Findings) (pending updated : Nat) : Except Failure ReconcileReport :=
  match told.failures with
  | [] => .ok ⟨pending, told.length, updated⟩
  | (handle, cause) :: _ => .error (.ledgerCheck handle told.failures.length told.length cause)

def pass (told : Findings) (items : List PendingTx) : Reconciliation.Pass :=
  ⟨(told.map fun (handle, reply) => (handle, reply.toOption)).reverse, told.failures,
    (told.updates items).reverse⟩

variable {told : Findings}

theorem lookup_ne_none {handle : TxHandle} : told.lookup handle ≠ none ↔ handle ∈ told.handles := by
  induction told with
  | nil => simp [handles]
  | cons entry told ih =>
      obtain ⟨other, reply⟩ := entry
      by_cases same : handle = other
      · simp [handles, same]
      · have unlike : (handle == other) = false := beq_false_of_ne same
        simp only [List.lookup_cons, unlike, ih]
        simp [handles, same]

theorem mem_of_lookup {handle : TxHandle} {reply : Except LedgerError TxCheck}
    (found : told.lookup handle = some reply) : (handle, reply) ∈ told := by
  obtain ⟨front, back, whole, -⟩ := List.lookup_eq_some_iff.mp found
  simp [whole]

theorem mem_calls_of_lookup {handle : TxHandle} {reply : Except LedgerError TxCheck}
    (found : told.lookup handle = some reply) : ⟨.check handle, reply⟩ ∈ told.calls :=
  List.mem_map.mpr ⟨(handle, reply), mem_of_lookup found, rfl⟩

theorem of_verdict {pending updated : Nat} {report : ReconcileReport}
    (reported : told.verdict pending updated = .ok report) :
    told.failures = [] ∧ report = ⟨pending, told.length, updated⟩ := by
  unfold verdict at reported
  split at reported
  case h_1 clean => exact ⟨clean, (Except.ok.inj reported).symm⟩
  case h_2 => cases reported

theorem answered_of_clean (clean : told.failures = []) {handle : TxHandle}
    {reply : Except LedgerError TxCheck} (given : told.lookup handle = some reply) :
    ∃ check, reply = .ok check := by
  cases reply with
  | ok check => exact ⟨check, rfl⟩
  | error e => cases List.filterMap_eq_nil_iff.mp clean (handle, .error e) (mem_of_lookup given)

theorem lookup_pass (distinct : told.handles.Nodup) (items : List PendingTx) (handle : TxHandle) :
    (told.pass items).answers.lookup handle = (told.lookup handle).map (·.toOption) := by
  change (told.map fun (handle, reply) => (handle, reply.toOption)).reverse.lookup handle = _
  induction told with
  | nil => rfl
  | cons entry told ih =>
      obtain ⟨other, reply⟩ := entry
      obtain ⟨new, distinct⟩ := List.nodup_cons.mp distinct
      rw [List.map_cons, List.reverse_cons, List.lookup_append, ih distinct]
      by_cases same : handle = other
      · have unknown : told.lookup other = none := by
          by_contra known
          exact new (lookup_ne_none.mp known)
        simp [same, unknown]
      · have unlike : (handle == other) = false := beq_false_of_ne same
        simp [List.lookup_cons, unlike]

theorem update?_pass (distinct : told.handles.Nodup) (items : List PendingTx) :
    (told.pass items).update? = told.update? := by
  funext item
  unfold Reconciliation.Pass.update? Reconciliation.Pass.record? update? record?
  rw [lookup_pass distinct]
  cases told.lookup item.record.handle <;> rfl

theorem pass_settle (distinct : told.handles.Nodup) (items : List PendingTx) (item : PendingTx) :
    (told.pass items).settle item = told.pass (items ++ [item]) := by
  rw [Reconciliation.Pass.settle_eq, update?_pass distinct]
  unfold pass updates
  cases made : told.update? item <;> simp [made]

theorem pass_answered {items : List PendingTx} (known : ∀ item ∈ items, item.record.handle ∈ told.handles)
    (handle : TxHandle) (reply : Except LedgerError TxCheck) :
    (told.pass items).answered handle reply = Findings.pass (told ++ [(handle, reply)]) items := by
  have same : Findings.updates (told ++ [(handle, reply)]) items = told.updates items := by
    apply List.filterMap_congr
    intro item listed
    obtain ⟨answer, found⟩ := Option.ne_none_iff_exists'.mp (lookup_ne_none.mpr (known item listed))
    unfold update? record?
    rw [List.lookup_append, found, Option.some_or]
  unfold pass
  rw [same]
  cases reply <;> simp [Reconciliation.Pass.answered, failures, Except.toOption]

end Findings

namespace Reconciliation

def askAll : List TxHandle → Operation Findings
  | [] => return []
  | handle :: handles => do
    let reply ← Operation.tryCheck handle
    let others ← askAll handles
    return (handle, reply) :: others

def unasked (asked : List TxHandle) : List PendingTx → List TxHandle
  | [] => []
  | item :: items =>
    if item.record.handle ∈ asked then unasked asked items
    else item.record.handle :: unasked (asked ++ [item.record.handle]) items

theorem unasked_eq_firsts (items : List PendingTx) :
    unasked [] items = firsts (items.map (·.record.handle)) := by
  suffices all : ∀ asked : List TxHandle,
      (items.map (·.record.handle)).foldl
        (fun kept item => if item ∈ kept then kept else kept ++ [item]) asked =
      asked ++ unasked asked items from (all []).symm
  induction items with
  | nil => exact fun asked => (List.append_nil asked).symm
  | cons item items ih =>
      intro asked
      rw [List.map_cons, List.foldl_cons, unasked, ih]
      by_cases known : item.record.handle ∈ asked
      · rw [if_pos known, if_pos known]
      · rw [if_neg known, if_neg known, List.append_assoc]
        rfl

theorem askAll_cons_bind {α : Type} (handle : TxHandle) (handles : List TxHandle)
    (goOn : Findings → Operation α) :
    (askAll (handle :: handles) >>= goOn) =
      Operation.tryCheck handle >>= fun reply =>
        askAll handles >>= fun others => goOn ((handle, reply) :: others) := by
  rw [askAll, Operation.bind_assoc]
  congr 1
  funext reply
  rw [Operation.bind_assoc]
  rfl

theorem check_eq_askAll {told : Findings} (distinct : told.handles.Nodup) {seen : List PendingTx}
    (known : ∀ item ∈ seen, item.record.handle ∈ told.handles) (items : List PendingTx) {α : Type}
    (goOn : Pass → Operation α) :
    (check (told.pass seen) items >>= goOn) =
      askAll (unasked told.handles items) >>= fun more => goOn (Findings.pass (told ++ more) (seen ++ items)) := by
  induction items generalizing told seen with
  | nil =>
      change goOn (told.pass seen) = goOn (Findings.pass (told ++ []) (seen ++ []))
      rw [List.append_nil, List.append_nil]
  | cons item items ih =>
      have found := Findings.lookup_pass distinct seen item.record.handle
      by_cases listed : item.record.handle ∈ told.handles
      · obtain ⟨answer, given⟩ := Option.ne_none_iff_exists'.mp (Findings.lookup_ne_none.mpr listed)
        rw [given, Option.map_some] at found
        simp only [check, found, unasked, if_pos listed]
        have extended : ∀ other ∈ seen ++ [item], other.record.handle ∈ told.handles :=
          List.forall_mem_append.mpr ⟨known, List.forall_mem_singleton.mpr listed⟩
        rw [Findings.pass_settle distinct, ih distinct extended, ← List.append_cons]
      · have unknown : told.lookup item.record.handle = none := by
          by_contra there
          exact listed (Findings.lookup_ne_none.mp there)
        rw [unknown, Option.map_none] at found
        simp only [check, found, unasked, if_neg listed]
        rw [askAll_cons_bind, Operation.bind_assoc]
        congr 1
        funext reply
        let given : Findings := told ++ [(item.record.handle, reply)]
        have added : given.handles = told.handles ++ [item.record.handle] := by
          simp [given, Findings.handles]
        have apart : given.handles.Nodup := by
          rw [added]
          refine List.nodup_append.mpr ⟨distinct, List.pairwise_singleton _ _, ?_⟩
          rintro one member other same rfl
          exact listed (List.mem_singleton.mp same ▸ member)
        have extended : ∀ other ∈ seen ++ [item], other.record.handle ∈ given.handles := by
          rw [added]
          refine List.forall_mem_append.mpr ⟨fun other before => ?_, ?_⟩
          · exact List.mem_append_left _ (known other before)
          · exact List.forall_mem_singleton.mpr (List.mem_append_right _ List.mem_cons_self)
        rw [Findings.pass_answered known, Findings.pass_settle apart, ih apart extended, added]
        simp only [given, List.append_assoc, List.singleton_append]

def conclude (items : List PendingTx) (told : Findings) : Operation ReconcileReport := do
  if told.updates items ≠ [] then Operation.commit (.applyTxUpdates (told.updates items))
  ExceptT.mk (pure (told.verdict items.length (told.updates items).length))

theorem finish_pass (told : Findings) (items : List PendingTx) :
    finish items.length (told.pass items) =
      ExceptT.mk (pure (told.verdict items.length (told.updates items).length)) := by
  unfold finish Findings.verdict
  simp only [Findings.pass, List.length_reverse, List.length_map]
  cases told.failures <;> rfl

theorem reconcile_eq_askAll (scope : Scope) : Operation.reconcile scope = (do
    let items : List PendingTx ← Operation.query (.pending scope)
    let told ← askAll (firsts (items.map (·.record.handle)))
    conclude items told) := by
  unfold Operation.reconcile
  congr 1
  funext items
  have asked := @check_eq_askAll [] .nil [] nofun items ReconcileReport
  rw [← unasked_eq_firsts]
  change (check (Findings.pass [] []) items >>= _) = _
  rw [asked]
  congr 1
  funext told
  have updates : (told.pass items).updates = (told.updates items).reverse := rfl
  simp only [List.nil_append, finish_pass, conclude, updates, ne_eq, List.reverse_eq_nil_iff,
    List.reverse_reverse]

theorem askAll_runs {handles : List TxHandle} {index later : Index} {calls : List Exchange}
    {result : Except Failure Findings} (runs : (askAll handles).run.Runs index calls result later) :
    later = index ∧ ∃ told : Findings, result = .ok told ∧ told.handles = handles ∧ calls = told.calls := by
  induction handles generalizing index later calls result with
  | nil =>
      obtain ⟨rfl, rfl, rfl⟩ := Program.runs_done runs
      exact ⟨rfl, [], rfl, rfl, rfl⟩
  | cons handle handles ih =>
      change (Program.ask (.check handle) fun reply =>
        (askAll handles).run.andThen (ExceptT.bindCont fun others => pure ((handle, reply) :: others))).Runs
          _ _ _ _ at runs
      obtain ⟨reply, between, rest, replies, ended, rfl⟩ := Program.runs_ask runs
      cases replies
      obtain ⟨first, reached, between, last, begun, returned, rfl⟩ := Program.runs_andThen ended
      obtain ⟨rfl, told, rfl, rfl, rfl⟩ := ih begun
      obtain ⟨rfl, rfl, rfl⟩ := Program.runs_done returned
      exact ⟨rfl, (handle, reply) :: told, rfl, rfl, congrArg _ (List.append_nil _)⟩

theorem conclude_runs {items : List PendingTx} {told : Findings} {index later : Index}
    {calls : List Exchange} {result : Except Failure ReconcileReport}
    (runs : (conclude items told).run.Runs index calls result later) :
    (later = index.apply (.applyTxUpdates (told.updates items)) ∧
      result = told.verdict items.length (told.updates items).length ∧
      calls = if told.updates items = [] then []
        else [⟨.commit (.applyTxUpdates (told.updates items)), .ok ()⟩]) ∨
    (told.updates items ≠ [] ∧ later = index ∧ ∃ e : StoreError, e.IsFault ∧
      result = .error (.storage e none) ∧
      calls = [⟨.commit (.applyTxUpdates (told.updates items)), .error e⟩]) := by
  unfold conclude at runs
  by_cases nothing : told.updates items = []
  · rw [if_neg (not_not_intro nothing)] at runs
    obtain ⟨rfl, rfl, rfl⟩ := Program.runs_done runs
    exact .inl ⟨by rw [nothing]; rfl, rfl, (if_pos nothing).symm⟩
  · rw [if_pos nothing] at runs
    obtain ⟨reply, between, rest, replies, ended, rfl⟩ := Program.runs_ask runs
    cases replies with
    | commit _ =>
        obtain ⟨rfl, rfl, rfl⟩ := Program.runs_done ended
        exact .inl ⟨rfl, rfl, (if_neg nothing).symm⟩
    | commitFault _ fault =>
        obtain ⟨rfl, rfl, rfl⟩ := Program.runs_done ended
        exact .inr ⟨nothing, rfl, _, fault, rfl, rfl⟩

end Reconciliation

namespace Findings

def settled (told : Findings) (scope : Scope) (event : EventId) (r : TxRecord) : TxRecord :=
  if scope.contains event && r.isPending then (told.record? r).getD r else r

variable {told : Findings} {r record : TxRecord}

theorem isPending_iff : r.isPending ↔ r.state = .submitted ∧ r.fee = none := by
  simp [TxRecord.isPending]

theorem state_of_record? (made : told.record? r = some record) : record.state ≠ .submitted := by
  obtain ⟨reply, -, further⟩ := Option.bind_eq_some_iff.mp made
  obtain ⟨check, -, advanced⟩ := Option.bind_eq_some_iff.mp further
  exact TxRecord.state_of_advanced advanced

theorem handle_of_record? (made : told.record? r = some record) : record.handle = r.handle := by
  obtain ⟨reply, -, further⟩ := Option.bind_eq_some_iff.mp made
  obtain ⟨check, -, advanced⟩ := Option.bind_eq_some_iff.mp further
  unfold TxRecord.advanced at advanced
  split at advanced
  · cases advanced
  · obtain rfl := Option.some.inj advanced
    rfl

theorem updated_of_record? (waiting : r.isPending) (made : told.record? r = some record) :
    Index.updated r record = record :=
  if_pos ⟨(isPending_iff.mp waiting).1, (handle_of_record? made).symm⟩

theorem record?_eq_none_iff (waiting : r.isPending) : told.record? r = none ↔
    ∀ check, told.lookup r.handle = some (.ok check) → check.outcome.state = .submitted := by
  have state := (isPending_iff.mp waiting).1
  unfold record?
  cases told.lookup r.handle with
  | none => simp
  | some reply =>
      cases reply with
      | error e => simp [Except.toOption]
      | ok check => simp [Except.toOption, TxRecord.advanced, state, TxState.isTerminal]

theorem updates_eq_nil_iff {items : List PendingTx} (waiting : ∀ item ∈ items, item.record.isPending)
    (asked : told.handles = firsts (items.map (·.record.handle))) : told.updates items = [] ↔
      ∀ handle check, told.lookup handle = some (.ok check) → check.outcome.state = .submitted := by
  have none_made : told.updates items = [] ↔ ∀ item ∈ items, told.record? item.record = none := by
    simp [updates, update?, List.filterMap_eq_nil_iff]
  rw [none_made]
  refine ⟨?_, ?_⟩
  · intro open_ handle check found
    have listed : handle ∈ told.handles := lookup_ne_none.mp (by simp [found])
    rw [asked, mem_firsts, List.mem_map] at listed
    obtain ⟨item, member, rfl⟩ := listed
    exact (record?_eq_none_iff (waiting item member)).mp (open_ item member) check found
  · intro open_ item member
    exact (record?_eq_none_iff (waiting item member)).mpr (open_ item.record.handle)

end Findings

/-- Every pending record in scope is as its answer has it; all else is as it was. -/
structure Index.SettledBy (index : Index) (scope : Scope) (told : Findings) (later : Index) : Prop where
  events : ∀ id, later.events.get? id = (index.events.get? id).map fun e =>
    { e with
      createTx := told.settled scope id e.createTx
      closeTx := e.closeTx.map (told.settled scope id) }
  proofs : ∀ key, later.proofs.get? key = (index.proofs.get? key).map fun p =>
    { p with submitTx := told.settled scope key.event p.submitTx }
  settlements : ∀ key, later.settlements.get? key = (index.settlements.get? key).map fun s =>
    { s with
      settleTx := told.settled scope key.event s.settleTx
      claimTx := s.claimTx.map (told.settled scope key.event) }
  audits : later.audits = index.audits
  orphans : later.orphans = index.orphans

namespace Index

variable {index later : Index} {scope : Scope} {told : Findings}

theorem updatedBy_updates (keyed : index.Keyed) (scope : Scope) (told : Findings) {id : EventId}
    {slot : TxSlot} {r : TxRecord} (found : index.record? ⟨id, slot⟩ = some r) :
    updatedBy (recordsFor ⟨id, slot⟩ (told.updates (index.pending scope))) r = told.settled scope id r := by
  have offered : recordsFor ⟨id, slot⟩ (told.updates (index.pending scope)) =
      (if scope.contains id then pendingAt id slot r else []).filterMap fun item =>
        told.record? item.record := by
    refine (recordsFor_filterMap told.record? (index.pending scope) ⟨id, slot⟩).trans ?_
    rw [filter_pending keyed, found]
    rfl
  rw [offered]
  unfold Findings.settled pendingAt
  by_cases covered : scope.contains id
  · by_cases waiting : r.isPending
    · cases made : told.record? r with
      | none => simp [covered, waiting, made]
      | some record => simp [covered, waiting, made, Findings.updated_of_record? waiting made]
    · simp [waiting]
  · simp [covered]

theorem settledBy_updates (keyed : index.Keyed) (scope : Scope) (told : Findings) :
    index.SettledBy scope told (index.apply (.applyTxUpdates (told.updates (index.pending scope)))) := by
  have offered (id : EventId) (slot : TxSlot) (r : TxRecord) (found : index.record? ⟨id, slot⟩ = some r) :=
    updatedBy_updates keyed scope told found
  have offered? (id : EventId) (slot : TxSlot) (r? : Option TxRecord)
      (found : index.record? ⟨id, slot⟩ = r?) :
      r?.map (updatedBy (recordsFor ⟨id, slot⟩ (told.updates (index.pending scope)))) =
        r?.map (told.settled scope id) :=
    Option.map_congr fun r same => offered id slot r (found.trans same)
  refine ⟨fun id => ?_, fun key => ?_, fun key => ?_, audits_applyTxUpdates index _, ?_⟩
  · refine (get?_events_applyTxUpdates ..).trans (Option.map_congr fun e found => ?_)
    have create := offered id .create e.createTx (by simp [record?, found])
    have close := offered? id .close e.closeTx (by simp [record?, found])
    simp only [Event.updatedBy, create, close]
  · refine (get?_proofs_applyTxUpdates ..).trans (Option.map_congr fun p found => ?_)
    simp only [Proof.updatedBy, offered key.event (.submit key.site) p.submitTx (by simp [record?, found])]
  · refine (get?_settlements_applyTxUpdates ..).trans (Option.map_congr fun s found => ?_)
    have settle := offered key.event (.settle key.site) s.settleTx (by simp [record?, found])
    have claim := offered? key.event (.claim key.site) s.claimTx (by simp [record?, found])
    simp only [Settlement.updatedBy, settle, claim]
  · rw [orphans_apply]
    exact List.append_nil _

theorem SettledBy.record? (settled : index.SettledBy scope told later) (target : TxRef) :
    later.record? target = (index.record? target).map (told.settled scope target.event) := by
  obtain ⟨id, slot⟩ := target
  cases slot <;>
    simp only [Index.record?, settled.events, settled.proofs, settled.settlements, Option.map_map,
      Option.bind_map, Option.map_bind, Function.comp_def]

theorem SettledBy.changed (settled : index.SettledBy scope told later) (keyed : index.Keyed) :
    ∃ changed : List TxRef, changed.Nodup ∧
      (∀ target, target ∈ changed ↔ later.record? target ≠ index.record? target) ∧
      (told.updates (index.pending scope)).length = changed.length := by
  let answered := (index.pending scope).filter fun item => (told.record? item.record).isSome
  refine ⟨answered.map (·.target), ?_, fun target => ?_, ?_⟩
  · exact (pending_targets_nodup keyed scope).sublist (List.filter_sublist.map _)
  · rw [settled.record?, List.mem_map]
    refine ⟨?_, ?_⟩
    · rintro ⟨item, listed, rfl⟩
      obtain ⟨listed, made⟩ := List.mem_filter.mp listed
      obtain ⟨record, made⟩ := Option.isSome_iff_exists.mp made
      obtain ⟨covered, found, waiting⟩ := (mem_pending_iff keyed).mp listed
      have changed : told.settled scope item.target.event item.record = record := by
        simp [Findings.settled, covered, waiting, made]
      rw [found, Option.map_some, changed]
      intro same
      obtain rfl := Option.some.inj same
      exact Findings.state_of_record? made (Findings.isPending_iff.mp waiting).1
    · intro moved
      cases found : index.record? target with
      | none => simp [found] at moved
      | some r =>
          have unlike : told.settled scope target.event r ≠ r := by simpa [found] using moved
          unfold Findings.settled at unlike
          split at unlike
          · rename_i both
            obtain ⟨covered, waiting⟩ := Bool.and_eq_true_iff.mp both
            cases made : told.record? r with
            | none => simp [made] at unlike
            | some record =>
                refine ⟨⟨target, r⟩, List.mem_filter.mpr ⟨?_, by simp [made]⟩, rfl⟩
                exact (mem_pending_iff keyed).mpr ⟨covered, found, waiting⟩
          · exact (unlike rfl).elim
  · unfold Findings.updates
    rw [List.length_filterMap_eq_countP, List.length_map, ← List.countP_eq_length_filter]
    simp [Findings.update?]

end Index

namespace Reconciliation

/-- What a pass does that has read the pending transactions and been told this. -/
structure Concludes (index : Index) (scope : Scope) (told : Findings) (commits : List Exchange)
    (result : Except Failure ReconcileReport) (later : Index) : Prop where
  asked : told.handles = firsts ((index.pending scope).map (·.record.handle))
  silent : commits = [] ↔
    ∀ handle check, told.lookup handle = some (.ok check) → check.outcome.state = .submitted
  outcome : (commits = [] ∨ ∃ updates, commits = [⟨.commit (.applyTxUpdates updates), .ok ()⟩]) ∧
      index.SettledBy scope told later ∧
      (∃ changed : List TxRef, changed.Nodup ∧
        (∀ target, target ∈ changed ↔ later.record? target ≠ index.record? target) ∧
        result = told.verdict (index.pending scope).length changed.length) ∨
    ∃ updates e, commits = [⟨.commit (.applyTxUpdates updates), .error e⟩] ∧ e.IsFault ∧
      later = index ∧ result = .error (.storage e none)

theorem reconcile_runs {index later : Index} (keyed : index.Keyed) {scope : Scope}
    {calls : List Exchange} {result : Except Failure ReconcileReport}
    (runs : (Operation.reconcile scope).run.Runs index calls result later) :
    (∃ e rest, calls = ⟨.query (.pending scope), .error e⟩ :: rest) ∨
    ∃ told commits, calls = ⟨.query (.pending scope), .ok (index.pending scope)⟩ :: (told.calls ++ commits) ∧
      Concludes index scope told commits result later := by
  rw [reconcile_eq_askAll] at runs
  obtain ⟨reply, between, rest, replies, ended, rfl⟩ := Program.runs_ask runs
  cases replies with
  | queryFault _ e => exact .inl ⟨e, rest, rfl⟩
  | query _ =>
      right
      change ((askAll (firsts ((index.pending scope).map (·.record.handle)))).run.andThen
        (ExceptT.bindCont (conclude (index.pending scope)))).Runs _ _ _ _ at ended
      obtain ⟨first, answered, between, last, begun, finished, rfl⟩ := Program.runs_andThen ended
      obtain ⟨rfl, told, rfl, asked, rfl⟩ := askAll_runs begun
      have waiting : ∀ item ∈ between.pending scope, item.record.isPending := fun item listed =>
        ((Index.mem_pending_iff keyed).mp listed).2.2
      have silent := Findings.updates_eq_nil_iff waiting asked
      refine ⟨told, last, rfl, ?_⟩
      rcases conclude_runs finished with ⟨rfl, rfl, rfl⟩ | ⟨found, rfl, e, fault, rfl, rfl⟩
      · have settled := Index.settledBy_updates keyed scope told
        obtain ⟨changed, distinct, places, count⟩ := settled.changed keyed
        refine ⟨asked, ?_, .inl ⟨?_, settled, changed, distinct, places, by rw [count]⟩⟩
        · rw [← silent, ite_eq_left_iff]
          simp
        · by_cases nothing : told.updates (between.pending scope) = []
          · exact .inl (if_pos nothing)
          · exact .inr ⟨_, if_neg nothing⟩
      · refine ⟨asked, ?_, .inr ⟨_, e, rfl, fault, rfl, rfl⟩⟩
        rw [← silent]
        simp [found]

end Reconciliation

def Host.answering (answer : TxHandle → Except LedgerError TxCheck) : Host Index where
  index := id
  answer
    | .now, index => (.ofSeconds 20, index)
    | .commitLimit, index => (none, index)
    | .query q, index => (.ok (index.answer q), index)
    | .commit change, index => index.commit change
    | .submit .., index => (.error (.rejected "closed"), index)
    | .check handle, index => (answer handle, index)
  replies r index := by
    cases r with
    | now => exact .now _
    | commitLimit => exact .commitLimit none
    | query q => exact .query q
    | commit change => exact .commit change
    | submit action payload mode => exact .submit action payload mode _
    | check handle => exact .check handle _

namespace Host

theorem run_ask {α σ : Type} (host : Host σ) {r : Request} (next : r.Reply → Program α) (s : σ) :
    ∃ calls, (host.run (.ask r next) s).2.2 = ⟨r, (host.answer r s).1⟩ :: calls := by
  obtain ⟨calls, same, -⟩ :=
    host.runs_recording (next (host.answer r s).1) (host.answer r s).2 [⟨r, (host.answer r s).1⟩]
  exact ⟨calls, same⟩

end Host

namespace Service

/-- A pass asks about each pending handle once, in order, makes one commit at most, and changes what was
answered and nothing else. -/
theorem exact_pass {first s : Service} (begins : first.Begins)
    (run : Relation.ReflTransGen Step first s) {σ : Type} (host : Host σ) {state : σ}
    (here : host.index state = s.index) {scope : Scope}
    (read : ∀ e, (host.answer (.query (.pending scope)) state).1 ≠ .error e) :
    let result := (host.run (Operation.reconcile scope).run state).1
    let later := host.index (host.run (Operation.reconcile scope).run state).2.1
    let calls := (host.run (Operation.reconcile scope).run state).2.2
    ∃ (told : Findings) (commits : List Exchange),
      calls = ⟨.query (.pending scope), .ok (s.index.pending scope)⟩ :: (told.calls ++ commits) ∧
      Reconciliation.Concludes s.index scope told commits result later := by
  have keyed := (sound_of_run begins run).made.lifecycle.toKeyed
  have runs := host.runs (Operation.reconcile scope).run state
  rw [here] at runs
  rcases Reconciliation.reconcile_runs keyed runs with ⟨e, rest, failed⟩ | concluded
  · obtain ⟨others, begun⟩ := host.run_ask _ state
    obtain ⟨same, -⟩ := List.cons.inj (begun.symm.trans failed)
    exact (read e (eq_of_heq (Exchange.mk.inj same).2)).elim
  · exact concluded

/-- The ledger can be asked about the proofs of both sites, but not about their event. -/
theorem exact_pass_of_season : ∃ (s : Service) (told : Findings) (commits : List Exchange) (later : Index),
    told.handles = [⟨"create_event"⟩, ⟨"submit_proof"⟩] ∧
    Reconciliation.Concludes s.index .all told commits
      (.error (.ledgerCheck ⟨"create_event"⟩ 1 2 (.transport "timeout"))) later ∧
    (later.record? ⟨⟨"DR-1"⟩, .submit ⟨"site-b"⟩⟩).map (·.state) = some .confirmed := by
  obtain ⟨s, run, here⟩ := reaches_tasks (.waiting (.ofSeconds 10)) .standard (season.take 3)
    (s := ⟨.memory .empty, [], []⟩) rfl
  let host := Host.answering fun handle =>
    if handle.text = "create_event" then .error (.transport "timeout")
    else .ok ⟨some 0, .confirmed (.ofSeconds 20)⟩
  have same : host.index s.index = s.index := rfl
  have read : ∀ e, (host.answer (.query (.pending .all)) s.index).1 ≠ .error e := nofun
  obtain ⟨told, commits, -, concluded⟩ := exact_pass .memory run host same read
  have asked : told.handles = [⟨"create_event"⟩, ⟨"submit_proof"⟩] := by
    rw [concluded.asked, index, here]
    rfl
  have failed : (host.run (Operation.reconcile .all).run s.index).1 =
      .error (.ledgerCheck ⟨"create_event"⟩ 1 2 (.transport "timeout")) := by
    rw [index, here]
    rfl
  rw [failed] at concluded
  refine ⟨s, told, commits, _, asked, concluded, ?_⟩
  rw [index, here]
  rfl

end Service

end Curtail
