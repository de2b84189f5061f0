import Curtail.Proofs.Engine.Simulation

/-!
How a simulated ledger comes to confirm a transaction. Every pass over its event asks about it once, until
the last of a set number of checks has confirmed it; then no pass asks about it again.
Main result: `Simulation.confirmed_by_passes`.
-/

namespace Curtail

open Calls Reconciliation

def TxRecord.confirmed (r : TxRecord) (fee : Fee) (t : Instant) : TxRecord :=
  { r with fee := some fee, state := .confirmed, confirmedAt := some t, error := none }

theorem Findings.record?_of_confirmed {told : Findings} {r : TxRecord} {t : Instant}
    (waiting : r.isPending) (found : told.lookup r.handle = some (.ok ⟨some 0, .confirmed t⟩)) :
    told.record? r = some (r.confirmed 0 t) := by
  have state := (Findings.isPending_iff.mp waiting).1
  rw [Findings.record?, found]
  simp [Except.toOption, TxRecord.advanced, state, TxState.isTerminal, TxOutcome.state,
    TxRecord.confirmed, TxOutcome.confirmedAt?, TxOutcome.error?]

namespace Simulation

variable {s later : Simulation} {checksUntilConfirm : UInt32} {tx : TxRecord} {targets : List TxRef}
  {past since : List (Nat × Exchange)}

def Shows (s : Simulation) (targets : List TxRef) (r : TxRecord) : Prop :=
  ∀ target ∈ targets, s.index.record? target = some r

structure Confirmed (s : Simulation) (targets : List TxRef) (tx : TxRecord) : Prop where
  shows : ∃ t, s.Shows targets (tx.confirmed 0 t)

/-- The passes over an event that begin in these calls, each named by its caller. -/
def begun (event : EventId) (since : List (Nat × Exchange)) : List Nat := positions (·.reads event) since

def ended (s : Simulation) (event : EventId) (since : List (Nat × Exchange)) : List Nat :=
  (begun event since).filter fun position => !s.inPass position

/-- A transaction that was not confirmed at once, before any pass has read it. -/
structure Submitted (tx : TxRecord) (targets : List TxRef) (past : List (Nat × Exchange)) : Prop where
  waiting : tx.isPending
  accepted : ∃ position action payload mode r,
    (position, ⟨.submit action payload mode, .ok r⟩) ∈ past ∧ tx = .ofResult r
  filled : targets ≠ []
  event : ∀ target ∈ targets, ∀ other ∈ targets, other.event = target.event
  unread : ∀ position scope (items : List PendingTx),
    (position, ⟨.query (.pending scope), .ok items⟩) ∈ past →
      ∀ item ∈ items, item.record.handle ≠ tx.handle

/-- Passes have read the transaction at all of its places or at none. -/
structure Tracked (tx : TxRecord) (targets : List TxRef) (past since : List (Nat × Exchange))
    (s : Simulation) : Prop where
  calls : s.calls = past ++ since
  rows : ∀ target, s.index.handle? target = some tx.handle ↔ target ∈ targets
  whole : ∀ position scope (items : List PendingTx),
    (position, ⟨.query (.pending scope), .ok items⟩) ∈ s.calls →
      ∀ item ∈ items, item.record.handle = tx.handle →
        item.record = tx ∧ ∀ target ∈ targets, ⟨target, tx⟩ ∈ items
  listed : ∀ position scope (items : List PendingTx),
    (position, ⟨.query (.pending scope), .ok items⟩) ∈ since →
      ∀ target ∈ targets, scope.contains target.event → ⟨target, tx⟩ ∈ items ∨ s.Confirmed targets tx
  records : s.Shows targets tx ∨ s.Confirmed targets tx ∧
    s.ledger.checksUntilConfirm.toNat ≤ s.calls.countP fun call => call.2.asks tx.handle
  commits : ∀ position updates reply, (position, ⟨.commit (.applyTxUpdates updates), reply⟩) ∈ s.calls →
    ∀ u ∈ updates, u.record.handle = tx.handle → s.Confirmed targets tx

theorem Confirmed.step (confirmed : s.Confirmed targets tx)
    (run : Relation.ReflTransGen Step (start checksUntilConfirm) s) (step : Step s later) :
    later.Confirmed targets tx := by
  obtain ⟨t, shows⟩ := confirmed
  refine ⟨t, ?_⟩
  intro target listed
  obtain ⟨after, found, becomes⟩ := step.record?_becomes run (shows target listed)
  obtain rfl := becomes.terminal (by simp [TxRecord.confirmed])
  exact found

theorem Submitted.tells (submitted : Submitted tx targets past) (sound : s.Sound)
    (begun : past <+: s.calls) : Tells s.ledger s.calls tx.handle := by
  obtain ⟨position, action, payload, mode, r, listed, rfl⟩ := submitted.accepted
  have waiting : r.outcome.state = .submitted := (Findings.isPending_iff.mp submitted.waiting).1
  exact (sound.tells_of_submitted (begun.subset listed) waiting).2

namespace Tracked

section Step

variable (tracked : Tracked tx targets past since s) (submitted : Submitted tx targets past)
  (run : Relation.ReflTransGen Step (start checksUntilConfirm) s)

include tracked run

theorem record_of_update {position : Nat} {scope : Scope} {items : List PendingTx} {told : Findings}
    (read : (position, ⟨.query (.pending scope), .ok items⟩) ∈ s.calls) {u : TxUpdate}
    (made : u ∈ told.updates items) (own : u.target ∈ targets ∨ u.record.handle = tx.handle) :
    told.record? tx = some u.record ∧ u.record.handle = tx.handle ∧
      ∀ target ∈ targets, ⟨target, u.record⟩ ∈ told.updates items := by
  obtain ⟨item, member, advanced⟩ := List.mem_filterMap.mp made
  obtain ⟨record, settled, rfl⟩ := Option.map_eq_some_iff.mp advanced
  have handle : item.record.handle = tx.handle := by
    rcases own with here | same
    · obtain ⟨-, carried⟩ := (sound_of_run run).carried_of_read read item member
      exact Option.some.inj (carried.symm.trans ((tracked.rows _).mpr here))
    · exact (Findings.handle_of_record? settled).symm.trans same
  obtain ⟨same, everywhere⟩ := tracked.whole position scope items read item member handle
  rw [same] at settled
  refine ⟨settled, Findings.handle_of_record? settled, ?_⟩
  intro target listed
  exact List.mem_filterMap.mpr ⟨⟨target, tx⟩, everywhere target listed, by simp [Findings.update?, settled]⟩

include submitted

theorem confirmed_of_record? {position : Nat} {told : Findings} {record : TxRecord}
    (asked : ∀ call ∈ told.calls, (position, call) ∈ s.calls) (settled : told.record? tx = some record) :
    s.ledger.checksUntilConfirm.toNat ≤ (s.calls.countP fun call => call.2.asks tx.handle) ∧
      ∃ t, record = tx.confirmed 0 t := by
  have tells := submitted.tells (sound_of_run run) (tracked.calls ▸ List.prefix_append _ _)
  obtain ⟨reply, found, further⟩ := Option.bind_eq_some_iff.mp settled
  rcases tells.answers position reply (asked _ (Findings.mem_calls_of_lookup found)) with
    rfl | ⟨enough, t, rfl⟩
  · simp [Except.toOption, TxRecord.advanced, TxOutcome.state] at further
  · rw [Findings.record?_of_confirmed submitted.waiting found] at settled
    exact ⟨enough, t, (Option.some.inj settled).symm⟩

theorem updatedBy_updates {position : Nat} {scope : Scope} {items : List PendingTx} {told : Findings}
    (read : (position, ⟨.query (.pending scope), .ok items⟩) ∈ s.calls) {target : TxRef}
    (listed : target ∈ targets) {t : Instant} (settled : told.record? tx = some (tx.confirmed 0 t))
    (made : ⟨target, tx.confirmed 0 t⟩ ∈ told.updates items) :
    Index.updatedBy (Index.recordsFor target (told.updates items)) tx = tx.confirmed 0 t := by
  apply Index.updatedBy_of_same
  · exact List.ne_nil_of_mem (Index.mem_recordsFor.mpr made)
  · intro other offered
    obtain ⟨also, -⟩ := tracked.record_of_update run read (Index.mem_recordsFor.mp offered) (.inl listed)
    exact Option.some.inj (also.symm.trans settled)
  · exact if_pos ⟨(Findings.isPending_iff.mp submitted.waiting).1, rfl⟩
  · simp [TxRecord.confirmed]

theorem commit (step : Step s later) {position : Nat} {updates : List TxUpdate}
    (calls : later.calls = s.calls ++ [(position, ⟨.commit (.applyTxUpdates updates), .ok ()⟩)])
    (brought : ∀ target, later.index.record? target =
      (s.index.record? target).map (Index.updatedBy (Index.recordsFor target updates))) :
    (∀ u ∈ updates, u.record.handle ≠ tx.handle) ∧
      (∀ target ∈ targets, later.index.record? target = s.index.record? target) ∨
    later.Confirmed targets tx ∧
      s.ledger.checksUntilConfirm.toNat ≤ s.calls.countP fun call => call.2.asks tx.handle := by
  have before {call : Exchange} (own : call ∈ own position later.calls)
      (other : call ≠ ⟨.commit (.applyTxUpdates updates), .ok ()⟩) : (position, call) ∈ s.calls := by
    rw [mem_own, calls, List.mem_append, List.mem_singleton] at own
    exact own.resolve_right fun same => other (Prod.mk.inj same).2
  have passed := passed_of_run (run.tail step) position
  obtain ⟨scope, items, told, read, asked, rfl⟩ := passed.committed
    (mem_own.mpr (calls ▸ List.mem_append_right _ List.mem_cons_self))
  have read := before read fun same => by cases same
  by_cases touching : ∃ u ∈ told.updates items, u.record.handle = tx.handle
  · right
    obtain ⟨u, made, own⟩ := touching
    obtain ⟨settled, handle, everywhere⟩ := tracked.record_of_update run read made (.inr own)
    have heard : ∀ call ∈ told.calls, (position, call) ∈ s.calls := by
      intro call listed
      refine before (asked listed) fun same => ?_
      obtain ⟨entry, -, rfl⟩ := List.mem_map.mp listed
      cases same
    obtain ⟨enough, t, same⟩ := tracked.confirmed_of_record? submitted run heard settled
    rw [same] at settled everywhere
    refine ⟨?_, enough⟩
    rcases tracked.records with shows | ⟨confirmed, -⟩
    · refine ⟨t, ?_⟩
      intro target listed
      rw [brought, shows target listed, Option.map_some]
      exact congrArg some (tracked.updatedBy_updates submitted run read listed settled (everywhere target listed))
    · exact confirmed.step run step
  · left
    refine ⟨fun u made own => touching ⟨u, made, own⟩, ?_⟩
    intro target listed
    have unspoken : Index.recordsFor target (told.updates items) = [] := by
      rw [List.eq_nil_iff_forall_not_mem]
      intro record offered
      have made := Index.mem_recordsFor.mp offered
      exact touching ⟨_, made, (tracked.record_of_update run read made (.inl listed)).2.1⟩
    rw [brought, unspoken]
    exact Option.map_id'

omit submitted run in
theorem record?_ne_none {target : TxRef} (listed : target ∈ targets) : s.index.record? target ≠ none := by
  intro absent
  have carried := (tracked.rows target).mpr listed
  rw [Index.handle?, absent] at carried
  cases carried

omit submitted in
theorem rows_step (filled : targets ≠ []) (step : Step s later) (target : TxRef) :
    later.index.handle? target = some tx.handle ↔ target ∈ targets := by
  refine ⟨?_, fun listed => step.handle?_eq run ((tracked.rows target).mpr listed)⟩
  intro carried
  rw [← tracked.rows]
  cases step.records run with
  | unchanged same =>
      rw [← carried]
      exact congrArg (Option.map _) (same target).symm
  | updates _ brought =>
      rw [← carried, Index.handle?, Index.handle?, brought, Option.map_map]
      congr 1
      funext r
      exact (Index.updatedBy_becomes _ r).handle.symm
  | @carries position change other _ _ accounts _ receives =>
      rw [receives.fills.filled] at carried
      split at carried
      · obtain ⟨place, listed⟩ := List.exists_mem_of_ne_nil targets filled
        have held := (tracked.rows place).mpr listed
        rw [← Option.some.inj carried, accounts.rows] at held
        cases held
      · exact carried

theorem records_step (step : Step s later) :
    (∀ target ∈ targets, later.index.record? target = s.index.record? target) ∨
    later.Confirmed targets tx ∧
      s.ledger.checksUntilConfirm.toNat ≤ s.calls.countP fun call => call.2.asks tx.handle := by
  cases step.records run with
  | unchanged same => exact .inl fun target _ => same target
  | updates calls brought => exact (tracked.commit submitted run step calls brought).imp_left And.right
  | carries _ _ _ _ receives =>
      left
      intro target listed
      rw [receives.filled, if_neg]
      exact fun here => tracked.record?_ne_none listed (receives.free target here)

theorem pending_cases (scope : Scope) :
    (∀ item ∈ s.index.pending scope, item.record.handle = tx.handle → item.record = tx ∧
      ∀ target ∈ targets, ⟨target, tx⟩ ∈ s.index.pending scope) ∧
    (s.Confirmed targets tx → ∀ item ∈ s.index.pending scope, item.record.handle ≠ tx.handle) ∧
    ∀ target ∈ targets, scope.contains target.event →
      ⟨target, tx⟩ ∈ s.index.pending scope ∨ s.Confirmed targets tx := by
  have keyed := (made_of_run run).lifecycle.toKeyed
  have place {item : PendingTx} (member : item ∈ s.index.pending scope)
      (same : item.record.handle = tx.handle) : item.target ∈ targets := by
    obtain ⟨-, found, -⟩ := (Index.mem_pending_iff keyed).mp member
    rw [← tracked.rows, Index.handle?, found, Option.map_some, same]
  have unlisted (confirmed : s.Confirmed targets tx) :
      ∀ item ∈ s.index.pending scope, item.record.handle ≠ tx.handle := by
    intro item member same
    obtain ⟨-, found, pending⟩ := (Index.mem_pending_iff keyed).mp member
    obtain ⟨t, shows⟩ := confirmed
    rw [← Option.some.inj ((shows _ (place member same)).symm.trans found)] at pending
    cases (Findings.isPending_iff.mp pending).1
  have listed (shows : s.Shows targets tx) {target : TxRef} (here : target ∈ targets)
      (covered : scope.contains target.event) : ⟨target, tx⟩ ∈ s.index.pending scope :=
    (Index.mem_pending_iff keyed).mpr ⟨covered, shows target here, submitted.waiting⟩
  refine ⟨?_, unlisted, ?_⟩
  · intro item member same
    rcases tracked.records with shows | ⟨confirmed, -⟩
    · obtain ⟨covered, found, -⟩ := (Index.mem_pending_iff keyed).mp member
      have here := place member same
      refine ⟨Option.some.inj (found.symm.trans (shows _ here)), ?_⟩
      intro target there
      exact listed shows there (submitted.event _ here _ there ▸ covered)
    · exact (unlisted confirmed item member same).elim
  · intro target here covered
    exact tracked.records.imp (fun shows => listed shows here covered) And.left

theorem step (step : Step s later) : ∃ since, Tracked tx targets past since later := by
  obtain ⟨more, grown, news⟩ := step.read
  refine ⟨since ++ more, ?_, tracked.rows_step run submitted.filled step, ?_, ?_, ?_, ?_⟩
  · rw [grown, tracked.calls, List.append_assoc]
  · intro position scope items listed
    rw [grown] at listed
    rcases List.mem_append.mp listed with old | new
    · exact tracked.whole position scope items old
    · obtain rfl := Except.ok.inj (news position scope _ new)
      exact (tracked.pending_cases submitted run scope).1
  · intro position scope items listed target here covered
    rcases List.mem_append.mp listed with old | new
    · exact (tracked.listed position scope items old target here covered).imp_right (·.step run step)
    · obtain rfl := Except.ok.inj (news position scope _ new)
      exact ((tracked.pending_cases submitted run scope).2.2 target here covered).imp_right
        (·.step run step)
  · have counted : s.ledger.checksUntilConfirm.toNat ≤ (s.calls.countP fun call => call.2.asks tx.handle) →
        later.ledger.checksUntilConfirm.toNat ≤ later.calls.countP fun call => call.2.asks tx.handle := by
      rw [checksUntilConfirm_of_run run, checksUntilConfirm_of_run (run.tail step), grown, List.countP_append]
      exact Nat.le_add_right_of_le
    rcases tracked.records_step submitted run step with same | ⟨confirmed, enough⟩
    · rcases tracked.records with shows | ⟨confirmed, enough⟩
      · exact .inl fun target here => (same target here).trans (shows target here)
      · exact .inr ⟨confirmed.step run step, counted enough⟩
    · exact .inr ⟨confirmed, counted enough⟩
  · intro position updates reply listed u made own
    rcases step.commit listed with old | ⟨calls, brought⟩
    · exact (tracked.commits position updates reply old u made own).step run step
    · rcases tracked.commit submitted run step calls brought with ⟨unspoken, -⟩ | ⟨confirmed, -⟩
      · exact (unspoken u made own).elim
      · exact confirmed

theorem of_run (onward : Relation.ReflTransGen Step s later) :
    ∃ since, Tracked tx targets past since later := by
  induction onward with
  | refl => exact ⟨since, tracked⟩
  | tail between step ih =>
      obtain ⟨since, tracked⟩ := ih
      exact tracked.step submitted (run.trans between) step

theorem reads_of_asks {position : Nat} {reply : Except LedgerError TxCheck}
    (asked : (position, ⟨.check tx.handle, reply⟩) ∈ s.calls) {target : TxRef} (here : target ∈ targets) :
    ∃ (scope : Scope) (items : List PendingTx),
      (position, ⟨.query (.pending scope), .ok items⟩) ∈ since ∧ scope.contains target.event ∧
      ∃ item ∈ items, item.record.handle = tx.handle := by
  obtain ⟨scope, items, read, item, member, same, covered, carried⟩ := (sound_of_run run).carried run asked
  rw [tracked.calls] at read
  have recent := (List.mem_append.mp read).resolve_left fun early =>
    submitted.unread position scope items early item member same
  refine ⟨scope, items, recent, ?_, item, member, same⟩
  rw [← submitted.event target here item.target ((tracked.rows _).mp carried)]
  exact covered

theorem countP_asks_le {target : TxRef} (here : target ∈ targets) :
    (s.calls.countP fun call => call.2.asks tx.handle) ≤ (begun target.event since).length := by
  rw [← length_positions]
  apply (positions_nodup fun position => (passed_of_run run position).countP_asks tx.handle).length_le_of_subset
  intro position asked
  obtain ⟨call, listed, asks⟩ := mem_positions.mp asked
  obtain ⟨reply, rfl⟩ := Exchange.eq_of_asks asks
  obtain ⟨scope, items, read, covered, -⟩ := tracked.reads_of_asks submitted run listed here
  exact mem_positions.mpr ⟨_, read, covered⟩

omit submitted in
theorem begun_nodup (event : EventId) : (begun event since).Nodup := by
  refine positions_nodup fun position => Nat.le_trans ?_ ((passed_of_run run position).countP_reads event)
  rw [tracked.calls, own_append, List.countP_append]
  exact Nat.le_add_left _ _

/-- Unless the transaction is confirmed, every pass that has ended has been told that it is open. -/
theorem length_ended_le (unconfirmed : ¬s.Confirmed targets tx) {target : TxRef} (here : target ∈ targets) :
    (s.ended target.event since).length ≤ s.calls.countP fun call => call.2.leavesOpen tx.handle := by
  rw [← length_positions]
  apply ((tracked.begun_nodup run target.event).filter _).length_le_of_subset
  intro position ended
  obtain ⟨begun, left⟩ := List.mem_filter.mp ended
  obtain ⟨call, listed, reads⟩ := mem_positions.mp begun
  obtain ⟨scope, reply, rfl, covered⟩ := Exchange.eq_of_reads reads
  have read : (position, (⟨.query (.pending scope), reply⟩ : Exchange)) ∈ s.calls :=
    tracked.calls ▸ List.mem_append_right _ listed
  obtain ⟨items, rfl, -⟩ := (sound_of_run run).reads position scope reply read
  obtain ⟨told, asked, made⟩ := concluded_of_run run (by simpa using left) read
  have item := (tracked.listed position scope items listed target here covered).resolve_right unconfirmed
  obtain ⟨answer, found, heard⟩ := asked _ item
  have tells := submitted.tells (sound_of_run run) (tracked.calls ▸ List.prefix_append _ _)
  rcases tells.answers position answer heard with rfl | ⟨-, t, rfl⟩
  · exact mem_positions.mpr ⟨_, heard, by simp [Exchange.leavesOpen, TxOutcome.state]⟩
  · -- What it was told was committed, and has confirmed the transaction.
    have settled := Findings.record?_of_confirmed submitted.waiting found
    have update : ⟨target, tx.confirmed 0 t⟩ ∈ told.updates items :=
      List.mem_filterMap.mpr ⟨_, item, by simp [Findings.update?, settled]⟩
    obtain ⟨reply, committed⟩ := made (List.ne_nil_of_mem update)
    exact (unconfirmed (tracked.commits position _ reply committed _ update rfl)).elim

theorem unread_of_confirmed (confirmed : s.Confirmed targets tx)
    (onward : Relation.ReflTransGen Step s later) : ∃ more, later.calls = s.calls ++ more ∧
      ∀ position scope (items : List PendingTx),
        (position, ⟨.query (.pending scope), .ok items⟩) ∈ more →
          ∀ item ∈ items, item.record.handle ≠ tx.handle := by
  suffices both : later.Confirmed targets tx ∧ ∃ more, later.calls = s.calls ++ more ∧
      ∀ position scope (items : List PendingTx),
        (position, ⟨.query (.pending scope), .ok items⟩) ∈ more →
          ∀ item ∈ items, item.record.handle ≠ tx.handle from both.2
  induction onward with
  | refl => exact ⟨confirmed, [], (List.append_nil _).symm, nofun⟩
  | tail between step ih =>
      obtain ⟨confirmed, more, grown, unread⟩ := ih
      obtain ⟨since, tracked⟩ := tracked.of_run submitted run between
      have run := run.trans between
      obtain ⟨new, added, news⟩ := step.read
      refine ⟨confirmed.step run step, more ++ new, ?_, ?_⟩
      · rw [added, grown, List.append_assoc]
      · intro position scope items listed
        rcases List.mem_append.mp listed with old | new
        · exact unread position scope items old
        · obtain rfl := Except.ok.inj (news position scope _ new)
          exact (tracked.pending_cases submitted run scope).2.1 confirmed

theorem reads_of_later_asks (confirmed : s.Confirmed targets tx)
    (onward : Relation.ReflTransGen Step s later) {more : List (Nat × Exchange)}
    (grown : later.calls = s.calls ++ more) {position : Nat} {reply : Except LedgerError TxCheck}
    (asks : (position, ⟨.check tx.handle, reply⟩) ∈ more) {target : TxRef} (here : target ∈ targets) :
    ∃ (scope : Scope) (items : List PendingTx),
      (position, ⟨.query (.pending scope), .ok items⟩) ∈ since ∧ scope.contains target.event ∧
      ∃ item ∈ items, item.record.handle = tx.handle := by
  obtain ⟨others, same, unread⟩ := tracked.unread_of_confirmed submitted run confirmed onward
  obtain rfl := List.append_cancel_left (same.symm.trans grown)
  obtain ⟨all, further⟩ := tracked.of_run submitted run onward
  obtain rfl : all = since ++ others := by
    rw [further.calls, tracked.calls, List.append_assoc] at grown
    exact List.append_cancel_left grown
  have asked : (position, (⟨.check tx.handle, reply⟩ : Exchange)) ∈ later.calls :=
    grown ▸ List.mem_append_right _ asks
  obtain ⟨scope, items, read, covered, item, member, own⟩ :=
    further.reads_of_asks submitted (run.trans onward) asked here
  rcases List.mem_append.mp read with before | after
  · exact ⟨scope, items, before, covered, item, member, own⟩
  · exact (unread position scope items after item member own).elim

theorem underway_of_asks (confirmed : s.Confirmed targets tx) (onward : Relation.ReflTransGen Step s later)
    {more : List (Nat × Exchange)} (grown : later.calls = s.calls ++ more) {position : Nat}
    {reply : Except LedgerError TxCheck} (asks : (position, ⟨.check tx.handle, reply⟩) ∈ more)
    {target : TxRef} (here : target ∈ targets) :
    position ∈ begun target.event since ∧ position ∉ s.ended target.event since := by
  obtain ⟨scope, items, read, covered, item, member, same⟩ :=
    tracked.reads_of_later_asks submitted run confirmed onward grown asks here
  refine ⟨mem_positions.mpr ⟨_, read, covered⟩, ?_⟩
  intro ended
  -- The pass has asked before it ended, and would ask twice.
  obtain ⟨-, left⟩ := List.mem_filter.mp ended
  obtain ⟨told, heard, -⟩ := concluded_of_run run (by simpa using left)
    (tracked.calls ▸ List.mem_append_right _ read)
  obtain ⟨answer, -, first⟩ := heard item member
  have once := (passed_of_run (run.trans onward) position).countP_asks item.record.handle
  have early : 0 < (own position s.calls).countP (·.asks item.record.handle) :=
    List.countP_pos_iff.mpr ⟨_, mem_own.mpr first, Exchange.asks_check _ _⟩
  have late : 0 < (own position more).countP (·.asks item.record.handle) :=
    List.countP_pos_iff.mpr ⟨_, mem_own.mpr (same ▸ asks), Exchange.asks_check _ _⟩
  rw [grown, own_append, List.countP_append] at once
  omega

end Step

end Tracked

theorem tracked_of_commit {before : Simulation}
    (run : Relation.ReflTransGen Step (start checksUntilConfirm) before) (step : Step before s)
    {target : TxRef} (absent : before.index.record? target = none)
    (present : s.index.record? target = some tx) (waiting : tx.state = .submitted) :
    ∃ targets, target ∈ targets ∧ Submitted tx targets s.calls ∧ Tracked tx targets s.calls [] s := by
  cases step.records run with
  | unchanged same => cases absent.symm.trans ((same target).symm.trans present)
  | updates _ brought =>
      rw [brought, absent] at present
      cases present
  | @carries position change other calls held accounts carries receives =>
      have here : target ∈ change.targets := by
        by_contra elsewhere
        rw [receives.filled, if_neg elsewhere, absent] at present
        cases present
      obtain rfl : other = tx := by
        rw [receives.filled, if_pos here] at present
        exact Option.some.inj present
      have sound := sound_of_run run
      have before_calls {call : Nat × Exchange} (listed : call ∈ s.calls)
          (unlike : call.2.request ≠ .commit change) : call ∈ before.calls := by
        rw [calls] at listed
        refine (List.mem_append.mp listed).resolve_right fun new => unlike ?_
        rw [List.mem_singleton.mp new]
      obtain ⟨action, payload, mode, r, accepted, same⟩ := Stage.submitted_of_holding held
      have accepted := mem_own.mp accepted
      have free : other.fee = none := by
        rw [same] at waiting ⊢
        exact (sound.tells_of_submitted accepted waiting).1
      have unread : ∀ position scope (items : List PendingTx),
          (position, ⟨.query (.pending scope), .ok items⟩) ∈ s.calls →
            ∀ item ∈ items, item.record.handle ≠ other.handle := by
        intro reader scope items read
        refine sound.unread (fun target carried => ?_) (before_calls read nofun)
        cases (accounts.rows target).mp carried
      refine ⟨change.targets, here, ⟨?_, ?_, carries.targets_ne_nil, ?_, unread⟩, ?_⟩
      · exact Findings.isPending_iff.mpr ⟨waiting, free⟩
      · exact ⟨position, action, payload, mode, r, calls ▸ List.mem_append_left _ accepted, same⟩
      · exact fun target here place there => Change.event_eq_of_targets here there
      refine ⟨(List.append_nil _).symm, ?_, ?_, nofun, ?_, ?_⟩
      · intro place
        rw [receives.fills.filled]
        by_cases listed : place ∈ change.targets
        · simp [listed]
        · simpa [listed] using accounts.rows place
      · intro reader scope items listed item member same
        exact (unread reader scope items listed item member same).elim
      · left
        intro place listed
        rw [receives.filled, if_pos listed]
      · intro committer updates reply listed u made own
        obtain ⟨scope, items, told, read, -, rfl⟩ :=
          (passed_of_run (run.tail step) committer).committed (mem_own.mpr listed)
        obtain ⟨item, member, advanced⟩ := List.mem_filterMap.mp made
        obtain ⟨record, settled, rfl⟩ := Option.map_eq_some_iff.mp advanced
        exact (unread committer scope items (mem_own.mp read) item member
          ((Findings.handle_of_record? settled).symm.trans own)).elim

theorem asked_of_run {first : Simulation} (run : Relation.ReflTransGen Step first s) {scope : Scope}
    {item : PendingTx} (alone : s.index.pending scope = [item]) {reply : Except LedgerError TxCheck}
    {ledger : SimulatedLedger}
    (told : Responds s.index s.issued s.ledger (.check item.record.handle) reply s.index s.issued ledger) :
    Relation.ReflTransGen Step first
      ⟨⟨s.index, s.issued, s.callers ++
          [⟨.reconcile scope, (conclude [item] [(item.record.handle, reply)]).run, []⟩]⟩, ledger,
        s.calls ++ [(s.callers.length, ⟨.query (.pending scope), .ok [item]⟩)] ++
          [(s.callers.length, ⟨.check item.record.handle, reply⟩)]⟩ := by
  let reconciling : Operation ReconcileReport := do
    let items : List PendingTx ← Operation.query (.pending scope)
    let told ← askAll (firsts (items.map (·.record.handle)))
    conclude items told
  have entered : Relation.ReflTransGen Step first
      { s with callers := s.callers ++ [⟨.reconcile scope, reconciling.run, []⟩] } := by
    have same : Operation.reconcile scope = reconciling := reconcile_eq_askAll scope
    rw [← same]
    exact run.tail (.enter .standard (.reconcile scope))
  have read : Relation.ReflTransGen Step first
      ⟨⟨s.index, s.issued, s.callers ++ [⟨.reconcile scope,
          (askAll (firsts ((s.index.pending scope).map (·.record.handle))) >>=
            conclude (s.index.pending scope)).run, []⟩]⟩, s.ledger,
        s.calls ++ [(s.callers.length, ⟨.query (.pending scope), .ok (s.index.pending scope)⟩)]⟩ :=
    call_of_last _ entered (.query (.pending scope))
  rw [alone] at read
  exact call_of_last _ read told

theorem open_pass_of_run {first : Simulation} (run : Relation.ReflTransGen Step first s) {scope : Scope}
    {item : PendingTx} (alone : s.index.pending scope = [item]) {ledger : SimulatedLedger}
    (told : Responds s.index s.issued s.ledger (.check item.record.handle) (.ok ⟨none, .submitted⟩)
      s.index s.issued ledger) :
    ∃ caller : Caller, caller.rest.inPass = false ∧ Relation.ReflTransGen Step first
      ⟨⟨s.index, s.issued, s.callers ++ [caller]⟩, ledger,
        s.calls ++ [(s.callers.length, ⟨.query (.pending scope), .ok [item]⟩),
          (s.callers.length, ⟨.check item.record.handle, .ok ⟨none, .submitted⟩⟩)]⟩ := by
  let told_open : Findings := [(item.record.handle, .ok ⟨none, .submitted⟩)]
  have nothing : told_open.updates [item] = [] := by
    simp [told_open, Findings.updates, Findings.update?, Findings.record?, Except.toOption,
      TxRecord.advanced, TxOutcome.state]
  have asked := asked_of_run run alone told
  rw [conclude, if_neg (not_not_intro nothing), List.append_assoc] at asked
  exact ⟨_, rfl, asked⟩

theorem settling_pass_of_run {first : Simulation} (run : Relation.ReflTransGen Step first s)
    {scope : Scope} {item : PendingTx} (alone : s.index.pending scope = [item])
    (waiting : item.record.isPending) {ledger : SimulatedLedger} {t : Instant}
    (told : Responds s.index s.issued s.ledger (.check item.record.handle) (.ok ⟨some 0, .confirmed t⟩)
      s.index s.issued ledger) :
    ∃ (caller : Caller) (index : Index), caller.rest.inPass = false ∧
      Relation.ReflTransGen Step first
        ⟨⟨index, s.issued, s.callers ++ [caller]⟩, ledger,
          s.calls ++ [(s.callers.length, ⟨.query (.pending scope), .ok [item]⟩),
            (s.callers.length, ⟨.check item.record.handle, .ok ⟨some 0, .confirmed t⟩⟩),
            (s.callers.length,
              ⟨.commit (.applyTxUpdates [⟨item.target, item.record.confirmed 0 t⟩]), .ok ()⟩)]⟩ := by
  let told_confirmed : Findings := [(item.record.handle, .ok ⟨some 0, .confirmed t⟩)]
  have settled : told_confirmed.updates [item] = [⟨item.target, item.record.confirmed 0 t⟩] := by
    have found : told_confirmed.record? item.record = some (item.record.confirmed 0 t) :=
      Findings.record?_of_confirmed waiting List.lookup_cons_self
    simp [Findings.updates, Findings.update?, found]
  have asked := asked_of_run run alone told
  rw [conclude, settled, if_pos (List.cons_ne_nil _ _)] at asked
  have made := call_of_last _ asked (.commit _)
  rw [List.append_assoc, List.append_assoc] at made
  exact ⟨_, _, rfl, made⟩

def hourEvent (handle : TxHandle) : Event :=
  ⟨⟨"DR-1"⟩, .ofSeconds 0, .ofSeconds 3600, 100, 1, 1, .active,
    ⟨handle, none, .submitted, .ofSeconds 0, none, none⟩, none, .ofSeconds 1, none, none⟩

theorem hourEvent_of_run : ∃ handle creator calls before,
    Relation.ReflTransGen Step (start 2) before ∧ before.index = .empty ∧
    Step before ⟨⟨Index.empty.apply (.insertEvent (hourEvent handle)), [handle], [creator]⟩,
      ⟨2, 1, [(handle, 0)]⟩, calls⟩ := by
  obtain ⟨handle, accepted⟩ : ∃ handle, Responds .empty [] (.new 2)
      (.submit .createEvent System.hourPlan.announcement .hybrid)
      (.ok ⟨handle, none, .submitted, .ofSeconds 0⟩) .empty [handle] ⟨2, 1, [(handle, 0)]⟩ :=
    ⟨_, .submit (.ofSeconds 0) .createEvent _ .hybrid List.not_mem_nil⟩
  have entered := Relation.ReflTransGen.single
    (Step.enter .standard (.createEvent System.hourPlan) : Step (start 2) _)
  have asked := call_of_last [] entered (.query (.event System.hourPlan.id))
  have submitted := call_of_last [] asked accepted
  have timed := call_of_last [] submitted (.now (.ofSeconds 1))
  exact ⟨handle, _, _, _, timed, rfl, @Step.call _ 0 (.createEvent System.hourPlan)
    (.commit (.insertEvent (hourEvent handle))) _ [handle] _ _ _ _ rfl (.commit _)⟩

/-- A transaction stays as it was while fewer passes have begun than the ledger takes checks, and is
confirmed once that many have ended. -/
theorem confirmed_by_passes (some_ : 0 < checksUntilConfirm) {before : Simulation}
    (run : Relation.ReflTransGen Step (start checksUntilConfirm) before) (step : Step before s)
    {target : TxRef} (absent : before.index.record? target = none)
    (present : s.index.record? target = some tx) (waiting : tx.state = .submitted)
    (onward : Relation.ReflTransGen Step s later) :
    ∃ since r, later.calls = s.calls ++ since ∧ later.index.record? target = some r ∧
      ((begun target.event since).length < checksUntilConfirm.toNat → r = tx ∧ tx.fee = none) ∧
      (checksUntilConfirm.toNat ≤ (later.ended target.event since).length →
        r.state = .confirmed ∧ r.fee = some 0) ∧
      (r.state ≠ .submitted → ∀ last more, Relation.ReflTransGen Step later last →
        last.calls = later.calls ++ more → ∀ position reply,
          (position, ⟨.check tx.handle, reply⟩) ∈ more →
            position ∈ begun target.event since ∧ position ∉ later.ended target.event since) := by
  obtain ⟨targets, here, submitted, tracked⟩ := tracked_of_commit run step absent present waiting
  have run := run.tail step
  obtain ⟨since, tracked⟩ := tracked.of_run submitted run onward
  have run := run.trans onward
  have constant := checksUntilConfirm_of_run run
  have positive : 0 < checksUntilConfirm.toNat := UInt32.lt_iff_toNat_lt.mp some_
  have asked := tracked.countP_asks_le submitted run here
  rcases tracked.records with shows | ⟨⟨t, shows⟩, enough⟩
  · refine ⟨since, tx, tracked.calls, shows target here, ?_, ?_, fun settled => (settled waiting).elim⟩
    · exact fun _ => ⟨rfl, (Findings.isPending_iff.mp submitted.waiting).2⟩
    · intro passed
      have unconfirmed : ¬later.Confirmed targets tx := by
        rintro ⟨t, confirmed⟩
        have same := Option.some.inj ((shows target here).symm.trans (confirmed target here))
        rw [same] at waiting
        cases waiting
      have most := tracked.length_ended_le submitted run unconfirmed here
      have tells := submitted.tells (sound_of_run run) (tracked.calls ▸ List.prefix_append _ _)
      rw [tells.unconfirmed, constant] at most
      omega
  · rw [constant] at enough
    refine ⟨since, tx.confirmed 0 t, tracked.calls, shows target here, ?_, fun _ => ⟨rfl, rfl⟩, ?_⟩
    · intro few
      omega
    · intro _ last more further grown position reply asks
      exact tracked.underway_of_asks submitted run ⟨t, shows⟩ further grown asks here

theorem confirmed_by_two_passes : ∃ s between later tx r, Relation.ReflTransGen Step (start 2) s ∧
    Relation.ReflTransGen Step s between ∧ Relation.ReflTransGen Step between later ∧
    between.index.record? ⟨System.hourPlan.id, .create⟩ = some tx ∧ tx.state = .submitted ∧
    later.index.record? ⟨System.hourPlan.id, .create⟩ = some r ∧ r.state = .confirmed ∧
    r.fee = some 0 := by
  obtain ⟨handle, creator, calls, before, run, empty, step⟩ := hourEvent_of_run
  let event := hourEvent handle
  let index := Index.empty.apply (.insertEvent event)
  let s : Simulation := ⟨⟨index, [handle], [creator]⟩, ⟨2, 1, [(handle, 0)]⟩, calls⟩
  have absent : before.index.record? ⟨event.id, .create⟩ = none := by
    rw [empty]
    rfl
  have present : s.index.record? ⟨event.id, .create⟩ = some event.createTx := by
    have stored : index.events.get? event.id = some event :=
      Table.get?_eq_some_iff.mpr List.mem_cons_self
    rw [Index.record?, stored]
    rfl
  have alone : s.index.pending .all = [⟨⟨event.id, .create⟩, event.createTx⟩] := rfl
  have first : Responds index [handle] ⟨2, 1, [(handle, 0)]⟩ (.check handle) (.ok ⟨none, .submitted⟩)
      index [handle] ⟨2, 1, [(handle, 1)]⟩ := by
    have responds := @Responds.check index [handle] ⟨2, 1, [(handle, 0)]⟩ (.ofSeconds 2) handle
    simpa [SimulatedLedger.check] using responds
  have second : Responds index [handle] ⟨2, 1, [(handle, 1)]⟩ (.check handle)
      (.ok ⟨some 0, .confirmed (.ofSeconds 3)⟩) index [handle] ⟨2, 1, []⟩ := by
    have responds := @Responds.check index [handle] ⟨2, 1, [(handle, 1)]⟩ (.ofSeconds 3) handle
    simpa [SimulatedLedger.check] using responds
  obtain ⟨reader, ended_once, once⟩ :=
    open_pass_of_run (.refl : Relation.ReflTransGen Step s s) alone first
  let between : Simulation := ⟨⟨index, [handle], [creator, reader]⟩, ⟨2, 1, [(handle, 1)]⟩, calls ++
    [(1, ⟨.query (.pending .all), .ok [⟨⟨event.id, .create⟩, event.createTx⟩]⟩),
      (1, ⟨.check handle, .ok ⟨none, .submitted⟩⟩)]⟩
  have once : Relation.ReflTransGen Step s between := once
  obtain ⟨other, settled, ended_twice, twice⟩ :=
    settling_pass_of_run (.refl : Relation.ReflTransGen Step between between) alone rfl second
  obtain ⟨_, r, grown, found, few, -⟩ :=
    confirmed_by_passes Nat.zero_lt_two run step absent present rfl once
  obtain rfl := List.append_cancel_left grown
  obtain ⟨rfl, -⟩ := few Nat.one_lt_two
  obtain ⟨_, r, grown, confirmed, -, enough, -⟩ :=
    confirmed_by_passes Nat.zero_lt_two run step absent present rfl (once.trans twice)
  obtain rfl := List.append_cancel_left ((List.append_assoc _ _ _).symm.trans grown)
  obtain ⟨state, fee⟩ := enough (by
    change 2 ≤ ([1, 2].filter fun position => !inPass _ position).length
    simp [inPass, between, ended_once, ended_twice])
  exact ⟨s, between, _, event.createTx, r, run.tail step, once, twice, found, rfl, confirmed, state,
    fee⟩

end Simulation

end Curtail
