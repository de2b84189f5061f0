import Curtail.Proofs.Engine.Task
import Curtail.Proofs.Index.Lifecycle

namespace Curtail

def EventPlan.event (plan : EventPlan) (tx : TxRecord) (createdAt : Instant) : Event :=
  ⟨plan.id, plan.start, plan.stop, plan.target, plan.rewardRate, plan.penaltyRate, .active, tx, none,
    createdAt, none, none⟩

def Submission.input (s : Submission) (submittedAt : Instant) : PayloadInput :=
  ⟨s.event, s.site, s.baseline, s.actual, s.method, s.raw, submittedAt⟩

def Submission.proof (s : Submission) (payload : Payload) (tx : TxRecord) (submittedAt : Instant) :
    Proof :=
  ⟨s.event, s.site, s.baseline, s.actual, payload.reduction, s.method, s.uri, payload.text, payload.hash,
    tx, s.submitter, submittedAt⟩

def Event.payout (e : Event) (share : UInt64) (p : Proof) : Int64 :=
  Scoring.payout p.reduction share e.rewardRate e.penaltyRate

def Index.sitesToSettle (index : Index) (id : EventId) (requested : List SiteId) : List SiteId :=
  if requested = [] then sitesOf index.proofs id else firsts requested

namespace Task

def scope? : Task → Option Scope
  | .reconcile scope => some scope
  | .getEvent id | .listSettlements id | .getSummary id => some (.event id)
  | .getProof key => some (.event key.event)
  | _ => none

/-- The changes that a task may bring to an index that accepts them. -/
inductive Makes (index : Index) : Task → Change → Prop
  | createEvent {plan : EventPlan} {tx : TxRecord} {createdAt : Instant} :
      plan.start < plan.stop → tx.Coherent →
      Makes index (.createEvent plan) (.insertEvent (plan.event tx createdAt))
  | closeEvent {id : EventId} {tx : TxRecord} {closedAt : Instant} : tx.Coherent →
      Makes index (.closeEvent id) (.closeEvent id tx closedAt)
  | submitProof {s : Submission} {payload : Payload} {tx : TxRecord} {submittedAt : Instant} :
      Payload.of? (s.input submittedAt) = .ok payload → tx.Coherent →
      Makes index (.submitProof s) (.insertProof (s.proof payload tx submittedAt))
  | settleEvent {id : EventId} {requested : List SiteId} {event : Event} {share : UInt64}
      {payouts : List (SiteId × Int64)} {tx : TxRecord} {settledAt : Instant} :
      index.events.get? id = some event →
      Scoring.targetShare event.target (index.sitesToSettle id requested).length = some share →
      payouts.map (·.1) = index.sitesToSettle id requested →
      (∀ pay ∈ payouts, ∃ p, index.proofs.get? ⟨id, pay.1⟩ = some p ∧ pay.2 = event.payout share p) →
      tx.Coherent →
      Makes index (.settleEvent id requested)
        (.settleEvent id (payouts.map (.ofPayout id tx settledAt)) settledAt)
  | claimReward {key : SiteKey} {claimant : ActorId} {proof : Proof} {tx : TxRecord}
      {claimedAt : Instant} :
      index.proofs.get? key = some proof → proof.submitter = claimant → tx.Coherent →
      Makes index (.claimReward key claimant) (.claimSettlement key.event key.site tx claimedAt)
  | getAudit {key : SiteKey} {requestedAt : Instant} :
      Makes index (.getAudit key) (.upsertAudit ⟨key.event, key.site, requestedAt⟩)
  | reconcile {task : Task} {scope : Scope} {updates : List TxUpdate} : task.scope? = some scope →
      (∀ u ∈ updates, u.record.Coherent) → index.Unites updates →
      Makes index task (.applyTxUpdates updates)
  | recordOrphan {task : Task} {orphan : Orphan} :
      task.subject = some (orphan.action, orphan.event, orphan.site) → orphan.tx.Coherent →
      Makes index task (.recordOrphan orphan)

end Task

namespace Index

inductive MadeBy : Index → List (Task × Change) → Prop
  | empty : MadeBy .empty []
  | change {index : Index} {history : List (Task × Change)} {task : Task} {change : Change} :
      MadeBy index history → index.Allows change → task.Makes index change →
      MadeBy (index.apply change) (history ++ [(task, change)])

variable {index later : Index} {history : List (Task × Change)} {task : Task} {change : Change}

theorem targetShare_eq_some {target share : UInt64} {sites : Nat}
    (shared : Scoring.targetShare target sites = some share) :
    sites ≠ 0 ∧ share.toNat = target.toNat / sites := by
  unfold Scoring.targetShare at shared
  split at shared
  · cases shared
  · rename_i filled
    obtain rfl := Option.some.inj shared
    refine ⟨filled, ?_⟩
    have small : target.toNat / sites < 2 ^ 64 :=
      Nat.lt_of_le_of_lt (Nat.div_le_self _ _) target.toNat_lt
    rw [UInt64.toNat_ofNat_of_lt' small]

theorem Lifecycle.makes (lifecycle : index.Lifecycle) (allowed : index.Allows change)
    (makes : task.Makes index change) : (index.apply change).Lifecycle := by
  cases makes with
  | createEvent window coherent =>
      refine lifecycle.insertEvent allowed ⟨window, coherent, nofun, ?_, ?_, ?_⟩ rfl
      all_goals simp [EventPlan.event]
  | closeEvent coherent => exact lifecycle.closeEvent allowed coherent
  | submitProof given coherent => exact lifecycle.insertProof allowed coherent
  | settleEvent here shared listed paid coherent =>
      refine lifecycle.settleEvent allowed ?_ coherent
      rintro rfl
      rw [← listed] at shared
      exact (targetShare_eq_some shared).1 rfl
  | claimReward proven own coherent => exact lifecycle.claimSettlement allowed coherent
  | getAudit => exact lifecycle.upsertAudit allowed
  | reconcile inScope coherent unites => exact lifecycle.applyTxUpdates coherent unites
  | recordOrphan own coherent => exact lifecycle.recordOrphan coherent

theorem MadeBy.lifecycle (made : index.MadeBy history) : index.Lifecycle := by
  induction made with
  | empty => exact lifecycle_empty
  | change _ allowed makes ih => exact ih.makes allowed makes

def Pays (index : Index) (id : EventId) (e : Event) : Prop :=
  ∃ share, Scoring.targetShare e.target (sitesOf index.settlements id).length = some share ∧
    ∀ site s, index.settlements.get? ⟨id, site⟩ = some s →
      ∃ p, index.proofs.get? ⟨id, site⟩ = some p ∧ s.payout = e.payout share p

theorem sitesOf_settlements_onward (onward : index.Onward later) {id : EventId} {e : Event}
    (found : index.events.get? id = some e) (done : e.status = .settled) :
    sitesOf later.settlements id = sitesOf index.settlements id := by
  apply sitesOf_congr
  intro site
  refine ⟨onward.settled id e site found done, ?_⟩
  intro present
  obtain ⟨s, here⟩ := Option.ne_none_iff_exists'.mp present
  obtain ⟨t, there, -⟩ := onward.settlements _ s here
  simp [there]

theorem sitesOf_proofs_onward (onward : index.Onward later) {id : EventId} {e : Event}
    (found : index.events.get? id = some e) (past : e.status ≠ .active) :
    sitesOf later.proofs id = sitesOf index.proofs id := by
  apply sitesOf_congr
  intro site
  refine ⟨onward.proven id e site found past, ?_⟩
  intro present
  obtain ⟨p, here⟩ := Option.ne_none_iff_exists'.mp present
  obtain ⟨q, there, -⟩ := onward.proofs _ p here
  simp [there]

theorem sitesToSettle_onward (onward : index.Onward later) {id : EventId} {e : Event}
    (found : index.events.get? id = some e) (past : e.status ≠ .active) (requested : List SiteId) :
    later.sitesToSettle id requested = index.sitesToSettle id requested := by
  unfold sitesToSettle
  rw [sitesOf_proofs_onward onward found past]

theorem sitesToSettle_nodup (id : EventId) (requested : List SiteId) :
    (index.sitesToSettle id requested).Nodup := by
  unfold sitesToSettle
  split
  · exact sitesOf_nodup _ _
  · exact firsts_nodup _

end Index

theorem Event.Becomes.payout {e later : Event} (becomes : e.Becomes later) {p q : Proof}
    (proof : p.Becomes q) (share : UInt64) : later.payout share q = e.payout share p := by
  obtain ⟨-, -, -, -, reward, penalty⟩ := EventPlan.mk.inj becomes.plan
  unfold Event.payout
  rw [proof.others, reward, penalty]

namespace Index

variable {index later : Index} {history : List (Task × Change)} {task : Task} {change : Change}

theorem Pays.onward {id : EventId} {e f : Event} (pays : index.Pays id e) (onward : index.Onward later)
    (found : index.events.get? id = some e) (done : e.status = .settled) (becomes : e.Becomes f) :
    later.Pays id f := by
  obtain ⟨share, shared, paid⟩ := pays
  obtain ⟨-, -, -, target, -, -⟩ := EventPlan.mk.inj becomes.plan
  refine ⟨share, ?_, ?_⟩
  · rw [sitesOf_settlements_onward onward found done, target]
    exact shared
  · intro site t here
    obtain ⟨s, before⟩ :=
      Option.ne_none_iff_exists'.mp (onward.settled id e site found done (by simp [here]))
    obtain ⟨p, proven, payout⟩ := paid site s before
    obtain ⟨u, present, grown⟩ := onward.settlements _ s before
    obtain rfl := Option.some.inj (here.symm.trans present)
    obtain ⟨q, there, proof⟩ := onward.proofs _ p proven
    refine ⟨q, there, ?_⟩
    rw [grown.payout, payout, becomes.payout proof]

theorem settled_before_or_makes (makes : task.Makes index change) {id : EventId} {f : Event}
    (found : (index.apply change).events.get? id = some f) (done : f.status = .settled) :
    (∃ e, index.events.get? id = some e ∧ e.status = .settled) ∨
      ∃ requested rows settledAt,
        task = .settleEvent id requested ∧ change = .settleEvent id rows settledAt := by
  cases makes with
  | createEvent window coherent =>
      rcases Table.get?_insert_cases found with ⟨-, rfl⟩ | ⟨-, old⟩
      · cases done
      · exact .inl ⟨f, old, done⟩
  | closeEvent coherent =>
      rcases Table.get?_modify_cases found with ⟨-, e, -, rfl⟩ | ⟨-, old⟩
      · cases done
      · exact .inl ⟨f, old, done⟩
  | settleEvent here shared listed paid coherent =>
      rcases Table.get?_modify_cases found with ⟨rfl, -⟩ | ⟨-, old⟩
      · exact .inr ⟨_, _, _, rfl, rfl⟩
      · exact .inl ⟨f, old, done⟩
  | reconcile inScope coherent unites =>
      rw [apply, get?_events_applyTxUpdates] at found
      obtain ⟨e, old, rfl⟩ := Option.map_eq_some_iff.mp found
      exact .inl ⟨e, old, done⟩
  | _ => exact .inl ⟨f, found, done⟩

theorem Lifecycle.pays_settleEvent (lifecycle : index.Lifecycle) {id : EventId}
    {requested : List SiteId} {rows : List Settlement} {settledAt : Instant}
    (allowed : index.Allows (.settleEvent id rows settledAt))
    (makes : (Task.settleEvent id requested).Makes index (.settleEvent id rows settledAt)) :
    ∃ e, (index.apply (.settleEvent id rows settledAt)).events.get? id = some e ∧ e.status = .settled ∧
      (index.apply (.settleEvent id rows settledAt)).Pays id e ∧
      (sitesOf (index.apply (.settleEvent id rows settledAt)).settlements id).Perm
        ((index.apply (.settleEvent id rows settledAt)).sitesToSettle id requested) := by
  cases makes with
  | @settleEvent _ _ event share payouts tx _ here shared listed paid coherent =>
      obtain ⟨⟨e, found, closed⟩, -⟩ := allowed
      obtain rfl := Option.some.inj (here.symm.trans found)
      have none_yet := lifecycle.unsettled here (by simp [closed])
      have sites : (sitesOf (index.apply (.settleEvent id (payouts.map (.ofPayout id tx settledAt))
          settledAt)).settlements id).Perm (index.sitesToSettle id requested) := by
        apply sitesOf_perm (sitesToSettle_nodup id requested)
        intro site
        rw [← listed, List.mem_map, Option.ne_none_iff_exists']
        refine ⟨?_, ?_⟩
        · rintro ⟨s, present⟩
          rcases settlement_cases present with ⟨pay, member, same, -⟩ | old
          · exact ⟨pay, member, (SiteKey.mk.inj same).2.symm⟩
          · cases (none_yet site).symm.trans old
        · rintro ⟨pay, member, rfl⟩
          rcases get?_insertRows index.settlements id (payouts.map (.ofPayout id tx settledAt))
            ⟨id, pay.1⟩ with ⟨row, -, -, present⟩ | ⟨unlike, -⟩
          · exact ⟨row, present⟩
          · exact (unlike _ (List.mem_map_of_mem member) rfl).elim
      refine ⟨{ event with status := .settled, settledAt := some settledAt }, ?_, rfl,
        ⟨share, ?_, ?_⟩, sites⟩
      · simp [apply, Table.get?_modify, here]
      · rw [sites.length_eq]
        exact shared
      · intro site s present
        rcases settlement_cases present with ⟨pay, member, same, rfl⟩ | old
        · obtain ⟨p, proven, payout⟩ := paid pay member
          obtain ⟨-, rfl⟩ := SiteKey.mk.inj same
          exact ⟨p, proven, payout⟩
        · cases (none_yet site).symm.trans old

theorem MadeBy.pays (made : index.MadeBy history) {id : EventId} {e : Event}
    (found : index.events.get? id = some e) (done : e.status = .settled) : index.Pays id e := by
  induction made generalizing e with
  | empty => cases found
  | @change index history task change before allowed makes ih =>
      rcases settled_before_or_makes makes found done with
        ⟨d, old, settled⟩ | ⟨requested, rows, settledAt, rfl, rfl⟩
      · have onward := onward_apply allowed
        obtain ⟨f, present, becomes⟩ := onward.events id d old
        obtain rfl := Option.some.inj (found.symm.trans present)
        exact (ih old settled).onward onward old settled becomes
      · obtain ⟨f, present, -, pays, -⟩ := before.lifecycle.pays_settleEvent allowed makes
        obtain rfl := Option.some.inj (found.symm.trans present)
        exact pays

theorem MadeBy.settled (made : index.MadeBy history) {id : EventId} {e : Event}
    (found : index.events.get? id = some e) (done : e.status = .settled) :
    ∃ requested rows settledAt,
      (Task.settleEvent id requested, Change.settleEvent id rows settledAt) ∈ history := by
  induction made generalizing e with
  | empty => cases found
  | change before allowed makes ih =>
      rcases settled_before_or_makes makes found done with
        ⟨d, old, settled⟩ | ⟨requested, rows, settledAt, rfl, rfl⟩
      · obtain ⟨requested, rows, settledAt, listed⟩ := ih old settled
        exact ⟨requested, rows, settledAt, List.mem_append_left _ listed⟩
      · exact ⟨requested, rows, settledAt, List.mem_append_right _ (List.mem_singleton_self _)⟩

theorem MadeBy.sites (made : index.MadeBy history) {id : EventId} {rows : List Settlement}
    {settledAt : Instant} (listed : (task, Change.settleEvent id rows settledAt) ∈ history) :
    ∃ requested e, task = .settleEvent id requested ∧ index.events.get? id = some e ∧
      e.status = .settled ∧ (sitesOf index.settlements id).Perm (index.sitesToSettle id requested) := by
  induction made with
  | empty => cases listed
  | @change index history other change before allowed makes ih =>
      rcases List.mem_append.mp listed with old | new
      · obtain ⟨requested, e, rfl, found, done, sites⟩ := ih old
        have onward := onward_apply allowed
        obtain ⟨f, present, becomes⟩ := onward.events id e found
        refine ⟨requested, f, rfl, present, becomes.settled done, ?_⟩
        rw [sitesOf_settlements_onward onward found done,
          sitesToSettle_onward onward found (by simp [done])]
        exact sites
      · obtain ⟨rfl, rfl⟩ := Prod.mk.inj (List.mem_singleton.mp new)
        have requests : ∃ requested, task = .settleEvent id requested := by
          cases makes
          exact ⟨_, rfl⟩
        obtain ⟨requested, rfl⟩ := requests
        obtain ⟨e, present, done, -, sites⟩ := before.lifecycle.pays_settleEvent allowed makes
        exact ⟨requested, e, rfl, present, done, sites⟩

end Index

end Curtail
