import Curtail.Proofs.Engine.Sequence
import Curtail.Proofs.Instant.Order

namespace Curtail

inductive Task.Dates : Task → Instant → Change → Prop
  | createEvent {plan : EventPlan} {tx : TxRecord} {t : Instant} :
      Dates (.createEvent plan) t (.insertEvent (plan.event tx t))
  | closeEvent {id : EventId} {tx : TxRecord} {t : Instant} :
      Dates (.closeEvent id) t (.closeEvent id tx t)
  | submitProof {s : Submission} {payload : Payload} {tx : TxRecord} {t : Instant} :
      Dates (.submitProof s) t (.insertProof (s.proof payload tx t))
  | settleEvent {id : EventId} {requested : List SiteId} {payouts : List (SiteId × Int64)} {tx : TxRecord}
      {t : Instant} :
      Dates (.settleEvent id requested) t (.settleEvent id (payouts.map (.ofPayout id tx t)) t)
  | claimReward {key : SiteKey} {claimant : ActorId} {tx : TxRecord} {t : Instant} :
      Dates (.claimReward key claimant) t (.claimSettlement key.event key.site tx t)
  | getAudit {key : SiteKey} {t : Instant} :
      Dates (.getAudit key) t (.upsertAudit ⟨key.event, key.site, t⟩)

/-- Of the audits only those of the site in focus move the event on. -/
def Task.moves? (c : Configuration) : Task → Option EventId
  | .createEvent plan => some plan.id
  | .closeEvent id | .settleEvent id _ => some id
  | .submitProof s => some s.event
  | .claimReward key _ => some key.event
  | .getAudit key => if key.site = c.focus then some key.event else none
  | _ => none

def Event.dates (e : Event) : Instant × Option Instant × Option Instant :=
  (e.createdAt, e.closedAt, e.settledAt)

def Settlement.dates (s : Settlement) : Instant × Option Instant := (s.settledAt, s.claimedAt)

def Event.Dated (e : Event) (t : Instant) : Prop :=
  e.createdAt = t ∨ e.closedAt = some t ∨ e.settledAt = some t

def Settlement.Dated (s : Settlement) (t : Instant) : Prop :=
  s.settledAt = t ∨ s.claimedAt = some t

namespace Index

/-- Something about an event changed at this instant, as far as its rows tell. -/
inductive Dated (index : Index) (c : Configuration) (id : EventId) (t : Instant) : Prop
  | event {e : Event} : index.events.get? id = some e → e.Dated t → Dated index c id t
  | proof {site : SiteId} {p : Proof} : index.proofs.get? ⟨id, site⟩ = some p → p.submittedAt = t →
      Dated index c id t
  | settlement {site : SiteId} {s : Settlement} : index.settlements.get? ⟨id, site⟩ = some s → s.Dated t →
      Dated index c id t
  | audit {r : AuditRequest} : index.audits.get? ⟨id, c.focus⟩ = some r → r.requestedAt = t →
      Dated index c id t

/-- The instants of each event come in the order of its lifecycle. -/
structure Timely (index : Index) : Prop where
  closed : ∀ id e t, index.events.get? id = some e → e.closedAt = some t → e.createdAt ≤ t
  settled : ∀ id e t u, index.events.get? id = some e → e.closedAt = some t → e.settledAt = some u → t ≤ u
  proven : ∀ id site e p, index.events.get? id = some e → index.proofs.get? ⟨id, site⟩ = some p →
    e.createdAt ≤ p.submittedAt
  gathered : ∀ id site e p t, index.events.get? id = some e → index.proofs.get? ⟨id, site⟩ = some p →
    e.closedAt = some t → p.submittedAt ≤ t
  claimed : ∀ key s t, index.settlements.get? key = some s → s.claimedAt = some t → s.settledAt ≤ t
  audited : ∀ key p r, index.proofs.get? key = some p → index.audits.get? key = some r →
    p.submittedAt ≤ r.requestedAt

structure SameDates (index later : Index) : Prop where
  events : ∀ id, (later.events.get? id).map Event.dates = (index.events.get? id).map Event.dates
  proofs : ∀ key, (later.proofs.get? key).map (·.submittedAt) = (index.proofs.get? key).map (·.submittedAt)
  settlements : ∀ key,
    (later.settlements.get? key).map Settlement.dates = (index.settlements.get? key).map Settlement.dates
  audits : later.audits = index.audits

variable {c : Configuration} {index later last : Index} {id : EventId} {t u : Instant} {task : Task}
  {change : Change}

theorem Keyed.mem_transitions_iff {e : Event} (found : index.events.get? id = some e) :
    t ∈ Progress.transitions e (rowsOf index.proofs id) (rowsOf index.settlements id)
      (index.audits.get? ⟨id, c.focus⟩) ↔ index.Dated c id t := by
  simp only [Progress.transitions, List.mem_append, List.mem_cons, List.mem_map, List.mem_filterMap,
    Option.mem_toList, mem_rowsOf, Option.map_eq_some_iff]
  constructor
  · rintro (((((((rfl | closed) | settled) | ⟨p, ⟨site, here⟩, rfl⟩) | ⟨s, ⟨site, here⟩, rfl⟩) |
      ⟨s, ⟨site, here⟩, claimed⟩) | ⟨r, here, rfl⟩))
    · exact .event found (.inl rfl)
    · exact .event found (.inr (.inl closed))
    · exact .event found (.inr (.inr settled))
    · exact .proof here rfl
    · exact .settlement here (.inl rfl)
    · exact .settlement here (.inr claimed)
    · exact .audit here rfl
  · intro dated
    cases dated with
    | event here dated =>
        obtain rfl := Option.some.inj (found.symm.trans here)
        rcases dated with rfl | closed | settled
        · exact .inl (.inl (.inl (.inl (.inl (.inl rfl)))))
        · exact .inl (.inl (.inl (.inl (.inl (.inr closed)))))
        · exact .inl (.inl (.inl (.inl (.inr settled))))
    | proof here same => exact .inl (.inl (.inl (.inr ⟨_, ⟨_, here⟩, same⟩)))
    | settlement here dated =>
        rcases dated with same | claimed
        · exact .inl (.inl (.inr ⟨_, ⟨_, here⟩, same⟩))
        · exact .inl (.inr ⟨_, ⟨_, here⟩, claimed⟩)
    | audit here same => exact .inr ⟨_, here, same⟩

/-! ## Changes that leave all instants as they are -/

theorem SameDates.refl (index : Index) : index.SameDates index :=
  ⟨fun _ => rfl, fun _ => rfl, fun _ => rfl, rfl⟩

theorem SameDates.symm (same : index.SameDates later) : later.SameDates index :=
  ⟨fun id => (same.events id).symm, fun key => (same.proofs key).symm, fun key => (same.settlements key).symm,
    same.audits.symm⟩

theorem SameDates.trans (first : index.SameDates later) (second : later.SameDates last) :
    index.SameDates last :=
  ⟨fun id => (second.events id).trans (first.events id), fun key => (second.proofs key).trans (first.proofs key),
    fun key => (second.settlements key).trans (first.settlements key), second.audits.trans first.audits⟩

theorem sameDates_applyTxUpdates (index : Index) (updates : List TxUpdate) :
    index.SameDates (index.apply (.applyTxUpdates updates)) := by
  refine ⟨fun id => ?_, fun key => ?_, fun key => ?_, audits_applyTxUpdates index updates⟩
  · rw [apply, get?_events_applyTxUpdates, Option.map_map]
    rfl
  · rw [apply, get?_proofs_applyTxUpdates, Option.map_map]
    rfl
  · rw [apply, get?_settlements_applyTxUpdates, Option.map_map]
    rfl

theorem sameDates_recordOrphan (index : Index) (orphan : Orphan) :
    index.SameDates (index.apply (.recordOrphan orphan)) :=
  ⟨fun _ => rfl, fun _ => rfl, fun _ => rfl, rfl⟩

namespace SameDates

variable (same : index.SameDates later)

include same

theorem event {e : Event} (found : later.events.get? id = some e) :
    ∃ old, index.events.get? id = some old ∧ old.createdAt = e.createdAt ∧ old.closedAt = e.closedAt ∧
      old.settledAt = e.settledAt := by
  have equal := same.events id
  rw [found] at equal
  obtain ⟨old, here, dates⟩ := Option.map_eq_some_iff.mp equal.symm
  simp only [Event.dates, Prod.mk.injEq] at dates
  exact ⟨old, here, dates⟩

theorem proof {key : SiteKey} {p : Proof} (found : later.proofs.get? key = some p) :
    ∃ old, index.proofs.get? key = some old ∧ old.submittedAt = p.submittedAt := by
  have equal := same.proofs key
  rw [found] at equal
  exact Option.map_eq_some_iff.mp equal.symm

theorem settlement {key : SiteKey} {s : Settlement} (found : later.settlements.get? key = some s) :
    ∃ old, index.settlements.get? key = some old ∧ old.settledAt = s.settledAt ∧
      old.claimedAt = s.claimedAt := by
  have equal := same.settlements key
  rw [found] at equal
  obtain ⟨old, here, dates⟩ := Option.map_eq_some_iff.mp equal.symm
  simp only [Settlement.dates, Prod.mk.injEq] at dates
  exact ⟨old, here, dates⟩

theorem dated (dated : later.Dated c id t) : index.Dated c id t := by
  cases dated with
  | event found dated =>
      obtain ⟨old, here, created, closed, settled⟩ := same.event found
      exact .event here (by rwa [Event.Dated, created, closed, settled])
  | proof found time =>
      obtain ⟨old, here, submitted⟩ := same.proof found
      exact .proof here (submitted.trans time)
  | settlement found dated =>
      obtain ⟨old, here, settled, claimed⟩ := same.settlement found
      exact .settlement here (by rwa [Settlement.Dated, settled, claimed])
  | audit found time => exact .audit (same.audits ▸ found) time

theorem timely (timely : index.Timely) : later.Timely := by
  refine ⟨?_, ?_, ?_, ?_, ?_, ?_⟩
  · intro id e t found closed
    obtain ⟨old, here, created, before, -⟩ := same.event found
    exact created ▸ timely.closed id old t here (before.trans closed)
  · intro id e t u found closed settled
    obtain ⟨old, here, -, before, after⟩ := same.event found
    exact timely.settled id old t u here (before.trans closed) (after.trans settled)
  · intro id site e p found proven
    obtain ⟨old, here, created, -⟩ := same.event found
    obtain ⟨older, there, submitted⟩ := same.proof proven
    exact created ▸ submitted ▸ timely.proven id site old older here there
  · intro id site e p t found proven closed
    obtain ⟨old, here, -, before, -⟩ := same.event found
    obtain ⟨older, there, submitted⟩ := same.proof proven
    exact submitted ▸ timely.gathered id site old older t here there (before.trans closed)
  · intro key s t found claimed
    obtain ⟨old, here, settled, before⟩ := same.settlement found
    exact settled ▸ timely.claimed key old t here (before.trans claimed)
  · intro key p r proven asked
    obtain ⟨older, there, submitted⟩ := same.proof proven
    exact submitted ▸ timely.audited key older r there (same.audits ▸ asked)

end SameDates

/-! ## The instant that a task adds -/

section Apply

variable (allowed : index.Allows change) (dates : task.Dates t change)

include allowed dates

theorem dated_apply_self (moves : task.moves? c = some id) : (index.apply change).Dated c id t := by
  cases dates with
  | @createEvent plan tx t =>
      obtain rfl := Option.some.inj moves
      refine .event (e := plan.event tx t) ?_ (.inl rfl)
      exact (Table.get?_insert ..).trans (if_pos rfl)
  | closeEvent =>
      obtain rfl := Option.some.inj moves
      obtain ⟨e, found, -⟩ := allowed
      exact .event (by simp [apply, Table.get?_modify, found]; rfl) (.inr (.inl rfl))
  | @submitProof s payload tx t =>
      obtain rfl := Option.some.inj moves
      have stored : (index.apply (.insertProof (s.proof payload tx t))).proofs.get? ⟨s.event, s.site⟩ =
          some (s.proof payload tx t) := (Table.get?_insert ..).trans (if_pos rfl)
      exact .proof stored rfl
  | settleEvent =>
      obtain rfl := Option.some.inj moves
      obtain ⟨⟨e, found, -⟩, -⟩ := allowed
      exact .event (by simp [apply, Table.get?_modify, found]; rfl) (.inr (.inr rfl))
  | @claimReward key claimant tx t =>
      obtain rfl := Option.some.inj moves
      obtain ⟨s, found, -⟩ := allowed
      have stored : (index.apply (.claimSettlement key.event key.site tx t)).settlements.get? key =
          some { s with status := .claimed, claimTx := some tx, claimedAt := some t } :=
        (Table.get?_modify ..).trans ((if_pos rfl).trans (congrArg _ found))
      exact .settlement stored (.inr rfl)
  | @getAudit key t =>
      simp only [Task.moves?, Option.ite_none_right_eq_some, Option.some_inj] at moves
      obtain ⟨focus, rfl⟩ := moves
      refine .audit (r := ⟨key.event, key.site, t⟩) ?_ rfl
      exact (Table.get?_insert ..).trans (if_pos (focus ▸ rfl))

theorem dated_of_dated_apply (dated : (index.apply change).Dated c id u) :
    index.Dated c id u ∨ u = t ∧ task.moves? c = some id := by
  cases dated with
  | event found dated =>
      cases dates with
      | createEvent =>
          rcases Table.get?_insert_cases found with ⟨rfl, rfl⟩ | ⟨-, old⟩
          · rcases dated with rfl | closed | settled
            · exact .inr ⟨rfl, rfl⟩
            · cases closed
            · cases settled
          · exact .inl (.event old dated)
      | closeEvent =>
          rcases Table.get?_modify_cases found with ⟨rfl, e, old, rfl⟩ | ⟨-, old⟩
          · rcases dated with created | closed | settled
            · exact .inl (.event old (.inl created))
            · exact .inr ⟨(Option.some.inj closed).symm, rfl⟩
            · exact .inl (.event old (.inr (.inr settled)))
          · exact .inl (.event old dated)
      | settleEvent =>
          rcases Table.get?_modify_cases found with ⟨rfl, e, old, rfl⟩ | ⟨-, old⟩
          · rcases dated with created | closed | settled
            · exact .inl (.event old (.inl created))
            · exact .inl (.event old (.inr (.inl closed)))
            · exact .inr ⟨(Option.some.inj settled).symm, rfl⟩
          · exact .inl (.event old dated)
      | _ => exact .inl (.event found dated)
  | proof found time =>
      cases dates with
      | submitProof =>
          rcases Table.get?_insert_cases found with ⟨same, rfl⟩ | ⟨-, old⟩
          · exact .inr ⟨time.symm, congrArg (some ∘ SiteKey.event) same.symm⟩
          · exact .inl (.proof old time)
      | _ => exact .inl (.proof found time)
  | settlement found dated =>
      cases dates with
      | settleEvent =>
          rcases Lifecycle.settlement_cases found with ⟨pay, -, same, rfl⟩ | old
          · rcases dated with settled | claimed
            · exact .inr ⟨settled.symm, congrArg (some ∘ SiteKey.event) same.symm⟩
            · cases claimed
          · exact .inl (.settlement old dated)
      | claimReward =>
          rcases Table.get?_modify_cases found with ⟨same, s, old, rfl⟩ | ⟨-, old⟩
          · rcases dated with settled | claimed
            · exact .inl (.settlement (s := s) (same ▸ old) (.inl settled))
            · exact .inr ⟨(Option.some.inj claimed).symm, congrArg (some ∘ SiteKey.event) same.symm⟩
          · exact .inl (.settlement old dated)
      | _ => exact .inl (.settlement found dated)
  | audit found time =>
      cases dates with
      | getAudit =>
          rcases Table.get?_insert_cases found with ⟨same, rfl⟩ | ⟨-, old⟩
          · obtain ⟨event, focus⟩ := SiteKey.mk.inj same
            exact .inr ⟨time.symm, by simp [Task.moves?, event, focus]⟩
          · exact .inl (.audit old time)
      | _ => exact .inl (.audit found time)

theorem Dated.apply (dated : index.Dated c id u) (elsewhere : task.moves? c ≠ some id) :
    (index.apply change).Dated c id u := by
  cases dated with
  | event found dated =>
      refine .event ?_ dated
      cases dates with
      | createEvent =>
          refine (Table.get?_insert ..).trans ((if_neg fun same => elsewhere ?_).trans found)
          exact congrArg some same.symm
      | closeEvent =>
          refine (Table.get?_modify ..).trans ((if_neg fun same => elsewhere ?_).trans found)
          exact congrArg some same.symm
      | settleEvent =>
          refine (Table.get?_modify ..).trans ((if_neg fun same => elsewhere ?_).trans found)
          exact congrArg some same.symm
      | _ => exact found
  | @proof site p found time =>
      suffices kept : (index.apply change).proofs.get? ⟨id, site⟩ = some p from .proof kept time
      cases dates with
      | submitProof =>
          refine (Table.get?_insert ..).trans ((if_neg fun same => elsewhere ?_).trans found)
          exact congrArg (some ∘ SiteKey.event) same.symm
      | _ => exact found
  | @settlement site s found dated =>
      suffices kept : (index.apply change).settlements.get? ⟨id, site⟩ = some s from .settlement kept dated
      cases dates with
      | settleEvent =>
          rcases get?_insertRows index.settlements _ _ ⟨id, site⟩ with ⟨row, -, same, -⟩ | ⟨-, kept⟩
          · exact (elsewhere (congrArg (some ∘ SiteKey.event) same.symm)).elim
          · exact kept.trans found
      | claimReward =>
          refine (Table.get?_modify ..).trans ((if_neg fun same => elsewhere ?_).trans found)
          exact congrArg (some ∘ SiteKey.event) same.symm
      | _ => exact found
  | audit found time =>
      refine .audit ?_ time
      cases dates with
      | getAudit =>
          refine (Table.get?_insert ..).trans ((if_neg fun same => elsewhere ?_).trans found)
          obtain ⟨event, focus⟩ := SiteKey.mk.inj same
          simp [Task.moves?, event, focus]
      | _ => exact found

theorem Timely.apply (timely : index.Timely) (lifecycle : index.Lifecycle)
    (last : ∀ id u, index.Dated c id u → u ≤ t) : (index.apply change).Timely := by
  cases dates with
  | createEvent =>
      refine { timely with closed := ?_, settled := ?_, proven := ?_, gathered := ?_ }
      · intro id e u found closed
        rcases Table.get?_insert_cases found with ⟨-, rfl⟩ | ⟨-, old⟩
        · cases closed
        · exact timely.closed id e u old closed
      · intro id e u v found closed settled
        rcases Table.get?_insert_cases found with ⟨-, rfl⟩ | ⟨-, old⟩
        · cases closed
        · exact timely.settled id e u v old closed settled
      · intro id site e p found proven
        rcases Table.get?_insert_cases found with ⟨rfl, rfl⟩ | ⟨-, old⟩
        · obtain ⟨f, here⟩ := lifecycle.announced _ p proven
          cases allowed.symm.trans here
        · exact timely.proven id site e p old proven
      · intro id site e p u found proven closed
        rcases Table.get?_insert_cases found with ⟨-, rfl⟩ | ⟨-, old⟩
        · cases closed
        · exact timely.gathered id site e p u old proven closed
  | closeEvent =>
      obtain ⟨event, here, active⟩ := allowed
      refine { timely with closed := ?_, settled := ?_, proven := ?_, gathered := ?_ }
      · intro id e u found closed
        rcases Table.get?_modify_cases found with ⟨rfl, f, old, rfl⟩ | ⟨-, old⟩
        · obtain rfl := Option.some.inj closed
          exact last _ _ (.event old (.inl rfl))
        · exact timely.closed id e u old closed
      · intro id e u v found closed settled
        rcases Table.get?_modify_cases found with ⟨rfl, f, old, rfl⟩ | ⟨-, old⟩
        · obtain rfl := Option.some.inj (here.symm.trans old)
          have done := (lifecycle.eventRows _ event here).settledAt.mp (Option.isSome_of_eq_some settled)
          cases active.symm.trans done
        · exact timely.settled id e u v old closed settled
      · intro id site e p found proven
        rcases Table.get?_modify_cases found with ⟨rfl, f, old, rfl⟩ | ⟨-, old⟩
        · exact timely.proven _ site f p old proven
        · exact timely.proven id site e p old proven
      · intro id site e p u found proven closed
        rcases Table.get?_modify_cases found with ⟨rfl, f, old, rfl⟩ | ⟨-, old⟩
        · obtain rfl := Option.some.inj closed
          exact last _ _ (.proof proven rfl)
        · exact timely.gathered id site e p u old proven closed
  | submitProof =>
      obtain ⟨⟨event, here, active⟩, absent⟩ := allowed
      refine { timely with proven := ?_, gathered := ?_, audited := ?_ }
      · intro id site e p found proven
        rcases Table.get?_insert_cases proven with ⟨-, rfl⟩ | ⟨-, old⟩
        · exact last _ _ (.event found (.inl rfl))
        · exact timely.proven id site e p found old
      · intro id site e p u found proven closed
        rcases Table.get?_insert_cases proven with ⟨same, rfl⟩ | ⟨-, old⟩
        · obtain rfl : id = _ := congrArg SiteKey.event same
          obtain rfl := Option.some.inj (here.symm.trans found)
          exact ((lifecycle.eventRows _ event here).closedAt.mp (Option.isSome_of_eq_some closed) active).elim
        · exact timely.gathered id site e p u found old closed
      · intro key p r proven asked
        rcases Table.get?_insert_cases proven with ⟨rfl, -⟩ | ⟨-, old⟩
        · obtain ⟨q, present⟩ := lifecycle.audited _ r asked
          cases absent.symm.trans present
        · exact timely.audited key p r old asked
  | settleEvent =>
      refine { timely with closed := ?_, settled := ?_, proven := ?_, gathered := ?_, claimed := ?_ }
      · intro id e u found closed
        rcases Table.get?_modify_cases found with ⟨rfl, f, old, rfl⟩ | ⟨-, old⟩
        · exact timely.closed _ f u old closed
        · exact timely.closed id e u old closed
      · intro id e u v found closed settled
        rcases Table.get?_modify_cases found with ⟨rfl, f, old, rfl⟩ | ⟨-, old⟩
        · obtain rfl := Option.some.inj settled
          exact last _ _ (.event old (.inr (.inl closed)))
        · exact timely.settled id e u v old closed settled
      · intro id site e p found proven
        rcases Table.get?_modify_cases found with ⟨rfl, f, old, rfl⟩ | ⟨-, old⟩
        · exact timely.proven _ site f p old proven
        · exact timely.proven id site e p old proven
      · intro id site e p u found proven closed
        rcases Table.get?_modify_cases found with ⟨rfl, f, old, rfl⟩ | ⟨-, old⟩
        · exact timely.gathered _ site f p u old proven closed
        · exact timely.gathered id site e p u old proven closed
      · intro key s u found claimed
        rcases Lifecycle.settlement_cases found with ⟨pay, -, -, rfl⟩ | old
        · cases claimed
        · exact timely.claimed key s u old claimed
  | claimReward =>
      refine { timely with claimed := ?_ }
      intro key s u found claimed
      rcases Table.get?_modify_cases found with ⟨rfl, row, old, rfl⟩ | ⟨-, old⟩
      · obtain rfl := Option.some.inj claimed
        exact last _ _ (.settlement old (.inl rfl))
      · exact timely.claimed key s u old claimed
  | getAudit =>
      refine { timely with audited := ?_ }
      intro key p r proven asked
      rcases Table.get?_insert_cases asked with ⟨rfl, rfl⟩ | ⟨-, old⟩
      · exact last _ _ (.proof proven rfl)
      · exact timely.audited key p r proven old

end Apply

theorem timely_empty : empty.Timely where
  closed _ _ _ found := by cases found
  settled _ _ _ _ found := by cases found
  proven _ _ _ _ found := by cases found
  gathered _ _ _ _ _ found := by cases found
  claimed _ _ _ found := by cases found
  audited _ _ _ found := by cases found

end Index

end Curtail
