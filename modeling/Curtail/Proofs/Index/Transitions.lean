import Curtail.Proofs.Index.Updates
import Curtail.Proofs.Index.Recovery
import Mathlib.Data.List.Induction

namespace Curtail

inductive Transition
  | created (id : EventId)
  | closed (id : EventId)
  | settled (id : EventId)
  | proven (key : SiteKey)
  | claimed (key : SiteKey)
  deriving DecidableEq, Repr

def Change.transition? : Change → Option Transition
  | .insertEvent event => some (.created event.id)
  | .closeEvent id _ _ => some (.closed id)
  | .insertProof proof => some (.proven proof.key)
  | .settleEvent id _ _ => some (.settled id)
  | .claimSettlement id site _ _ => some (.claimed ⟨id, site⟩)
  | .upsertAudit _ | .applyTxUpdates _ | .recordOrphan _ => none

def transitions (history : List Change) : List Transition := history.filterMap Change.transition?

namespace Index

def Accepts (index : Index) : List Change → Prop
  | [] => True
  | change :: changes => index.check change = .ok () ∧ (index.apply change).Accepts changes

def Shows (index : Index) : Transition → Prop
  | .created id => ∃ e, index.events.get? id = some e
  | .closed id => ∃ e, index.events.get? id = some e ∧ e.status ≠ .active
  | .settled id => ∃ e, index.events.get? id = some e ∧ e.status = .settled
  | .proven key => ∃ p, index.proofs.get? key = some p
  | .claimed key => ∃ s, index.settlements.get? key = some s ∧ s.status = .claimed

variable {index later : Index} {change : Change} {transition : Transition}

theorem Shows.onward (shows : index.Shows transition) (onward : index.Onward later) :
    later.Shows transition := by
  cases transition with
  | created id =>
      obtain ⟨e, found⟩ := shows
      obtain ⟨f, present, -⟩ := onward.events id e found
      exact ⟨f, present⟩
  | closed id =>
      obtain ⟨e, found, past⟩ := shows
      obtain ⟨f, present, becomes⟩ := onward.events id e found
      exact ⟨f, present, becomes.not_active past⟩
  | settled id =>
      obtain ⟨e, found, done⟩ := shows
      obtain ⟨f, present, becomes⟩ := onward.events id e found
      exact ⟨f, present, becomes.settled done⟩
  | proven key =>
      obtain ⟨p, found⟩ := shows
      obtain ⟨q, present, -⟩ := onward.proofs key p found
      exact ⟨q, present⟩
  | claimed key =>
      obtain ⟨s, found, taken⟩ := shows
      obtain ⟨t, present, becomes⟩ := onward.settlements key s found
      exact ⟨t, present, becomes.claimed taken⟩

theorem Allows.not_shows (allowed : index.Allows change) (made : change.transition? = some transition) :
    ¬index.Shows transition := by
  cases change with
  | insertEvent event =>
      cases made
      rintro ⟨e, found⟩
      cases allowed.symm.trans found
  | closeEvent id closeTx closedAt =>
      cases made
      obtain ⟨e, found, active⟩ := allowed
      rintro ⟨f, here, past⟩
      obtain rfl := Option.some.inj (found.symm.trans here)
      exact past active
  | insertProof proof =>
      cases made
      rintro ⟨p, found⟩
      cases allowed.2.symm.trans found
  | settleEvent id rows settledAt =>
      cases made
      obtain ⟨⟨e, found, closed⟩, -⟩ := allowed
      rintro ⟨f, here, done⟩
      obtain rfl := Option.some.inj (found.symm.trans here)
      cases closed.symm.trans done
  | claimSettlement id site claimTx claimedAt =>
      cases made
      obtain ⟨s, found, settled⟩ := allowed
      rintro ⟨t, here, taken⟩
      obtain rfl := Option.some.inj (found.symm.trans here)
      cases settled.symm.trans taken
  | upsertAudit request => cases made
  | applyTxUpdates updates => cases made
  | recordOrphan orphan => cases made

theorem Allows.shows (allowed : index.Allows change) (made : change.transition? = some transition) :
    (index.apply change).Shows transition := by
  cases change with
  | insertEvent event =>
      cases made
      exact ⟨event, by simp [apply, Table.get?_insert]⟩
  | closeEvent id closeTx closedAt =>
      cases made
      obtain ⟨e, found, active⟩ := allowed
      refine ⟨{ e with status := .closed, closeTx := some closeTx, closedAt := some closedAt }, ?_, by simp⟩
      simp [apply, Table.get?_modify, found]
  | insertProof proof =>
      cases made
      exact ⟨proof, by simp [apply, Table.get?_insert]⟩
  | settleEvent id rows settledAt =>
      cases made
      obtain ⟨⟨e, found, closed⟩, -⟩ := allowed
      refine ⟨{ e with status := .settled, settledAt := some settledAt }, ?_, rfl⟩
      simp [apply, Table.get?_modify, found]
  | claimSettlement id site claimTx claimedAt =>
      cases made
      obtain ⟨s, found, settled⟩ := allowed
      refine ⟨{ s with status := .claimed, claimTx := some claimTx, claimedAt := some claimedAt }, ?_, rfl⟩
      simp [apply, Table.get?_modify, found]
  | upsertAudit request => cases made
  | applyTxUpdates updates => cases made
  | recordOrphan orphan => cases made

theorem accepts_append {history more : List Change} :
    index.Accepts (history ++ more) ↔ index.Accepts history ∧ (index.applyAll history).Accepts more := by
  induction history generalizing index with
  | nil => simp [Accepts, applyAll]
  | cons change history ih => simp [Accepts, applyAll, ih, and_assoc]

theorem Accepts.onward {history : List Change} (accepted : index.Accepts history) :
    index.Onward (index.applyAll history) := by
  induction history generalizing index with
  | nil => exact .refl index
  | cons change history ih =>
      exact (onward_apply (check_eq_ok_iff.mp accepted.1)).trans (ih accepted.2)

theorem transitions_append_single (history : List Change) (change : Change) :
    transitions (history ++ [change]) = transitions history ++ change.transition?.toList := by
  cases made : change.transition? <;> simp [transitions, made]

theorem Accepts.shows {history : List Change} (accepted : empty.Accepts history) :
    ∀ transition ∈ transitions history, (empty.applyAll history).Shows transition := by
  induction history using List.reverseRecOn with
  | nil => exact fun _ member => (List.not_mem_nil member).elim
  | append_singleton history change ih =>
      obtain ⟨before, allowed, -⟩ := accepts_append.mp accepted
      rw [check_eq_ok_iff] at allowed
      intro transition member
      rw [transitions_append_single, List.mem_append, Option.mem_toList] at member
      rw [applyAll, List.foldl_append]
      rcases member with old | new
      · exact (ih before transition old).onward (onward_apply allowed)
      · exact allowed.shows new

theorem settled_of_new {key : SiteKey} (absent : index.settlements.get? key = none)
    (present : (index.apply change).settlements.get? key ≠ none) :
    change.transition? = some (.settled key.event) := by
  cases change with
  | settleEvent id rows settledAt =>
      rcases get?_insertRows index.settlements id rows key with ⟨row, -, rfl, -⟩ | ⟨-, kept⟩
      · rfl
      · exact (present (kept.trans absent)).elim
  | claimSettlement id site claimTx claimedAt =>
      exact (present (Table.get?_modify_eq_none_iff.mpr absent)).elim
  | applyTxUpdates updates =>
      simp only [apply, get?_settlements_applyTxUpdates, absent] at present
      exact (present rfl).elim
  | _ => exact (present absent).elim

theorem Accepts.settled {history : List Change} (accepted : empty.Accepts history) (key : SiteKey)
    (present : (empty.applyAll history).settlements.get? key ≠ none) :
    .settled key.event ∈ transitions history := by
  induction history using List.reverseRecOn with
  | nil => exact (present rfl).elim
  | append_singleton history change ih =>
      obtain ⟨before, -⟩ := accepts_append.mp accepted
      rw [transitions_append_single, List.mem_append, Option.mem_toList]
      rw [applyAll, List.foldl_append] at present
      cases found : (empty.applyAll history).settlements.get? key with
      | some s => exact .inl (ih before (by simp [found]))
      | none => exact .inr (settled_of_new found present)

theorem Accepts.at {history : List Change} (accepted : empty.Accepts history)
    {before after : List Transition} (listed : transitions history = before ++ transition :: after) :
    ∃ earlier change, empty.Accepts earlier ∧ transitions earlier = before ∧
      (empty.applyAll earlier).Allows change ∧ change.transition? = some transition := by
  obtain ⟨front, rest, rfl, made, others⟩ := List.filterMap_eq_append_iff.mp listed
  obtain ⟨quiet, change, more, rfl, none_made, here, -⟩ := List.filterMap_eq_cons_iff.mp others
  rw [← List.append_assoc] at accepted
  obtain ⟨earlier, allowed, -⟩ := accepts_append.mp accepted
  refine ⟨front ++ quiet, change, earlier, ?_, check_eq_ok_iff.mp allowed, here⟩
  rw [transitions, List.filterMap_append, made, List.filterMap_eq_nil_iff.mpr none_made,
    List.append_nil]

theorem Accepts.nodup {history : List Change} (accepted : empty.Accepts history) :
    (transitions history).Nodup := by
  induction history using List.reverseRecOn with
  | nil => exact List.nodup_nil
  | append_singleton history change ih =>
      obtain ⟨before, allowed, -⟩ := accepts_append.mp accepted
      rw [transitions_append_single]
      cases made : change.transition? with
      | none => simpa using ih before
      | some transition =>
          refine List.nodup_append.mpr ⟨ih before, List.pairwise_singleton _ _, ?_⟩
          rintro old listed new fresh rfl
          obtain rfl := List.mem_singleton.mp fresh
          exact (check_eq_ok_iff.mp allowed).not_shows made (before.shows old listed)

/-- Each transition is made once at most, and none before those that it follows on. -/
theorem transitions_once {history : List Change} (accepted : empty.Accepts history) :
    (transitions history).Nodup ∧
    (∀ before key after, transitions history = before ++ .proven key :: after →
      .closed key.event ∉ before ∧ .settled key.event ∉ before) ∧
    (∀ before key after, transitions history = before ++ .claimed key :: after →
      .settled key.event ∈ before) ∧
    (∀ before after, history = before ++ after → ∀ id e,
      (empty.applyAll before).events.get? id = some e →
        ∃ later, (empty.applyAll history).events.get? id = some later ∧
          e.status.rank ≤ later.status.rank) := by
  refine ⟨accepted.nodup, ?_, ?_, ?_⟩
  · intro before key after listed
    obtain ⟨earlier, change, past, rfl, allowed, made⟩ := accepted.at listed
    cases change <;> cases made
    obtain ⟨⟨e, found, active⟩, -⟩ := allowed
    refine ⟨?_, ?_⟩
    · intro closed
      obtain ⟨f, here, inactive⟩ := past.shows _ closed
      obtain rfl := Option.some.inj (found.symm.trans here)
      exact inactive active
    · intro settled
      obtain ⟨f, here, done⟩ := past.shows _ settled
      obtain rfl := Option.some.inj (found.symm.trans here)
      cases active.symm.trans done
  · intro before key after listed
    obtain ⟨earlier, change, past, rfl, allowed, made⟩ := accepted.at listed
    cases change <;> cases made
    obtain ⟨s, found, -⟩ := allowed
    exact past.settled _ (by simp [found])
  · rintro before after rfl id e found
    have onward := (accepts_append.mp accepted).2.onward
    obtain ⟨f, present, becomes⟩ := onward.events id e found
    refine ⟨f, ?_, becomes.status⟩
    rw [applyAll, List.foldl_append]
    exact present

def sentTx (handle : String) : TxRecord := ⟨⟨handle⟩, none, .submitted, .ofSeconds 0, none, none⟩

def wholeLife : List Change :=
  let event : EventId := ⟨"DR-1"⟩
  let site : SiteId := ⟨"S1"⟩
  [.insertEvent ⟨event, .ofSeconds 0, .ofSeconds 3600, 100, 2, 1, .active, sentTx "a", none, .ofSeconds 0,
      none, none⟩,
    .insertProof ⟨event, site, 80, 20, 60, ⟨"flat"⟩, "", "", ⟨""⟩, sentTx "b", ⟨"participant-a"⟩, .ofSeconds 1⟩,
    .closeEvent event (sentTx "c") (.ofSeconds 2),
    .settleEvent event [⟨event, site, 80, .settled, sentTx "d", none, .ofSeconds 3, none⟩] (.ofSeconds 3),
    .claimSettlement event site (sentTx "e") (.ofSeconds 4)]

theorem transitions_once_of_whole_life : empty.Accepts wholeLife ∧
    transitions wholeLife = [.created ⟨"DR-1"⟩, .proven ⟨⟨"DR-1"⟩, ⟨"S1"⟩⟩, .closed ⟨"DR-1"⟩,
      .settled ⟨"DR-1"⟩, .claimed ⟨⟨"DR-1"⟩, ⟨"S1"⟩⟩] ∧ (transitions wholeLife).Nodup := by
  have accepted : empty.Accepts wholeLife := ⟨rfl, rfl, rfl, rfl, rfl, trivial⟩
  exact ⟨accepted, rfl, (transitions_once accepted).1⟩

theorem isTerminal_iff (state : TxState) : state.isTerminal = true ↔ state ≠ .submitted := by
  cases state <;> simp [TxState.isTerminal]

/-- An index only takes rows in, and their transactions change only until they are terminal. -/
theorem rows_kept {before after : List Change} (accepted : index.Accepts (before ++ after)) :
    (∀ id e, (index.applyAll before).events.get? id = some e → ∃ later : Event,
      (index.applyAll (before ++ after)).events.get? id = some later ∧
      later.plan = e.plan ∧ later.createdAt = e.createdAt ∧
      later.createTx.handle = e.createTx.handle ∧
      (e.createTx.state.isTerminal = true → later.createTx = e.createTx)) ∧
    (∀ key p, (index.applyAll before).proofs.get? key = some p → ∃ later : Proof,
      (index.applyAll (before ++ after)).proofs.get? key = some later ∧
      later = { p with submitTx := later.submitTx } ∧
      later.submitTx.handle = p.submitTx.handle ∧
      (p.submitTx.state.isTerminal = true → later.submitTx = p.submitTx)) ∧
    (∀ key s, (index.applyAll before).settlements.get? key = some s → ∃ later : Settlement,
      (index.applyAll (before ++ after)).settlements.get? key = some later ∧
      later.event = s.event ∧ later.site = s.site ∧ later.payout = s.payout ∧
      later.settledAt = s.settledAt ∧ (s.status = .claimed → later.status = .claimed) ∧
      later.settleTx.handle = s.settleTx.handle ∧
      (s.settleTx.state.isTerminal = true → later.settleTx = s.settleTx)) ∧
    (∀ key r, (index.applyAll before).audits.get? key = some r →
      ∃ later, (index.applyAll (before ++ after)).audits.get? key = some later) ∧
    (index.applyAll before).orphans <+: (index.applyAll (before ++ after)).orphans := by
  have onward := (accepts_append.mp accepted).2.onward
  have onward : (index.applyAll before).Onward (index.applyAll (before ++ after)) := by
    rw [applyAll, applyAll, List.foldl_append]
    exact onward
  simp only [isTerminal_iff]
  refine ⟨?_, ?_, ?_, ?_, onward.orphans⟩
  · intro id e found
    obtain ⟨later, present, becomes⟩ := onward.events id e found
    exact ⟨later, present, becomes.plan, becomes.createdAt, becomes.createTx.handle,
      becomes.createTx.terminal⟩
  · intro key p found
    obtain ⟨later, present, becomes⟩ := onward.proofs key p found
    exact ⟨later, present, becomes.others, becomes.submitTx.handle, becomes.submitTx.terminal⟩
  · intro key s found
    obtain ⟨later, present, becomes⟩ := onward.settlements key s found
    exact ⟨later, present, becomes.event, becomes.site, becomes.payout, becomes.settledAt,
      becomes.claimed, becomes.settleTx.handle, becomes.settleTx.terminal⟩
  · intro key r found
    obtain ⟨later, present, -⟩ := onward.audits key r found
    exact ⟨later, present⟩

theorem proof_kept_in_whole_life : ∃ p : Proof,
    (empty.applyAll (wholeLife.take 2)).proofs.get? ⟨⟨"DR-1"⟩, ⟨"S1"⟩⟩ = some p ∧
    empty.Accepts (wholeLife.take 2 ++ wholeLife.drop 2) ∧
    ∃ later : Proof,
      (empty.applyAll (wholeLife.take 2 ++ wholeLife.drop 2)).proofs.get? ⟨⟨"DR-1"⟩, ⟨"S1"⟩⟩ = some later ∧
      later = { p with submitTx := later.submitTx } := by
  have accepted : empty.Accepts (wholeLife.take 2 ++ wholeLife.drop 2) :=
    ⟨rfl, rfl, rfl, rfl, rfl, trivial⟩
  obtain ⟨-, proofs, -⟩ := rows_kept accepted
  obtain ⟨later, present, others, -⟩ := proofs ⟨⟨"DR-1"⟩, ⟨"S1"⟩⟩ _ rfl
  exact ⟨_, rfl, accepted, later, present, others⟩

end Index

end Curtail
