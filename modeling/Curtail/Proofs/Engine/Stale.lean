import Curtail.Proofs.Engine.Evidence
import Curtail.Proofs.Index.Commute
import Curtail.Proofs.Index.Pending
import Curtail.Proofs.Index.Transitions

namespace Curtail

theorem TxRecord.state_of_advanced {r later : TxRecord} {check : TxCheck}
    (advanced : r.advanced check = some later) : later.state ≠ .submitted := by
  unfold TxRecord.advanced at advanced
  split at advanced
  · cases advanced
  · rename_i settled
    obtain rfl := Option.some.inj advanced
    simp_all

namespace Reconciliation

variable {index : Index} {around : Surroundings}

theorem check_gives (index : Index) (around : Surroundings) (p : Pass) (items : List PendingTx) :
    ∃ later, (check p items).Gives around index later := by
  induction items generalizing p with
  | nil => exact ⟨p, rfl⟩
  | cons item items ih =>
      simp only [check]
      cases p.answers.lookup item.record.handle with
      | some answer => exact ih _
      | none => exact ih _

theorem check_extends (made : index.Made) {p later : Pass} {items : List PendingTx}
    (gives : (check p items).Gives around index later) : p.Extends items later := by
  have commits := (check_commits (.reconcile .all) index p items).run.run made around
  have ended : (check p items).run.run around.serve index = (.ok later, index) := by
    rw [← Program.run_advance]
    unfold Operation.Gives Operation.upToCommit at gives
    rw [gives]
    rfl
  rw [ended] at commits
  exact commits later rfl

end Reconciliation

def Surroundings.waiting (t : Instant) : Surroundings :=
  ⟨t, fun action _ _ => .ok ⟨⟨action.name⟩, none, .submitted, t⟩, fun _ => .ok ⟨none, .confirmed t⟩⟩

namespace Index

open Reconciliation

variable {index later : Index} {around : Surroundings} {scope : Scope} {updates : List TxUpdate}

/-- A pass that has read this index and had these answers is about to commit these updates. -/
def PassBuilds (index : Index) (around : Surroundings) (scope : Scope) (updates : List TxUpdate) : Prop :=
  ∃ next, (Operation.reconcile scope).upToCommit around index = .ask (.commit (.applyTxUpdates updates)) next

theorem PassBuilds.updates_eq (built : index.PassBuilds around scope updates) (made : index.Made) :
    ∃ p : Pass, updates = (index.pending scope).filterMap p.update? := by
  obtain ⟨next, built⟩ := built
  obtain ⟨p, gives⟩ := check_gives index around .start (index.pending scope)
  have extended := (check_extends made gives).updates
  change (Reconciliation.check .start (index.pending scope) >>= _).upToCommit around index = _ at built
  rw [Operation.upToCommit_bind gives] at built
  refine ⟨p, ?_⟩
  by_cases found : p.updates ≠ []
  · simp only [if_pos found] at built
    obtain ⟨same, -⟩ := Program.ask.inj built
    obtain rfl := Change.applyTxUpdates.inj (Request.commit.inj same)
    rw [extended, List.reverse_append, List.reverse_reverse]
    rfl
  · simp only [if_neg found, finish] at built
    cases failed : p.failures with
    | nil =>
        rw [failed] at built
        cases built
    | cons failure others =>
        rw [failed] at built
        cases built

theorem PassBuilds.settled (built : index.PassBuilds around scope updates) (made : index.Made) :
    ∀ u ∈ updates, u.record.state ≠ .submitted := by
  obtain ⟨p, rfl⟩ := built.updates_eq made
  intro u listed
  obtain ⟨item, -, updated⟩ := List.mem_filterMap.mp listed
  obtain ⟨record, found, rfl⟩ := Option.map_eq_some_iff.mp updated
  obtain ⟨check, -, advanced⟩ := Option.bind_eq_some_iff.mp found
  exact TxRecord.state_of_advanced advanced

theorem PassBuilds.unspoken (built : index.PassBuilds around scope updates) (made : index.Made)
    {target : TxRef} (empty : index.record? target = none) : recordsFor target updates = [] := by
  obtain ⟨p, rfl⟩ := built.updates_eq made
  obtain ⟨id, slot⟩ := target
  rw [recordsFor_updates, filter_pending made.lifecycle.toKeyed, empty]
  split <;> rfl

end Index

namespace Service

/-- A pass that commits late has no say in whether another change is accepted, and comes to the same
before and after it. -/
theorem stale_pass_of_run {first s later : Service} (begins : first.Begins)
    (run : Relation.ReflTransGen Step first s) (onward : Relation.ReflTransGen Step s later)
    {around : Surroundings} {scope : Scope} {updates : List TxUpdate}
    (built : s.index.PassBuilds around scope updates) :
    (∀ change, (∀ others, change ≠ .applyTxUpdates others) →
      (later.index.apply (.applyTxUpdates updates)).check change = later.index.check change ∧
      (later.index.check change = .ok () →
        (later.index.apply (.applyTxUpdates updates)).apply change =
          (later.index.apply change).apply (.applyTxUpdates updates))) ∧
    (later.index.apply (.applyTxUpdates updates)).apply (.applyTxUpdates updates) =
      later.index.apply (.applyTxUpdates updates) ∧
    later.index.Retold (later.index.apply (.applyTxUpdates updates)) := by
  have sound := sound_of_run begins run
  have made : s.index.Made := ⟨s.history, sound.made⟩
  have further := (onward_of_run sound onward).2
  have brought := later.index.updates_apply updates
  refine ⟨?_, Index.apply_idem (built.settled made), brought.retold⟩
  intro change business
  refine ⟨brought.check change, ?_⟩
  intro accepted
  apply Index.apply_comm business
  intro target listed
  exact built.unspoken made
    (made.lifecycle.record?_eq_none further (Index.check_eq_ok_iff.mp accepted) target listed)

theorem stale_pass_of_season : ∃ (s later : Service) (updates : List TxUpdate),
    s.index.PassBuilds (.waiting (.ofSeconds 20)) .all updates ∧ updates.length = 1 ∧
    later.index.check (.closeEvent ⟨"DR-1"⟩ (Index.sentTx "close") (.ofSeconds 30)) = .ok () ∧
    (later.index.apply (.applyTxUpdates updates)).apply
        (.closeEvent ⟨"DR-1"⟩ (Index.sentTx "close") (.ofSeconds 30)) =
      (later.index.apply (.closeEvent ⟨"DR-1"⟩ (Index.sentTx "close") (.ofSeconds 30))).apply
        (.applyTxUpdates updates) := by
  obtain ⟨s, run, here⟩ := reaches_tasks (.waiting (.ofSeconds 10)) .standard (season.take 1)
    (s := ⟨.memory .empty, [], []⟩) rfl
  obtain ⟨later, onward, there⟩ := reaches_tasks (.waiting (.ofSeconds 10)) .standard
    ((season.drop 1).take 1) here
  have built : ∃ updates, s.index.PassBuilds (.waiting (.ofSeconds 20)) .all updates ∧
      updates.length = 1 := by
    rw [index, here]
    exact ⟨_, ⟨_, rfl⟩, rfl⟩
  obtain ⟨updates, built, one⟩ := built
  have accepted : later.index.check (.closeEvent ⟨"DR-1"⟩ (Index.sentTx "close") (.ofSeconds 30)) =
      .ok () := by
    rw [index, there]
    rfl
  obtain ⟨commutes, -, -⟩ := stale_pass_of_run .memory run onward built
  exact ⟨s, later, updates, built, one, accepted, (commutes (.closeEvent _ _ _) (by simp)).2 accepted⟩

end Service

end Curtail
