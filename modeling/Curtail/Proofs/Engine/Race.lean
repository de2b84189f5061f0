import Curtail.Proofs.Engine.Service

/-!
Races between tasks that write. A task that has read the index before the changes of others fares as
if it had begun after them.
-/

namespace Curtail

def Change.carrying (tx : TxRecord) : Change → Change
  | .insertEvent event => .insertEvent { event with createTx := tx }
  | .closeEvent id _ closedAt => .closeEvent id tx closedAt
  | .insertProof proof => .insertProof { proof with submitTx := tx }
  | .settleEvent id rows settledAt =>
    .settleEvent id (rows.map fun row => { row with settleTx := tx }) settledAt
  | .claimSettlement id site _ claimedAt => .claimSettlement id site tx claimedAt
  | change => change

theorem Failure.code_ofConflict_ne (action : LedgerAction) (cause : Conflict) :
    (ofConflict action cause).code ≠ "STORAGE_FAILURE" := by
  cases cause with
  | eventStatus event expected found => cases action <;> cases found <;> simp [ofConflict, code]
  | _ => simp [ofConflict, code]

namespace Operation

variable {α β : Type} {around : Surroundings} {index : Index}

def Builds (around : Surroundings) (index : Index) (op : Operation α) (change : Change) : Prop :=
  ∃ r next, op.upToCommit around index = .ask (.commit (change.carrying (.ofResult r))) next

def Fails (around : Surroundings) (index : Index) (op : Operation α) (f : Failure) : Prop :=
  op.upToCommit around index = .done (.error f)

theorem Builds.bind {op : Operation β} {f : β → Operation α} {b : β} {change : Change}
    (gives : op.Gives around index b) (builds : (f b).Builds around index change) :
    (op >>= f).Builds around index change := by
  unfold Builds
  rw [upToCommit_bind gives]
  exact builds

theorem Fails.bind {op : Operation β} {f : β → Operation α} {b : β} {failure : Failure}
    (gives : op.Gives around index b) (fails : (f b).Fails around index failure) :
    (op >>= f).Fails around index failure := by
  unfold Fails
  rw [upToCommit_bind gives]
  exact fails

theorem Builds.submit {mode : ConfirmMode} {action : LedgerAction} {payload : Json.Value}
    {f : TxRecord → Operation α} {change : Change} (accepting : around.IsAccepting)
    (others : ∀ r, (f (.ofResult r)).Builds around index change) :
    (submit mode action payload >>= f).Builds around index change := by
  obtain ⟨r, accepted⟩ := accepting action payload mode
  exact .bind (submit_gives_iff.mpr ⟨r, accepted, rfl⟩) (others r)

theorem Builds.commitSubmitted {action : LedgerAction} {event : EventId} {site : Option SiteId}
    {tx : TxRecord} {change built : Change} {f : Unit → Operation α} (r : TxResult)
    (same : built = change.carrying (.ofResult r)) :
    (commitSubmitted action event site tx built >>= f).Builds around index change :=
  ⟨r, _, by rw [← same]; rfl⟩

theorem Fails.fail_bind {f : β → Operation α} {failure : Failure} :
    (fail failure >>= f).Fails around index failure := rfl

/-- The operation will account for its transaction by this change, and do nothing else. -/
def AboutTo (rest : Program (Except Failure α)) (action : LedgerAction) (event : EventId)
    (site : Option SiteId) (change : Change) : Prop :=
  ∃ tx result, change.carrying tx = change ∧
    rest = (commitSubmitted action event site tx change >>= fun _ => pure result).run

/-- How an operation fares that has built its change before the index became what it is now. -/
inductive Fares (op : Operation α) (late : Surroundings) (later : Index) (action : LedgerAction)
    (change : Change) : Prop
  | accepted : later.Allows change → op.Builds late later change → Fares op late later action change
  | refused (cause : Conflict) : later.check change = .error (.conflict cause) →
      op.Fails late later (.ofConflict action cause) → Fares op late later action change

variable {early late : Surroundings} {later : Index} {change : Change}

theorem closeEvent_fares {c : Configuration} {id : EventId} (onward : index.Onward later)
    (clock : late.clock = early.clock) (accepting : late.IsAccepting)
    {next : Except StoreError Unit → Program (Except Failure Event)}
    (built : (closeEvent c id).upToCommit early index = .ask (.commit change) next) :
    AboutTo (.ask (.commit change) next) .closeEvent id none change ∧
      (closeEvent c id).Fares late later .closeEvent change := by
  obtain ⟨event, read, built⟩ := gives_of_bind ⟨_, upToCommit_requireEvent id⟩ built
  cases status : event.status with
  | closed =>
      simp only [status] at built
      cases built
  | settled =>
      simp only [status] at built
      cases built
  | active =>
      simp only [status] at built
      obtain ⟨tx, submitted, built⟩ := gives_of_bind ⟨_, upToCommit_submit _ _ _⟩ built
      cases built
      refine ⟨⟨_, _, rfl, rfl⟩, ?_⟩
      obtain ⟨f, present, becomes⟩ := onward.events id event (requireEvent_gives_iff.mp read)
      have reread : (requireEvent id).Gives late later f := requireEvent_gives_iff.mpr present
      cases now : f.status with
      | active =>
          refine .accepted ⟨f, present, now⟩ ?_
          apply Builds.bind reread
          simp only [now]
          apply Builds.submit accepting
          intro r
          apply Builds.bind now_gives
          rw [clock]
          exact .commitSubmitted r rfl
      | closed =>
          refine .refused _ (Index.expectStatus_of_ne present (by simp [now])) ?_
          apply Fails.bind reread
          simp only [now]
          exact .fail_bind
      | settled =>
          refine .refused _ (Index.expectStatus_of_ne present (by simp [now])) ?_
          apply Fails.bind reread
          simp only [now]
          exact .fail_bind

theorem createEvent_fares {c : Configuration} {plan : EventPlan} (clock : late.clock = early.clock)
    (accepting : late.IsAccepting) {next : Except StoreError Unit → Program (Except Failure Event)}
    (built : (createEvent c plan).upToCommit early index = .ask (.commit change) next) :
    AboutTo (.ask (.commit change) next) .createEvent plan.id none change ∧
      (createEvent c plan).Fares late later .createEvent change := by
  unfold createEvent at built ⊢
  by_cases window : compare plan.start plan.stop ≠ .lt
  · simp only [if_pos window] at built
    cases built
  · simp only [if_neg window] at built ⊢
    change upToCommit early index (query (.event plan.id) >>= _) = _ at built
    rw [upToCommit_query] at built
    cases found : index.answer (.event plan.id) with
    | some event =>
        rw [found] at built
        cases built
    | none =>
        rw [found] at built
        obtain ⟨tx, submitted, built⟩ := gives_of_bind ⟨_, upToCommit_submit _ _ _⟩ built
        cases built
        refine ⟨⟨_, _, rfl, rfl⟩, ?_⟩
        cases present : later.answer (.event plan.id) with
        | none =>
            refine .accepted present ?_
            apply Builds.bind (query_gives _)
            rw [present]
            apply Builds.submit accepting
            intro r
            apply Builds.bind now_gives
            rw [clock]
            exact .commitSubmitted r rfl
        | some event =>
            refine .refused (.eventExists plan.id) ?_ ?_
            · change later.events.get? plan.id = some event at present
              simp [Index.check, Table.contains, present]
            · apply Fails.bind (query_gives _)
              rw [present]
              exact .fail_bind

theorem submitProof_fares {c : Configuration} {s : Submission} (lifecycle : later.Lifecycle)
    (onward : index.Onward later) (clock : late.clock = early.clock) (accepting : late.IsAccepting)
    {next : Except StoreError Unit → Program (Except Failure Proof)}
    (built : (submitProof c s).upToCommit early index = .ask (.commit change) next) :
    AboutTo (.ask (.commit change) next) .submitProof s.event (some s.site) change ∧
      (submitProof c s).Fares late later .submitProof change := by
  obtain ⟨event, read, built⟩ := gives_of_bind ⟨_, upToCommit_requireEvent s.event⟩ built
  by_cases inactive : event.status ≠ .active
  · simp only [if_pos inactive] at built
    cases built
  · simp only [if_neg inactive] at built
    change upToCommit early index (query (.proof ⟨s.event, s.site⟩) >>= _) = _ at built
    rw [upToCommit_query] at built
    cases found : index.answer (.proof ⟨s.event, s.site⟩) with
    | some proof =>
        rw [found] at built
        cases built
    | none =>
        rw [found] at built
        -- From here on all depends on the submission and the clock alone.
        obtain ⟨t, told, built⟩ := gives_of_bind ⟨_, now_gives⟩ built
        cases told
        obtain ⟨payload, made, built⟩ := gives_of_bind (makePayload_isImmediate _ _).finishes built
        obtain ⟨_, declared, built⟩ := gives_of_bind (checkDeclared_isImmediate _ _).finishes built
        obtain ⟨_, small, built⟩ := gives_of_bind ⟨_, checkProofSize_gives _ _⟩ built
        obtain ⟨tx, submitted, built⟩ := gives_of_bind ⟨_, upToCommit_submit _ _ _⟩ built
        cases built
        refine ⟨⟨_, _, rfl, rfl⟩, ?_⟩
        obtain ⟨f, present, becomes⟩ := onward.events s.event event (requireEvent_gives_iff.mp read)
        have reread : (requireEvent s.event).Gives late later f := requireEvent_gives_iff.mpr present
        by_cases past : f.status ≠ .active
        · refine .refused (.eventStatus s.event .active f.status) ?_ ?_
          · simp only [Index.check, Index.expectStatus_of_ne present past]
          · apply Fails.bind reread
            simp only [if_pos past]
            rw [Failure.ofConflict, ← lifecycle.events s.event f present]
            exact .fail_bind
        · cases already : later.answer (.proof ⟨s.event, s.site⟩) with
          | some proof =>
              refine .refused (.proofExists s.event s.site) ?_ ?_
              · change later.proofs.get? ⟨s.event, s.site⟩ = some proof at already
                simp [Index.check, Index.expectStatus, present, not_not.mp past, Table.contains,
                  Proof.key, already]
              · apply Fails.bind reread
                simp only [if_neg past]
                apply Fails.bind (query_gives _)
                rw [already]
                exact .fail_bind
          | none =>
              refine .accepted ⟨⟨f, present, not_not.mp past⟩, already⟩ ?_
              apply Builds.bind reread
              simp only [if_neg past]
              apply Builds.bind (query_gives _)
              rw [already]
              apply Builds.bind now_gives
              rw [clock]
              apply Builds.bind ((makePayload_isImmediate _ _).gives made)
              apply Builds.bind ((checkDeclared_isImmediate _ _).gives declared)
              apply Builds.bind (checkProofSize_gives _ _)
              apply Builds.submit accepting
              intro r
              exact .commitSubmitted r rfl

theorem settleEvent_fares {c : Configuration} {id : EventId} {requested : List SiteId}
    (before : index.Lifecycle) (lifecycle : later.Lifecycle) (onward : index.Onward later)
    (clock : late.clock = early.clock) (accepting : late.IsAccepting)
    {next : Except StoreError Unit → Program (Except Failure (List Settlement))}
    (built : (settleEvent c id requested).upToCommit early index = .ask (.commit change) next) :
    AboutTo (.ask (.commit change) next) .settleEvent id none change ∧
      (settleEvent c id requested).Fares late later .settleEvent change := by
  obtain ⟨event, read, built⟩ := gives_of_bind ⟨_, upToCommit_requireEvent id⟩ built
  cases status : event.status with
  | active =>
      simp only [status] at built
      cases built
  | settled =>
      simp only [status] at built
      cases built
  | closed =>
      simp only [status] at built
      obtain ⟨sites, listed, built⟩ := gives_of_bind (sitesToSettle_finishes _ _) built
      cases shared : Scoring.targetShare event.target sites.length with
      | none =>
          rw [shared] at built
          cases built
      | some share =>
          rw [shared] at built
          obtain ⟨pays, paid, built⟩ := gives_of_bind (payouts_finishes _ _ _ _) built
          obtain ⟨tx, submitted, built⟩ := gives_of_bind ⟨_, upToCommit_submit _ _ _⟩ built
          cases built
          refine ⟨⟨_, _, by simp [Change.carrying], rfl⟩, ?_⟩
          obtain ⟨f, present, becomes⟩ := onward.events id event (requireEvent_gives_iff.mp read)
          have reread : (requireEvent id).Gives late later f := requireEvent_gives_iff.mpr present
          -- The event was closed by the first read, so that its proofs are still the same.
          have past : event.status ≠ .active := by simp [status]
          cases now : f.status with
          | active => exact (becomes.not_active past now).elim
          | settled =>
              refine .refused (.eventStatus id .closed f.status) ?_ ?_
              · simp only [Index.check, Index.expectStatus_of_ne present (by simp [now] : f.status ≠ .closed)]
              · rw [now]
                apply Fails.bind reread
                simp only [now]
                exact .fail_bind
          | closed =>
              have unsettled := lifecycle.unsettled present (by simp [now])
              obtain ⟨-, -, -, target, -, -⟩ := EventPlan.mk.inj becomes.plan
              have repaid : (payouts f id share sites).Gives late later pays := by
                refine payouts_gives_iff.mpr ((payouts_gives_iff.mp paid).imp ?_)
                rintro site pay ⟨-, p, proven, rfl⟩
                obtain ⟨q, there, grown⟩ := onward.proofs _ p proven
                exact ⟨unsettled site, q, there, by rw [becomes.payout grown]⟩
              have relisted : (sitesToSettle id requested).Gives late later sites := by
                rw [sitesToSettle_gives_iff lifecycle, (sitesToSettle_gives_iff before).mp listed,
                  Index.sitesToSettle_onward onward (requireEvent_gives_iff.mp read) past]
              refine .accepted ⟨⟨f, present, now⟩, ?_⟩ ?_
              · intro row member
                obtain ⟨pay, paid, rfl⟩ := List.mem_map.mp member
                exact payable_of_gives repaid pay paid
              · apply Builds.bind reread
                simp only [now]
                apply Builds.bind relisted
                rw [target, shared]
                apply Builds.bind repaid
                apply Builds.submit accepting
                intro r
                apply Builds.bind now_gives
                rw [clock]
                apply Builds.commitSubmitted r
                simp [Change.carrying]

theorem claimReward_fares {c : Configuration} {key : SiteKey} {claimant : ActorId}
    (onward : index.Onward later) (clock : late.clock = early.clock) (accepting : late.IsAccepting)
    {next : Except StoreError Unit → Program (Except Failure Settlement)}
    (built : (claimReward c key claimant).upToCommit early index = .ask (.commit change) next) :
    AboutTo (.ask (.commit change) next) .claimReward key.event (some key.site) change ∧
      (claimReward c key claimant).Fares late later .claimReward change := by
  change upToCommit early index (query (.settlement key) >>= _) = _ at built
  rw [upToCommit_query] at built
  cases found : index.answer (.settlement key) with
  | none =>
      rw [found] at built
      cases built
  | some row =>
      rw [found] at built
      by_cases unclaimable : row.status ≠ .settled
      · simp only [if_pos unclaimable] at built
        cases built
      · simp only [if_neg unclaimable] at built
        obtain ⟨proof, proven, built⟩ := gives_of_bind ⟨_, upToCommit_requireProof key⟩ built
        by_cases other : proof.submitter ≠ claimant
        · simp only [if_pos other] at built
          cases built
        · simp only [if_neg other] at built
          obtain ⟨tx, submitted, built⟩ := gives_of_bind ⟨_, upToCommit_submit _ _ _⟩ built
          cases built
          refine ⟨⟨_, _, rfl, rfl⟩, ?_⟩
          obtain ⟨grown, present, becomes⟩ := onward.settlements key row found
          obtain ⟨p, there, same⟩ := onward.proofs key proof (requireProof_gives_iff.mp proven)
          have reread : later.answer (.settlement key) = some grown := present
          have own : (requireProof key).Gives late later p := requireProof_gives_iff.mpr there
          by_cases gone : grown.status ≠ .settled
          · refine .refused (.settlementStatus key.event key.site grown.status) ?_ ?_
            · simp [Index.check, present, gone]
            · apply Fails.bind (query_gives _)
              rw [reread]
              simp only [if_pos gone]
              exact .fail_bind
          · refine .accepted ⟨grown, present, not_not.mp gone⟩ ?_
            apply Builds.bind (query_gives _)
            rw [reread]
            simp only [if_neg gone]
            apply Builds.bind own
            rw [same.others]
            simp only [if_neg other]
            apply Builds.submit accepting
            intro r
            apply Builds.bind now_gives
            rw [clock]
            exact .commitSubmitted r rfl

theorem commitSubmitted_run {action : LedgerAction} {event : EventId} {site : Option SiteId} {tx : TxRecord}
    (accepted : index.check change = .ok ()) (a : α) :
    (commitSubmitted action event site tx change >>= fun _ => (pure a : Operation α)).run.run around.serve index =
      (.ok a, index.apply change) := by
  have committed : around.serve (.commit change) index = (.ok (), index.apply change) := by
    rw [Surroundings.serve, Index.commit, accepted]
    rfl
  change Program.run _ (.ask (.commit change) _) index = _
  rw [Program.run, committed]
  rfl

theorem AboutTo.run_of_ok {rest : Program (Except Failure α)} {action : LedgerAction} {event : EventId}
    {site : Option SiteId} (about : AboutTo rest action event site change)
    (accepted : index.check change = .ok ()) :
    ∃ result, rest.run around.serve index = (.ok result, index.apply change) := by
  obtain ⟨tx, result, -, rfl⟩ := about
  exact ⟨result, commitSubmitted_run accepted result⟩

theorem AboutTo.run_of_error {rest : Program (Except Failure α)} {action : LedgerAction}
    {event : EventId} {site : Option SiteId} {cause : Rejection}
    (about : AboutTo rest action event site change) (refused : index.check change = .error cause) :
    ∃ tx, change.carrying tx = change ∧ rest.run around.serve index =
      (.error (.ofCommit action tx (.rejected cause)), index.apply (.recordOrphan
        ⟨action, event, site, tx, cause.message, around.clock.wholeSecond⟩)) := by
  obtain ⟨tx, result, carried, rfl⟩ := about
  refine ⟨tx, carried, ?_⟩
  have committed : around.serve (.commit change) index = (.error (.rejected cause), index) := by
    rw [Surroundings.serve, Index.commit, refused]
    rfl
  change Program.run _ (.ask (.commit change) _) index = _
  rw [Program.run, committed]
  rfl

theorem Fails.run {op : Operation α} {f : Failure} (fails : op.Fails around index f) :
    op.run.run around.serve index = (.error f, index) := by
  rw [← Program.run_advance]
  unfold Fails upToCommit at fails
  rw [fails, Program.run]

end Operation

theorem Task.fares {task : Task} {action : LedgerAction} {event : EventId} {site : Option SiteId}
    (writes : task.subject = some (action, event, site)) {c : Configuration} {index later : Index}
    {early late : Surroundings} {change : Change}
    {next : Except StoreError Unit → Program (Except Failure task.Result)} (before : index.Lifecycle)
    (lifecycle : later.Lifecycle) (onward : index.Onward later) (clock : late.clock = early.clock)
    (accepting : late.IsAccepting)
    (built : (task.operation c).upToCommit early index = .ask (.commit change) next) :
    Operation.AboutTo (.ask (.commit change) next) action event site change ∧
      (task.operation c).Fares late later action change := by
  cases task with
  | createEvent plan =>
      cases writes
      exact Operation.createEvent_fares clock accepting built
  | closeEvent id =>
      cases writes
      exact Operation.closeEvent_fares onward clock accepting built
  | submitProof submission =>
      cases writes
      exact Operation.submitProof_fares lifecycle onward clock accepting built
  | settleEvent id requested =>
      cases writes
      exact Operation.settleEvent_fares before lifecycle onward clock accepting built
  | claimReward key claimant =>
      cases writes
      exact Operation.claimReward_fares onward clock accepting built
  | _ => cases writes

structure Operation.FaresAsNew {α : Type} (op : Operation α) (late : Surroundings) (later : Index)
    (action : LedgerAction) (event : EventId) (site : Option SiteId) (change : Change)
    (next : Except StoreError Unit → Program (Except Failure α)) : Prop where
  passes : later.check change = .ok () ↔
    ∃ built next, op.upToCommit late later = .ask (.commit built) next
  same : ∀ built next, op.upToCommit late later = .ask (.commit built) next →
    ∃ r, built = change.carrying (.ofResult r)
  accepted : later.check change = .ok () → ∀ around : Surroundings, ∃ result,
    Program.run around.serve (.ask (.commit change) next) later = (.ok result, later.apply change)
  refused : later.check change ≠ .ok () → ∀ around : Surroundings, ∃ failure tx reason,
    op.run.run late.serve later = (.error failure, later) ∧ failure.code ≠ "STORAGE_FAILURE" ∧
    change.carrying tx = change ∧
    Program.run around.serve (.ask (.commit change) next) later =
      (.error failure, later.apply (.recordOrphan
        ⟨action, event, site, tx, reason, around.clock.wholeSecond⟩))

namespace Service

/-- A task that is overtaken between its reads and its commit fares as if it had begun only now. -/
theorem late_commit_fares_as_new {first s later : Service} (begins : first.Begins)
    (run : Relation.ReflTransGen Step first s) (others : Relation.ReflTransGen Step s later) {task : Task}
    {action : LedgerAction} {event : EventId} {site : Option SiteId}
    (writes : task.subject = some (action, event, site)) {c : Configuration}
    {early late : Surroundings} (clock : late.clock = early.clock) (accepting : late.IsAccepting)
    {change : Change} {next : Except StoreError Unit → Program (Except Failure task.Result)}
    (built : (task.operation c).upToCommit early s.index = .ask (.commit change) next) :
    (task.operation c).FaresAsNew late later.index action event site change next := by
  have sound := sound_of_run begins run
  obtain ⟨soundLater, onward⟩ := onward_of_run sound others
  obtain ⟨about, fares⟩ := Task.fares writes sound.made.lifecycle soundLater.made.lifecycle onward
    clock accepting built
  cases fares with
  | accepted allowed builds =>
      obtain ⟨r, after, again⟩ := builds
      have passed := Index.check_eq_ok_iff.mpr allowed
      refine ⟨⟨fun _ => ⟨_, _, again⟩, fun _ => passed⟩, ?_, fun _ around => about.run_of_ok passed,
        fun failed => (failed passed).elim⟩
      intro other _ same
      rw [again] at same
      cases same
      exact ⟨r, rfl⟩
  | refused cause conflict fails =>
      have failed : later.index.check change ≠ .ok () := by simp [conflict]
      have stopped : ∀ built next, (task.operation c).upToCommit late later.index ≠
          .ask (.commit built) next := by
        intro built next same
        cases fails.symm.trans same
      refine ⟨⟨fun passed => (failed passed).elim, ?_⟩, ?_, fun passed => (failed passed).elim, ?_⟩
      · rintro ⟨built, next, same⟩
        exact (stopped built next same).elim
      · intro built next same
        exact (stopped built next same).elim
      · intro _ around
        obtain ⟨tx, carried, left⟩ := about.run_of_error conflict
        exact ⟨_, tx, _, fails.run, Failure.code_ofConflict_ne action cause, carried, left⟩

theorem second_close_fares_as_new : ∃ (s later : Service) (change : Change)
    (next : Except StoreError Unit → Program (Except Failure Event)),
    Relation.ReflTransGen Step s later ∧
    (Operation.closeEvent .standard ⟨"DR-1"⟩).upToCommit (.confirming (.ofSeconds 10)) s.index =
      .ask (.commit change) next ∧
    later.index.check change ≠ .ok () ∧
    (Operation.closeEvent .standard ⟨"DR-1"⟩).FaresAsNew (.confirming (.ofSeconds 10)) later.index
      .closeEvent ⟨"DR-1"⟩ none change next := by
  obtain ⟨s, run, here⟩ := reaches_tasks (.confirming (.ofSeconds 10)) .standard (season.take 3)
    (s := ⟨.memory .empty, [], []⟩) rfl
  obtain ⟨later, others, there⟩ :=
    reaches_tasks (.confirming (.ofSeconds 10)) .standard [.closeEvent ⟨"DR-1"⟩] here
  have built : ∃ next, ((Task.closeEvent ⟨"DR-1"⟩).operation .standard).upToCommit
      (.confirming (.ofSeconds 10)) s.index = .ask (.commit (.closeEvent ⟨"DR-1"⟩
        ⟨⟨"tx"⟩, none, .confirmed, .ofSeconds 10, some (.ofSeconds 10), none⟩ (.ofSeconds 10))) next := by
    rw [index, here]
    exact ⟨_, rfl⟩
  obtain ⟨next, built⟩ := built
  refine ⟨s, later, _, next, others, built, ?_,
    late_commit_fares_as_new .memory run others rfl rfl (Surroundings.confirming_isAccepting _) built⟩
  rw [index, there]
  intro passed
  cases passed

end Service

end Curtail
