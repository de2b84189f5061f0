import Curtail.Proofs.Engine.Stage

namespace Curtail

inductive Task
  | createEvent (plan : EventPlan)
  | closeEvent (id : EventId)
  | submitProof (submission : Submission)
  | settleEvent (id : EventId) (requested : List SiteId)
  | claimReward (key : SiteKey) (claimant : ActorId)
  | reconcile (scope : Scope)
  | getEvent (id : EventId)
  | listSettlements (id : EventId)
  | getProof (key : SiteKey)
  | getAudit (key : SiteKey)
  | getSummary (id : EventId)
  | listOrphans

namespace Task

def Result : Task → Type
  | .createEvent _ | .closeEvent _ | .getEvent _ => Event
  | .submitProof _ | .getProof _ => Proof
  | .settleEvent .. | .listSettlements _ => List Settlement
  | .claimReward .. => Settlement
  | .reconcile _ => ReconcileReport
  | .getAudit _ => AuditReport
  | .getSummary _ => Progress
  | .listOrphans => List Orphan

def operation (c : Configuration) : (task : Task) → Operation task.Result
  | .createEvent plan => Operation.createEvent c plan
  | .closeEvent id => Operation.closeEvent c id
  | .submitProof submission => Operation.submitProof c submission
  | .settleEvent id requested => Operation.settleEvent c id requested
  | .claimReward key claimant => Operation.claimReward c key claimant
  | .reconcile scope => Operation.reconcile scope
  | .getEvent id => Operation.getEvent id
  | .listSettlements id => Operation.listSettlements id
  | .getProof key => Operation.getProof key
  | .getAudit key => Operation.getAudit key
  | .getSummary id => Operation.getSummary c id
  | .listOrphans => Operation.listOrphans

def targets : (task : Task) → task.Result → List TxRef
  | .createEvent plan, _ => [⟨plan.id, .create⟩]
  | .closeEvent id, _ => [⟨id, .close⟩]
  | .submitProof submission, _ => [⟨submission.event, .submit submission.site⟩]
  | .settleEvent id _, (rows : List Settlement) => rows.map fun row => ⟨id, .settle row.site⟩
  | .claimReward key _, _ => [⟨key.event, .claim key.site⟩]
  | _, _ => []

def subject : Task → Option (LedgerAction × EventId × Option SiteId)
  | .createEvent plan => some (.createEvent, plan.id, none)
  | .closeEvent id => some (.closeEvent, id, none)
  | .submitProof submission => some (.submitProof, submission.event, some submission.site)
  | .settleEvent id _ => some (.settleEvent, id, none)
  | .claimReward key _ => some (.claimReward, key.event, some key.site)
  | _ => none

/-- With the transaction in the rows that it reports, with an orphan, or without one. -/
def Ends (task : Task) : Stage → Except Failure task.Result → Prop
  | .idle, .ok _ => task.subject = none
  | .idle, .error _ => True
  | .stored _ change, .ok result => change.targets = task.targets result
  | .orphaned orphan, .error _ => task.subject = some (orphan.action, orphan.event, orphan.site)
  | _, _ => False

theorem ends_idle (task : Task) (e : Failure) : task.Ends .idle (.error e) := trivial

end Task

namespace Operation

variable {α : Type}

theorem fail_follows {ends : Stage → Except Failure α → Prop} (failed : ∀ e, ends .idle (.error e))
    (e : Failure) : Follows ends .idle (fail e) :=
  failed e

theorem fail_bind_follows {β : Type} {ends : Stage → Except Failure β → Prop}
    (failed : ∀ e, ends .idle (.error e)) (e : Failure) (f : α → Operation β) :
    Follows ends .idle (fail e >>= f) :=
  failed e

theorem commitSubmitted_ends (task : Task) {action : LedgerAction} {event : EventId}
    {site : Option SiteId} {tx : TxRecord} {change : Change} {f : Unit → Operation task.Result}
    (subject : task.subject = some (action, event, site)) (carries : change.Carries tx)
    (others : (f ()).Follows task.Ends (.stored tx change)) :
    Follows task.Ends (.holding tx) (commitSubmitted action event site tx change >>= f) := by
  apply commitSubmitted_follows carries others
  rintro orphan e rfl rfl rfl
  exact subject

theorem createEvent_follows (c : Configuration) (plan : EventPlan) :
    (createEvent c plan).Follows (Task.Ends (.createEvent plan)) .idle := by
  have failed := Task.ends_idle (.createEvent plan)
  unfold createEvent
  by_cases window : compare plan.start plan.stop ≠ .lt
  · simp only [if_pos window]
    exact fail_bind_follows failed _ _
  · simp only [if_neg window]
    apply (Idle.query _).follows_bind _ failed
    intro found
    cases found with
    | some event => exact fail_bind_follows failed _ _
    | none =>
        apply submit_follows _ failed
        intro tx
        apply now_follows
        intro createdAt
        apply commitSubmitted_ends (.createEvent plan)
        · rfl
        · exact ⟨rfl, rfl⟩
        · rfl

theorem closeEvent_follows (c : Configuration) (id : EventId) :
    (closeEvent c id).Follows (Task.Ends (.closeEvent id)) .idle := by
  have failed := Task.ends_idle (.closeEvent id)
  apply (Idle.requireEvent id).follows_bind _ failed
  intro event
  cases event.status with
  | closed => exact fail_bind_follows failed _ _
  | settled => exact fail_bind_follows failed _ _
  | active =>
      apply submit_follows _ failed
      intro tx
      apply now_follows
      intro closedAt
      apply commitSubmitted_ends (.closeEvent id)
      · rfl
      · rfl
      · rfl

theorem Idle.checkProofSize (payload uri : String) : (checkProofSize payload uri).Idle := by
  apply Idle.commitLimit.bind
  intro limit
  cases limit with
  | none => exact .pure _
  | some most =>
      by_cases large : most < quotedSize payload + quotedSize uri + proofHeadroom
      · simp only [if_pos large]
        exact .fail _
      · simp only [if_neg large]
        exact .pure _

theorem Idle.makePayload (s : Submission) (createdAt : Instant) : (makePayload s createdAt).Idle := by
  unfold Operation.makePayload
  cases Payload.of? ⟨s.event, s.site, s.baseline, s.actual, s.method, s.raw, createdAt⟩ with
  | ok payload => exact .pure payload
  | error e => exact .fail _

theorem Idle.checkDeclared (declared : Option String) (computed : ProofHash) :
    (checkDeclared declared computed).Idle := by
  cases declared with
  | none => exact .pure _
  | some text =>
      simp only [Operation.checkDeclared]
      split
      · exact .pure ()
      · exact .fail _

theorem submitProof_follows (c : Configuration) (s : Submission) :
    (submitProof c s).Follows (Task.Ends (.submitProof s)) .idle := by
  have failed := Task.ends_idle (.submitProof s)
  apply (Idle.requireEvent s.event).follows_bind _ failed
  intro event
  by_cases inactive : event.status ≠ .active
  · simp only [if_pos inactive]
    exact fail_bind_follows failed _ _
  · simp only [if_neg inactive]
    apply (Idle.query _).follows_bind _ failed
    intro found
    cases found with
    | some proof => exact fail_bind_follows failed _ _
    | none =>
        apply Idle.now.follows_bind _ failed
        intro submittedAt
        apply (Idle.makePayload s submittedAt).follows_bind _ failed
        intro payload
        apply (Idle.checkDeclared _ _).follows_bind _ failed
        intro _
        apply (Idle.checkProofSize _ _).follows_bind _ failed
        intro _
        apply submit_follows _ failed
        intro tx
        apply commitSubmitted_ends (.submitProof s)
        · rfl
        · rfl
        · rfl

theorem Idle.sitesToSettle (id : EventId) (requested : List SiteId) :
    (sitesToSettle id requested).Idle := by
  unfold Operation.sitesToSettle
  by_cases all : requested = []
  · simp only [if_pos all]
    apply (Idle.query _).bind
    intro proofs
    exact .pure _
  · simp only [if_neg all]
    exact .pure _

theorem payouts_follows (event : Event) (id : EventId) (share : UInt64) (sites : List SiteId) :
    (payouts event id share sites).Follows
      (fun stage result => stage = .idle ∧ ∀ rows, result = .ok rows → rows.map (·.1) = sites) .idle := by
  have failed : ∀ (sites : List SiteId) (e : Failure), Stage.idle = .idle ∧
      ∀ rows : List (SiteId × Int64), Except.error e = .ok rows → rows.map (·.1) = sites :=
    fun _ _ => ⟨rfl, nofun⟩
  induction sites with
  | nil =>
      refine ⟨rfl, ?_⟩
      rintro rows same
      cases same
      rfl
  | cons site sites ih =>
      apply (Idle.query _).follows_bind _ (failed _)
      intro proof
      cases proof with
      | none => exact fail_follows (failed _) _
      | some proof =>
          apply (Idle.query _).follows_bind _ (failed _)
          intro found
          cases found with
          | some row => exact fail_bind_follows (failed _) _ _
          | none =>
              apply follows_bind ih
              · rintro stage others ⟨rfl, same⟩
                refine ⟨rfl, ?_⟩
                rintro rows listed
                cases listed
                rw [List.map_cons, same others rfl]
              · rintro stage e ⟨rfl, -⟩
                exact failed _ e

theorem settleEvent_follows (c : Configuration) (id : EventId) (requested : List SiteId) :
    (settleEvent c id requested).Follows (Task.Ends (.settleEvent id requested)) .idle := by
  have failed := Task.ends_idle (.settleEvent id requested)
  apply (Idle.requireEvent id).follows_bind _ failed
  intro event
  cases event.status with
  | active => exact fail_bind_follows failed _ _
  | settled => exact fail_bind_follows failed _ _
  | closed =>
      apply (Idle.sitesToSettle id requested).follows_bind _ failed
      intro sites
      cases shared : Scoring.targetShare event.target sites.length with
      | none => exact fail_follows failed _
      | some share =>
          apply follows_bind (payouts_follows event id share sites)
          · rintro stage payouts ⟨rfl, listed⟩
            apply submit_follows _ failed
            intro tx
            apply now_follows
            intro settledAt
            apply commitSubmitted_ends (.settleEvent id requested)
            · rfl
            · refine ⟨?_, ?_⟩
              · -- Without a site there is no share, so some row is there to carry the transaction.
                intro empty
                have none_listed := listed payouts rfl
                rw [List.map_eq_nil_iff.mp empty, List.map_nil] at none_listed
                rw [← none_listed] at shared
                cases shared
              · intro row member
                obtain ⟨pair, -, rfl⟩ := List.mem_map.mp member
                exact ⟨rfl, rfl⟩
            · rfl
          · rintro stage e ⟨rfl, -⟩
            exact failed e

theorem claimReward_follows (c : Configuration) (key : SiteKey) (claimant : ActorId) :
    (claimReward c key claimant).Follows (Task.Ends (.claimReward key claimant)) .idle := by
  have failed := Task.ends_idle (.claimReward key claimant)
  apply (Idle.query _).follows_bind _ failed
  intro found
  cases found with
  | none => exact fail_follows failed _
  | some row =>
      by_cases unclaimable : row.status ≠ .settled
      · simp only [if_pos unclaimable]
        exact fail_bind_follows failed _ _
      · simp only [if_neg unclaimable]
        apply (Idle.requireProof key).follows_bind _ failed
        intro proof
        by_cases other : proof.submitter ≠ claimant
        · simp only [if_pos other]
          exact fail_bind_follows failed _ _
        · simp only [if_neg other]
          apply submit_follows _ failed
          intro tx
          apply now_follows
          intro claimedAt
          apply commitSubmitted_ends (.claimReward key claimant)
          · rfl
          · rfl
          · rfl

theorem Idle.reconciliation (p : Reconciliation.Pass) (items : List PendingTx) :
    (Reconciliation.check p items).Idle := by
  induction items generalizing p with
  | nil => exact .pure p
  | cons item items ih =>
      simp only [Reconciliation.check]
      cases p.answers.lookup item.record.handle with
      | some _ => exact ih _
      | none =>
          apply (Idle.tryCheck _).bind
          intro answer
          exact ih _

theorem Idle.finish (pending : Nat) (p : Reconciliation.Pass) :
    (Reconciliation.finish pending p).Idle := by
  unfold Reconciliation.finish
  cases p.failures with
  | nil => exact .pure _
  | cons failure _ => exact .fail _

theorem Idle.reconcile (scope : Scope) : (reconcile scope).Idle := by
  apply (Idle.query _).bind
  intro items
  apply (Idle.reconciliation .start items).bind
  intro p
  by_cases found : p.updates ≠ []
  · simp only [if_pos found]
    apply (@Idle.commit (.applyTxUpdates p.updates.reverse) trivial rfl).bind
    intro _
    exact .finish _ p
  · simp only [if_neg found]
    exact .finish _ p

theorem Idle.reconcileEvent (id : EventId) : (reconcileEvent id).Idle := by
  apply (Idle.reconcile _).bind
  intro report
  exact .pure ()

theorem Idle.getEvent (id : EventId) : (getEvent id).Idle := by
  apply (Idle.reconcileEvent id).bind
  intro _
  exact .requireEvent id

theorem Idle.listSettlements (id : EventId) : (listSettlements id).Idle := by
  apply (Idle.reconcileEvent id).bind
  intro _
  apply (Idle.requireEvent id).bind
  intro _
  exact .query _

theorem Idle.getProof (key : SiteKey) : (getProof key).Idle := by
  apply (Idle.reconcileEvent key.event).bind
  intro _
  exact .requireProof key

theorem Idle.getAudit (key : SiteKey) : (getAudit key).Idle := by
  apply (Idle.requireProof key).bind
  intro proof
  apply Idle.now.bind
  intro requestedAt
  apply (@Idle.commit (.upsertAudit ⟨key.event, key.site, requestedAt⟩) trivial rfl).bind
  intro _
  exact .pure _

theorem Idle.getSummary (c : Configuration) (id : EventId) : (getSummary c id).Idle := by
  apply (Idle.reconcileEvent id).bind
  intro _
  apply (Idle.requireEvent id).bind
  intro event
  apply (Idle.query _).bind
  intro proofs
  apply (Idle.query _).bind
  intro settlements
  apply (Idle.query _).bind
  intro audit
  exact .pure _

end Operation

theorem Program.Follows.mono {α : Type} {ends other : Stage → α → Prop} {stage : Stage} {p : Program α}
    (follows : p.Follows ends stage) (weaker : ∀ stage a, ends stage a → other stage a) :
    p.Follows other stage := by
  induction p generalizing stage with
  | done a => exact weaker stage a follows
  | ask r next ih =>
      obtain ⟨permitted, others⟩ := follows
      refine ⟨permitted, ?_⟩
      intro reply
      exact ih reply (others reply)

theorem Operation.Idle.ends {task : Task} {op : Operation task.Result} (idle : op.Idle)
    (reads : task.subject = none) : op.Follows task.Ends .idle := by
  apply Program.Follows.mono idle.follows
  rintro stage result rfl
  cases result with
  | ok value => exact reads
  | error e => exact task.ends_idle e

/-- Every operation of the engine keeps to the stages. -/
theorem Task.follows (task : Task) (c : Configuration) :
    (task.operation c).Follows task.Ends .idle := by
  cases task with
  | createEvent plan => exact Operation.createEvent_follows c plan
  | closeEvent id => exact Operation.closeEvent_follows c id
  | submitProof submission => exact Operation.submitProof_follows c submission
  | settleEvent id requested => exact Operation.settleEvent_follows c id requested
  | claimReward key claimant => exact Operation.claimReward_follows c key claimant
  | reconcile scope => exact (Operation.Idle.reconcile scope).ends rfl
  | getEvent id => exact (Operation.Idle.getEvent id).ends rfl
  | listSettlements id => exact (Operation.Idle.listSettlements id).ends rfl
  | getProof key => exact (Operation.Idle.getProof key).ends rfl
  | getAudit key => exact (Operation.Idle.getAudit key).ends rfl
  | getSummary id => exact (Operation.Idle.getSummary c id).ends rfl
  | listOrphans => exact (Operation.Idle.query .orphans).ends rfl

end Curtail
