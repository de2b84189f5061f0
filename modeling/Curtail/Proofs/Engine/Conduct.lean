import Curtail.Proofs.Engine.Pass

namespace Curtail

def Proof.audited (p : Proof) (requestedAt : Instant) : AuditReport :=
  ⟨p.event, p.site, p.hash, Payload.hashOf p.payload, Payload.hashOf p.payload = p.hash, p.uri,
    requestedAt⟩

namespace Operation

variable {α : Type} {task : Task} {ends : Index → α → Prop} {stands : Index}

theorem createEvent_commits (c : Configuration) (plan : EventPlan) (stands : Index) :
    (createEvent c plan).Commits (.createEvent plan) (fun _ _ => True) stands := by
  unfold createEvent
  by_cases window : compare plan.start plan.stop ≠ .lt
  · simp only [if_pos window]
    exact .fail_bind _ _
  · simp only [if_neg window]
    apply Commits.query
    intro read _ _
    cases found : read.answer (.event plan.id) with
    | some event => exact .fail_bind _ _
    | none =>
        apply Commits.submit
        intro tx coherent
        apply Commits.now
        intro createdAt
        apply Commits.commitSubmitted rfl coherent
        · intro index _ _ _
          exact .createEvent (not_not.mp window) coherent
        · exact .pure fun _ _ _ => trivial

theorem closeEvent_commits (c : Configuration) (id : EventId) (stands : Index) :
    (closeEvent c id).Commits (.closeEvent id) (fun _ _ => True) stands := by
  apply Commits.requireEvent
  intro read event _ _ _
  cases event.status with
  | closed => exact .fail_bind _ _
  | settled => exact .fail_bind _ _
  | active =>
      apply Commits.submit
      intro tx coherent
      apply Commits.now
      intro closedAt
      apply Commits.commitSubmitted rfl coherent
      · intro index _ _ _
        exact .closeEvent coherent
      · exact .pure fun _ _ _ => trivial

theorem checkProofSize_commits (payload uri : String) :
    (checkProofSize payload uri).Commits task (fun _ _ => True) stands := by
  apply Commits.commitLimit
  intro limit
  cases limit with
  | none => exact .pure fun _ _ _ => trivial
  | some most =>
      by_cases large : most < quotedSize payload + quotedSize uri + proofHeadroom
      · simp only [if_pos large]
        exact .fail _
      · simp only [if_neg large]
        exact .pure fun _ _ _ => trivial

theorem makePayload_commits (s : Submission) (submittedAt : Instant) :
    (makePayload s submittedAt).Commits task
      (fun _ payload => Payload.of? (s.input submittedAt) = .ok payload) stands := by
  unfold makePayload
  cases made : Payload.of? (s.input submittedAt) with
  | ok payload =>
      simp only [Submission.input] at made
      simp only [made]
      exact .pure fun _ _ _ => rfl
  | error e =>
      simp only [Submission.input] at made
      simp only [made]
      exact .fail _

theorem checkDeclared_commits (declared : Option String) (computed : ProofHash) :
    (checkDeclared declared computed).Commits task (fun _ _ => True) stands := by
  unfold checkDeclared
  cases declared with
  | none => exact .pure fun _ _ _ => trivial
  | some text =>
      by_cases same : ProofHash.declares text computed
      · simp only [if_pos same]
        exact .pure fun _ _ _ => trivial
      · simp only [if_neg same]
        exact .fail _

theorem submitProof_commits (c : Configuration) (s : Submission) (stands : Index) :
    (submitProof c s).Commits (.submitProof s) (fun _ _ => True) stands := by
  apply Commits.requireEvent
  intro read event _ _ _
  by_cases inactive : event.status ≠ .active
  · simp only [if_pos inactive]
    exact .fail_bind _ _
  · simp only [if_neg inactive]
    apply Commits.query
    intro read _ _
    cases read.answer (.proof ⟨s.event, s.site⟩) with
    | some proof => exact .fail_bind _ _
    | none =>
        apply Commits.now
        intro submittedAt
        apply (makePayload_commits s submittedAt).bind
        intro index payload _ _ made
        apply (checkDeclared_commits _ _).bind
        intro index _ _ _ _
        apply (checkProofSize_commits _ _).bind
        intro index _ _ _ _
        apply Commits.submit
        intro tx coherent
        apply Commits.commitSubmitted rfl coherent
        · intro index _ _ _
          exact .submitProof made coherent
        · exact .pure fun _ _ _ => trivial

theorem sitesToSettle_commits {id : EventId} {e : Event} (found : stands.events.get? id = some e)
    (past : e.status ≠ .active) (requested : List SiteId) :
    (sitesToSettle id requested).Commits task
      (fun index sites => sites = index.sitesToSettle id requested) stands := by
  unfold sitesToSettle
  by_cases all : requested = []
  · simp only [if_pos all]
    apply Commits.query
    intro read onward made
    apply Commits.pure
    intro index further _
    obtain ⟨f, present, becomes⟩ := onward.events id e found
    rw [Index.sitesToSettle, if_pos all,
      Index.sitesOf_proofs_onward further present (becomes.not_active past)]
    change firsts ((Index.rowsOf read.proofs id).map (·.site)) = _
    rw [made.lifecycle.map_site, firsts_of_nodup (Index.sitesOf_nodup _ _)]
  · simp only [if_neg all]
    apply Commits.pure
    intro index _ _
    rw [Index.sitesToSettle, if_neg all]

theorem payouts_commits {id : EventId} (event : Event) (share : UInt64) (sites : List SiteId) :
    (payouts event id share sites).Commits task (fun index payouts => payouts.map (·.1) = sites ∧
      ∀ pay ∈ payouts, ∃ p, index.proofs.get? ⟨id, pay.1⟩ = some p ∧ pay.2 = event.payout share p)
      stands := by
  induction sites generalizing stands with
  | nil => exact .pure fun _ _ _ => ⟨rfl, nofun⟩
  | cons site sites ih =>
      apply Commits.query
      intro read onward made
      cases found : read.proofs.get? ⟨id, site⟩ with
      | none =>
          simp only [Index.answer, found]
          exact .fail _
      | some proof =>
          simp only [Index.answer, found]
          apply Commits.query
          intro later further _
          cases later.answer (.settlement ⟨id, site⟩) with
          | some row => exact .fail_bind _ _
          | none =>
              apply ih.bind
              rintro index others ahead _ ⟨listed, paid⟩
              apply Commits.pure
              intro last beyond _
              refine ⟨by rw [List.map_cons, listed], ?_⟩
              rintro pay (_ | ⟨_, member⟩)
              · obtain ⟨p, there, grown⟩ := ((further.trans ahead).trans beyond).proofs _ proof found
                exact ⟨p, there, ((Event.Becomes.refl event).payout grown share).symm⟩
              · obtain ⟨p, proven, payout⟩ := paid pay member
                obtain ⟨q, there, grown⟩ := beyond.proofs _ p proven
                exact ⟨q, there, payout.trans ((Event.Becomes.refl event).payout grown share).symm⟩

theorem settleEvent_commits (c : Configuration) (id : EventId) (requested : List SiteId)
    (stands : Index) :
    (settleEvent c id requested).Commits (.settleEvent id requested) (fun _ _ => True) stands := by
  apply Commits.requireEvent
  intro read event _ _ found
  cases status : event.status with
  | active => exact .fail_bind _ _
  | settled => exact .fail_bind _ _
  | closed =>
      have past : event.status ≠ .active := by simp [status]
      apply (sitesToSettle_commits found past requested).bind
      intro index sites onward _ listed
      cases shared : Scoring.targetShare event.target sites.length with
      | none => exact .fail _
      | some share =>
          apply (payouts_commits event share sites).bind
          intro later payouts further _ paid
          apply Commits.submit
          intro tx coherent
          apply Commits.now
          intro settledAt
          apply Commits.commitSubmitted rfl coherent
          · intro last ahead _ _
            -- The event has not been active since it was read, so that its proofs are still the same.
            obtain ⟨e, here, became⟩ := onward.events id event found
            obtain ⟨f, there, becomes⟩ := ((onward.trans further).trans ahead).events id event found
            obtain ⟨-, -, -, target, -, -⟩ := EventPlan.mk.inj becomes.plan
            have same := Index.sitesToSettle_onward (further.trans ahead) here
              (became.not_active past) requested
            rw [← listed] at same
            refine .settleEvent there (by rw [target, same]; exact shared) (by rw [same]; exact paid.1)
              ?_ coherent
            intro pay member
            obtain ⟨p, proven, payout⟩ := paid.2 pay member
            obtain ⟨q, kept, grown⟩ := ahead.proofs _ p proven
            exact ⟨q, kept, payout.trans (becomes.payout grown share).symm⟩
          · exact .pure fun _ _ _ => trivial

theorem claimReward_commits (c : Configuration) (key : SiteKey) (claimant : ActorId) (stands : Index) :
    (claimReward c key claimant).Commits (.claimReward key claimant) (fun _ _ => True) stands := by
  apply Commits.query
  intro read _ _
  cases read.answer (.settlement key) with
  | none => exact .fail _
  | some row =>
      by_cases unclaimable : row.status ≠ .settled
      · simp only [if_pos unclaimable]
        exact .fail_bind _ _
      · simp only [if_neg unclaimable]
        apply Commits.requireProof
        intro read proof _ _ proven
        by_cases other : proof.submitter ≠ claimant
        · simp only [if_pos other]
          exact .fail_bind _ _
        · simp only [if_neg other]
          apply Commits.submit
          intro tx coherent
          apply Commits.now
          intro claimedAt
          apply Commits.commitSubmitted rfl coherent
          · intro index onward _ _
            obtain ⟨p, there, grown⟩ := onward.proofs key proof proven
            refine .claimReward there ?_ coherent
            rw [grown.others]
            exact not_not.mp other
          · exact .pure fun _ _ _ => trivial

theorem finish_commits (pending : Nat) (p : Reconciliation.Pass) :
    (Reconciliation.finish pending p).Commits task (fun _ _ => True) stands := by
  unfold Reconciliation.finish
  cases p.failures with
  | nil => exact .pure fun _ _ _ => trivial
  | cons failure _ => exact .fail _

theorem reconcile_commits {scope : Scope} (asks : task.scope? = some scope) :
    (reconcile scope).Commits task (fun _ _ => True) stands := by
  apply Commits.query
  intro read _ made
  apply (Reconciliation.check_commits task read .start (read.pending scope)).bind
  intro index p onward _ extended
  have updates : p.updates.reverse = (read.pending scope).filterMap p.update? := by
    rw [extended.updates]
    simp [Reconciliation.Pass.start]
  by_cases found : p.updates ≠ []
  · simp only [if_pos found]
    apply Commits.commit
    · intro later further _ _
      rw [updates]
      exact .reconcile asks (made.lifecycle.pass_coherent p scope)
        (made.lifecycle.pass_unites (onward.trans further) p scope)
    · exact finish_commits _ p
  · simp only [if_neg found]
    exact finish_commits _ p

theorem reconcileEvent_commits {id : EventId} (asks : task.scope? = some (.event id)) :
    (reconcileEvent id).Commits task (fun _ _ => True) stands := by
  apply (reconcile_commits asks).bind
  intro _ _ _ _ _
  exact .pure fun _ _ _ => trivial

theorem query_commits (q : Query) : (query q).Commits task (fun _ _ => True) stands := by
  refine ⟨?_⟩
  intro index _ _
  refine ⟨by rintro _ ⟨⟩, ?_⟩
  intro reply later serves
  cases serves with
  | query _ => exact fun _ _ _ _ _ => trivial
  | queryFailed _ e => exact commits_failed _

theorem requireEvent_commits (id : EventId) :
    (requireEvent id).Commits task (fun _ _ => True) stands := by
  apply (query_commits _).bind
  intro _ found _ _ _
  cases found with
  | some event => exact .pure fun _ _ _ => trivial
  | none => exact .fail _

theorem requireProof_commits (key : SiteKey) :
    (requireProof key).Commits task (fun _ _ => True) stands := by
  apply (query_commits _).bind
  intro _ found _ _ _
  cases found with
  | some proof => exact .pure fun _ _ _ => trivial
  | none => exact .fail _

theorem getAudit_commits (key : SiteKey) (stands : Index) :
    (getAudit key).Commits (.getAudit key) (fun _ report => ∃ read p requestedAt, read.Made ∧
      stands.Onward read ∧ read.proofs.get? key = some p ∧ report = p.audited requestedAt) stands := by
  apply Commits.requireProof
  intro read proof onward made proven
  apply Commits.now
  intro requestedAt
  apply Commits.commit
  · intro _ _ _ _
    exact .getAudit
  · exact .pure fun _ _ _ => ⟨read, proof, requestedAt, made, onward, proven, rfl⟩

theorem getSummary_commits (c : Configuration) (id : EventId) (stands : Index) :
    (getSummary c id).Commits (.getSummary id) (fun _ progress => ∃ read later event settlements,
      read.Made ∧ stands.Onward read ∧ read.Onward later ∧
      progress = .of c event (Index.rowsOf read.proofs id) settlements
        (later.audits.get? ⟨id, c.focus⟩)) stands := by
  apply (reconcileEvent_commits rfl).bind
  intro _ _ reconciled _ _
  apply (requireEvent_commits id).bind
  intro _ event present _ _
  apply Commits.query
  -- The proofs are read before the audit request.
  intro read onward made
  apply Commits.query
  intro between further _
  apply Commits.query
  intro later last _
  exact .pure fun _ _ _ => ⟨read, later, event, _, made, (reconciled.trans present).trans onward,
    further.trans last, rfl⟩

end Operation

/-- Every operation of the engine commits what its task may make, and nothing else. -/
theorem Task.commits (task : Task) (c : Configuration) (stands : Index) :
    (task.operation c).Commits task (fun _ _ => True) stands := by
  cases task with
  | createEvent plan => exact Operation.createEvent_commits c plan stands
  | closeEvent id => exact Operation.closeEvent_commits c id stands
  | submitProof submission => exact Operation.submitProof_commits c submission stands
  | settleEvent id requested => exact Operation.settleEvent_commits c id requested stands
  | claimReward key claimant => exact Operation.claimReward_commits c key claimant stands
  | reconcile scope => exact Operation.reconcile_commits rfl
  | getEvent id =>
      apply (Operation.reconcileEvent_commits rfl).bind
      intro _ _ _ _ _
      exact Operation.requireEvent_commits id
  | listSettlements id =>
      apply (Operation.reconcileEvent_commits rfl).bind
      intro _ _ _ _ _
      apply (Operation.requireEvent_commits id).bind
      intro _ _ _ _ _
      exact Operation.query_commits (.settlements id)
  | getProof key =>
      apply (Operation.reconcileEvent_commits rfl).bind
      intro _ _ _ _ _
      exact Operation.requireProof_commits key
  | getAudit key => exact (Operation.getAudit_commits key stands).mono fun _ _ _ => trivial
  | getSummary id => exact (Operation.getSummary_commits c id stands).mono fun _ _ _ => trivial
  | listOrphans => exact Operation.query_commits .orphans

end Curtail
