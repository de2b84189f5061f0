import Curtail.Proofs.Engine.Service

namespace Curtail

theorem Scoring.toNat_reduction (baseline actual : UInt64) :
    ((reduction baseline actual).toNat : Int) = max ((baseline.toNat : Int) - actual.toNat) 0 := by
  unfold reduction
  by_cases less : actual ≤ baseline
  · rw [if_pos less, UInt64.toNat_sub_of_le _ _ less]
    have bound : actual.toNat ≤ baseline.toNat := UInt64.le_iff_toNat_le.mp less
    omega
  · have bound : baseline.toNat < actual.toNat := by
      rw [UInt64.le_iff_toNat_le] at less
      omega
    rw [if_neg less, UInt64.toNat_zero]
    omega

structure Proof.IsEvidence (p : Proof) : Prop where
  reduction : (p.reduction.toNat : Int) = max ((p.baseline.toNat : Int) - p.actual.toNat) 0
  payload : ∃ raw, p.payload = (Json.Value.record [("event_id", .string p.event.text),
    ("site_id", .string p.site.text), ("baseline_kwh", .nat p.baseline.toNat),
    ("actual_kwh", .nat p.actual.toNat), ("reduction_kwh", .nat p.reduction.toNat),
    ("baseline_method", .string p.method.text), ("raw_payload", .object raw),
    ("created_at", .string p.submittedAt.textToSecond)]).canonicalText
  hash : p.hash = Payload.hashOf p.payload

theorem Submission.proof_isEvidence {s : Submission} {payload : Payload} {tx : TxRecord} {t : Instant}
    (made : Payload.of? (s.input t) = .ok payload) : (s.proof payload tx t).IsEvidence := by
  obtain ⟨raw, -, rfl⟩ := Payload.of?_eq_ok_iff.mp made
  exact ⟨Scoring.toNat_reduction s.baseline s.actual, ⟨raw, rfl⟩, rfl⟩

theorem Proof.IsEvidence.audited {p : Proof} (evidence : p.IsEvidence) (requestedAt : Instant) :
    (p.audited requestedAt).holds = true ∧
      (p.audited requestedAt).storedHash = (p.audited requestedAt).recomputedHash :=
  ⟨decide_eq_true evidence.hash.symm, evidence.hash⟩

theorem Proof.IsEvidence.becomes {p later : Proof} (evidence : p.IsEvidence) (becomes : p.Becomes later) :
    later.IsEvidence := by
  rw [becomes.others]
  exact ⟨evidence.reduction, evidence.payload, evidence.hash⟩

namespace Index

variable {index later : Index} {history : List (Task × Change)}

theorem MadeBy.evidence (made : index.MadeBy history) {key : SiteKey} {p : Proof}
    (found : index.proofs.get? key = some p) : p.IsEvidence := by
  induction made generalizing p with
  | empty => cases found
  | @change index history task change before allowed makes ih =>
      have onward := onward_apply allowed
      cases old : index.proofs.get? key with
      | some q =>
          obtain ⟨r, present, becomes⟩ := onward.proofs key q old
          obtain rfl := Option.some.inj (found.symm.trans present)
          exact (ih old).becomes becomes
      | none =>
          cases makes with
          | submitProof given coherent =>
              rcases Table.get?_insert_cases found with ⟨-, rfl⟩ | ⟨-, before⟩
              · exact Submission.proof_isEvidence given
              · cases old.symm.trans before
          | reconcile inScope coherent unites =>
              rw [apply, get?_proofs_applyTxUpdates, old] at found
              cases found
          | _ => cases old.symm.trans found

theorem Made.evidence (made : index.Made) {key : SiteKey} {p : Proof}
    (found : index.proofs.get? key = some p) : p.IsEvidence := by
  obtain ⟨history, made⟩ := made
  exact made.evidence found

end Index

namespace Surroundings

theorem serves (around : Surroundings) (r : Request) (index : Index) :
    index.Serves r (around.serve r index).1 (around.serve r index).2 := by
  cases r with
  | now => exact .now around.clock
  | commitLimit => exact .commitLimit none
  | query q => exact .query q
  | commit change =>
      simp only [serve, Index.commit]
      cases checked : index.check change with
      | ok _ => exact .commit (Index.check_eq_ok_iff.mp checked)
      | error cause => exact .commitFailed change _
  | submit action payload mode => exact .submit action payload mode _
  | check handle => exact .check handle _

def result (around : Surroundings) (c : Configuration) (index : Index) (task : Task) :
    Except Failure task.Result :=
  ((task.operation c).run.run around.serve index).1

def AnswersChecks (around : Surroundings) : Prop :=
  ∀ handle, ∃ check, around.check handle = .ok check

end Surroundings

namespace Program

variable {α β σ : Type} {task : Task} {ends : Index → α → Prop} {index : Index}

theorem run_andThen (answer : (r : Request) → σ → r.Reply × σ) (p : Program α) (f : α → Program β)
    (s : σ) :
    (p.andThen f).run answer s = (f (p.run answer s).1).run answer (p.run answer s).2 := by
  induction p generalizing s with
  | done a => rfl
  | ask r next ih => exact ih _ _

theorem run_onward (around : Surroundings) (p : Program α) (index : Index) :
    index.Onward (p.run around.serve index).2 := by
  induction p generalizing index with
  | done a => exact .refl index
  | ask r next ih => exact (around.serves r index).onward.trans (ih _ _)

theorem Commits.run {p : Program α} (commits : p.Commits task ends index) (made : index.Made)
    (around : Surroundings) :
    ends (p.run around.serve index).2 (p.run around.serve index).1 := by
  induction p generalizing index with
  | done a => exact commits index (.refl index) made
  | ask r next ih =>
      obtain ⟨makes, others⟩ := commits index (.refl index) made
      have serves := around.serves r index
      obtain ⟨history, before⟩ := made
      exact ih _ (others _ _ serves) ⟨_, serves.madeBy before makes⟩

end Program

namespace Operation

section Sequence

variable {α β σ : Type} {answer : (r : Request) → σ → r.Reply × σ} {op : Operation α}
  {f : α → Operation β} {s after : σ}

theorem run_bind_of_ok {a : α} (first : op.run.run answer s = (.ok a, after)) :
    (op >>= f).run.run answer s = (f a).run.run answer after := by
  refine (Program.run_andThen answer op.run _ s).trans ?_
  rw [first]
  rfl

theorem run_bind_of_error {e : Failure} (first : op.run.run answer s = (.error e, after)) :
    (op >>= f).run.run answer s = (.error e, after) := by
  refine (Program.run_andThen answer op.run _ s).trans ?_
  rw [first]
  rfl

end Sequence

variable {α β : Type} {around : Surroundings} {index : Index}

def Succeeds (around : Surroundings) (index : Index) (op : Operation α) : Prop :=
  ∃ a later, op.run.run around.serve index = (.ok a, later)

theorem succeeds_bind {op : Operation β} {f : β → Operation α} {b : β} {between : Index}
    (first : op.run.run around.serve index = (.ok b, between))
    (others : (f b).Succeeds around between) : (op >>= f).Succeeds around index := by
  unfold Succeeds
  rw [run_bind_of_ok first]
  exact others

theorem query_run (around : Surroundings) (index : Index) (q : Query) :
    (query q).run.run around.serve index = (.ok (index.answer q), index) := rfl

theorem now_run (around : Surroundings) (index : Index) :
    now.run.run around.serve index = (.ok around.clock.wholeSecond, index) := rfl

theorem check_run (answers : around.AnswersChecks) (index : Index) (p : Reconciliation.Pass)
    (items : List PendingTx) (clean : p.failures = []) : ∃ q, q.failures = [] ∧
      (Reconciliation.check p items).run.run around.serve index = (.ok q, index) := by
  induction items generalizing p with
  | nil => exact ⟨p, clean, rfl⟩
  | cons item items ih =>
      simp only [Reconciliation.check]
      cases p.answers.lookup item.record.handle with
      | some answer => exact ih _ (by rw [Reconciliation.Pass.settle_eq]; exact clean)
      | none =>
          obtain ⟨check, answered⟩ := answers item.record.handle
          obtain ⟨q, finished, same⟩ := ih ((p.answered item.record.handle (.ok check)).settle item)
            (by rw [Reconciliation.Pass.settle_eq]; exact clean)
          refine ⟨q, finished, ?_⟩
          change Program.run _ ((Reconciliation.check ((p.answered item.record.handle
            (around.check item.record.handle)).settle item) items).run) index = _
          rw [answered]
          exact same

theorem finish_run (around : Surroundings) (index : Index) {p : Reconciliation.Pass}
    (clean : p.failures = []) (pending : Nat) : ∃ report,
      (Reconciliation.finish pending p).run.run around.serve index = (.ok report, index) := by
  unfold Reconciliation.finish
  rw [clean]
  exact ⟨_, rfl⟩

theorem commit_run (around : Surroundings) {index : Index} {change : Change}
    (allowed : index.Allows change) :
    (commit change).run.run around.serve index = (.ok (), index.apply change) := by
  have committed : around.serve (.commit change) index = (.ok (), index.apply change) := by
    rw [Surroundings.serve, Index.commit, Index.check_eq_ok_iff.mpr allowed]
    rfl
  change Program.run _ (.ask (.commit change) _) index = _
  rw [Program.run, committed]
  rfl

theorem reconcile_succeeds (answers : around.AnswersChecks) (index : Index) (scope : Scope) :
    (reconcile scope).Succeeds around index := by
  obtain ⟨p, clean, checked⟩ := check_run answers index .start (index.pending scope) rfl
  apply succeeds_bind (query_run around index (.pending scope))
  apply succeeds_bind checked
  by_cases found : p.updates ≠ []
  · simp only [if_pos found]
    have allowed : index.Allows (.applyTxUpdates p.updates.reverse) := trivial
    obtain ⟨report, finished⟩ := finish_run around (index.apply (.applyTxUpdates p.updates.reverse))
      clean (index.pending scope).length
    exact succeeds_bind (commit_run around allowed) ⟨report, _, finished⟩
  · simp only [if_neg found]
    obtain ⟨report, finished⟩ := finish_run around index clean (index.pending scope).length
    exact ⟨report, _, finished⟩

theorem requireEvent_run (around : Surroundings) {index : Index} {id : EventId} {event : Event}
    (found : index.events.get? id = some event) :
    (requireEvent id).run.run around.serve index = (.ok event, index) := by
  unfold requireEvent
  rw [run_bind_of_ok (query_run around index (.event id))]
  simp only [Index.answer, found]
  rfl

theorem requireProof_run (around : Surroundings) {index : Index} {key : SiteKey} {proof : Proof}
    (found : index.proofs.get? key = some proof) :
    (requireProof key).run.run around.serve index = (.ok proof, index) := by
  unfold requireProof
  rw [run_bind_of_ok (query_run around index (.proof key))]
  simp only [Index.answer, found]
  rfl

theorem getAudit_succeeds (around : Surroundings) {index : Index} {key : SiteKey} {proof : Proof}
    (found : index.proofs.get? key = some proof) : (getAudit key).Succeeds around index := by
  apply succeeds_bind (requireProof_run around found)
  apply succeeds_bind (now_run around index)
  apply succeeds_bind (commit_run around _)
  · exact ⟨_, _, rfl⟩
  · change index.proofs.get? key ≠ none
    simp [found]

theorem getSummary_succeeds (answers : around.AnswersChecks) (c : Configuration) {index : Index}
    {id : EventId} {event : Event} (found : index.events.get? id = some event) :
    (getSummary c id).Succeeds around index := by
  obtain ⟨report, between, reconciled⟩ := reconcile_succeeds answers index (.event id)
  have onward := Program.run_onward around (reconcile (.event id)).run index
  rw [reconciled] at onward
  obtain ⟨later, present, -⟩ := onward.events id event found
  have first : (reconcileEvent id).run.run around.serve index = (.ok (), between) := by
    unfold reconcileEvent
    rw [run_bind_of_ok reconciled]
    rfl
  apply succeeds_bind first
  apply succeeds_bind (requireEvent_run around present)
  apply succeeds_bind (query_run around between (.proofs id))
  apply succeeds_bind (query_run around between (.settlements id))
  apply succeeds_bind (query_run around between (.audit ⟨id, c.focus⟩))
  exact ⟨_, _, rfl⟩

end Operation

theorem Progress.auditMatch_of_evidence {c : Configuration} {event : Event} {proofs : List Proof}
    {settlements : List Settlement} {audit : AuditRequest} (evidence : ∀ p ∈ proofs, p.IsEvidence)
    (present : ∃ p ∈ proofs, p.site = c.focus) :
    (Progress.of c event proofs settlements (some audit)).auditMatch = some true := by
  change hashHolds c.focus proofs = some true
  unfold hashHolds
  cases found : proofs.find? fun p => p.site = c.focus with
  | none =>
      obtain ⟨p, listed, here⟩ := present
      simpa [here] using List.find?_eq_none.mp found p listed
  | some p =>
      have holds := (evidence p (List.mem_of_find?_eq_some found)).hash
      simp [holds]

namespace Operation

theorem getAudit_agrees (key : SiteKey) (stands : Index) :
    (getAudit key).Commits (.getAudit key)
      (fun _ report => report.holds = true ∧ report.storedHash = report.recomputedHash) stands := by
  apply (getAudit_commits key stands).mono
  rintro _ _ ⟨read, p, requestedAt, made, -, found, rfl⟩
  exact (made.evidence found).audited requestedAt

theorem getSummary_agrees {c : Configuration} {id : EventId} {stands : Index}
    (lifecycle : stands.Lifecycle) (asked : stands.audits.get? ⟨id, c.focus⟩ ≠ none) :
    (getSummary c id).Commits (.getSummary id) (fun _ progress => progress.auditMatch = some true)
      stands := by
  apply (getSummary_commits c id stands).mono
  rintro _ _ ⟨read, later, event, settlements, made, onward, further, rfl⟩
  obtain ⟨request, before⟩ := Option.ne_none_iff_exists'.mp asked
  obtain ⟨audit, there, -⟩ := (onward.trans further).audits _ request before
  -- The proof in focus is older than the request to audit it, so that it has been read.
  obtain ⟨p, proven⟩ := lifecycle.audited _ request before
  obtain ⟨q, found, -⟩ := onward.proofs _ p proven
  rw [there]
  apply Progress.auditMatch_of_evidence
  · intro p listed
    obtain ⟨site, present⟩ := Index.mem_rowsOf.mp listed
    exact made.evidence present
  · exact ⟨q, Index.mem_rowsOf.mpr ⟨c.focus, found⟩,
      congrArg SiteKey.site (made.lifecycle.proofs _ q found)⟩

end Operation

namespace Service

variable {s later : Service} {position : Nat} {task : Task} {rest : Program (Except Failure task.Result)}
  {ends : Index → Except Failure task.Result → Prop}

theorem Step.client (sound : s.Sound) (step : Step s later)
    (present : s.clients[position]? = some ⟨task, rest⟩) (commits : rest.Commits task ends s.index) :
    ∃ left, later.clients[position]? = some ⟨task, left⟩ ∧ left.Commits task ends later.index := by
  have onward := step.onward sound
  cases step with
  | enter c other =>
      have inside := (List.getElem?_eq_some_iff.mp present).1
      exact ⟨rest, by rw [List.getElem?_append_left inside]; exact present, commits⟩
  | @call place other request next reply storage turn serves =>
      by_cases same : position = place
      · subst same
        cases present.symm.trans turn
        obtain ⟨-, others⟩ := commits s.index (.refl s.index) ⟨s.history, sound.made⟩
        exact ⟨next reply, List.getElem?_set_self (List.getElem?_eq_some_iff.mp present).1,
          others reply storage.index (sound.served turn serves).1⟩
      · exact ⟨rest, by rw [List.getElem?_set_ne (Ne.symm same)]; exact present, commits.onward onward⟩
  | reopen here started => exact ⟨rest, present, commits.onward onward⟩

theorem client_of_run (sound : s.Sound) (run : Relation.ReflTransGen Step s later)
    (present : s.clients[position]? = some ⟨task, rest⟩) (commits : rest.Commits task ends s.index) :
    ∃ left, later.clients[position]? = some ⟨task, left⟩ ∧ left.Commits task ends later.index := by
  induction run with
  | refl => exact ⟨rest, present, commits⟩
  | tail others step ih =>
      obtain ⟨left, there, going⟩ := ih
      exact step.client (onward_of_run sound others).1 there going

/-- A task that begins now may come to this result, with others between its calls. -/
def MayReport (s : Service) (c : Configuration) (task : Task) (a : task.Result) : Prop :=
  ∃ later, Relation.ReflTransGen Step { s with clients := s.clients ++ [⟨task, task.operation c⟩] } later ∧
    later.clients[s.clients.length]? = some ⟨task, .done (.ok a)⟩

theorem MayReport.reached {c : Configuration} {a : task.Result} (reports : s.MayReport c task a)
    (sound : s.Sound) {good : Index → task.Result → Prop}
    (commits : (task.operation c).Commits task good s.index) : ∃ later : Index, good later a := by
  obtain ⟨later, run, ended⟩ := reports
  have entered := sound.step (.enter c task)
  obtain ⟨left, there, going⟩ := client_of_run entered run List.getElem?_concat_length commits.run
  cases ended.symm.trans there
  exact ⟨later.index, going later.index (.refl _) ⟨_, (onward_of_run entered run).1.made⟩ a rfl⟩

/-- Every proof that is stored has its evidence, and whoever asks for an audit is told that it holds. -/
theorem evidence_of_run {first s : Service} (begins : first.Begins)
    (run : Relation.ReflTransGen Step first s) (c : Configuration) :
    (∀ key p, s.index.proofs.get? key = some p → p.IsEvidence ∧
      (∀ around : Surroundings, ∃ report, around.result c s.index (.getAudit key) = .ok report ∧
        report.holds = true ∧ report.storedHash = report.recomputedHash) ∧
      ∀ report, s.MayReport c (.getAudit key) report →
        report.holds = true ∧ report.storedHash = report.recomputedHash) ∧
    ∀ id, s.index.audits.get? ⟨id, c.focus⟩ ≠ none →
      (∀ around : Surroundings, around.AnswersChecks → ∃ progress,
        around.result c s.index (.getSummary id) = .ok progress ∧ progress.auditMatch = some true) ∧
      ∀ progress, s.MayReport c (.getSummary id) progress → progress.auditMatch = some true := by
  have sound := sound_of_run begins run
  have made : s.index.Made := ⟨s.history, sound.made⟩
  refine ⟨?_, ?_⟩
  · intro key p found
    have agrees := Operation.getAudit_agrees key s.index
    refine ⟨made.evidence found, ?_, ?_⟩
    · intro around
      obtain ⟨report, later, same⟩ := Operation.getAudit_succeeds around found
      have result : around.result c s.index (.getAudit key) = .ok report := congrArg Prod.fst same
      exact ⟨report, result, agrees.run.run made around report result⟩
    · intro report reports
      obtain ⟨-, good⟩ := reports.reached sound agrees
      exact good
  · intro id asked
    have agrees := Operation.getSummary_agrees made.lifecycle asked
    refine ⟨?_, ?_⟩
    · intro around answers
      obtain ⟨request, before⟩ := Option.ne_none_iff_exists'.mp asked
      obtain ⟨p, proven⟩ := made.lifecycle.audited _ request before
      obtain ⟨e, found⟩ := made.lifecycle.announced _ p proven
      obtain ⟨progress, later, same⟩ := Operation.getSummary_succeeds answers c found
      have result : around.result c s.index (.getSummary id) = .ok progress := congrArg Prod.fst same
      exact ⟨progress, result, agrees.run.run made around progress result⟩
    · intro progress reports
      obtain ⟨-, good⟩ := reports.reached sound agrees
      exact good

theorem evidence_of_season : ∃ (s : Service) (p : Proof) (progress : Progress),
    s.index.proofs.get? ⟨⟨"DR-1"⟩, ⟨"site-a"⟩⟩ = some p ∧ p.reduction = 60 ∧ p.IsEvidence ∧
    (Surroundings.confirming (.ofSeconds 20)).result .standard s.index (.getSummary ⟨"DR-1"⟩) =
      .ok progress ∧ progress.auditMatch = some true := by
  obtain ⟨s, run, here⟩ := reaches_tasks (.confirming (.ofSeconds 10)) .standard
    (season ++ [.getAudit ⟨⟨"DR-1"⟩, ⟨"site-a"⟩⟩]) (s := ⟨.memory .empty, [], []⟩) rfl
  obtain ⟨proofs, audits⟩ := evidence_of_run .memory run .standard
  have proven : ∃ p, s.index.proofs.get? ⟨⟨"DR-1"⟩, ⟨"site-a"⟩⟩ = some p ∧ p.reduction = 60 := by
    rw [index, here]
    exact ⟨_, rfl, rfl⟩
  have asked : s.index.audits.get? ⟨⟨"DR-1"⟩, Configuration.standard.focus⟩ ≠ none := by
    rw [index, here]
    intro absent
    cases absent
  obtain ⟨p, found, reduced⟩ := proven
  obtain ⟨progress, result, holds⟩ :=
    (audits ⟨"DR-1"⟩ asked).1 (.confirming (.ofSeconds 20)) fun _ => ⟨_, rfl⟩
  exact ⟨s, p, progress, found, reduced, (proofs _ p found).1, result, holds⟩

end Service

end Curtail
