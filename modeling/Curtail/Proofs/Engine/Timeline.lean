import Curtail.Proofs.Engine.Dates

/-!
The instants of events under a clock that never goes back. A task that succeeds reads the clock once and
stores what it reads, to the second; whatever else happens, the instants that are stored stay. Main result:
`Index.Leads.timeline`.
-/

namespace Curtail

def Exchange.reading? : Exchange → Option Instant
  | ⟨.now, (t : Instant)⟩ => some t
  | _ => none

def Turn.readings (turn : Turn) : List Instant := turn.calls.filterMap Exchange.reading?

def Turn.Moves (c : Configuration) (id : EventId) (turn : Turn) : Prop :=
  turn.task.moves? c = some id ∧ turn.result.isOk

namespace Operation

variable {α β : Type} {index later : Index} {calls : List Exchange} {past : List Instant} {task : Task}
  {c : Configuration}

/-- If it succeeds, the operation has neither read the clock nor changed the index. -/
def Looks (index : Index) (op : Operation α) : Prop :=
  ∀ calls a later, op.run.Runs index calls (.ok a) later →
    later = index ∧ calls.filterMap Exchange.reading? = []

/-- If it succeeds, the operation has stored what the clock has shown, which it has read once. -/
def Stamps (task : Task) (index : Index) (past : List Instant) (op : Operation α) : Prop :=
  ∀ calls a later, op.run.Runs index calls (.ok a) later → ∃ reading change,
    past ++ calls.filterMap Exchange.reading? = [reading] ∧ index.Allows change ∧
    task.Dates reading.wholeSecond change ∧ later = index.apply change

theorem Looks.pure (a : α) : (Pure.pure a : Operation α).Looks index := by
  intro calls b later runs
  obtain ⟨rfl, -, rfl⟩ := Program.runs_done runs
  exact ⟨rfl, rfl⟩

theorem Looks.fail (e : Failure) : (fail e : Operation α).Looks index := by
  intro calls b later runs
  cases (Program.runs_done runs).2.1

theorem Looks.fail_bind (e : Failure) (f : β → Operation α) : (Operation.fail e >>= f).Looks index := by
  intro calls b later runs
  cases (Program.runs_done runs).2.1

theorem Looks.bind {op : Operation β} {f : β → Operation α} (first : op.Looks index)
    (others : ∀ b, (f b).Looks index) : (op >>= f).Looks index := by
  intro calls a later runs
  obtain ⟨begun, b, between, rest, started, ended, rfl⟩ := runs_bind runs
  obtain ⟨rfl, none⟩ := first _ _ _ started
  obtain ⟨rfl, none_then⟩ := others b _ _ _ ended
  exact ⟨rfl, by rw [List.filterMap_append, none, none_then, List.append_nil]⟩

theorem Looks.query (q : Query) : (query q).Looks index := by
  intro calls a later runs
  obtain ⟨-, rfl, rfl⟩ := runs_query runs
  exact ⟨rfl, rfl⟩

theorem Looks.commitLimit : commitLimit.Looks index := by
  intro calls a later runs
  obtain ⟨reply, between, rest, replies, ended, rfl⟩ := Program.runs_ask runs
  obtain ⟨rfl, -, rfl⟩ := Program.runs_done ended
  cases replies
  exact ⟨rfl, rfl⟩

theorem Looks.submit (mode : ConfirmMode) (action : LedgerAction) (payload : Json.Value) :
    (submit mode action payload).Looks index := by
  intro calls a later runs
  obtain ⟨reply, between, rest, replies, ended, rfl⟩ := Program.runs_ask runs
  cases replies with
  | submit _ _ _ reply =>
      cases reply with
      | ok r =>
          obtain ⟨rfl, -, rfl⟩ := Program.runs_done ended
          exact ⟨rfl, rfl⟩
      | error e => cases (Program.runs_done ended).2.1

theorem Looks.requireEvent (id : EventId) : (requireEvent id).Looks index := by
  apply (Looks.query _).bind
  intro found
  cases found with
  | some event => exact .pure event
  | none => exact .fail _

theorem Looks.requireProof (key : SiteKey) : (requireProof key).Looks index := by
  apply (Looks.query _).bind
  intro found
  cases found with
  | some proof => exact .pure proof
  | none => exact .fail _

theorem Looks.makePayload (s : Submission) (t : Instant) : (makePayload s t).Looks index := by
  unfold Operation.makePayload
  cases Payload.of? ⟨s.event, s.site, s.baseline, s.actual, s.method, s.raw, t⟩ with
  | ok payload => exact .pure payload
  | error e => exact .fail _

theorem Looks.checkDeclared (declared : Option String) (computed : ProofHash) :
    (checkDeclared declared computed).Looks index := by
  cases declared with
  | none => exact .pure ()
  | some text =>
      simp only [Operation.checkDeclared]
      split
      · exact .pure ()
      · exact .fail _

theorem Looks.checkProofSize (payload uri : String) : (checkProofSize payload uri).Looks index := by
  apply Looks.commitLimit.bind
  intro limit
  cases limit with
  | none => exact .pure ()
  | some most =>
      dsimp only
      split
      · exact .fail _
      · exact .pure ()

theorem Looks.sitesToSettle (id : EventId) (requested : List SiteId) :
    (sitesToSettle id requested).Looks index := by
  unfold Operation.sitesToSettle
  split
  · exact (Looks.query _).bind fun proofs => .pure _
  · exact .pure _

theorem Looks.payouts (event : Event) (id : EventId) (share : UInt64) (sites : List SiteId) :
    (payouts event id share sites).Looks index := by
  induction sites with
  | nil => exact .pure []
  | cons site sites ih =>
      apply (Looks.query _).bind
      intro found
      cases found with
      | none => exact .fail _
      | some proof =>
          apply (Looks.query _).bind
          intro found
          cases found with
          | some row => exact .fail_bind _ _
          | none => exact ih.bind fun others => .pure _

theorem Stamps.fail (e : Failure) : (fail e : Operation α).Stamps task index past := by
  intro calls a later runs
  cases (Program.runs_done runs).2.1

theorem Stamps.fail_bind (e : Failure) (f : β → Operation α) :
    (Operation.fail e >>= f).Stamps task index past := by
  intro calls a later runs
  cases (Program.runs_done runs).2.1

theorem Stamps.bind {op : Operation β} {f : β → Operation α} (first : op.Looks index)
    (others : ∀ b, (f b).Stamps task index past) : (op >>= f).Stamps task index past := by
  intro calls a later runs
  obtain ⟨begun, b, between, rest, started, ended, rfl⟩ := runs_bind runs
  obtain ⟨rfl, none⟩ := first _ _ _ started
  rw [List.filterMap_append, none]
  exact others b _ _ _ ended

theorem Stamps.now {f : Instant → Operation α}
    (others : ∀ t : Instant, (f t.wholeSecond).Stamps task index [t]) : (now >>= f).Stamps task index [] := by
  intro calls a later runs
  obtain ⟨t, between, rest, replies, ended, rfl⟩ := Program.runs_ask runs
  cases replies
  exact others t _ _ _ ended

theorem runs_commit {change : Change} {a : Unit}
    (runs : (commit change).run.Runs index calls (.ok a) later) :
    index.Allows change ∧ later = index.apply change ∧ calls = [⟨.commit change, .ok ()⟩] := by
  obtain ⟨reply, between, rest, replies, ended, rfl⟩ := Program.runs_ask runs
  cases reply with
  | ok _ =>
      obtain ⟨rfl, -, rfl⟩ := Program.runs_done ended
      cases replies.serves with
      | commit allowed => exact ⟨allowed, rfl, rfl⟩
  | error e => cases (Program.runs_done ended).2.1

theorem runs_commitSubmitted {action : LedgerAction} {event : EventId} {site : Option SiteId}
    {tx : TxRecord} {change : Change} {a : Unit}
    (runs : (commitSubmitted action event site tx change).run.Runs index calls (.ok a) later) :
    index.Allows change ∧ later = index.apply change ∧ calls = [⟨.commit change, .ok ()⟩] := by
  obtain ⟨reply, between, rest, replies, ended, rfl⟩ := Program.runs_ask runs
  cases reply with
  | ok _ =>
      obtain ⟨rfl, -, rfl⟩ := Program.runs_done ended
      cases replies.serves with
      | commit allowed => exact ⟨allowed, rfl, rfl⟩
  | error e =>
      -- The orphan is recorded or not, and then the operation fails.
      obtain ⟨_, _, _, _, others, -⟩ := Program.runs_ask ended
      obtain ⟨_, _, _, _, last, -⟩ := Program.runs_ask others
      cases (Program.runs_done last).2.1

theorem Stamps.commit {t : Instant} {change : Change} {f : Unit → Operation α}
    (dates : task.Dates t.wholeSecond change) (ends : ∀ index, (f ()).Looks index) :
    (commit change >>= f).Stamps task index [t] := by
  intro calls a later runs
  obtain ⟨begun, _, between, rest, committed, ended, rfl⟩ := runs_bind runs
  obtain ⟨allowed, rfl, rfl⟩ := runs_commit committed
  obtain ⟨rfl, none⟩ := ends _ _ _ _ ended
  refine ⟨t, change, ?_, allowed, dates, rfl⟩
  rw [List.filterMap_append, none]
  rfl

theorem Stamps.commitSubmitted {action : LedgerAction} {event : EventId} {site : Option SiteId}
    {tx : TxRecord} {t : Instant} {change : Change} {a : α} (dates : task.Dates t.wholeSecond change) :
    (commitSubmitted action event site tx change >>= fun _ => pure a).Stamps task index [t] := by
  intro calls b later runs
  obtain ⟨begun, _, between, rest, committed, ended, rfl⟩ := runs_bind runs
  obtain ⟨allowed, rfl, rfl⟩ := runs_commitSubmitted committed
  obtain ⟨rfl, -, rfl⟩ := Program.runs_done ended
  exact ⟨t, change, rfl, allowed, dates, rfl⟩

theorem createEvent_stamps (c : Configuration) (plan : EventPlan) :
    (createEvent c plan).Stamps (.createEvent plan) index [] := by
  unfold createEvent
  by_cases window : compare plan.start plan.stop ≠ .lt
  · simp only [if_pos window]
    exact .fail_bind _ _
  · simp only [if_neg window]
    apply Stamps.bind (Looks.query _)
    intro found
    cases found with
    | some event => exact .fail_bind _ _
    | none =>
        apply Stamps.bind (Looks.submit _ _ _)
        intro tx
        apply Stamps.now
        intro t
        exact .commitSubmitted .createEvent

theorem closeEvent_stamps (c : Configuration) (id : EventId) :
    (closeEvent c id).Stamps (.closeEvent id) index [] := by
  apply Stamps.bind (Looks.requireEvent id)
  intro event
  cases event.status with
  | closed => exact .fail_bind _ _
  | settled => exact .fail_bind _ _
  | active =>
      apply Stamps.bind (Looks.submit _ _ _)
      intro tx
      apply Stamps.now
      intro t
      exact .commitSubmitted .closeEvent

theorem submitProof_stamps (c : Configuration) (s : Submission) :
    (submitProof c s).Stamps (.submitProof s) index [] := by
  apply Stamps.bind (Looks.requireEvent s.event)
  intro event
  by_cases inactive : event.status ≠ .active
  · simp only [if_pos inactive]
    exact .fail_bind _ _
  · simp only [if_neg inactive]
    apply Stamps.bind (Looks.query _)
    intro found
    cases found with
    | some proof => exact .fail_bind _ _
    | none =>
        apply Stamps.now
        intro t
        apply Stamps.bind (Looks.makePayload s _)
        intro payload
        apply Stamps.bind (Looks.checkDeclared _ _)
        intro _
        apply Stamps.bind (Looks.checkProofSize _ _)
        intro _
        apply Stamps.bind (Looks.submit _ _ _)
        intro tx
        exact .commitSubmitted .submitProof

theorem settleEvent_stamps (c : Configuration) (id : EventId) (requested : List SiteId) :
    (settleEvent c id requested).Stamps (.settleEvent id requested) index [] := by
  apply Stamps.bind (Looks.requireEvent id)
  intro event
  cases event.status with
  | active => exact .fail_bind _ _
  | settled => exact .fail_bind _ _
  | closed =>
      apply Stamps.bind (Looks.sitesToSettle id requested)
      intro sites
      cases Scoring.targetShare event.target sites.length with
      | none => exact .fail _
      | some share =>
          apply Stamps.bind (Looks.payouts event id share sites)
          intro payouts
          apply Stamps.bind (Looks.submit _ _ _)
          intro tx
          apply Stamps.now
          intro t
          exact .commitSubmitted .settleEvent

theorem claimReward_stamps (c : Configuration) (key : SiteKey) (claimant : ActorId) :
    (claimReward c key claimant).Stamps (.claimReward key claimant) index [] := by
  apply Stamps.bind (Looks.query _)
  intro found
  cases found with
  | none => exact .fail _
  | some row =>
      by_cases unclaimable : row.status ≠ .settled
      · simp only [if_pos unclaimable]
        exact .fail_bind _ _
      · simp only [if_neg unclaimable]
        apply Stamps.bind (Looks.requireProof key)
        intro proof
        by_cases other : proof.submitter ≠ claimant
        · simp only [if_pos other]
          exact .fail_bind _ _
        · simp only [if_neg other]
          apply Stamps.bind (Looks.submit _ _ _)
          intro tx
          apply Stamps.now
          intro t
          exact .commitSubmitted .claimReward

theorem getAudit_stamps (key : SiteKey) : (getAudit key).Stamps (.getAudit key) index [] := by
  apply Stamps.bind (Looks.requireProof key)
  intro proof
  apply Stamps.now
  intro t
  exact .commit .getAudit fun _ => .pure _

end Operation

section Tasks

variable {α : Type} {c : Configuration} {index later : Index} {calls : List Exchange} {task : Task}
  {change : Change} {e : Failure}

def Task.IsStamping : Task → Prop
  | .createEvent _ | .closeEvent _ | .submitProof _ | .settleEvent .. | .claimReward .. | .getAudit _ => True
  | _ => False

theorem Task.stamps (stamping : task.IsStamping) (c : Configuration) (index : Index) :
    (task.operation c).Stamps task index [] := by
  cases task with
  | createEvent plan => exact Operation.createEvent_stamps c plan
  | closeEvent id => exact Operation.closeEvent_stamps c id
  | submitProof s => exact Operation.submitProof_stamps c s
  | settleEvent id requested => exact Operation.settleEvent_stamps c id requested
  | claimReward key claimant => exact Operation.claimReward_stamps c key claimant
  | getAudit key => exact Operation.getAudit_stamps key
  | _ => exact stamping.elim

theorem Task.Makes.sameDates (makes : task.Makes index change) (reading : ¬task.IsStamping) :
    index.SameDates (index.apply change) := by
  cases makes with
  | reconcile => exact index.sameDates_applyTxUpdates _
  | recordOrphan => exact index.sameDates_recordOrphan _
  | _ => exact (reading trivial).elim

theorem Program.Runs.sameDates {ends : Index → α → Prop} {p : Program α} {a : α}
    (runs : p.Runs index calls a later) (commits : p.Commits task ends index) (made : index.Made)
    (reading : ¬task.IsStamping) : index.SameDates later := by
  induction runs with
  | done index a => exact .refl index
  | @ask index between later r reply next calls a replies others ih =>
      obtain ⟨makes, rest⟩ := commits _ (.refl _) made
      have serves := replies.serves
      have step : index.SameDates between := by
        cases serves with
        | commit allowed => exact (makes _ rfl allowed).sameDates reading
        | _ => exact .refl index
      obtain ⟨history, made⟩ := made
      exact step.trans (ih (rest _ _ serves) ⟨_, serves.madeBy made makes⟩)

theorem Reads.sameDates (reads : Reads index (task.Submits index) calls (.error e) later) :
    index.SameDates later := by
  cases reads with
  | refused => exact .refl index
  | unread => exact .refl index
  | onward _ submits =>
      cases submits with
      | failed => exact .refl index
      | accepted accounts =>
          cases accounts with
          | lost _ _ _ _ _ _ left =>
              rcases left with rfl | rfl
              · exact .refl _
              · exact index.sameDates_recordOrphan _

theorem Operation.sameDates_getAudit {key : SiteKey}
    (runs : (getAudit key).run.Runs index calls (.error e) later) : index.SameDates later := by
  obtain ⟨reply, between, rest, replies, ended, rfl⟩ := Program.runs_ask runs
  have unread : between = index := by cases replies <;> rfl
  subst unread
  rcases reply with _ | _ | proof
  · obtain ⟨-, -, rfl⟩ := Program.runs_done ended
    exact .refl _
  · obtain ⟨-, -, rfl⟩ := Program.runs_done ended
    exact .refl _
  · obtain ⟨t, at_time, _, told, others, rfl⟩ := Program.runs_ask ended
    cases told
    obtain ⟨verdict, last, _, committed, finished, rfl⟩ := Program.runs_ask others
    cases verdict with
    | ok _ => cases (Program.runs_done finished).2.1
    | error cause =>
        obtain ⟨-, -, rfl⟩ := Program.runs_done finished
        cases committed.serves
        exact .refl _

theorem Task.sameDates_of_error (made : index.Made)
    (runs : (task.operation c).run.Runs index calls (.error e) later) : index.SameDates later := by
  by_cases stamping : task.IsStamping
  · cases task with
    | createEvent plan => exact (Operation.createEvent_goes c plan _ _ _ runs).sameDates
    | closeEvent id => exact (Operation.closeEvent_goes c id _ _ _ runs).sameDates
    | submitProof s => exact (Operation.submitProof_goes c s _ _ _ runs).sameDates
    | settleEvent id requested => exact (Operation.settleEvent_goes c id requested _ _ _ runs).sameDates
    | claimReward key claimant => exact (Operation.claimReward_goes c key claimant _ _ _ runs).sameDates
    | getAudit key => exact Operation.sameDates_getAudit runs
    | _ => exact stamping.elim
  · exact runs.sameDates (task.commits c index).run made stamping

end Tasks

theorem Turn.stamps_or {c : Configuration} {index later : Index} {turn : Turn} (made : index.Made)
    (runs : (turn.task.operation c).run.Runs index turn.calls turn.result later) :
    (turn.result.isOk ∧ ∃ reading change, turn.readings = [reading] ∧ index.Allows change ∧
      turn.task.Dates reading.wholeSecond change ∧ later = index.apply change) ∨
    (∀ id, ¬turn.Moves c id) ∧ index.SameDates later := by
  obtain ⟨task, calls, result⟩ := turn
  cases result with
  | ok a =>
      by_cases stamping : task.IsStamping
      · exact .inl ⟨rfl, task.stamps stamping c index _ _ _ runs⟩
      · refine .inr ⟨?_, runs.sameDates (task.commits c index).run made stamping⟩
        rintro id ⟨moves, -⟩
        cases task <;> first | exact stamping trivial | cases moves
  | error e =>
      refine .inr ⟨?_, Task.sameDates_of_error made runs⟩
      rintro id ⟨-, succeeded⟩
      cases succeeded

structure Index.LastMoved (index : Index) (c : Configuration) (id : EventId) (t : Instant) : Prop where
  dated : index.Dated c id t
  last : ∀ u, index.Dated c id u → u ≤ t

namespace Index.Leads

variable {c : Configuration} {last between : Index} {turn : Turn} {turns : List Turn} {id : EventId}
  {t u reading : Instant}

theorem read_of_dated (leads : empty.Leads c turns last) (dated : last.Dated c id u) :
    ∃ reading ∈ turns.flatMap Turn.readings, u = reading.wholeSecond := by
  induction turns using List.reverseRecOn generalizing last with
  | nil =>
      cases leads
      cases dated <;> rename_i found _ <;> cases found
  | append_singleton turns turn ih =>
      obtain ⟨between, going, step⟩ := leads.split
      rw [List.flatMap_append, List.flatMap_singleton]
      have earlier (dated : between.Dated c id u) :
          ∃ reading ∈ turns.flatMap Turn.readings ++ turn.readings, u = reading.wholeSecond := by
        obtain ⟨reading, listed, same⟩ := ih going dated
        exact ⟨reading, List.mem_append_left _ listed, same⟩
      rcases turn.stamps_or (going.made ⟨[], .empty⟩) (singleton_iff.mp step) with
        ⟨-, reading, change, read, allowed, dates, rfl⟩ | ⟨-, same⟩
      · rcases dated_of_dated_apply allowed dates dated with before | ⟨rfl, -⟩
        · exact earlier before
        · exact ⟨reading, List.mem_append_right _ (read ▸ List.mem_singleton_self _), rfl⟩
      · exact earlier (same.dated dated)

section Clock

variable (clock : ((turns ++ [turn]).flatMap Turn.readings).Pairwise (· ≤ ·))

include clock

theorem clock_before : (turns.flatMap Turn.readings).Pairwise (· ≤ ·) := by
  rw [List.flatMap_append] at clock
  exact (List.pairwise_append.mp clock).1

theorem le_of_dated (going : empty.Leads c turns between) (read : reading ∈ turn.readings)
    (dated : between.Dated c id u) : u ≤ reading.wholeSecond := by
  obtain ⟨earlier, listed, rfl⟩ := going.read_of_dated dated
  rw [List.flatMap_append, List.flatMap_singleton] at clock
  exact Instant.wholeSecond_le ((List.pairwise_append.mp clock).2.2 _ listed _ read)

end Clock

theorem timely (leads : empty.Leads c turns last)
    (clock : (turns.flatMap Turn.readings).Pairwise (· ≤ ·)) : last.Timely := by
  induction turns using List.reverseRecOn generalizing last with
  | nil =>
      cases leads
      exact timely_empty
  | append_singleton turns turn ih =>
      obtain ⟨between, going, step⟩ := leads.split
      have made := going.made ⟨[], .empty⟩
      have before := ih going (clock_before clock)
      rcases turn.stamps_or made (singleton_iff.mp step) with
        ⟨-, reading, change, read, allowed, dates, rfl⟩ | ⟨-, same⟩
      · refine before.apply (c := c) allowed dates made.lifecycle ?_
        exact fun id u dated => le_of_dated clock going (read ▸ List.mem_singleton_self _) dated
      · exact same.timely before

theorem lastMoved (leads : empty.Leads c turns last)
    (clock : (turns.flatMap Turn.readings).Pairwise (· ≤ ·)) (dated : last.Dated c id u) :
    ∃ before turn after reading, turns = before ++ turn :: after ∧ turn.Moves c id ∧
      (∀ other ∈ after, ¬other.Moves c id) ∧ turn.readings = [reading] ∧
      last.LastMoved c id reading.wholeSecond := by
  induction turns using List.reverseRecOn generalizing last u with
  | nil =>
      cases leads
      cases dated <;> rename_i found _ <;> cases found
  | append_singleton turns turn ih =>
      obtain ⟨between, going, step⟩ := leads.split
      have still (unmoved : ¬turn.Moves c id) (earlier : between.Dated c id u)
          (forward : ∀ u, between.Dated c id u → last.Dated c id u)
          (backward : ∀ u, last.Dated c id u → between.Dated c id u) :
          ∃ before moving after reading, turns ++ [turn] = before ++ moving :: after ∧ moving.Moves c id ∧
            (∀ other ∈ after, ¬other.Moves c id) ∧ moving.readings = [reading] ∧
            last.LastMoved c id reading.wholeSecond := by
        obtain ⟨before, moving, after, reading, rfl, moves, rest, read, moved⟩ :=
          ih going (clock_before clock) earlier
        refine ⟨before, moving, after ++ [turn], reading, by simp, moves, ?_, read,
          forward _ moved.dated, fun u dated => moved.last u (backward u dated)⟩
        exact List.forall_mem_append.mpr ⟨rest, List.forall_mem_singleton.mpr unmoved⟩
      rcases turn.stamps_or (going.made ⟨[], .empty⟩) (singleton_iff.mp step) with
        ⟨succeeded, reading, change, read, allowed, dates, rfl⟩ | ⟨unmoved, same⟩
      · by_cases moves : turn.task.moves? c = some id
        · refine ⟨turns, turn, [], reading, rfl, ⟨moves, succeeded⟩, List.forall_mem_nil _, read,
            dated_apply_self allowed dates moves, ?_⟩
          intro v later
          rcases dated_of_dated_apply allowed dates later with earlier | ⟨rfl, -⟩
          · exact le_of_dated clock going (read ▸ List.mem_singleton_self _) earlier
          · exact le_rfl
        · have backward : ∀ v, (between.apply change).Dated c id v → between.Dated c id v :=
            fun v later => (dated_of_dated_apply allowed dates later).resolve_right fun new => moves new.2
          exact still (fun moved => moves moved.1) (backward u dated)
            (fun v earlier => earlier.apply allowed dates moves) backward
      · exact still (unmoved id) (same.dated dated) (fun v => same.symm.dated) fun v => same.dated

/-- While the clock never goes back, the last transition of a summary is the reading of the last turn
that has moved the event on. -/
theorem timeline (leads : empty.Leads c turns last)
    (clock : (turns.flatMap Turn.readings).Pairwise (· ≤ ·)) :
    (∀ id e, last.events.get? id = some e →
      (∀ site p, last.proofs.get? ⟨id, site⟩ = some p → e.createdAt ≤ p.submittedAt ∧
        (∀ t, e.closedAt = some t → p.submittedAt ≤ t) ∧
        ∀ r, last.audits.get? ⟨id, site⟩ = some r → p.submittedAt ≤ r.requestedAt) ∧
      (∀ t, e.closedAt = some t → e.createdAt ≤ t ∧ ∀ u, e.settledAt = some u → t ≤ u) ∧
      ∀ site s, last.settlements.get? ⟨id, site⟩ = some s →
        e.settledAt = some s.settledAt ∧ ∀ t, s.claimedAt = some t → s.settledAt ≤ t) ∧
    ∀ before turn after id p, turns = before ++ turn :: after → turn.summary? = some (id, p) →
      ∃ earlier moving between reading, before = earlier ++ moving :: between ∧ moving.Moves c id ∧
        (∀ other ∈ between, ¬other.Moves c id) ∧ moving.readings = [reading] ∧
        p.lastTransitionAt = some reading.wholeSecond := by
  constructor
  · have ordered := leads.timely clock
    have lifecycle := (leads.made ⟨[], .empty⟩).lifecycle
    intro id e found
    refine ⟨?_, ?_, ?_⟩
    · intro site p proven
      exact ⟨ordered.proven id site e p found proven, fun t => ordered.gathered id site e p t found proven,
        fun r => ordered.audited _ p r proven⟩
    · intro t closed
      exact ⟨ordered.closed id e t found closed, fun u => ordered.settled id e t u found closed⟩
    · intro site s paid
      obtain ⟨f, here, -, time⟩ := lifecycle.settled _ s paid
      obtain rfl := Option.some.inj (found.symm.trans here)
      exact ⟨time, fun t => ordered.claimed _ s t paid⟩
  · rintro before turn after id p rfl view
    rw [List.append_cons] at leads
    obtain ⟨index, upto, -⟩ := leads.split
    have clock_then : (before.flatMap Turn.readings).Pairwise (· ≤ ·) := by
      rw [List.flatMap_append] at clock
      exact (List.pairwise_append.mp clock).1
    obtain ⟨e, found, rfl⟩ := upto.answered ⟨[], .empty⟩ view
    obtain ⟨first, going, step⟩ := upto.split
    obtain ⟨calls, rfl⟩ := Turn.eq_of_summary? view
    have same : first.SameDates index :=
      (singleton_iff.mp step).sameDates (Task.commits (.getSummary id) c first).run
        (going.made ⟨[], .empty⟩) not_false
    obtain rfl := (upto.made ⟨[], .empty⟩).lifecycle.events id e found
    obtain ⟨earlier, moving, between, reading, rfl, moves, rest, read, moved⟩ :=
      going.lastMoved clock_then (same.dated (.event found (.inl rfl)))
    refine ⟨earlier, moving, between, reading, rfl, moves, rest, read, ?_⟩
    change Progress.latest (Progress.transitions ..) = _
    rw [Progress.latest_eq_some_iff]
    constructor
    · exact (Keyed.mem_transitions_iff found).mpr (same.symm.dated moved.dated)
    · exact fun u listed => moved.last u (same.dated ((Keyed.mem_transitions_iff found).mp listed))

end Index.Leads

def Host.ticking : Host (Index × Int) where
  index := Prod.fst
  answer
    | .now, (index, s) => (⟨s, 250000000, by decide, by omega⟩, index, s + 1)
    | .commitLimit, held => (none, held)
    | .query q, held => (.ok (held.1.answer q), held)
    | .commit change, (index, s) => ((index.commit change).1, (index.commit change).2, s)
    | .submit .., held => (.ok ⟨⟨"tx"⟩, none, .submitted, .ofSeconds 999⟩, held)
    | .check _, held => (.ok ⟨none, .confirmed (.ofSeconds 0)⟩, held)
  replies r held := by
    cases r with
    | now => exact .now _
    | commitLimit => exact .commitLimit none
    | query q => exact .query q
    | commit change => exact .commit change
    | submit action payload mode => exact .submit action payload mode _
    | check handle => exact .check handle _

theorem timeline_of_season : ∃ (turns : List Turn) (last : Index) (e : Event) (p : Progress) (moving : Turn),
    Index.empty.Leads .standard turns last ∧ (turns.flatMap Turn.readings).Pairwise (· ≤ ·) ∧
    last.events.get? ⟨"DR-1"⟩ = some e ∧ (∀ t, e.closedAt = some t → e.createdAt ≤ t) ∧
    turns.filterMap Turn.summary? = [(⟨"DR-1"⟩, p)] ∧ p.lastTransitionAt = some (.ofSeconds 8) ∧
    moving ∈ turns ∧ moving.Moves .standard ⟨"DR-1"⟩ ∧
    p.lastTransitionAt = moving.readings.head?.map Instant.wholeSecond := by
  let audit (site : String) : Task := .getAudit ⟨⟨"DR-1"⟩, ⟨site⟩⟩
  let tasks : List Task := audit "site-a" :: Service.season ++
    [audit "site-a", audit "site-a", audit "site-b", .getSummary ⟨"DR-1"⟩]
  let turns := (Host.ticking.turns .standard tasks (.empty, 1)).1
  let last := (Host.ticking.turns .standard tasks (.empty, 1)).2.1
  have leads : Index.empty.Leads .standard turns last := Host.ticking.leads .standard tasks (.empty, 1)
  have clock : (turns.flatMap Turn.readings).Pairwise (· ≤ ·) := by decide +kernel
  have there : ∃ e, last.events.get? ⟨"DR-1"⟩ = some e := ⟨_, by rfl⟩
  have view : ∃ p, turns.filterMap Turn.summary? = [(⟨"DR-1"⟩, p)] ∧
      p.lastTransitionAt = some (.ofSeconds 8) := ⟨_, by rfl, by rfl⟩
  obtain ⟨e, found⟩ := there
  obtain ⟨p, listed, eight⟩ := view
  obtain ⟨ordered, summaries⟩ := leads.timeline clock
  obtain ⟨turn, member, view⟩ := List.mem_filterMap.mp (listed ▸ List.mem_singleton_self _)
  obtain ⟨before, after, split⟩ := List.append_of_mem member
  obtain ⟨earlier, moving, between, reading, rfl, moves, -, read, time⟩ := summaries _ _ _ _ _ split view
  refine ⟨turns, last, e, p, moving, leads, clock, found, ?_, listed, eight, ?_, moves, ?_⟩
  · exact fun t closed => ((ordered _ e found).2.1 t closed).1
  · rw [split]
    simp
  · rw [time, read]
    rfl

end Curtail
