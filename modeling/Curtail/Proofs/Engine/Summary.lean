import Curtail.Proofs.Engine.Pipeline

namespace Curtail

section Runs

variable {α β : Type} {index later : Index} {calls : List Exchange}

theorem Index.Replies.memory {r : Request} {reply : r.Reply}
    (replies : index.Replies r reply later) :
    (Storage.memory index).Serves r reply (.memory later) := by
  cases replies with
  | now t => exact .now t
  | commitLimit limit => exact .commitLimit limit
  | query q => exact .query q
  | queryFault q e => exact .queryFailed q e
  | commit change => exact .commit change rfl
  | commitFault change fault => exact .commitFailed change _
  | submit action payload mode reply => exact .submit action payload mode reply
  | check handle reply => exact .check handle reply

theorem Index.Replies.serves {r : Request} {reply : r.Reply}
    (replies : index.Replies r reply later) : index.Serves r reply later := by
  cases replies with
  | now t => exact .now t
  | commitLimit limit => exact .commitLimit limit
  | query q => exact .query q
  | queryFault q e => exact .queryFailed q e
  | commit change =>
      unfold Index.commit
      cases checked : index.check change with
      | ok _ => exact .commit (Index.check_eq_ok_iff.mp checked)
      | error cause => exact .commitFailed change _
  | commitFault change fault => exact .commitFailed change _
  | submit action payload mode reply => exact .submit action payload mode reply
  | check handle reply => exact .check handle reply

theorem Program.Runs.made {task : Task} {ends : Index → α → Prop} {p : Program α} {a : α}
    (runs : p.Runs index calls a later) (commits : p.Commits task ends index) (made : index.Made) :
    later.Made := by
  induction runs with
  | done index a => exact made
  | ask replies others ih =>
      obtain ⟨makes, next⟩ := commits _ (.refl _) made
      obtain ⟨history, made⟩ := made
      exact ih (next _ _ replies.serves) ⟨_, replies.serves.madeBy made makes⟩

namespace Operation

theorem runs_bind {op : Operation α} {f : α → Operation β} {b : β}
    (runs : (op >>= f).run.Runs index calls (.ok b) later) : ∃ first a between rest,
      op.run.Runs index first (.ok a) between ∧ (f a).run.Runs between rest (.ok b) later ∧
      calls = first ++ rest := by
  obtain ⟨first, result, between, rest, begun, ended, rfl⟩ := Program.runs_andThen runs
  cases result with
  | ok a => exact ⟨first, a, between, rest, begun, ended, rfl⟩
  | error e => cases (Program.runs_done ended).2.1

theorem runs_query {q : Query} {answer : q.Answer}
    (runs : (query q).run.Runs index calls (.ok answer) later) :
    answer = index.answer q ∧ later = index ∧ calls = [⟨.query q, .ok (index.answer q)⟩] := by
  obtain ⟨reply, between, rest, replies, ended, rfl⟩ := Program.runs_ask runs
  cases replies with
  | query _ =>
      obtain ⟨rfl, same, rfl⟩ := Program.runs_done ended
      exact ⟨Except.ok.inj same, rfl, rfl⟩
  | queryFault _ e => cases (Program.runs_done ended).2.1

theorem runs_requireEvent {id : EventId} {e : Event}
    (runs : (requireEvent id).run.Runs index calls (.ok e) later) :
    index.events.get? id = some e ∧ later = index := by
  obtain ⟨first, found, between, rest, begun, ended, -⟩ := runs_bind runs
  obtain ⟨rfl, rfl, -⟩ := runs_query begun
  cases found : between.events.get? id with
  | none =>
      simp only [Index.answer, found] at ended
      cases (Program.runs_done ended).2.1
  | some f =>
      simp only [Index.answer, found] at ended
      obtain ⟨-, same, rfl⟩ := Program.runs_done ended
      exact ⟨congrArg some (Except.ok.inj same).symm, rfl⟩

theorem runs_reconcile (keyed : index.Keyed) {scope : Scope} {report : ReconcileReport}
    (runs : (reconcile scope).run.Runs index calls (.ok report) later) : ∃ told commits,
      calls = ⟨.query (.pending scope), .ok (index.pending scope)⟩ :: (told.calls ++ commits) ∧
      Reconciliation.Concludes index scope told commits (.ok report) later := by
  rcases Reconciliation.reconcile_runs keyed runs with ⟨e, rest, rfl⟩ | concluded
  · obtain ⟨_, _, _, _, begun, -, same⟩ := runs_bind runs
    obtain ⟨-, -, rfl⟩ := runs_query begun
    cases (List.cons.inj same).1
  · exact concluded

theorem runs_getSummary {c : Configuration} {id : EventId} {progress : Progress}
    (keyed : later.Keyed) (runs : (getSummary c id).run.Runs index calls (.ok progress) later) :
    ∃ first rest report e, (reconcile (.event id)).run.Runs index first (.ok report) later ∧
      calls = first ++ rest ∧ later.events.get? id = some e ∧ progress = later.progress c e := by
  unfold getSummary at runs
  obtain ⟨_, _, _, reads, begun, onward, rfl⟩ := runs_bind runs
  obtain ⟨asked, report, _, _, reconciled, returned, rfl⟩ := runs_bind begun
  obtain ⟨rfl, -, rfl⟩ := Program.runs_done returned
  obtain ⟨_, e, _, _, required, withEvent, -⟩ := runs_bind onward
  obtain ⟨found, rfl⟩ := runs_requireEvent required
  obtain ⟨_, proofs, _, _, queried, withProofs, -⟩ := runs_bind withEvent
  obtain ⟨rfl, rfl, -⟩ := runs_query queried
  obtain ⟨_, settlements, _, _, queried, withSettlements, -⟩ := runs_bind withProofs
  obtain ⟨rfl, rfl, -⟩ := runs_query queried
  obtain ⟨_, audit, _, _, queried, withAudit, -⟩ := runs_bind withSettlements
  obtain ⟨rfl, rfl, -⟩ := runs_query queried
  obtain ⟨-, same, rfl⟩ := Program.runs_done withAudit
  refine ⟨asked, reads, report, e, reconciled, by rw [List.append_nil], found, ?_⟩
  rw [Except.ok.inj same, ← keyed.events id e found]
  rfl

end Operation

end Runs

namespace Findings

theorem handle_settled (told : Findings) (scope : Scope) (event : EventId) (r : TxRecord) :
    (told.settled scope event r).handle = r.handle := by
  unfold settled
  split
  · cases made : told.record? r with
    | none => rfl
    | some record => exact handle_of_record? made
  · rfl

end Findings

namespace Index

variable {index later : Index} {scope : Scope} {told : Findings}

theorem SettledBy.handle? (settled : index.SettledBy scope told later) (target : TxRef) :
    later.handle? target = index.handle? target := by
  rw [Index.handle?, settled.record?, Option.map_map]
  exact Option.map_congr fun r _ => told.handle_settled scope target.event r

end Index

theorem Reconciliation.Concludes.not_pending {index later : Index} {scope : Scope} {told : Findings}
    {commits : List Exchange} {report : ReconcileReport}
    (concludes : Concludes index scope told commits (.ok report) later) (keyed : index.Keyed)
    (final : ∀ handle check, told.lookup handle = some (.ok check) → check.outcome.state ≠ .submitted)
    {target : TxRef} (covered : scope.contains target.event) {r : TxRecord}
    (found : later.record? target = some r) : ¬r.isPending := by
  obtain ⟨-, settled, _, -, -, verdict⟩ | ⟨_, _, -, -, -, failed⟩ := concludes.outcome
  · rw [settled.record?] at found
    obtain ⟨old, here, rfl⟩ := Option.map_eq_some_iff.mp found
    by_cases waiting : old.isPending
    · have listed : ⟨target, old⟩ ∈ index.pending scope :=
        (Index.mem_pending_iff keyed).mpr ⟨covered, here, waiting⟩
      have asked : old.handle ∈ told.handles := by
        rw [concludes.asked, mem_firsts]
        exact List.mem_map.mpr ⟨_, listed, rfl⟩
      obtain ⟨reply, answered⟩ := Option.ne_none_iff_exists'.mp (Findings.lookup_ne_none.mpr asked)
      obtain ⟨check, rfl⟩ := Findings.answered_of_clean (Findings.of_verdict verdict.symm).1 answered
      cases made : told.record? old with
      | none =>
          have still := (Findings.record?_eq_none_iff waiting).mp made check answered
          exact (final _ check answered still).elim
      | some record =>
          have settles : told.settled scope target.event old = record := by
            simp [Findings.settled, covered, waiting, made]
          rw [settles]
          exact fun pending => Findings.state_of_record? made (Findings.isPending_iff.mp pending).1
    · have stays : told.settled scope target.event old = old := by simp [Findings.settled, waiting]
      rwa [stays]
  · cases failed

theorem Pipeline.submitted_eq_zero {records : List TxRecord} (settled : ∀ r ∈ records, ¬r.isPending) :
    (ofRecords records).submitted = 0 := by
  rw [(ofRecords_counts records).submitted, List.countP_eq_zero]
  intro handle _ waiting
  obtain ⟨⟨r, listed, -, pending⟩, -⟩ := of_decide_eq_true waiting
  exact settled r listed pending

namespace Service

/-- The pipeline counts each handle once, whatever the order of the rows: as many transactions as there
were actions. -/
theorem pipeline_counts_actions {first s : Service} (begins : first.Begins) {issued : List TxHandle}
    (issues : Issues first s issued) (c : Configuration) :
    (∀ event proofs settlements audit,
      let p := (Progress.of c event proofs settlements audit).pipeline
      (∃ handles, Pipeline.Counts (Pipeline.records event proofs settlements) handles p) ∧
      p.total = p.submitted + p.confirmed + p.failed ∧
      ∀ (listed : List Proof) (rows : List Settlement), listed.Perm proofs → rows.Perm settlements →
        (Progress.of c event listed rows audit).pipeline = p) ∧
    (∀ id e, s.index.events.get? id = some e → (s.index.progress c e).pipeline.total = s.index.actions e) ∧
    ∀ {σ : Type} (host : Host σ) (state : σ), host.index state = s.index → ∀ id progress,
      (host.run (Operation.getSummary c id).run state).1 = .ok progress →
      let later := host.index (host.run (Operation.getSummary c id).run state).2.1
      let calls := (host.run (Operation.getSummary c id).run state).2.2
      (∃ e, later.events.get? id = some e ∧ progress = later.progress c e ∧
        progress.pipeline.total = later.actions e) ∧
      ((∀ handle check, (⟨.check handle, .ok check⟩ : Exchange) ∈ calls →
        check.outcome.state ≠ .submitted) → progress.pipeline.submitted = 0) := by
  have made : s.index.Made := ⟨s.history, (sound_of_run begins issues.run).made⟩
  have numbered := numbered_of_issues begins issues
  refine ⟨?_, ?_, ?_⟩
  · intro event proofs settlements audit
    refine ⟨⟨_, Pipeline.ofRecords_counts _⟩, Pipeline.total_eq _, ?_⟩
    intro listed rows reordered rearranged
    exact Pipeline.ofRecords_congr (Pipeline.mem_records_perm reordered rearranged)
  · exact fun id e found => made.lifecycle.total_eq_actions numbered found c
  · intro σ host state here id progress succeeded
    have runs := host.runs (Operation.getSummary c id).run state
    rw [here, succeeded] at runs
    have after := (runs.made (Task.commits (.getSummary id) c s.index).run made).lifecycle
    obtain ⟨asked, rest, report, e, reconciled, calls, found, rfl⟩ :=
      Operation.runs_getSummary after.toKeyed runs
    obtain ⟨told, commits, rfl, concludes⟩ := Operation.runs_reconcile made.lifecycle.toKeyed reconciled
    obtain ⟨-, settled, -⟩ | ⟨_, _, -, -, -, failed⟩ := concludes.outcome
    · refine ⟨⟨e, found, rfl, after.total_eq_actions (numbered.congr settled.handle?) found c⟩, ?_⟩
      intro final
      apply Pipeline.submitted_eq_zero
      intro r listed
      obtain rfl := after.events id e found
      obtain ⟨slot, there⟩ := (after.mem_records found r).mp listed
      refine concludes.not_pending made.lifecycle.toKeyed ?_ (decide_eq_true rfl) there
      intro handle check answered
      refine final handle check ?_
      rw [calls]
      exact List.mem_append_left _ (List.mem_cons_of_mem _
        (List.mem_append_left _ (Findings.mem_calls_of_lookup answered)))
    · cases failed

end Service

def Host.handing (t : Instant) : Host (Index × List TxHandle) where
  index := Prod.fst
  answer
    | .now, held => (t, held)
    | .commitLimit, held => (none, held)
    | .query q, held => (.ok (held.1.answer q), held)
    | .commit change, held => ((held.1.commit change).1, (held.1.commit change).2, held.2)
    | .submit .., (index, handle :: left) => (.ok ⟨handle, none, .submitted, t⟩, index, left)
    | .submit .., (index, []) => (.error (.rejected "closed"), index, [])
    | .check _, held => (.ok ⟨none, .confirmed t⟩, held)
  replies r held := by
    obtain ⟨index, left⟩ := held
    cases r with
    | now => exact .now _
    | commitLimit => exact .commitLimit none
    | query q => exact .query q
    | commit change => exact .commit change
    | submit action payload mode => cases left <;> exact .submit action payload mode _
    | check handle => exact .check handle _

theorem Host.answered_of_recording {α σ : Type} (host : Host σ) (p : Program α) (held : σ)
    (past : List Exchange) {call : Exchange}
    (listed : call ∈ (p.run host.recording (held, past)).2.2) :
    call ∈ past ∨ ∃ held, call = ⟨call.request, (host.answer call.request held).1⟩ := by
  induction p generalizing held past with
  | done a => exact .inl listed
  | ask r next ih =>
      rcases ih _ _ _ listed with before | answered
      · rcases List.mem_append.mp before with old | new
        · exact .inl old
        · obtain rfl := List.mem_singleton.mp new
          exact .inr ⟨held, rfl⟩
      · exact .inr answered

theorem Host.handing_final (t : Instant) {α : Type} (p : Program α) (held : Index × List TxHandle)
    {handle : TxHandle} {check : TxCheck}
    (listed : ⟨.check handle, .ok check⟩ ∈ ((handing t).run p held).2.2) :
    check.outcome.state ≠ .submitted := by
  rcases (handing t).answered_of_recording p held [] listed with nothing | ⟨_, same⟩
  · cases nothing
  · obtain ⟨-, reply⟩ := Exchange.mk.inj same
    obtain rfl := Except.ok.inj (eq_of_heq reply)
    exact nofun

theorem Host.handing_fresh (t : Instant) (r : Request) (index : Index) {left issued : List TxHandle}
    (unused : (left ++ issued).Nodup) :
    let (reply, after) := (handing t).answer r (index, left)
    (∀ handle ∈ r.obtained reply, handle ∉ issued) ∧ (after.2 ++ (r.obtained reply ++ issued)).Nodup := by
  cases r with
  | submit action payload mode =>
      cases left with
      | nil => exact ⟨nofun, unused⟩
      | cons handle left =>
          refine ⟨?_, List.perm_middle.nodup_iff.mpr unused⟩
          intro other obtained
          obtain rfl := List.mem_singleton.mp obtained
          exact fun known => (List.nodup_cons.mp unused).1 (List.mem_append_right _ known)
  | _ => exact ⟨nofun, unused⟩

namespace Service

variable {first s : Service} {issued left : List TxHandle} {index : Index}

theorem Issues.run_alone (t : Instant) {position : Nat} {task : Task}
    {rest : Program (Except Failure task.Result)} (issues : Issues first s issued)
    (here : s.storage = .memory index) (present : s.clients[position]? = some ⟨task, rest⟩)
    (unused : (left ++ issued).Nodup) :
    let held := (rest.run (Host.handing t).answer (index, left)).2
    ∃ later known, Issues first later known ∧ later.storage = .memory held.1 ∧ (held.2 ++ known).Nodup := by
  induction rest generalizing s index left issued with
  | done result => exact ⟨s, issued, issues, here, unused⟩
  | ask r next ih =>
      obtain ⟨fresh, still⟩ := Host.handing_fresh t r index unused
      have serves := ((Host.handing t).replies r (index, left)).memory
      have inside : position < s.clients.length := (List.getElem?_eq_some_iff.mp present).1
      exact ih _ (issues.call present (here ▸ serves) fresh) rfl (List.getElem?_set_self inside) still

theorem Issues.run_tasks (t : Instant) (c : Configuration) (tasks : List Task) (left : List TxHandle)
    (issues : Issues first s issued) (here : s.storage = .memory index) (unused : (left ++ issued).Nodup) :
    let held := tasks.foldl (fun held task =>
      ((task.operation c).run.run (Host.handing t).answer held).2) (index, left)
    ∃ later known, Issues first later known ∧ later.storage = .memory held.1 ∧ (held.2 ++ known).Nodup := by
  induction tasks generalizing s index left issued with
  | nil => exact ⟨s, issued, issues, here, unused⟩
  | cons task tasks ih =>
      have present : (s.clients ++ [⟨task, task.operation c⟩])[s.clients.length]? =
          some ⟨task, task.operation c⟩ := List.getElem?_concat_length
      obtain ⟨between, known, going, there, still⟩ :=
        Issues.run_alone t (issues.enter c task) here present unused
      exact ih _ going there still

/-- Both sites have a proof and share a settlement, and one of them has claimed its reward. -/
theorem pipeline_of_season : ∃ (s : Service) (e : Event) (progress : Progress),
    s.index.events.get? ⟨"DR-1"⟩ = some e ∧ (s.index.progress .standard e).pipeline.total = 6 ∧
    ((Host.handing (.ofSeconds 20)).run (Operation.getSummary .standard ⟨"DR-1"⟩).run (s.index, [])).1 =
      .ok progress ∧ progress.pipeline.submitted = 0 := by
  let handles : List TxHandle := [⟨"1"⟩, ⟨"2"⟩, ⟨"3"⟩, ⟨"4"⟩, ⟨"5"⟩, ⟨"6"⟩]
  have begun : Issues ⟨.memory .empty, [], []⟩ ⟨.memory .empty, [], []⟩ [] := .start
  obtain ⟨s, issued, issues, here, -⟩ :=
    Issues.run_tasks (.ofSeconds 10) .standard season handles begun rfl (by decide)
  obtain ⟨-, counted, summed⟩ := pipeline_counts_actions .memory issues .standard
  have acted : (s.index.events.get? ⟨"DR-1"⟩).map s.index.actions = some 6 := by
    rw [index, here]
    decide +kernel
  obtain ⟨e, found, six⟩ := Option.map_eq_some_iff.mp acted
  let summary :=
    (Host.handing (.ofSeconds 20)).run (Operation.getSummary .standard ⟨"DR-1"⟩).run (s.index, [])
  have shown : summary.1.toOption.isSome := by
    simp only [summary, index, here]
    decide +kernel
  cases succeeded : summary.1 with
  | error e => simp [succeeded, Except.toOption] at shown
  | ok progress =>
      refine ⟨s, e, progress, found, (counted _ e found).trans six, succeeded, ?_⟩
      refine (summed (Host.handing _) (s.index, []) rfl ⟨"DR-1"⟩ progress succeeded).2 ?_
      exact fun handle check listed => Host.handing_final _ _ _ listed

end Service

end Curtail
