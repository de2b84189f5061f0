import Curtail.Proofs.Engine.Service
import Curtail.Proofs.Index.Transitions

namespace Curtail

namespace Task

def transition? : Task → Option Transition
  | .createEvent plan => some (.created plan.id)
  | .closeEvent id => some (.closed id)
  | .submitProof s => some (.proven ⟨s.event, s.site⟩)
  | .settleEvent id _ => some (.settled id)
  | .claimReward key _ => some (.claimed key)
  | _ => none

def proves (key : SiteKey) : Task → Bool
  | .submitProof s => (⟨s.event, s.site⟩ : SiteKey) = key
  | _ => false

def claims (key : SiteKey) : Task → Bool
  | .claimReward other _ => other = key
  | _ => false

variable {index : Index} {task : Task} {change : Change}

theorem proves_iff {key : SiteKey} : task.proves key ↔ task.transition? = some (.proven key) := by
  cases task <;> simp [proves, transition?]

theorem claims_iff {key : SiteKey} : task.claims key ↔ task.transition? = some (.claimed key) := by
  cases task <;> simp [claims, transition?]

theorem transition?_of_reads (reads : task.subject = none) : task.transition? = none := by
  cases task <;> first | rfl | cases reads

theorem Makes.transition? (makes : task.Makes index change) :
    change.transition? = none ∨ change.transition? = task.transition? := by
  cases makes with
  | createEvent => exact .inr rfl
  | closeEvent => exact .inr rfl
  | submitProof => exact .inr rfl
  | settleEvent => exact .inr rfl
  | claimReward => exact .inr rfl
  | getAudit => exact .inl rfl
  | reconcile => exact .inl rfl
  | recordOrphan => exact .inl rfl

end Task

namespace Index

variable {index : Index} {history : List (Task × Change)} {task : Task} {change : Change}
  {transition : Transition}

theorem MadeBy.accepts (made : index.MadeBy history) :
    Index.empty.Accepts (history.map (·.2)) ∧ Index.empty.applyAll (history.map (·.2)) = index := by
  induction made with
  | empty => exact ⟨trivial, rfl⟩
  | @change index history task change _ allowed _ ih =>
      obtain ⟨accepted, same⟩ := ih
      rw [List.map_append]
      refine ⟨accepts_append.mpr ⟨accepted, ?_⟩, ?_⟩
      · rw [same]
        exact ⟨check_eq_ok_iff.mpr allowed, trivial⟩
      · rw [applyAll, List.foldl_append]
        exact congrArg (·.apply change) same

theorem created_before_or_made {id : EventId} (shows : (index.apply change).Shows (.created id)) :
    index.Shows (.created id) ∨ change.transition? = some (.created id) := by
  obtain ⟨f, found⟩ := shows
  cases change with
  | insertEvent event =>
      rcases Table.get?_insert_cases found with ⟨rfl, -⟩ | ⟨-, old⟩
      · exact .inr rfl
      · exact .inl ⟨f, old⟩
  | closeEvent other closeTx closedAt =>
      rcases Table.get?_modify_cases found with ⟨rfl, e, old, -⟩ | ⟨-, old⟩
      · exact .inl ⟨e, old⟩
      · exact .inl ⟨f, old⟩
  | settleEvent other rows settledAt =>
      rcases Table.get?_modify_cases found with ⟨rfl, e, old, -⟩ | ⟨-, old⟩
      · exact .inl ⟨e, old⟩
      · exact .inl ⟨f, old⟩
  | applyTxUpdates updates =>
      rw [apply, get?_events_applyTxUpdates] at found
      obtain ⟨e, old, -⟩ := Option.map_eq_some_iff.mp found
      exact .inl ⟨e, old⟩
  | _ => exact .inl ⟨f, found⟩

theorem closed_before_or_made (allowed : index.Allows change) (makes : task.Makes index change)
    {id : EventId} (shows : (index.apply change).Shows (.closed id)) :
    index.Shows (.closed id) ∨ change.transition? = some (.closed id) := by
  obtain ⟨f, found, past⟩ := shows
  cases makes with
  | createEvent =>
      rcases Table.get?_insert_cases found with ⟨-, rfl⟩ | ⟨-, old⟩
      · exact (past rfl).elim
      · exact .inl ⟨f, old, past⟩
  | closeEvent =>
      rcases Table.get?_modify_cases found with ⟨rfl, -⟩ | ⟨-, old⟩
      · exact .inr rfl
      · exact .inl ⟨f, old, past⟩
  | settleEvent =>
      rcases Table.get?_modify_cases found with ⟨rfl, -⟩ | ⟨-, old⟩
      · -- An event is closed before it is settled.
        obtain ⟨⟨e, old, closed⟩, -⟩ := allowed
        exact .inl ⟨e, old, by simp [closed]⟩
      · exact .inl ⟨f, old, past⟩
  | reconcile =>
      rw [apply, get?_events_applyTxUpdates] at found
      obtain ⟨e, old, rfl⟩ := Option.map_eq_some_iff.mp found
      exact .inl ⟨e, old, past⟩
  | _ => exact .inl ⟨f, found, past⟩

theorem proven_before_or_made {key : SiteKey} (shows : (index.apply change).Shows (.proven key)) :
    index.Shows (.proven key) ∨ change.transition? = some (.proven key) := by
  obtain ⟨q, found⟩ := shows
  cases change with
  | insertProof proof =>
      rcases Table.get?_insert_cases found with ⟨rfl, -⟩ | ⟨-, old⟩
      · exact .inr rfl
      · exact .inl ⟨q, old⟩
  | applyTxUpdates updates =>
      rw [apply, get?_proofs_applyTxUpdates] at found
      obtain ⟨p, old, -⟩ := Option.map_eq_some_iff.mp found
      exact .inl ⟨p, old⟩
  | _ => exact .inl ⟨q, found⟩

theorem claimed_before_or_made (makes : task.Makes index change) {key : SiteKey}
    (shows : (index.apply change).Shows (.claimed key)) :
    index.Shows (.claimed key) ∨ change.transition? = some (.claimed key) := by
  obtain ⟨t, found, taken⟩ := shows
  cases makes with
  | settleEvent =>
      -- Settlements come in unclaimed, so that only a claim makes them claimed.
      rcases Lifecycle.settlement_cases found with ⟨pay, -, -, rfl⟩ | old
      · cases taken
      · exact .inl ⟨t, old, taken⟩
  | claimReward =>
      rcases Table.get?_modify_cases found with ⟨rfl, -⟩ | ⟨-, old⟩
      · exact .inr rfl
      · exact .inl ⟨t, old, taken⟩
  | reconcile =>
      rw [apply, get?_settlements_applyTxUpdates] at found
      obtain ⟨s, old, rfl⟩ := Option.map_eq_some_iff.mp found
      exact .inl ⟨s, old, taken⟩
  | _ => exact .inl ⟨t, found, taken⟩

theorem shown_before_or_made (allowed : index.Allows change) (makes : task.Makes index change)
    (shows : (index.apply change).Shows transition) :
    index.Shows transition ∨ change.transition? = some transition := by
  cases transition with
  | created id => exact created_before_or_made shows
  | closed id => exact closed_before_or_made allowed makes shows
  | settled id =>
      obtain ⟨f, found, done⟩ := shows
      rcases settled_before_or_makes makes found done with old | ⟨requested, rows, settledAt, -, rfl⟩
      · exact .inl old
      · exact .inr rfl
  | proven key => exact proven_before_or_made shows
  | claimed key => exact claimed_before_or_made makes shows

theorem not_shows_empty : ¬Index.empty.Shows transition := by
  cases transition with
  | created _ | proven _ =>
      rintro ⟨row, found⟩
      cases found
  | closed _ | settled _ | claimed _ =>
      rintro ⟨row, found, -⟩
      cases found

theorem MadeBy.shows_iff (made : index.MadeBy history) :
    index.Shows transition ↔ transition ∈ transitions (history.map (·.2)) := by
  refine ⟨?_, ?_⟩
  · intro shows
    induction made with
    | empty => exact (not_shows_empty shows).elim
    | @change index history task change before allowed makes ih =>
        rw [List.map_append, List.map_singleton, transitions_append_single, List.mem_append,
          Option.mem_toList]
        rcases shown_before_or_made allowed makes shows with old | new
        · exact .inl (ih old)
        · exact .inr new
  · intro listed
    obtain ⟨accepted, same⟩ := made.accepts
    rw [← same]
    exact accepted.shows transition listed

theorem MadeBy.at (made : index.MadeBy history) (listed : (task, change) ∈ history) :
    ∃ earlier : Index, earlier.Allows change ∧ task.Makes earlier change ∧
      (earlier.apply change).Onward index := by
  induction made with
  | empty => cases listed
  | @change index history other last before allowed makes ih =>
      rcases List.mem_append.mp listed with old | new
      · obtain ⟨earlier, accepted, made, onward⟩ := ih old
        exact ⟨earlier, accepted, made, onward.trans (onward_apply allowed)⟩
      · obtain ⟨rfl, rfl⟩ := Prod.mk.inj (List.mem_singleton.mp new)
        exact ⟨index, allowed, makes, .refl _⟩

theorem MadeBy.submitter (made : index.MadeBy history) {submission : Submission}
    (listed : (.submitProof submission, change) ∈ history) (filled : change.transition?.isSome) :
    ∃ p, index.proofs.get? ⟨submission.event, submission.site⟩ = some p ∧
      p.submitter = submission.submitter := by
  obtain ⟨earlier, -, makes, onward⟩ := made.at listed
  cases makes with
  | @submitProof _ payload tx submittedAt given coherent =>
      have inserted : (earlier.apply (.insertProof (submission.proof payload tx submittedAt))).proofs.get?
          ⟨submission.event, submission.site⟩ = some (submission.proof payload tx submittedAt) := by
        rw [apply, Table.get?_insert]
        exact if_pos rfl
      obtain ⟨p, found, becomes⟩ := onward.proofs _ _ inserted
      refine ⟨p, found, ?_⟩
      rw [becomes.others]
      rfl
  | reconcile inScope => cases inScope
  | recordOrphan => cases filled

theorem MadeBy.claimant (made : index.MadeBy history) {key : SiteKey} {claimant : ActorId}
    (listed : (.claimReward key claimant, change) ∈ history) (filled : change.transition?.isSome) :
    ∃ p, index.proofs.get? key = some p ∧ p.submitter = claimant := by
  obtain ⟨earlier, allowed, makes, onward⟩ := made.at listed
  cases makes with
  | claimReward proven own =>
      obtain ⟨p, found, becomes⟩ := ((onward_apply allowed).trans onward).proofs _ _ proven
      refine ⟨p, found, ?_⟩
      rw [becomes.others]
      exact own
  | reconcile inScope => cases inScope
  | recordOrphan => cases filled

end Index

theorem Change.IsQuiet.transition?_eq_none {change : Change} (quiet : change.IsQuiet) :
    change.transition? = none := by
  cases change <;> first | rfl | exact quiet.elim

theorem Change.Carries.isSome_transition? {change : Change} {tx : TxRecord}
    (carries : change.Carries tx) : change.transition?.isSome := by
  cases change <;> first | rfl | exact carries.elim

def Stage.made : Stage → List Change
  | .stored _ change => [change]
  | _ => []

theorem Stage.accepted_of_permits {stage : Stage} {r : Request} (reply : r.Reply)
    (permitted : stage.Permits r) :
    (r.accepted reply).filter (·.transition?.isSome) = (stage.after r reply).made := by
  cases stage with
  | idle =>
      cases r with
      | commit change =>
          have quiet := permitted.1.transition?_eq_none
          cases reply with
          | ok _ => simp [Request.accepted, after, made, quiet]
          | error e => rfl
      | submit action payload mode => cases reply <;> rfl
      | _ => rfl
  | holding tx =>
      cases r with
      | now => rfl
      | commit change =>
          have filled := permitted.isSome_transition?
          cases reply with
          | ok _ => simp [Request.accepted, after, made, filled]
          | error e => rfl
      | _ => exact permitted.elim
  | refused tx =>
      cases r with
      | now => rfl
      | commit change =>
          obtain ⟨orphan, rfl, -⟩ := permitted
          cases reply <;> rfl
      | _ => exact permitted.elim
  | stored tx change => exact permitted.elim
  | orphaned orphan => exact permitted.elim

def Client.completed? (client : Client) : Option Task :=
  match client.rest with
  | .done (.ok _) => some client.task
  | _ => none

theorem Client.task_of_completed? {client : Client} {task : Task}
    (returned : client.completed? = some task) : client.task = task := by
  unfold completed? at returned
  split at returned
  · exact Option.some.inj returned
  · cases returned

theorem Client.completed?_of_follows {task : Task} {rest : Program (Except Failure task.Result)}
    {stage : Stage} (follows : rest.Follows task.Ends stage) (writes : task.transition? ≠ none) :
    Client.completed? ⟨task, rest⟩ = stage.made.head?.map fun _ => task := by
  cases rest with
  | ask r next =>
      cases stage with
      | stored tx change => exact follows.1.elim
      | _ => rfl
  | done result =>
      cases stage with
      | idle =>
          cases result with
          | ok value => exact (writes (Task.transition?_of_reads follows)).elim
          | error e => rfl
      | stored tx change =>
          cases result with
          | ok value => rfl
          | error e => exact follows.elim
      | orphaned orphan =>
          cases result with
          | ok value => exact follows.elim
          | error e => rfl
      | holding tx => exact follows.elim
      | refused tx => exact follows.elim

theorem Storage.Serves.allows {storage later : Storage} {r : Request} {reply : r.Reply} {change : Change}
    (serves : storage.Serves r reply later) (kept : storage.IsKept)
    (accepted : change ∈ r.accepted reply) : r = .commit change ∧ storage.index.Allows change := by
  cases serves with
  | @commit index change same =>
      subst same
      unfold Index.commit at accepted
      cases checked : index.check change with
      | ok _ =>
          simp only [checked] at accepted
          obtain rfl := List.mem_singleton.mp accepted
          exact ⟨rfl, Index.check_eq_ok_iff.mp checked⟩
      | error cause =>
          simp only [checked] at accepted
          cases accepted
  | @append store after file left fate change result same within committed =>
      subst same
      obtain ⟨entries, keeps⟩ := kept
      rcases JournaledIndex.commit_cases keeps.writer keeps.headed committed with
        ⟨e, rfl, rfl, rfl⟩ | ⟨rfl, checked, -⟩
      · cases accepted
      · obtain rfl := List.mem_singleton.mp accepted
        exact ⟨rfl, Index.check_eq_ok_iff.mp checked⟩
  | _ => cases accepted

namespace Service

variable {s later : Service}

def completed (s : Service) : List Task := s.clients.filterMap Client.completed?

def writers (clients : List Client) : List Task :=
  (clients.filterMap Client.completed?).filter (·.transition?.isSome)

theorem writers_append (front back : List Client) :
    writers (front ++ back) = writers front ++ writers back := by
  simp [writers]

theorem writers_cons (client : Client) (clients : List Client) :
    writers (client :: clients) = writers [client] ++ writers clients :=
  writers_append [client] clients

/-- Those that have returned from making a transition are those that the history names. -/
structure Tallied (s : Service) : Prop where
  staged : ∀ client ∈ s.clients, ∃ stage, client.rest.Follows client.task.Ends stage
  tallied : (writers s.clients).Perm ((s.history.filter (·.2.transition?.isSome)).map (·.1))

theorem Begins.tallied (begins : s.Begins) : s.Tallied := by
  cases begins <;> exact ⟨nofun, .nil⟩

theorem writers_of_follows {task : Task} {rest : Program (Except Failure task.Result)} {stage : Stage}
    (follows : rest.Follows task.Ends stage) :
    writers [⟨task, rest⟩] = if task.transition?.isSome then stage.made.map fun _ => task else [] := by
  cases made : task.transition? with
  | none =>
      cases returned : Client.completed? ⟨task, rest⟩ with
      | none => simp [writers, returned]
      | some other =>
          obtain rfl : task = other := Client.task_of_completed? returned
          simp [writers, returned, made]
  | some transition =>
      have returned := Client.completed?_of_follows follows (by simp [made])
      cases stage <;> simp [writers, returned, Stage.made, made]

theorem writers_of_call {task : Task} {r : Request} {next : r.Reply → Program (Except Failure task.Result)}
    {stage : Stage} (follows : (Program.ask r next).Follows task.Ends stage) (reply : r.Reply)
    {index : Index} (makes : ∀ change ∈ r.accepted reply, task.Makes index change) :
    writers [⟨task, next reply⟩] = ((r.accepted reply).filter (·.transition?.isSome)).map fun _ => task := by
  obtain ⟨permitted, others⟩ := follows
  rw [writers_of_follows (others reply), ← Stage.accepted_of_permits reply permitted]
  split
  · rfl
  case isFalse quiet =>
    rw [eq_comm, List.map_eq_nil_iff, List.filter_eq_nil_iff]
    intro change accepted made
    rcases (makes change accepted).transition? with none_made | same
    · simp [none_made] at made
    · exact quiet (same ▸ made)

theorem writers_set {clients : List Client} {position : Nat} {old new : Client}
    (present : clients[position]? = some old) (busy : writers [old] = []) :
    (writers (clients.set position new)).Perm (writers clients ++ writers [new]) := by
  obtain ⟨inside, here⟩ := List.getElem?_eq_some_iff.mp present
  obtain ⟨front, back, whole, -, replaced⟩ :
      ∃ front back, clients = front ++ clients[position] :: back ∧ front.length = position ∧
        clients.set position new = front ++ new :: back := List.exists_of_set inside
  rw [here] at whole
  rw [replaced, whole, writers_append, writers_append, writers_cons new, writers_cons old, busy,
    List.nil_append, List.append_assoc]
  exact List.perm_append_comm.append_left _

theorem Tallied.step (tallied : s.Tallied) (sound : s.Sound) (step : Step s later) : later.Tallied := by
  cases step with
  | enter c task =>
      have follows : Program.Follows task.Ends .idle (task.operation c) := task.follows c
      refine ⟨?_, ?_⟩
      · intro client member
        rcases List.mem_append.mp member with old | new
        · exact tallied.staged client old
        · obtain rfl := List.mem_singleton.mp new
          exact ⟨.idle, follows⟩
      · have none_yet : writers [⟨task, task.operation c⟩] = [] := by
          rw [writers_of_follows follows]
          split <;> rfl
        rw [writers_append, none_yet, List.append_nil]
        exact tallied.tallied
  | @call position task r next reply storage present serves =>
      have member := List.mem_of_getElem? present
      obtain ⟨stage, follows⟩ := tallied.staged _ member
      obtain ⟨makes, -⟩ := sound.tasks _ member s.index (.refl s.index) ⟨s.history, sound.made⟩
      refine ⟨?_, ?_⟩
      · intro client listed
        rcases List.mem_or_eq_of_mem_set listed with old | rfl
        · exact tallied.staged client old
        · exact ⟨stage.after r reply, follows.2 reply⟩
      · have added := writers_of_call follows reply fun change accepted => by
          obtain ⟨same, allowed⟩ := serves.allows sound.kept accepted
          exact makes change same allowed
        refine (writers_set present rfl).trans ?_
        rw [List.filter_append, List.map_append, added]
        refine tallied.tallied.append ?_
        rw [List.filter_map, List.map_map]
        exact .rfl
  | reopen same started => exact ⟨tallied.staged, tallied.tallied⟩

theorem tallied_of_run {first : Service} (begins : first.Begins)
    (run : Relation.ReflTransGen Step first s) : s.Tallied := by
  induction run with
  | refl => exact begins.tallied
  | tail before step ih => exact ih.step (sound_of_run begins before) step

theorem Tallied.mem_completed_iff (tallied : s.Tallied) {task : Task} (writes : task.transition?.isSome) :
    task ∈ s.completed ↔ ∃ change, (task, change) ∈ s.history ∧ change.transition?.isSome := by
  have same := tallied.tallied.mem_iff (a := task)
  rw [writers, List.mem_filter, List.mem_map] at same
  simpa [completed, writes] using same

theorem Tallied.transitions_perm (tallied : s.Tallied) (made : s.index.MadeBy s.history) :
    (s.completed.filterMap Task.transition?).Perm (transitions (s.history.map (·.2))) := by
  calc s.completed.filterMap Task.transition?
      = (writers s.clients).filterMap Task.transition? := by
        rw [writers, List.filterMap_filter]
        apply List.filterMap_congr
        intro task _
        cases task.transition? <;> rfl
    List.Perm _ (((s.history.filter (·.2.transition?.isSome)).map (·.1)).filterMap Task.transition?) :=
        tallied.tallied.filterMap _
    _ = transitions (s.history.map (·.2)) := by
        rw [List.filterMap_map, List.filterMap_filter, transitions, List.filterMap_map]
        apply List.filterMap_congr
        intro entry listed
        obtain ⟨earlier, -, makes, -⟩ := made.at listed
        rcases makes.transition? with none_made | same
        · simp [none_made]
        · cases filled : entry.1.transition? <;> simp [same, filled]

theorem Tallied.count_transition (tallied : s.Tallied) (made : s.index.MadeBy s.history)
    (transition : Transition) : s.completed.countP (·.transition? = some transition) =
      if transition ∈ transitions (s.history.map (·.2)) then 1 else 0 := by
  rw [← made.accepts.1.nodup.count, ← (tallied.transitions_perm made).count_eq, List.count,
    List.countP_filterMap]
  apply List.countP_congr
  intro task _
  cases task.transition? <;> simp

theorem Tallied.countP_claims (tallied : s.Tallied) (made : s.index.MadeBy s.history) (key : SiteKey) :
    s.completed.countP (·.claims key) =
      if (s.index.settlements.get? key).map (·.status) = some .claimed then 1 else 0 := by
  have same : s.completed.countP (·.claims key) =
      s.completed.countP (·.transition? = some (.claimed key)) := by
    apply List.countP_congr
    intro task _
    rw [Task.claims_iff, decide_eq_true_eq]
  rw [same, tallied.count_transition made]
  exact if_congr (made.shows_iff.symm.trans Option.map_eq_some_iff.symm) rfl rfl

theorem Tallied.submission (tallied : s.Tallied) (made : s.index.MadeBy s.history) {key : SiteKey}
    {p : Proof} (found : s.index.proofs.get? key = some p) : ∃ submission,
      s.completed.filter (·.proves key) = [.submitProof submission] ∧
      submission.submitter = p.submitter := by
  have proven : Transition.proven key ∈ transitions (s.history.map (·.2)) :=
    made.shows_iff.mp ⟨p, found⟩
  have once : (s.completed.filter (·.proves key)).length = 1 := by
    have same : s.completed.countP (·.proves key) =
        s.completed.countP (·.transition? = some (.proven key)) := by
      apply List.countP_congr
      intro task _
      rw [Task.proves_iff, decide_eq_true_eq]
    rw [← List.countP_eq_length_filter, same, tallied.count_transition made, if_pos proven]
  obtain ⟨task, alone⟩ := List.length_eq_one_iff.mp once
  obtain ⟨returned, proves⟩ : task ∈ s.completed ∧ task.proves key :=
    List.mem_filter.mp (alone ▸ List.mem_singleton_self task)
  cases task with
  | submitProof submission =>
      obtain rfl : (⟨submission.event, submission.site⟩ : SiteKey) = key := of_decide_eq_true proves
      obtain ⟨change, listed, filled⟩ := (tallied.mem_completed_iff rfl).mp returned
      obtain ⟨q, there, own⟩ := made.submitter listed filled
      obtain rfl := Option.some.inj (found.symm.trans there)
      exact ⟨submission, alone, own.symm⟩
  | _ => cases proves

/-- A reward is claimed by one call at most, which comes from the actor that submitted the proof. -/
theorem claims_of_run {first : Service} (begins : first.Begins)
    (run : Relation.ReflTransGen Step first s) (key : SiteKey) :
    s.completed.countP (·.claims key) =
      (if (s.index.settlements.get? key).map (·.status) = some .claimed then 1 else 0) ∧
    ∀ claimant, Task.claimReward key claimant ∈ s.completed → ∃ p submission,
      s.index.proofs.get? key = some p ∧ p.submitter = claimant ∧
      s.completed.filter (·.proves key) = [.submitProof submission] ∧
      submission.submitter = claimant := by
  have made := (sound_of_run begins run).made
  have tallied := tallied_of_run begins run
  refine ⟨tallied.countP_claims made key, ?_⟩
  intro claimant returned
  obtain ⟨change, listed, filled⟩ := (tallied.mem_completed_iff rfl).mp returned
  obtain ⟨p, found, own⟩ := made.claimant listed filled
  obtain ⟨submission, alone, same⟩ := tallied.submission made found
  exact ⟨p, submission, found, own, alone, same.trans own⟩

theorem claims_of_season : ∃ (s : Service) (submission : Submission),
    s.completed.countP (·.claims ⟨⟨"DR-1"⟩, ⟨"site-a"⟩⟩) = 1 ∧
    Task.claimReward ⟨⟨"DR-1"⟩, ⟨"site-a"⟩⟩ ⟨"participant-a"⟩ ∈ s.completed ∧
    s.completed.filter (·.proves ⟨⟨"DR-1"⟩, ⟨"site-a"⟩⟩) = [.submitProof submission] ∧
    submission.submitter = ⟨"participant-a"⟩ := by
  obtain ⟨s, run, here⟩ := reaches_tasks (.confirming (.ofSeconds 10)) .standard season
    (s := ⟨.memory .empty, [], []⟩) rfl
  obtain ⟨count, claimants⟩ := claims_of_run .memory run ⟨⟨"DR-1"⟩, ⟨"site-a"⟩⟩
  have claimed : (s.index.settlements.get? ⟨⟨"DR-1"⟩, ⟨"site-a"⟩⟩).map (·.status) = some .claimed := by
    rw [index, here]
    rfl
  have proven : (s.index.proofs.get? ⟨⟨"DR-1"⟩, ⟨"site-a"⟩⟩).map (·.submitter) =
      some ⟨"participant-a"⟩ := by
    rw [index, here]
    rfl
  rw [if_pos claimed] at count
  obtain ⟨task, returned, claims⟩ := List.countP_pos_iff.mp (count ▸ Nat.one_pos)
  cases task with
  | claimReward key claimant =>
      obtain rfl := of_decide_eq_true claims
      obtain ⟨p, submission, found, same, alone, own⟩ := claimants claimant returned
      have submitter : p.submitter = ⟨"participant-a"⟩ := by simpa [found] using proven
      obtain rfl : claimant = ⟨"participant-a"⟩ := same.symm.trans submitter
      exact ⟨s, submission, count, returned, alone, own⟩
  | _ => cases claims

end Service

end Curtail
