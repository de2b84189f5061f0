import Curtail.Proofs.Engine.Changes

namespace Curtail

/-- Any call may fail at will, and a commit that fails leaves the index as it was. -/
inductive Index.Serves (index : Index) : (r : Request) → r.Reply → Index → Prop
  | now (t : Instant) : Serves index .now t index
  | commitLimit (limit : Option Nat) : Serves index .commitLimit limit index
  | query (q : Query) : Serves index (.query q) (.ok (index.answer q)) index
  | queryFailed (q : Query) (e : StoreError) : Serves index (.query q) (.error e) index
  | commit {change : Change} : index.Allows change →
      Serves index (.commit change) (.ok ()) (index.apply change)
  | commitFailed (change : Change) (e : StoreError) : Serves index (.commit change) (.error e) index
  | submit (action : LedgerAction) (payload : Json.Value) (mode : ConfirmMode)
      (reply : Except LedgerError TxResult) : Serves index (.submit action payload mode) reply index
  | check (handle : TxHandle) (reply : Except LedgerError TxCheck) :
      Serves index (.check handle) reply index

def Index.Made (index : Index) : Prop := ∃ history, index.MadeBy history

theorem Index.Made.lifecycle {index : Index} (made : index.Made) : index.Lifecycle := by
  obtain ⟨history, made⟩ := made
  exact made.lifecycle

theorem Index.Serves.onward {index later : Index} {r : Request} {reply : r.Reply}
    (serves : index.Serves r reply later) : index.Onward later := by
  cases serves with
  | commit allowed => exact Index.onward_apply allowed
  | _ => exact .refl index

/-- Other tasks may move the index on before each call and after the end. -/
def Program.Commits {α : Type} (task : Task) (ends : Index → α → Prop) : Index → Program α → Prop
  | stands, .done a => ∀ index, stands.Onward index → index.Made → ends index a
  | stands, .ask r next => ∀ index, stands.Onward index → index.Made →
      (∀ change, r = .commit change → index.Allows change → task.Makes index change) ∧
      ∀ reply later, index.Serves r reply later → Commits task ends later (next reply)

namespace Program

variable {α β : Type} {task : Task} {ends : Index → α → Prop} {stands later : Index} {p : Program α}

theorem Commits.onward (commits : p.Commits task ends stands) (onward : stands.Onward later) :
    p.Commits task ends later := by
  cases p with
  | done a => exact fun index further made => commits index (onward.trans further) made
  | ask r next => exact fun index further made => commits index (onward.trans further) made

theorem commits_of_onward (commits : ∀ index, stands.Onward index → index.Made →
    p.Commits task ends index) : p.Commits task ends stands := by
  cases p with
  | done a => exact fun index onward made => commits index onward made index (.refl index) made
  | ask r next => exact fun index onward made => commits index onward made index (.refl index) made

theorem Commits.andThen {last : Index → β → Prop} {f : α → Program β}
    (first : p.Commits task ends stands)
    (second : ∀ index a, stands.Onward index → index.Made → ends index a →
      (f a).Commits task last index) : (p.andThen f).Commits task last stands := by
  induction p generalizing stands with
  | done a =>
      apply commits_of_onward
      intro index onward made
      exact second index a onward made (first index onward made)
  | ask r next ih =>
      intro index onward made
      obtain ⟨makes, others⟩ := first index onward made
      refine ⟨makes, ?_⟩
      intro reply later serves
      apply ih reply (others reply later serves)
      intro last a further
      exact second last a ((onward.trans serves.onward).trans further)

end Program

namespace Operation

variable {α β : Type} {task : Task} {ends : Index → α → Prop} {stands : Index}

structure Commits (task : Task) (ends : Index → α → Prop) (stands : Index) (op : Operation α) : Prop where
  run : op.run.Commits task (fun index result => ∀ a, result = .ok a → ends index a) stands

theorem Commits.onward {later : Index} {op : Operation α} (commits : op.Commits task ends stands)
    (onward : stands.Onward later) : op.Commits task ends later :=
  ⟨commits.run.onward onward⟩

theorem commits_failed (f : Failure) :
    Program.Commits task (fun index (result : Except Failure α) => ∀ a, result = .ok a → ends index a)
      stands (.done (.error f)) := by
  intro index onward made a same
  cases same

theorem Commits.bind {between : Index → β → Prop} {op : Operation β} {f : β → Operation α}
    (first : op.Commits task between stands)
    (second : ∀ index b, stands.Onward index → index.Made → between index b →
      (f b).Commits task ends index) : (op >>= f).Commits task ends stands := by
  refine ⟨first.run.andThen ?_⟩
  intro index result onward made reached
  cases result with
  | ok b => exact (second index b onward made (reached b rfl)).run
  | error e => exact commits_failed e

theorem Commits.pure {a : α} (reached : ∀ index, stands.Onward index → index.Made → ends index a) :
    (Pure.pure a : Operation α).Commits task ends stands := by
  refine ⟨?_⟩
  intro index onward made b same
  cases same
  exact reached index onward made

theorem Commits.fail (f : Failure) : (fail f : Operation α).Commits task ends stands :=
  ⟨commits_failed f⟩

theorem Commits.fail_bind (f : Failure) (g : β → Operation α) :
    (Operation.fail f >>= g).Commits task ends stands :=
  ⟨commits_failed f⟩

theorem Commits.query {q : Query} {f : q.Answer → Operation α}
    (others : ∀ read, stands.Onward read → read.Made → (f (read.answer q)).Commits task ends read) :
    (query q >>= f).Commits task ends stands := by
  refine ⟨?_⟩
  intro index onward made
  refine ⟨by rintro _ ⟨⟩, ?_⟩
  intro reply later serves
  cases serves with
  | query _ => exact (others index onward made).run
  | queryFailed _ e => exact commits_failed _

theorem Commits.now {f : Instant → Operation α} (others : ∀ t, (f t).Commits task ends stands) :
    (now >>= f).Commits task ends stands := by
  refine ⟨?_⟩
  intro index onward made
  refine ⟨by rintro _ ⟨⟩, ?_⟩
  intro reply later serves
  cases serves with
  | now _ => exact (others (Instant.wholeSecond reply)).run.onward onward

theorem Commits.commitLimit {f : Option Nat → Operation α}
    (others : ∀ limit, (f limit).Commits task ends stands) :
    (commitLimit >>= f).Commits task ends stands := by
  refine ⟨?_⟩
  intro index onward made
  refine ⟨by rintro _ ⟨⟩, ?_⟩
  intro reply later serves
  cases serves with
  | commitLimit _ => exact (others reply).run.onward onward

theorem Commits.tryCheck {handle : TxHandle} {f : Except LedgerError TxCheck → Operation α}
    (others : ∀ reply, (f reply).Commits task ends stands) :
    (tryCheck handle >>= f).Commits task ends stands := by
  refine ⟨?_⟩
  intro index onward made
  refine ⟨by rintro _ ⟨⟩, ?_⟩
  intro reply later serves
  cases serves with
  | check _ reply => exact (others reply).run.onward onward

theorem Commits.submit {mode : ConfirmMode} {action : LedgerAction} {payload : Json.Value}
    {f : TxRecord → Operation α} (others : ∀ tx, tx.Coherent → (f tx).Commits task ends stands) :
    (submit mode action payload >>= f).Commits task ends stands := by
  refine ⟨?_⟩
  intro index onward made
  refine ⟨by rintro _ ⟨⟩, ?_⟩
  intro reply later serves
  cases serves with
  | submit _ _ _ reply =>
      cases reply with
      | ok result => exact (others _ (TxRecord.coherent_ofResult result)).run.onward onward
      | error e => exact commits_failed _

theorem Commits.commit {change : Change} {f : Unit → Operation α}
    (makes : ∀ index, stands.Onward index → index.Made → index.Allows change →
      task.Makes index change)
    (others : (f ()).Commits task ends stands) : (commit change >>= f).Commits task ends stands := by
  refine ⟨?_⟩
  intro index onward made
  refine ⟨?_, ?_⟩
  · rintro _ ⟨⟩
    exact makes index onward made
  · intro reply later serves
    cases serves with
    | commit allowed => exact others.run.onward (onward.trans (Index.onward_apply allowed))
    | commitFailed _ e => exact commits_failed _

theorem Commits.commitSubmitted {action : LedgerAction} {event : EventId} {site : Option SiteId}
    {tx : TxRecord} {change : Change} {f : Unit → Operation α}
    (own : task.subject = some (action, event, site)) (coherent : tx.Coherent)
    (makes : ∀ index, stands.Onward index → index.Made → index.Allows change →
      task.Makes index change)
    (others : (f ()).Commits task ends stands) :
    (commitSubmitted action event site tx change >>= f).Commits task ends stands := by
  refine ⟨?_⟩
  intro index onward made
  refine ⟨?_, ?_⟩
  · rintro _ ⟨⟩
    exact makes index onward made
  · intro reply later serves
    cases serves with
    | commit allowed => exact others.run.onward (onward.trans (Index.onward_apply allowed))
    | commitFailed _ e =>
        intro index _ _
        refine ⟨by rintro _ ⟨⟩, ?_⟩
        intro t later _ index _ _
        refine ⟨?_, ?_⟩
        · rintro _ ⟨⟩ _
          exact .recordOrphan own coherent
        · intro recorded later _
          exact commits_failed _

theorem Commits.requireEvent {id : EventId} {f : Event → Operation α}
    (others : ∀ read event, stands.Onward read → read.Made → read.events.get? id = some event →
      (f event).Commits task ends read) : (requireEvent id >>= f).Commits task ends stands := by
  have first : (Operation.requireEvent id).Commits task
      (fun index event => (f event).Commits task ends index) stands := by
    apply Commits.query
    intro read onward made
    cases found : read.events.get? id with
    | some event =>
        simp only [Index.answer, found]
        exact .pure fun index further _ => (others read event onward made found).onward further
    | none =>
        simp only [Index.answer, found]
        exact .fail _
  exact first.bind fun _ _ _ _ reached => reached

theorem Commits.requireProof {key : SiteKey} {f : Proof → Operation α}
    (others : ∀ read proof, stands.Onward read → read.Made → read.proofs.get? key = some proof →
      (f proof).Commits task ends read) : (requireProof key >>= f).Commits task ends stands := by
  have first : (Operation.requireProof key).Commits task
      (fun index proof => (f proof).Commits task ends index) stands := by
    apply Commits.query
    intro read onward made
    cases found : read.proofs.get? key with
    | some proof =>
        simp only [Index.answer, found]
        exact .pure fun index further _ => (others read proof onward made found).onward further
    | none =>
        simp only [Index.answer, found]
        exact .fail _
  exact first.bind fun _ _ _ _ reached => reached

end Operation

end Curtail
