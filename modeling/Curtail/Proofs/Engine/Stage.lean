import Curtail.Engine.View
import Curtail.Proofs.Index.Handles

namespace Curtail

/-- What an operation has done so far about its transaction. -/
inductive Stage
  | idle
  | holding (tx : TxRecord)
  | stored (tx : TxRecord) (change : Change)
  | refused (tx : TxRecord)
  | orphaned (orphan : Orphan)

namespace Stage

def Permits : Stage → Request → Prop
  | .idle, .commit change => change.IsQuiet ∧ change.orphans = []
  | .idle, _ => True
  | .holding tx, .commit change => change.Carries tx
  | .refused tx, .commit change => ∃ orphan, change = .recordOrphan orphan ∧ orphan.tx = tx
  | .holding _, .now | .refused _, .now => True
  | _, _ => False

def after : Stage → (r : Request) → r.Reply → Stage
  | .idle, .submit .., .ok result => .holding (.ofResult result)
  | .holding tx, .commit change, .ok () => .stored tx change
  | .holding tx, .commit _, .error _ => .refused tx
  | .refused _, .commit (.recordOrphan orphan), _ => .orphaned orphan
  | stage, _, _ => stage

end Stage

/-- The program only makes requests that its stage permits, and ends as it should. -/
def Program.Follows {α : Type} (ends : Stage → α → Prop) : Stage → Program α → Prop
  | stage, .done a => ends stage a
  | stage, .ask r next => stage.Permits r ∧ ∀ reply, Follows ends (stage.after r reply) (next reply)

theorem Program.follows_andThen {α β : Type} {between : Stage → α → Prop} {ends : Stage → β → Prop}
    {stage : Stage} {p : Program α} {f : α → Program β} (first : p.Follows between stage)
    (second : ∀ stage a, between stage a → (f a).Follows ends stage) :
    (p.andThen f).Follows ends stage := by
  induction p generalizing stage with
  | done a => exact second stage a first
  | ask r next ih =>
      obtain ⟨permitted, others⟩ := first
      refine ⟨permitted, ?_⟩
      intro reply
      exact ih reply (others reply)

namespace Operation

variable {α β : Type}

def Follows (ends : Stage → Except Failure α → Prop) (stage : Stage) (op : Operation α) : Prop :=
  Program.Follows ends stage op.run

/-- Nothing is left to be accounted for, however the operation ends. -/
structure Idle (op : Operation α) : Prop where
  follows : op.Follows (fun stage _ => stage = .idle) .idle

theorem follows_bind {between : Stage → Except Failure α → Prop}
    {ends : Stage → Except Failure β → Prop} {stage : Stage} {op : Operation α}
    {f : α → Operation β} (first : op.Follows between stage)
    (second : ∀ stage a, between stage (.ok a) → (f a).Follows ends stage)
    (failed : ∀ stage e, between stage (.error e) → ends stage (.error e)) :
    Follows ends stage (op >>= f) := by
  apply Program.follows_andThen first
  intro stage result reached
  cases result with
  | ok a => exact second stage a reached
  | error e => exact failed stage e reached

theorem Idle.follows_bind {ends : Stage → Except Failure β → Prop} {op : Operation α}
    {f : α → Operation β} (idle : op.Idle) (others : ∀ a, (f a).Follows ends .idle)
    (failed : ∀ e, ends .idle (.error e)) : Follows ends .idle (op >>= f) := by
  apply Operation.follows_bind idle.follows
  · rintro stage a rfl
    exact others a
  · rintro stage e rfl
    exact failed e

theorem Idle.bind {op : Operation α} {f : α → Operation β} (idle : op.Idle)
    (others : ∀ a, (f a).Idle) : Idle (op >>= f) :=
  ⟨idle.follows_bind (fun a => (others a).follows) fun _ => rfl⟩

theorem Idle.pure (a : α) : Idle (pure a) := ⟨rfl⟩

theorem Idle.fail (f : Failure) : Idle (fail f : Operation α) := ⟨rfl⟩

theorem Idle.now : now.Idle := ⟨⟨trivial, fun _ => rfl⟩⟩

theorem Idle.commitLimit : commitLimit.Idle := ⟨⟨trivial, fun _ => rfl⟩⟩

theorem Idle.tryCheck (handle : TxHandle) : (tryCheck handle).Idle := ⟨⟨trivial, fun _ => rfl⟩⟩

theorem Idle.query (q : Query) : (query q).Idle := by
  refine ⟨trivial, ?_⟩
  intro reply
  cases reply with
  | ok answer => rfl
  | error e => rfl

theorem Idle.commit {change : Change} (quiet : change.IsQuiet) (no_orphan : change.orphans = []) :
    (commit change).Idle := by
  refine ⟨⟨quiet, no_orphan⟩, ?_⟩
  intro reply
  cases reply with
  | ok _ => rfl
  | error e => rfl

theorem Idle.requireEvent (id : EventId) : (requireEvent id).Idle := by
  apply (Idle.query _).bind
  intro found
  cases found with
  | some event => exact .pure event
  | none => exact .fail _

theorem Idle.requireProof (key : SiteKey) : (requireProof key).Idle := by
  apply (Idle.query _).bind
  intro found
  cases found with
  | some proof => exact .pure proof
  | none => exact .fail _

theorem submit_follows {ends : Stage → Except Failure β → Prop} {mode : ConfirmMode}
    {action : LedgerAction} {payload : Json.Value} {f : TxRecord → Operation β}
    (others : ∀ tx, (f tx).Follows ends (.holding tx)) (failed : ∀ e, ends .idle (.error e)) :
    Follows ends .idle (submit mode action payload >>= f) := by
  refine ⟨trivial, ?_⟩
  intro reply
  cases reply with
  | ok result => exact others (.ofResult result)
  | error e => exact failed (.ledger action e)

theorem now_follows {ends : Stage → Except Failure β → Prop} {tx : TxRecord}
    {f : Instant → Operation β} (others : ∀ t, (f t).Follows ends (.holding tx)) :
    Follows ends (.holding tx) (now >>= f) := by
  refine ⟨trivial, ?_⟩
  intro t
  exact others t.wholeSecond

theorem commitSubmitted_follows {ends : Stage → Except Failure β → Prop} {action : LedgerAction}
    {event : EventId} {site : Option SiteId} {tx : TxRecord} {change : Change}
    {f : Unit → Operation β} (carries : change.Carries tx)
    (others : (f ()).Follows ends (.stored tx change))
    (failed : ∀ orphan e, orphan.action = action → orphan.event = event → orphan.site = site →
      ends (.orphaned orphan) (.error e)) :
    Follows ends (.holding tx) (commitSubmitted action event site tx change >>= f) := by
  refine ⟨carries, ?_⟩
  intro reply
  cases reply with
  | ok _ => exact others
  | error e =>
      refine ⟨trivial, ?_⟩
      intro t
      refine ⟨⟨_, rfl, rfl⟩, ?_⟩
      intro recorded
      exact failed _ _ rfl rfl rfl

end Operation

end Curtail
