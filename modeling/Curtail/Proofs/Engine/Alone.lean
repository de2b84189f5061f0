import Curtail.Proofs.Engine.Changes
import Mathlib.Data.List.Forall2

namespace Curtail

structure Surroundings where
  clock : Instant
  submit : LedgerAction → Json.Value → ConfirmMode → Except LedgerError TxResult
  check : TxHandle → Except LedgerError TxCheck

namespace Surroundings

def IsAccepting (around : Surroundings) : Prop :=
  ∀ action payload mode, ∃ r, around.submit action payload mode = .ok r

def confirming (t : Instant) : Surroundings :=
  ⟨t, fun _ _ _ => .ok ⟨⟨"tx"⟩, none, .confirmed t, t⟩, fun _ => .ok ⟨none, .confirmed t⟩⟩

theorem confirming_isAccepting (t : Instant) : (confirming t).IsAccepting :=
  fun _ _ _ => ⟨_, rfl⟩

def reply? (around : Surroundings) (index : Index) : (r : Request) → Option r.Reply
  | .now => some around.clock
  | .commitLimit => some none
  | .query q => some (.ok (index.answer q))
  | .commit _ => none
  | .submit action payload mode => some (around.submit action payload mode)
  | .check handle => some (around.check handle)

def serve (around : Surroundings) : (r : Request) → Index → r.Reply × Index
  | .now, index => (around.clock, index)
  | .commitLimit, index => (none, index)
  | .query q, index => (.ok (index.answer q), index)
  | .commit change, index => index.commit change
  | .submit action payload mode, index => (around.submit action payload mode, index)
  | .check handle, index => (around.check handle, index)

theorem serve_of_reply? {around : Surroundings} {index : Index} {r : Request} {reply : r.Reply}
    (replied : around.reply? index r = some reply) : around.serve r index = (reply, index) := by
  cases r <;> cases replied <;> rfl

end Surroundings

namespace Program

variable {α β : Type}

def advance (reply? : (r : Request) → Option r.Reply) : Program α → Program α
  | .done a => .done a
  | .ask r next =>
    match reply? r with
    | some reply => advance reply? (next reply)
    | none => .ask r next

theorem advance_andThen (reply? : (r : Request) → Option r.Reply) (p : Program α)
    (f : α → Program β) :
    (p.andThen f).advance reply? =
      match p.advance reply? with
      | .done a => (f a).advance reply?
      | .ask r next => .ask r fun reply => (next reply).andThen f := by
  induction p with
  | done a => rfl
  | ask r next ih =>
      simp only [andThen, advance]
      cases reply? r with
      | some reply => exact ih reply
      | none => rfl

theorem run_advance (around : Surroundings) (p : Program α) (index : Index) :
    (p.advance (around.reply? index)).run around.serve index = p.run around.serve index := by
  induction p with
  | done a => rfl
  | ask r next ih =>
      unfold advance
      cases replied : around.reply? index r with
      | some reply =>
          rw [run, Surroundings.serve_of_reply? replied]
          exact ih reply
      | none => rfl

end Program

namespace Operation

variable {α β : Type} {around : Surroundings} {index : Index}

/-- What is left of an operation that has come to its commit, or its result. -/
def upToCommit (around : Surroundings) (index : Index) (op : Operation α) :
    Program (Except Failure α) :=
  op.run.advance (around.reply? index)

def Gives (around : Surroundings) (index : Index) (op : Operation α) (a : α) : Prop :=
  op.upToCommit around index = .done (.ok a)

def Finishes (around : Surroundings) (index : Index) (op : Operation α) : Prop :=
  ∃ result, op.upToCommit around index = .done result

theorem upToCommit_bind {op : Operation β} {f : β → Operation α} {b : β}
    (gives : op.Gives around index b) :
    (op >>= f).upToCommit around index = (f b).upToCommit around index := by
  unfold Gives upToCommit at gives
  change (op.run.andThen _).advance _ = _
  rw [Program.advance_andThen, gives]
  rfl

theorem upToCommit_bind_error {op : Operation β} {f : β → Operation α} {e : Failure}
    (fails : op.upToCommit around index = .done (.error e)) :
    (op >>= f).upToCommit around index = .done (.error e) := by
  unfold upToCommit at fails
  change (op.run.andThen _).advance _ = _
  rw [Program.advance_andThen, fails]
  rfl

theorem bind_gives_iff {op : Operation β} {f : β → Operation α} {a : α} :
    (op >>= f).Gives around index a ↔
      ∃ b, op.Gives around index b ∧ (f b).Gives around index a := by
  refine ⟨?_, ?_⟩
  · intro gives
    unfold Gives upToCommit at gives
    change (op.run.andThen _).advance _ = _ at gives
    rw [Program.advance_andThen] at gives
    split at gives
    · rename_i result first
      cases result with
      | ok b => exact ⟨b, first, gives⟩
      | error e => cases gives
    · cases gives
  · rintro ⟨b, first, others⟩
    unfold Gives
    rw [upToCommit_bind first]
    exact others

theorem pure_gives_iff {a b : α} : (pure a : Operation α).Gives around index b ↔ b = a := by
  change Program.done (Except.ok a : Except Failure α) = .done (.ok b) ↔ b = a
  simp only [Program.done.injEq, Except.ok.injEq, eq_comm]

theorem gives_of_bind {op : Operation β} {f : β → Operation α} {r : Request}
    {next : r.Reply → Program (Except Failure α)} (finishes : op.Finishes around index)
    (built : (op >>= f).upToCommit around index = .ask r next) :
    ∃ b, op.Gives around index b ∧ (f b).upToCommit around index = .ask r next := by
  obtain ⟨result, first⟩ := finishes
  cases result with
  | ok b =>
      rw [upToCommit_bind first] at built
      exact ⟨b, first, built⟩
  | error e =>
      rw [upToCommit_bind_error first] at built
      cases built

theorem Finishes.bind {op : Operation β} {f : β → Operation α} (finishes : op.Finishes around index)
    (others : ∀ b, (f b).Finishes around index) : (op >>= f).Finishes around index := by
  obtain ⟨result, first⟩ := finishes
  cases result with
  | ok b =>
      obtain ⟨last, same⟩ := others b
      exact ⟨last, by rw [upToCommit_bind first, same]⟩
  | error e => exact ⟨.error e, upToCommit_bind_error first⟩

theorem upToCommit_query (q : Query) (f : q.Answer → Operation α) :
    (query q >>= f).upToCommit around index = (f (index.answer q)).upToCommit around index :=
  rfl

theorem upToCommit_requireEvent (id : EventId) : (requireEvent id).upToCommit around index =
    .done (match index.events.get? id with
      | some event => .ok event
      | none => .error (.eventNotFound id)) := by
  unfold requireEvent
  rw [upToCommit_query, Index.answer]
  cases index.events.get? id <;> rfl

theorem upToCommit_requireProof (key : SiteKey) : (requireProof key).upToCommit around index =
    .done (match index.proofs.get? key with
      | some proof => .ok proof
      | none => .error (.proofNotFound key)) := by
  unfold requireProof
  rw [upToCommit_query, Index.answer]
  cases index.proofs.get? key <;> rfl

theorem upToCommit_submit (mode : ConfirmMode) (action : LedgerAction) (payload : Json.Value) :
    (submit mode action payload).upToCommit around index =
      .done (match around.submit action payload mode with
        | .ok result => .ok (.ofResult result)
        | .error e => .error (.ledger action e)) := by
  change Program.advance _ (Program.ask (.submit action payload mode) _) = _
  simp only [Program.advance, Surroundings.reply?]
  cases around.submit action payload mode <;> rfl

theorem requireEvent_gives_iff {id : EventId} {event : Event} :
    (requireEvent id).Gives around index event ↔ index.events.get? id = some event := by
  unfold Gives
  rw [upToCommit_requireEvent]
  cases index.events.get? id <;> simp

theorem requireProof_gives_iff {key : SiteKey} {proof : Proof} :
    (requireProof key).Gives around index proof ↔ index.proofs.get? key = some proof := by
  unfold Gives
  rw [upToCommit_requireProof]
  cases index.proofs.get? key <;> simp

theorem submit_gives_iff {mode : ConfirmMode} {action : LedgerAction} {payload : Json.Value}
    {tx : TxRecord} : (submit mode action payload).Gives around index tx ↔
      ∃ r, around.submit action payload mode = .ok r ∧ tx = .ofResult r := by
  unfold Gives
  rw [upToCommit_submit]
  cases around.submit action payload mode <;> simp [eq_comm]

theorem query_gives (q : Query) : (query q).Gives around index (index.answer q) := rfl

theorem now_gives : now.Gives around index around.clock.wholeSecond := rfl

def IsImmediate (op : Operation α) : Prop := ∃ result, op.run = .done result

theorem IsImmediate.finishes {op : Operation α} (immediate : op.IsImmediate) :
    op.Finishes around index := by
  obtain ⟨result, same⟩ := immediate
  exact ⟨result, by rw [upToCommit, same, Program.advance]⟩

theorem IsImmediate.gives {op : Operation α} {a : α} {other : Surroundings} {later : Index}
    (immediate : op.IsImmediate) (gives : op.Gives around index a) : op.Gives other later a := by
  obtain ⟨result, same⟩ := immediate
  unfold Gives upToCommit at gives ⊢
  rw [same] at gives ⊢
  exact gives

theorem makePayload_isImmediate (s : Submission) (t : Instant) : (makePayload s t).IsImmediate := by
  unfold makePayload
  cases Payload.of? ⟨s.event, s.site, s.baseline, s.actual, s.method, s.raw, t⟩ with
  | ok payload => exact ⟨_, rfl⟩
  | error e => exact ⟨_, rfl⟩

theorem checkDeclared_isImmediate (declared : Option String) (computed : ProofHash) :
    (checkDeclared declared computed).IsImmediate := by
  unfold checkDeclared
  cases declared with
  | none => exact ⟨_, rfl⟩
  | some text =>
      by_cases same : ProofHash.declares text computed
      · simp only [if_pos same]
        exact ⟨_, rfl⟩
      · simp only [if_neg same]
        exact ⟨_, rfl⟩

theorem checkProofSize_gives (payload uri : String) :
    (checkProofSize payload uri).Gives around index () := rfl

theorem sitesToSettle_finishes (id : EventId) (requested : List SiteId) :
    (sitesToSettle id requested).Finishes around index := by
  unfold sitesToSettle
  by_cases all : requested = []
  · simp only [if_pos all]
    exact ⟨_, rfl⟩
  · simp only [if_neg all]
    exact ⟨_, rfl⟩

theorem sitesToSettle_gives_iff (lifecycle : index.Lifecycle) {id : EventId}
    {requested sites : List SiteId} : (sitesToSettle id requested).Gives around index sites ↔
      sites = index.sitesToSettle id requested := by
  unfold sitesToSettle Index.sitesToSettle
  by_cases all : requested = []
  · simp only [if_pos all]
    rw [← firsts_of_nodup (Index.sitesOf_nodup index.proofs id), ← lifecycle.map_site]
    exact @pure_gives_iff _ around index _ _
  · simp only [if_neg all]
    exact pure_gives_iff

theorem payouts_cons (event : Event) (id : EventId) (share : UInt64) (site : SiteId)
    (sites : List SiteId) : (payouts event id share (site :: sites)).upToCommit around index =
      match index.proofs.get? ⟨id, site⟩, index.settlements.get? ⟨id, site⟩ with
      | none, _ => .done (.error (.proofMissing ⟨id, site⟩))
      | some _, some _ => .done (.error (.alreadySettled ⟨id, site⟩))
      | some p, none => upToCommit around index (payouts event id share sites >>= fun others =>
          pure ((site, event.payout share p) :: others)) := by
  rw [payouts, upToCommit_query, Index.answer]
  cases index.proofs.get? ⟨id, site⟩ with
  | none => rfl
  | some p =>
      simp only
      rw [upToCommit_query, Index.answer]
      cases index.settlements.get? ⟨id, site⟩ with
      | some row => rfl
      | none => rfl

theorem payouts_finishes (event : Event) (id : EventId) (share : UInt64) (sites : List SiteId) :
    (payouts event id share sites).Finishes around index := by
  induction sites with
  | nil => exact ⟨_, rfl⟩
  | cons site sites ih =>
      unfold Finishes
      rw [payouts_cons]
      cases index.proofs.get? ⟨id, site⟩ with
      | none => exact ⟨_, rfl⟩
      | some p =>
          cases index.settlements.get? ⟨id, site⟩ with
          | some row => exact ⟨_, rfl⟩
          | none => exact ih.bind fun _ => ⟨_, rfl⟩

theorem payouts_gives_iff {event : Event} {id : EventId} {share : UInt64} {sites : List SiteId}
    {pays : List (SiteId × Int64)} : (payouts event id share sites).Gives around index pays ↔
      List.Forall₂ (fun site pay => index.settlements.get? ⟨id, site⟩ = none ∧
        ∃ p, index.proofs.get? ⟨id, site⟩ = some p ∧ pay = (site, event.payout share p)) sites pays := by
  induction sites generalizing pays with
  | nil => exact pure_gives_iff.trans List.forall₂_nil_left_iff.symm
  | cons site sites ih =>
      unfold Gives
      rw [payouts_cons, List.forall₂_cons_left_iff]
      cases index.proofs.get? ⟨id, site⟩ with
      | none => simp
      | some p =>
          cases index.settlements.get? ⟨id, site⟩ with
          | some row => simp
          | none =>
              refine bind_gives_iff.trans ?_
              simp [ih, pure_gives_iff]

theorem payable_of_gives {event : Event} {id : EventId} {share : UInt64} {sites : List SiteId}
    {pays : List (SiteId × Int64)} (paid : (payouts event id share sites).Gives around index pays) :
    ∀ pay ∈ pays, index.proofs.get? ⟨id, pay.1⟩ ≠ none ∧ index.settlements.get? ⟨id, pay.1⟩ = none := by
  have each := payouts_gives_iff.mp paid
  clear paid
  induction each with
  | nil => exact nofun
  | cons first _ ih =>
      obtain ⟨free, p, proven, rfl⟩ := first
      rw [List.forall_mem_cons]
      exact ⟨⟨by simp [proven], free⟩, ih⟩

end Operation

def Surroundings.after (around : Surroundings) (c : Configuration) (index : Index) (task : Task) :
    Index :=
  ((task.operation c).run.run around.serve index).2

end Curtail
