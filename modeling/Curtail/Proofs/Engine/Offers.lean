import Curtail.Proofs.Engine.Inquiry

namespace Curtail

open Reconciliation

def Request.Offers (right : Change → Prop) : Request → Prop
  | .commit change => right change
  | _ => True

namespace Program

variable {α β : Type}

/-- The calls of a program and what it comes to, if it is replied to like this. -/
inductive Talks : Program α → List Exchange → α → Prop
  | done (a : α) : Talks (.done a) [] a
  | ask {r : Request} {reply : r.Reply} {next : r.Reply → Program α} {calls : List Exchange} {a : α} :
      Talks (next reply) calls a → Talks (.ask r next) (⟨r, reply⟩ :: calls) a

def comesTo (answer : (r : Request) → r.Reply) (p : Program α) : α :=
  (p.run (fun r (_ : Unit) => (answer r, ())) ()).1

theorem talks_comesTo (answer : (r : Request) → r.Reply) (p : Program α) :
    ∃ calls, p.Talks calls (p.comesTo answer) ∧ ∀ call ∈ calls, call.reply = answer call.request := by
  induction p with
  | done a => exact ⟨[], .done a, List.forall_mem_nil _⟩
  | ask r next ih =>
      obtain ⟨calls, talks, answered⟩ := ih (answer r)
      exact ⟨⟨r, answer r⟩ :: calls, .ask talks, List.forall_mem_cons.mpr ⟨rfl, answered⟩⟩

/-- As long as the replies are as assumed, every change that is offered is right. -/
def Offers (assumed : Exchange → Prop) (right : Change → Prop) (ends : α → Prop) : Program α → Prop
  | .done a => ends a
  | .ask r next => r.Offers right ∧
      ∀ reply, assumed ⟨r, reply⟩ → Offers assumed right ends (next reply)

variable {assumed : Exchange → Prop} {right : Change → Prop} {ends : α → Prop} {p : Program α}

theorem Offers.andThen {last : β → Prop} {f : α → Program β} (first : p.Offers assumed right ends)
    (second : ∀ a, ends a → (f a).Offers assumed right last) :
    (p.andThen f).Offers assumed right last := by
  induction p with
  | done a => exact second a first
  | ask r next ih => exact ⟨first.1, fun reply told => ih reply (first.2 reply told)⟩

theorem Offers.of_talks {calls : List Exchange} {a : α} (offers : p.Offers assumed right ends)
    (talks : p.Talks calls a) (told : ∀ call ∈ calls, assumed call) :
    (∀ change reply, ⟨.commit change, reply⟩ ∈ calls → right change) ∧ ends a := by
  induction talks with
  | done a => exact ⟨fun _ _ listed => (List.not_mem_nil listed).elim, offers⟩
  | @ask r reply next calls a others ih =>
      obtain ⟨first, rest⟩ := List.forall_mem_cons.mp told
      obtain ⟨later, ended⟩ := ih (offers.2 reply first) rest
      refine ⟨?_, ended⟩
      rintro change given (_ | ⟨_, listed⟩)
      · exact offers.1
      · exact later change given listed

end Program

structure Reconciliation.Informed (assumed : Exchange → Prop) (scope : Scope) (items : List PendingTx)
    (told : Findings) : Prop where
  listed : assumed ⟨.query (.pending scope), .ok items⟩
  asked : told.handles = firsts (items.map (·.record.handle))
  told : ∀ call ∈ told.calls, assumed call

namespace Operation

variable {α β : Type} {assumed : Exchange → Prop} {right : Change → Prop} {ends : α → Prop}

structure Offers (assumed : Exchange → Prop) (right : Change → Prop) (ends : α → Prop)
    (op : Operation α) : Prop where
  run : op.run.Offers assumed right fun result => ∀ a, result = .ok a → ends a

theorem Offers.of_talks {op : Operation α} {calls : List Exchange} {result : Except Failure α}
    (offers : op.Offers (· ∈ calls) right ends) (talks : op.run.Talks calls result) :
    (∀ change reply, ⟨.commit change, reply⟩ ∈ calls → right change) ∧ ∀ a, result = .ok a → ends a :=
  offers.run.of_talks talks fun _ => id

theorem offers_failed (f : Failure) : Program.Offers assumed right
    (fun (result : Except Failure α) => ∀ a, result = .ok a → ends a) (.done (.error f)) := by
  intro a same
  cases same

theorem Offers.bind {between : β → Prop} {op : Operation β} {f : β → Operation α}
    (first : op.Offers assumed right between)
    (second : ∀ b, between b → (f b).Offers assumed right ends) :
    (op >>= f).Offers assumed right ends := by
  refine ⟨first.run.andThen ?_⟩
  intro result reached
  cases result with
  | ok b => exact (second b (reached b rfl)).run
  | error e => exact offers_failed _

theorem Offers.pure {a : α} (reached : ends a) : (Pure.pure a : Operation α).Offers assumed right ends := by
  refine ⟨?_⟩
  intro b same
  cases same
  exact reached

theorem Offers.fail (f : Failure) : (fail f : Operation α).Offers assumed right ends := ⟨offers_failed f⟩

theorem Offers.fail_bind (f : Failure) (g : β → Operation α) :
    (Operation.fail f >>= g).Offers assumed right ends :=
  ⟨offers_failed f⟩

theorem Offers.query {q : Query} {f : q.Answer → Operation α}
    (others : ∀ answer, assumed ⟨.query q, .ok answer⟩ → (f answer).Offers assumed right ends) :
    (query q >>= f).Offers assumed right ends := by
  refine ⟨trivial, ?_⟩
  intro reply told
  cases reply with
  | ok answer => exact (others answer told).run
  | error e => exact offers_failed _

theorem Offers.now {f : Instant → Operation α}
    (others : ∀ t, assumed ⟨.now, t⟩ → (f t.wholeSecond).Offers assumed right ends) :
    (now >>= f).Offers assumed right ends :=
  ⟨trivial, fun t told => (others t told).run⟩

theorem Offers.commitLimit {f : Option Nat → Operation α}
    (others : ∀ limit, assumed ⟨.commitLimit, limit⟩ → (f limit).Offers assumed right ends) :
    (commitLimit >>= f).Offers assumed right ends :=
  ⟨trivial, fun limit told => (others limit told).run⟩

theorem Offers.tryCheck {handle : TxHandle} {f : Except LedgerError TxCheck → Operation α}
    (others : ∀ reply, assumed ⟨.check handle, reply⟩ → (f reply).Offers assumed right ends) :
    (tryCheck handle >>= f).Offers assumed right ends :=
  ⟨trivial, fun reply told => (others reply told).run⟩

theorem Offers.submit {mode : ConfirmMode} {action : LedgerAction} {payload : Json.Value}
    {f : TxRecord → Operation α} (others : ∀ result, assumed ⟨.submit action payload mode, .ok result⟩ →
      (f (.ofResult result)).Offers assumed right ends) :
    (submit mode action payload >>= f).Offers assumed right ends := by
  refine ⟨trivial, ?_⟩
  intro reply told
  cases reply with
  | ok result => exact (others result told).run
  | error e => exact offers_failed _

theorem Offers.commit {change : Change} {f : Unit → Operation α} (offered : right change)
    (others : assumed ⟨.commit change, .ok ()⟩ → (f ()).Offers assumed right ends) :
    (commit change >>= f).Offers assumed right ends := by
  refine ⟨offered, ?_⟩
  intro reply told
  cases reply with
  | ok _ => exact (others told).run
  | error e => exact offers_failed _

theorem Offers.commitSubmitted {action : LedgerAction} {event : EventId} {site : Option SiteId}
    {tx : TxRecord} {change : Change} {f : Unit → Operation α} (offered : right change)
    (orphans : ∀ orphan, right (.recordOrphan orphan))
    (others : assumed ⟨.commit change, .ok ()⟩ → (f ()).Offers assumed right ends) :
    (commitSubmitted action event site tx change >>= f).Offers assumed right ends := by
  refine ⟨offered, ?_⟩
  intro reply told
  cases reply with
  | ok _ => exact (others told).run
  | error e => exact ⟨trivial, fun _ _ => ⟨orphans _, fun _ _ => offers_failed _⟩⟩

theorem Offers.requireEvent {id : EventId} {f : Event → Operation α}
    (others : ∀ event, (f event).Offers assumed right ends) :
    (requireEvent id >>= f).Offers assumed right ends := by
  have first : (Operation.requireEvent id).Offers assumed right fun _ => True := by
    apply Offers.query
    intro found _
    cases found with
    | some event => exact .pure trivial
    | none => exact .fail _
  exact first.bind fun event _ => others event

theorem makePayload_offers (s : Submission) (submittedAt : Instant) :
    (makePayload s submittedAt).Offers assumed right fun payload =>
      Payload.of? (s.input submittedAt) = .ok payload := by
  unfold makePayload
  cases made : Payload.of? ⟨s.event, s.site, s.baseline, s.actual, s.method, s.raw, submittedAt⟩ with
  | ok payload => exact .pure made
  | error e => exact .fail _

theorem checkDeclared_offers (declared : Option String) (computed : ProofHash) :
    (checkDeclared declared computed).Offers assumed right fun _ => True := by
  unfold checkDeclared
  cases declared with
  | none => exact .pure trivial
  | some text =>
      by_cases same : ProofHash.declares text computed
      · simp only [if_pos same]
        exact .pure trivial
      · simp only [if_neg same]
        exact .fail _

def Weighed (limit : Option Nat) (payload uri : String) : Prop :=
  ∀ most, limit = some most → quotedSize payload + quotedSize uri + proofHeadroom ≤ most

theorem checkProofSize_offers (payload uri : String) :
    (checkProofSize payload uri).Offers assumed right fun _ =>
      ∃ limit, assumed ⟨.commitLimit, limit⟩ ∧ Weighed limit payload uri := by
  apply Offers.commitLimit
  intro limit told
  cases limit with
  | none => exact .pure ⟨none, told, nofun⟩
  | some most =>
      by_cases large : most < quotedSize payload + quotedSize uri + proofHeadroom
      · simp only [if_pos large]
        exact .fail _
      · simp only [if_neg large]
        refine .pure ⟨some most, told, ?_⟩
        rintro _ ⟨⟩
        exact Nat.not_lt.mp large

theorem submitProof_offers {s : Submission} (c : Configuration)
    (orphans : ∀ orphan, right (.recordOrphan orphan))
    (offered : ∀ t payload limit action body mode result, assumed ⟨.now, t⟩ →
      Payload.of? (s.input t.wholeSecond) = .ok payload →
      assumed ⟨.commitLimit, limit⟩ → Weighed limit payload.text s.uri →
      assumed ⟨.submit action body mode, .ok result⟩ →
      right (.insertProof (s.proof payload (.ofResult result) t.wholeSecond))) :
    (submitProof c s).Offers assumed right fun p => assumed ⟨.commit (.insertProof p), .ok ()⟩ := by
  apply Offers.requireEvent
  intro event
  by_cases inactive : event.status ≠ .active
  · simp only [if_pos inactive]
    exact .fail_bind _ _
  · simp only [if_neg inactive]
    apply Offers.query
    intro found _
    cases found with
    | some proof => exact .fail_bind _ _
    | none =>
        apply Offers.now
        intro t clock
        apply (makePayload_offers s _).bind
        intro payload made
        apply (checkDeclared_offers _ _).bind
        intro _ _
        apply (checkProofSize_offers _ _).bind
        rintro _ ⟨limit, limited, weighed⟩
        apply Offers.submit
        intro result submitted
        apply Offers.commitSubmitted _ orphans
        · exact fun accepted => .pure accepted
        · exact offered t payload limit _ _ _ result clock made limited weighed submitted

theorem sitesToSettle_offers (id : EventId) (requested : List SiteId) :
    (sitesToSettle id requested).Offers assumed right fun sites =>
      sites = firsts requested ∨
        ∃ proofs : List Proof, assumed ⟨.query (.proofs id), .ok proofs⟩ ∧ sites = firsts (proofs.map (·.site)) := by
  unfold sitesToSettle
  by_cases all : requested = []
  · simp only [if_pos all]
    apply Offers.query
    intro proofs told
    exact .pure (.inr ⟨proofs, told, rfl⟩)
  · simp only [if_neg all]
    exact .pure (.inl rfl)

theorem payouts_offers (event : Event) (id : EventId) (share : UInt64) (sites : List SiteId) :
    (payouts event id share sites).Offers assumed right fun payouts => payouts.map (·.1) = sites := by
  induction sites with
  | nil => exact .pure rfl
  | cons site sites ih =>
      apply Offers.query
      intro proven _
      cases proven with
      | none => exact .fail _
      | some proof =>
          apply Offers.query
          intro settled _
          cases settled with
          | some row => exact .fail_bind _ _
          | none =>
              apply ih.bind
              intro others listed
              exact .pure (by rw [List.map_cons, listed])

theorem settleEvent_offers {id : EventId} {requested : List SiteId} (c : Configuration)
    (orphans : ∀ orphan, right (.recordOrphan orphan))
    (offered : ∀ (sites : List SiteId) (payouts : List (SiteId × Int64)) action body mode result t,
      (sites = firsts requested ∨ ∃ proofs : List Proof,
        assumed ⟨.query (.proofs id), .ok proofs⟩ ∧ sites = firsts (proofs.map (·.site))) →
      payouts.map (·.1) = sites → assumed ⟨.submit action body mode, .ok result⟩ → assumed ⟨.now, t⟩ →
      right (.settleEvent id (payouts.map (.ofPayout id (.ofResult result) t.wholeSecond))
        t.wholeSecond)) :
    (settleEvent c id requested).Offers assumed right fun rows => ∃ settledAt : Instant,
      assumed ⟨.commit (.settleEvent id rows settledAt), .ok ()⟩ := by
  apply Offers.requireEvent
  intro event
  cases event.status with
  | active => exact .fail_bind _ _
  | settled => exact .fail_bind _ _
  | closed =>
      apply (sitesToSettle_offers id requested).bind
      intro sites listed
      cases Scoring.targetShare event.target sites.length with
      | none => exact .fail _
      | some share =>
          apply (payouts_offers event id share sites).bind
          intro payouts paid
          apply Offers.submit
          intro result submitted
          apply Offers.now
          intro t clock
          apply Offers.commitSubmitted _ orphans
          · exact fun accepted => .pure ⟨t.wholeSecond, accepted⟩
          · exact offered sites payouts _ _ _ result t listed paid submitted clock

theorem askAll_offers (handles : List TxHandle) :
    (askAll handles).Offers assumed right fun told =>
      told.handles = handles ∧ ∀ call ∈ told.calls, assumed call := by
  induction handles with
  | nil => exact .pure ⟨rfl, List.forall_mem_nil _⟩
  | cons handle handles ih =>
      apply Offers.tryCheck
      intro reply given
      apply ih.bind
      rintro others ⟨listed, told⟩
      refine .pure ⟨congrArg (handle :: ·) listed, ?_⟩
      exact List.forall_mem_cons.mpr ⟨given, told⟩

theorem reconcile_offers {scope : Scope} (offered : ∀ items told, Informed assumed scope items told →
      right (.applyTxUpdates (told.updates items))) :
    (reconcile scope).Offers assumed right fun report => ∃ items told, Informed assumed scope items told ∧
      told.verdict items.length (told.updates items).length = .ok report ∧
      (told.updates items = [] ∨
        assumed ⟨.commit (.applyTxUpdates (told.updates items)), .ok ()⟩) := by
  rw [reconcile_eq_askAll]
  apply Offers.query
  intro items listed
  apply (askAll_offers _).bind
  rintro told ⟨asked, given⟩
  have informed : Informed assumed scope items told := ⟨listed, asked, given⟩
  unfold conclude
  by_cases nothing : told.updates items = []
  · rw [if_neg (not_not_intro nothing)]
    exact ⟨fun _ verdict => ⟨items, told, informed, verdict, .inl nothing⟩⟩
  · rw [if_pos nothing]
    apply Offers.commit
    · exact offered items told informed
    · exact fun accepted => ⟨fun _ verdict => ⟨items, told, informed, verdict, .inr accepted⟩⟩

end Operation

end Curtail
