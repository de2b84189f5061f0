import Curtail.Proofs.Engine.Changes
import Mathlib.Data.List.Nodup

/-!
The course of a task that has an index to itself, while any call of the store may fail. A task that
writes either leaves the index as it was, or its transaction is in the rows that it returns. Only when
its commit itself has failed is the transaction neither, and recorded as an orphan if at all.
-/

namespace Curtail

structure Exchange where
  request : Request
  reply : request.Reply

namespace Exchange

def IsRead : Exchange → Prop
  | ⟨.now, _⟩ | ⟨.commitLimit, _⟩ | ⟨.query _, _⟩ => True
  | _ => False

def Failed : Exchange → Prop
  | ⟨.query _, .error _⟩ => True
  | _ => False

def Accepted : Exchange → Prop
  | ⟨.submit .., .ok _⟩ => True
  | _ => False

def Declined : Exchange → Prop
  | ⟨.submit .., .error _⟩ | ⟨.commit _, .error _⟩ => True
  | _ => False

def isSubmit : Exchange → Bool
  | ⟨.submit .., _⟩ => true
  | _ => false

def isCommit : Exchange → Bool
  | ⟨.commit _, _⟩ => true
  | _ => false

def IsPlain (call : Exchange) : Prop := call.IsRead ∧ ¬ call.Failed

theorem countP_of_isRead {calls : List Exchange} (read : ∀ call ∈ calls, call.IsRead) :
    calls.countP isSubmit = 0 ∧ calls.countP isCommit = 0 := by
  have neither : ∀ call : Exchange, call.IsRead → call.isSubmit = false ∧ call.isCommit = false := by
    rintro ⟨r, reply⟩ read
    cases r <;> first | exact ⟨rfl, rfl⟩ | exact read.elim
  simp only [List.countP_eq_zero, Bool.not_eq_true]
  exact ⟨fun call listed => (neither call (read call listed)).1,
    fun call listed => (neither call (read call listed)).2⟩

end Exchange

/-- A failure of the store itself, and not a conflict with what is in it. -/
def StoreError.IsFault (e : StoreError) : Prop := ∀ cause, e ≠ .rejected (.conflict cause)

/-- The operation was refused for what it asked, and not let down by the ledger or the store. -/
def FailureKind.IsRefusal : FailureKind → Prop
  | .validation | .conflict | .notFound | .forbidden | .integrity => True
  | .externalFailure | .storageFailure => False

/-- Reads and commits may fail at will, and the ledger may answer anything. -/
inductive Index.Replies (index : Index) : (r : Request) → r.Reply → Index → Prop
  | now (t : Instant) : Replies index .now t index
  | commitLimit (limit : Option Nat) : Replies index .commitLimit limit index
  | query (q : Query) : Replies index (.query q) (.ok (index.answer q)) index
  | queryFault (q : Query) (e : StoreError) : Replies index (.query q) (.error e) index
  | commit (change : Change) :
      Replies index (.commit change) (index.commit change).1 (index.commit change).2
  | commitFault (change : Change) {e : StoreError} : e.IsFault →
      Replies index (.commit change) (.error e) index
  | submit (action : LedgerAction) (payload : Json.Value) (mode : ConfirmMode)
      (reply : Except LedgerError TxResult) : Replies index (.submit action payload mode) reply index
  | check (handle : TxHandle) (reply : Except LedgerError TxCheck) :
      Replies index (.check handle) reply index

namespace Program

variable {α β : Type} {index later : Index} {calls : List Exchange}

inductive Runs : Index → Program α → List Exchange → α → Index → Prop
  | done (index : Index) (a : α) : Runs index (.done a) [] a index
  | ask {index between later : Index} {r : Request} {reply : r.Reply} {next : r.Reply → Program α}
      {calls : List Exchange} {a : α} : index.Replies r reply between →
      Runs between (next reply) calls a later → Runs index (.ask r next) (⟨r, reply⟩ :: calls) a later

theorem runs_done {a b : α} (runs : (done a).Runs index calls b later) :
    calls = [] ∧ b = a ∧ later = index := by
  cases runs
  exact ⟨rfl, rfl, rfl⟩

theorem runs_ask {r : Request} {next : r.Reply → Program α} {a : α}
    (runs : (ask r next).Runs index calls a later) : ∃ reply between rest,
      index.Replies r reply between ∧ (next reply).Runs between rest a later ∧
      calls = ⟨r, reply⟩ :: rest := by
  cases runs with
  | ask replies others => exact ⟨_, _, _, replies, others, rfl⟩

theorem runs_andThen {p : Program α} {f : α → Program β} {b : β}
    (runs : (p.andThen f).Runs index calls b later) :
    ∃ first a between rest, p.Runs index first a between ∧ (f a).Runs between rest b later ∧
      calls = first ++ rest := by
  induction p generalizing index calls with
  | done a => exact ⟨[], a, index, calls, .done index a, runs, rfl⟩
  | ask r next ih =>
      obtain ⟨reply, between, rest, replies, others, rfl⟩ := runs_ask runs
      obtain ⟨first, a, reached, more, begun, ended, rfl⟩ := ih reply others
      exact ⟨_ :: first, a, reached, more, .ask replies begun, ended, rfl⟩

end Program

structure Host (σ : Type) where
  index : σ → Index
  answer : (r : Request) → σ → r.Reply × σ
  replies : ∀ r s, (index s).Replies r (answer r s).1 (index (answer r s).2)

namespace Host

variable {α σ : Type}

def recording (host : Host σ) (r : Request) (sofar : σ × List Exchange) :
    r.Reply × (σ × List Exchange) :=
  let (reply, later) := host.answer r sofar.1
  (reply, (later, sofar.2 ++ [⟨r, reply⟩]))

def run (host : Host σ) (p : Program α) (s : σ) : α × (σ × List Exchange) :=
  p.run host.recording (s, [])

theorem runs_recording (host : Host σ) (p : Program α) (s : σ) (past : List Exchange) :
    ∃ calls, (p.run host.recording (s, past)).2.2 = past ++ calls ∧
      p.Runs (host.index s) calls (p.run host.recording (s, past)).1
        (host.index (p.run host.recording (s, past)).2.1) := by
  induction p generalizing s past with
  | done a => exact ⟨[], (List.append_nil past).symm, .done _ a⟩
  | ask r next ih =>
      obtain ⟨calls, same, runs⟩ :=
        ih (host.answer r s).1 (host.answer r s).2 (past ++ [⟨r, (host.answer r s).1⟩])
      rw [List.append_assoc] at same
      exact ⟨⟨r, (host.answer r s).1⟩ :: calls, same, .ask (host.replies r s) runs⟩

theorem runs (host : Host σ) (p : Program α) (s : σ) :
    p.Runs (host.index s) (host.run p s).2.2 (host.run p s).1 (host.index (host.run p s).2.1) := by
  obtain ⟨calls, same, runs⟩ := host.runs_recording p s []
  rw [List.nil_append] at same
  rw [run, same]
  exact runs

end Host

inductive Reads {α : Type} (index : Index) (goesOn : List Exchange → Except Failure α → Index → Prop) :
    List Exchange → Except Failure α → Index → Prop
  | refused {calls : List Exchange} {e : Failure} : (∀ call ∈ calls, call.IsPlain) → e.kind.IsRefusal →
      Reads index goesOn calls (.error e) index
  | unread {calls : List Exchange} {q : Query} {e : StoreError} : (∀ call ∈ calls, call.IsPlain) →
      Reads index goesOn (calls ++ [⟨.query q, .error e⟩]) (.error (.storage e none)) index
  | onward {calls more : List Exchange} {result : Except Failure α} {later : Index} :
      (∀ call ∈ calls, call.IsPlain) → goesOn more result later →
      Reads index goesOn (calls ++ more) result later

theorem Reads.after {α : Type} {index later : Index}
    {goesOn : List Exchange → Except Failure α → Index → Prop} {calls more : List Exchange}
    {result : Except Failure α} (plain : ∀ call ∈ calls, call.IsPlain)
    (reads : Reads index goesOn more result later) :
    Reads index goesOn (calls ++ more) result later := by
  have both {others : List Exchange} (rest : ∀ call ∈ others, call.IsPlain) :
      ∀ call ∈ calls ++ others, call.IsPlain := fun call listed =>
    (List.mem_append.mp listed).elim (plain call) (rest call)
  cases reads with
  | refused rest refusal => exact .refused (both rest) refusal
  | unread rest =>
      rw [← List.append_assoc]
      exact .unread (both rest)
  | onward rest others =>
      rw [← List.append_assoc]
      exact .onward (both rest) others

namespace Operation

variable {α β : Type} {index : Index} {goesOn : List Exchange → Except Failure α → Index → Prop}

def Goes (index : Index) (course : List Exchange → Except Failure α → Index → Prop) (op : Operation α) :
    Prop :=
  ∀ calls result later, op.run.Runs index calls result later → course calls result later

def Finds (index : Index) (found : α → Prop) (op : Operation α) : Prop :=
  op.Goes index (Reads index fun calls result later =>
    calls = [] ∧ later = index ∧ ∃ a, result = .ok a ∧ found a)

theorem Goes.fail {e : Failure} (refusal : e.kind.IsRefusal) :
    (fail e : Operation α).Goes index (Reads index goesOn) := by
  intro calls result later runs
  obtain ⟨rfl, rfl, rfl⟩ := Program.runs_done runs
  exact .refused (List.forall_mem_nil _) refusal

theorem Goes.fail_bind (e : Failure) (refusal : e.kind.IsRefusal) {f : β → Operation α} :
    (Operation.fail e >>= f).Goes index (Reads index goesOn) := by
  intro calls result later runs
  obtain ⟨rfl, rfl, rfl⟩ := Program.runs_done runs
  exact .refused (List.forall_mem_nil _) refusal

theorem Finds.pure {a : α} {found : α → Prop} (good : found a) :
    Finds index found (Pure.pure a : Operation α) := by
  intro calls result later runs
  obtain ⟨rfl, rfl, rfl⟩ := Program.runs_done runs
  exact .onward (List.forall_mem_nil _) ⟨rfl, rfl, a, rfl, good⟩

theorem Finds.bind {op : Operation β} {f : β → Operation α} {found : β → Prop}
    (finds : op.Finds index found)
    (others : ∀ b, found b → (f b).Goes index (Reads index goesOn)) :
    (op >>= f).Goes index (Reads index goesOn) := by
  intro calls result later runs
  obtain ⟨first, reached, between, rest, begun, ended, rfl⟩ := Program.runs_andThen runs
  cases finds _ _ _ begun with
  | refused plain refusal =>
      obtain ⟨rfl, rfl, rfl⟩ := Program.runs_done ended
      rw [List.append_nil]
      exact .refused plain refusal
  | unread plain =>
      obtain ⟨rfl, rfl, rfl⟩ := Program.runs_done ended
      rw [List.append_nil]
      exact .unread plain
  | onward plain ends =>
      obtain ⟨rfl, rfl, b, rfl, good⟩ := ends
      rw [List.append_nil]
      exact .after plain (others b good _ _ _ ended)

theorem Goes.read {call : Exchange} {rest : List Exchange} {op : Operation α} {result : Except Failure α}
    {later : Index} (goes : op.Goes index (Reads index goesOn)) (plain : call.IsPlain)
    (runs : op.run.Runs index rest result later) : Reads index goesOn (call :: rest) result later :=
  .after (List.forall_mem_singleton.mpr plain) (goes _ _ _ runs)

theorem Goes.query {q : Query} {f : q.Answer → Operation α}
    (others : (f (index.answer q)).Goes index (Reads index goesOn)) :
    (query q >>= f).Goes index (Reads index goesOn) := by
  intro calls result later runs
  obtain ⟨reply, between, rest, replies, ended, rfl⟩ := Program.runs_ask runs
  cases replies with
  | query _ => exact others.read ⟨trivial, id⟩ ended
  | queryFault _ e =>
      obtain ⟨rfl, rfl, rfl⟩ := Program.runs_done ended
      exact .unread (List.forall_mem_nil _)

theorem Goes.now {f : Instant → Operation α}
    (others : ∀ t, (f t).Goes index (Reads index goesOn)) :
    (now >>= f).Goes index (Reads index goesOn) := by
  intro calls result later runs
  obtain ⟨reply, between, rest, replies, ended, rfl⟩ := Program.runs_ask runs
  cases replies with
  | now t => exact (others _).read ⟨trivial, id⟩ ended

theorem Goes.commitLimit {f : Option Nat → Operation α}
    (others : ∀ limit, (f limit).Goes index (Reads index goesOn)) :
    (commitLimit >>= f).Goes index (Reads index goesOn) := by
  intro calls result later runs
  obtain ⟨reply, between, rest, replies, ended, rfl⟩ := Program.runs_ask runs
  cases replies with
  | commitLimit limit => exact (others _).read ⟨trivial, id⟩ ended

theorem requireEvent_finds (id : EventId) :
    (requireEvent id).Finds index fun event => index.events.get? id = some event := by
  apply Goes.query
  cases found : index.events.get? id with
  | some event =>
      simp only [Index.answer, found]
      exact Finds.pure rfl
  | none =>
      simp only [Index.answer, found]
      exact .fail trivial

theorem requireProof_finds (key : SiteKey) :
    (requireProof key).Finds index fun proof => index.proofs.get? key = some proof := by
  apply Goes.query
  cases found : index.proofs.get? key with
  | some proof =>
      simp only [Index.answer, found]
      exact Finds.pure rfl
  | none =>
      simp only [Index.answer, found]
      exact .fail trivial

theorem makePayload_finds (s : Submission) (t : Instant) :
    (makePayload s t).Finds index fun _ => True := by
  unfold makePayload
  cases Payload.of? ⟨s.event, s.site, s.baseline, s.actual, s.method, s.raw, t⟩ with
  | ok payload => exact Finds.pure trivial
  | error e => exact .fail trivial

theorem checkDeclared_finds (declared : Option String) (computed : ProofHash) :
    (checkDeclared declared computed).Finds index fun _ => True := by
  unfold checkDeclared
  cases declared with
  | none => exact Finds.pure trivial
  | some text =>
      by_cases same : ProofHash.declares text computed
      · simp only [if_pos same]
        exact Finds.pure trivial
      · simp only [if_neg same]
        exact .fail trivial

theorem checkProofSize_finds (payload uri : String) :
    (checkProofSize payload uri).Finds index fun _ => True := by
  apply Goes.commitLimit
  intro limit
  cases limit with
  | none => exact Finds.pure trivial
  | some most =>
      by_cases large : most < quotedSize payload + quotedSize uri + proofHeadroom
      · simp only [if_pos large]
        exact .fail trivial
      · simp only [if_neg large]
        exact Finds.pure trivial

theorem sitesToSettle_finds (id : EventId) (requested : List SiteId) :
    (sitesToSettle id requested).Finds index List.Nodup := by
  unfold sitesToSettle
  by_cases all : requested = []
  · simp only [if_pos all]
    apply Goes.query
    exact Finds.pure (firsts_nodup _)
  · simp only [if_neg all]
    exact Finds.pure (firsts_nodup _)

theorem payouts_finds (event : Event) (id : EventId) (share : UInt64) (sites : List SiteId) :
    (payouts event id share sites).Finds index fun pays => pays.map (·.1) = sites ∧
      ∀ site ∈ sites, index.proofs.get? ⟨id, site⟩ ≠ none ∧
        index.settlements.get? ⟨id, site⟩ = none := by
  induction sites with
  | nil => exact Finds.pure ⟨rfl, List.forall_mem_nil _⟩
  | cons site sites ih =>
      apply Goes.query
      cases proven : index.proofs.get? ⟨id, site⟩ with
      | none =>
          simp only [Index.answer, proven]
          exact .fail trivial
      | some proof =>
          simp only [Index.answer, proven]
          apply Goes.query
          cases settled : index.settlements.get? ⟨id, site⟩ with
          | some row =>
              simp only [Index.answer, settled]
              exact .fail_bind (.alreadySettled _) trivial
          | none =>
              simp only [Index.answer, settled]
              apply ih.bind
              rintro others ⟨listed, payable⟩
              apply Finds.pure
              refine ⟨by rw [List.map_cons, listed], ?_⟩
              rw [List.forall_mem_cons]
              exact ⟨⟨by simp [proven], settled⟩, payable⟩

end Operation

namespace Task

/-- The result can be read at its keys, and no other settlement is new. -/
def ReadsBack (index later : Index) : (task : Task) → task.Result → Prop
  | .createEvent plan, (event : Event) => later.events.get? plan.id = some event
  | .closeEvent id, (event : Event) => later.events.get? id = some event
  | .submitProof s, (proof : Proof) => later.proofs.get? ⟨s.event, s.site⟩ = some proof
  | .settleEvent id _, (rows : List Settlement) =>
    (∀ row ∈ rows, later.settlements.get? ⟨id, row.site⟩ = some row) ∧
      ∀ key, (∀ row ∈ rows, key ≠ ⟨id, row.site⟩) → later.settlements.get? key = index.settlements.get? key
  | .claimReward key _, (row : Settlement) => later.settlements.get? key = some row
  | _, _ => True

/-- In the rows that are returned, or in an orphan if their commit has failed. -/
inductive Accounts (task : Task) (index : Index) (tx : TxRecord) :
    List Exchange → Except Failure task.Result → Index → Prop
  | stored {calls : List Exchange} {change : Change} {result : task.Result} :
      (∀ call ∈ calls, call.IsPlain) → change.Carries tx → index.Allows change →
      task.ReadsBack index (index.apply change) result →
      Accounts task index tx (calls ++ [⟨.commit change, .ok ()⟩]) (.ok result) (index.apply change)
  | lost {calls : List Exchange} {change : Change} {e : StoreError} {t : Instant} {orphan : Orphan}
      {recorded : Except StoreError Unit} {later : Index} :
      (∀ call ∈ calls, call.IsPlain) → change.Carries tx → index.Allows change → e.IsFault →
      task.subject = some (orphan.action, orphan.event, orphan.site) → orphan.tx = tx →
      later = index ∨ later = index.apply (.recordOrphan orphan) →
      Accounts task index tx
        (calls ++ [⟨.commit change, .error e⟩, ⟨.now, t⟩, ⟨.commit (.recordOrphan orphan), recorded⟩])
        (.error (.storage e (some tx.handle))) later

inductive Submits (task : Task) (index : Index) :
    List Exchange → Except Failure task.Result → Index → Prop
  | failed {action : LedgerAction} {payload : Json.Value} {mode : ConfirmMode} {cause : LedgerError} :
      Submits task index [⟨.submit action payload mode, .error cause⟩]
        (.error (.ledger action cause)) index
  | accepted {action : LedgerAction} {payload : Json.Value} {mode : ConfirmMode} {r : TxResult}
      {calls : List Exchange} {result : Except Failure task.Result} {later : Index} :
      task.Accounts index (.ofResult r) calls result later →
      Submits task index (⟨.submit action payload mode, .ok r⟩ :: calls) result later

end Task

namespace Operation

variable {task : Task} {index : Index}

theorem Goes.submit (task : Task) {mode : ConfirmMode} {action : LedgerAction} {payload : Json.Value}
    {f : TxRecord → Operation task.Result}
    (others : ∀ tx, (f tx).Goes index (task.Accounts index tx)) :
    (submit mode action payload >>= f).Goes index (Reads index (task.Submits index)) := by
  intro calls result later runs
  obtain ⟨reply, between, rest, replies, ended, rfl⟩ := Program.runs_ask runs
  cases replies with
  | submit _ _ _ reply =>
      refine .onward (List.forall_mem_nil _) ?_
      cases reply with
      | ok r => exact .accepted (others _ _ _ _ ended)
      | error cause =>
          obtain ⟨rfl, rfl, rfl⟩ := Program.runs_done ended
          exact .failed

theorem Goes.now_accounts {tx : TxRecord} {f : Instant → Operation task.Result}
    (others : ∀ t, (f t).Goes index (task.Accounts index tx)) :
    (Operation.now >>= f).Goes index (task.Accounts index tx) := by
  intro calls result later runs
  obtain ⟨reply, between, rest, replies, ended, rfl⟩ := Program.runs_ask runs
  cases replies with
  | now _ =>
      have both {calls : List Exchange} (plain : ∀ call ∈ calls, call.IsPlain) :
          ∀ call ∈ (⟨.now, reply⟩ : Exchange) :: calls, call.IsPlain :=
        List.forall_mem_cons.mpr ⟨⟨trivial, id⟩, plain⟩
      cases others _ _ _ _ ended with
      | stored plain carries allowed back => exact .stored (both plain) carries allowed back
      | lost plain carries allowed fault own same left =>
          exact .lost (both plain) carries allowed fault own same left

theorem ofCommit_of_isFault {action : LedgerAction} {tx : TxRecord} {e : StoreError}
    (fault : e.IsFault) : Failure.ofCommit action tx e = .storage e (some tx.handle) := by
  unfold Failure.ofCommit
  split
  · exact (fault _ rfl).elim
  · rfl

theorem Goes.commitSubmitted {action : LedgerAction} {event : EventId} {site : Option SiteId}
    {tx : TxRecord} {change : Change} {a : task.Result}
    (own : task.subject = some (action, event, site)) (carries : change.Carries tx)
    (allowed : index.Allows change) (back : task.ReadsBack index (index.apply change) a) :
    (commitSubmitted action event site tx change >>= fun _ => pure a).Goes index
      (task.Accounts index tx) := by
  intro calls result later runs
  obtain ⟨reply, between, rest, replies, ended, rfl⟩ := Program.runs_ask runs
  have accepted : index.commit change = (.ok (), index.apply change) := by
    rw [Index.commit, Index.check_eq_ok_iff.mpr allowed]
  cases replies with
  | commit _ =>
      rw [accepted] at ended ⊢
      obtain ⟨rfl, rfl, rfl⟩ := Program.runs_done ended
      exact .stored (List.forall_mem_nil _) carries allowed back
  | @commitFault _ e fault =>
      obtain ⟨t, between, rest, told, others, rfl⟩ := Program.runs_ask ended
      cases told
      obtain ⟨recorded, last, rest, recording, finished, rfl⟩ := Program.runs_ask others
      obtain ⟨rfl, rfl, rfl⟩ := Program.runs_done finished
      rw [ofCommit_of_isFault fault]
      refine .lost (List.forall_mem_nil _) carries allowed fault own rfl ?_
      cases recording with
      | commit _ => exact .inr rfl
      | commitFault _ again => exact .inl rfl

theorem createEvent_goes (c : Configuration) (plan : EventPlan) :
    (createEvent c plan).Goes index (Reads index ((Task.createEvent plan).Submits index)) := by
  unfold createEvent
  by_cases window : compare plan.start plan.stop ≠ .lt
  · simp only [if_pos window]
    exact .fail_bind (.emptyWindow _ _) trivial
  · simp only [if_neg window]
    apply Goes.query
    cases found : index.answer (.event plan.id) with
    | some event => exact .fail_bind (.eventExists _) trivial
    | none =>
        apply Goes.submit (.createEvent plan)
        intro tx
        apply Goes.now_accounts
        intro createdAt
        apply Goes.commitSubmitted rfl
        · exact ⟨rfl, rfl⟩
        · exact found
        · simp [Task.ReadsBack, Index.apply, Table.get?_insert]

theorem closeEvent_goes (c : Configuration) (id : EventId) :
    (closeEvent c id).Goes index (Reads index ((Task.closeEvent id).Submits index)) := by
  apply (requireEvent_finds id).bind
  intro event found
  cases status : event.status with
  | closed => exact .fail_bind (.eventAlreadyClosed _) trivial
  | settled => exact .fail_bind (.eventAlreadySettled _) trivial
  | active =>
      apply Goes.submit (.closeEvent id)
      intro tx
      apply Goes.now_accounts
      intro closedAt
      apply Goes.commitSubmitted rfl
      · rfl
      · exact ⟨event, found, status⟩
      · simp [Task.ReadsBack, Index.apply, Table.get?_modify, found]

theorem submitProof_goes (c : Configuration) (s : Submission) :
    (submitProof c s).Goes index (Reads index ((Task.submitProof s).Submits index)) := by
  apply (requireEvent_finds s.event).bind
  intro event found
  by_cases inactive : event.status ≠ .active
  · simp only [if_pos inactive]
    exact .fail_bind (.eventNotActive _ _) trivial
  · simp only [if_neg inactive]
    apply Goes.query
    cases free : index.answer (.proof ⟨s.event, s.site⟩) with
    | some proof => exact .fail_bind (.proofExists _) trivial
    | none =>
        apply Goes.now
        intro submittedAt
        apply (makePayload_finds s submittedAt).bind
        intro payload _
        apply (checkDeclared_finds _ _).bind
        intro _ _
        apply (checkProofSize_finds _ _).bind
        intro _ _
        apply Goes.submit (.submitProof s)
        intro tx
        apply Goes.commitSubmitted rfl
        · rfl
        · exact ⟨⟨event, found, not_not.mp inactive⟩, free⟩
        · simp [Task.ReadsBack, Index.apply, Table.get?_insert, Proof.key]

theorem get?_settled {id : EventId} {rows : List Settlement} {settledAt : Instant}
    (apart : (rows.map (·.site)).Nodup) : ∀ row ∈ rows,
      (index.apply (.settleEvent id rows settledAt)).settlements.get? ⟨id, row.site⟩ = some row := by
  intro row member
  rcases Index.get?_insertRows index.settlements id rows ⟨id, row.site⟩ with
    ⟨other, listed, same, found⟩ | ⟨unlike, -⟩
  · obtain ⟨-, site⟩ := SiteKey.mk.inj same
    obtain rfl := List.inj_on_of_nodup_map apart member listed site
    exact found
  · exact (unlike row member rfl).elim

theorem get?_unsettled {id : EventId} {rows : List Settlement} {settledAt : Instant} (key : SiteKey)
    (elsewhere : ∀ row ∈ rows, key ≠ ⟨id, row.site⟩) :
    (index.apply (.settleEvent id rows settledAt)).settlements.get? key = index.settlements.get? key := by
  rcases Index.get?_insertRows index.settlements id rows key with ⟨row, listed, same, -⟩ | ⟨-, kept⟩
  · exact (elsewhere row listed same).elim
  · exact kept

theorem settleEvent_goes (c : Configuration) (id : EventId) (requested : List SiteId) :
    (settleEvent c id requested).Goes index
      (Reads index ((Task.settleEvent id requested).Submits index)) := by
  apply (requireEvent_finds id).bind
  intro event found
  cases status : event.status with
  | active => exact .fail_bind (.eventNotClosed _) trivial
  | settled => exact .fail_bind (.eventAlreadySettled _) trivial
  | closed =>
      apply (sitesToSettle_finds id requested).bind
      intro sites apart
      cases shared : Scoring.targetShare event.target sites.length with
      | none => exact .fail trivial
      | some share =>
          apply (payouts_finds event id share sites).bind
          rintro pays ⟨rfl, payable⟩
          apply Goes.submit (.settleEvent id requested)
          intro tx
          apply Goes.now_accounts
          intro settledAt
          apply Goes.commitSubmitted rfl
          · refine ⟨?_, ?_⟩
            · rw [Ne, List.map_eq_nil_iff, ← List.length_eq_zero_iff, ← List.length_map (·.1)]
              exact (Index.targetShare_eq_some shared).1
            · intro row member
              obtain ⟨pay, -, rfl⟩ := List.mem_map.mp member
              exact ⟨rfl, rfl⟩
          · refine ⟨⟨event, found, status⟩, ?_⟩
            intro row member
            obtain ⟨pay, listed, rfl⟩ := List.mem_map.mp member
            exact payable _ (List.mem_map_of_mem listed)
          · refine ⟨get?_settled ?_, get?_unsettled⟩
            rw [List.map_map]
            exact apart

theorem claimReward_goes (c : Configuration) (key : SiteKey) (claimant : ActorId) :
    (claimReward c key claimant).Goes index
      (Reads index ((Task.claimReward key claimant).Submits index)) := by
  apply Goes.query
  cases found : index.settlements.get? key with
  | none =>
      simp only [Index.answer, found]
      exact .fail trivial
  | some row =>
      simp only [Index.answer, found]
      by_cases unclaimable : row.status ≠ .settled
      · simp only [if_pos unclaimable]
        exact .fail_bind (.notClaimable _ _) trivial
      · simp only [if_neg unclaimable]
        apply (requireProof_finds key).bind
        intro proof _
        by_cases other : proof.submitter ≠ claimant
        · simp only [if_pos other]
          exact .fail_bind (.notSubmitter _ _) trivial
        · simp only [if_neg other]
          apply Goes.submit (.claimReward key claimant)
          intro tx
          apply Goes.now_accounts
          intro claimedAt
          apply Goes.commitSubmitted rfl
          · rfl
          · exact ⟨row, found, not_not.mp unclaimable⟩
          · simp [Task.ReadsBack, Index.apply, Table.get?_modify, found]

end Operation

theorem Task.goes {task : Task} {action : LedgerAction} {event : EventId} {site : Option SiteId}
    (writes : task.subject = some (action, event, site)) (c : Configuration) (index : Index) :
    (task.operation c).Goes index (Reads index (task.Submits index)) := by
  cases task with
  | createEvent plan => exact Operation.createEvent_goes c plan
  | closeEvent id => exact Operation.closeEvent_goes c id
  | submitProof s => exact Operation.submitProof_goes c s
  | settleEvent id requested => exact Operation.settleEvent_goes c id requested
  | claimReward key claimant => exact Operation.claimReward_goes c key claimant
  | _ => cases writes

structure Task.Outcome (task : Task) (index : Index) (tx : TxRecord) (change : Change)
    (reply : Except StoreError Unit) (calls : List Exchange) (result : Except Failure task.Result)
    (later : Index) : Prop where
  committed : ⟨.commit change, reply⟩ ∈ calls
  carries : change.Carries tx
  accepted : index.check change = .ok ()
  stored : reply = .ok () → (∃ a, result = .ok a ∧ task.ReadsBack index later a) ∧
    calls.countP Exchange.isCommit = 1 ∧ later = index.apply change ∧ later.orphans = index.orphans
  lost : ∀ e, reply = .error e → result = .error (.storage e (some tx.handle)) ∧
    (later = index ∨ ∃ orphan, orphan.tx = tx ∧
      later = { index with orphans := index.orphans ++ [orphan] })

/-- What a run of a task that writes may have done, and what it leaves behind. -/
structure Task.AllOrNothing (task : Task) (index : Index) (calls : List Exchange)
    (result : Except Failure task.Result) (later : Index) : Prop where
  untouched : (∃ e, result = .error e ∧ e.kind.IsRefusal) ∨ (∃ call ∈ calls, call.Failed) →
    (∀ call ∈ calls, call.IsRead) ∧ later = index
  unsubmitted : ∀ action payload mode cause, ⟨.submit action payload mode, .error cause⟩ ∈ calls →
    later = index
  submitted : ∀ action payload mode r, ⟨.submit action payload mode, .ok r⟩ ∈ calls →
    calls.countP Exchange.isSubmit = 1 ∧
      ∃ change reply, task.Outcome index (.ofResult r) change reply calls result later
  succeeded : ∀ a, result = .ok a → (∃ call ∈ calls, call.Accepted) ∧
    calls.countP Exchange.isSubmit = 1 ∧ calls.countP Exchange.isCommit = 1
  failed : ∀ e, result = .error e →
    e.kind.IsRefusal ∨ (∃ call ∈ calls, call.Failed) ∨ ∃ call ∈ calls, call.Declined
  committed : ∀ before change reply after, calls = before ++ ⟨.commit change, reply⟩ :: after →
    ∃ call ∈ before, call.Accepted

theorem exists_eq_append_of_not_mem {α : Type} {front rest before after : List α} {x : α} (unlisted : x ∉ front)
    (split : front ++ rest = before ++ x :: after) :
    ∃ early, before = front ++ early ∧ rest = early ++ x :: after := by
  rcases List.append_eq_append_iff.mp split with ⟨early, rfl, later⟩ | ⟨others, rfl, later⟩
  · exact ⟨early, rfl, later⟩
  · cases others with
    | nil => exact ⟨[], by simp, later.symm⟩
    | cons first others =>
        obtain ⟨rfl, -⟩ := List.cons.inj later
        exact absurd (by simp) unlisted

namespace Task

variable {task : Task} {index later : Index} {calls more : List Exchange}
  {result : Except Failure task.Result}

theorem allOrNothing_of_isRead {e : Failure} (read : ∀ call ∈ calls, call.IsRead)
    (stopped : e.kind.IsRefusal ∨ ∃ call ∈ calls, call.Failed) :
    task.AllOrNothing index calls (.error e) index where
  untouched _ := ⟨read, rfl⟩
  unsubmitted _ _ _ _ listed := (read _ listed).elim
  submitted _ _ _ _ listed := (read _ listed).elim
  succeeded := nofun
  failed := by
    rintro _ ⟨⟩
    exact stopped.imp_right .inl
  committed := by
    rintro before change reply after rfl
    exact (read ⟨.commit change, reply⟩ (by simp)).elim

theorem AllOrNothing.after (plain : ∀ call ∈ calls, call.IsPlain)
    (all : task.AllOrNothing index more result later) :
    task.AllOrNothing index (calls ++ more) result later := by
  obtain ⟨submits, commits⟩ := Exchange.countP_of_isRead fun call listed => (plain call listed).1
  have last {r : Request} {reply : r.Reply} (acts : ¬ Exchange.IsRead ⟨r, reply⟩)
      (listed : ⟨r, reply⟩ ∈ calls ++ more) : ⟨r, reply⟩ ∈ more :=
    (List.mem_append.mp listed).resolve_left fun early => acts (plain _ early).1
  have further {p : Exchange → Prop} {others : List Exchange} (found : ∃ call ∈ others, p call) :
      ∃ call ∈ calls ++ others, p call := by
    obtain ⟨call, listed, good⟩ := found
    exact ⟨call, List.mem_append_right _ listed, good⟩
  refine ⟨?_, ?_, ?_, ?_, ?_, ?_⟩
  · intro stopped
    have stops : (∃ e, result = .error e ∧ e.kind.IsRefusal) ∨ ∃ call ∈ more, call.Failed := by
      refine stopped.imp_right ?_
      rintro ⟨call, listed, failed⟩
      refine ⟨call, ?_, failed⟩
      exact (List.mem_append.mp listed).resolve_left fun early => (plain call early).2 failed
    obtain ⟨read, same⟩ := all.untouched stops
    refine ⟨?_, same⟩
    intro call listed
    exact (List.mem_append.mp listed).elim (fun early => (plain call early).1) (read call)
  · intro action payload mode cause listed
    exact all.unsubmitted action payload mode cause (last id listed)
  · intro action payload mode r listed
    obtain ⟨once, change, reply, outcome⟩ := all.submitted action payload mode r (last id listed)
    refine ⟨?_, change, reply, List.mem_append_right _ outcome.committed, outcome.carries,
      outcome.accepted, ?_, outcome.lost⟩
    · rw [List.countP_append, submits, once]
    · simpa only [List.countP_append, commits, Nat.zero_add] using outcome.stored
  · intro a done
    obtain ⟨accepted, submit, commit⟩ := all.succeeded a done
    refine ⟨further accepted, ?_, ?_⟩
    · rw [List.countP_append, submits, submit]
    · rw [List.countP_append, commits, commit]
  · intro e stopped
    exact (all.failed e stopped).imp_right (Or.imp further further)
  · intro before change reply after split
    -- The commit is not among the reads, so all of these come before it.
    have unlisted : ⟨.commit change, reply⟩ ∉ calls := fun early => (plain _ early).1
    obtain ⟨early, rfl, rest⟩ := exists_eq_append_of_not_mem unlisted split
    exact further (all.committed early change reply after rest)

theorem allOrNothing_of_outcome {action : LedgerAction} {payload : Json.Value} {mode : ConfirmMode}
    {r : TxResult} {change : Change} {reply : Except StoreError Unit}
    (unrefused : ∀ e, result = .error e → ¬ e.kind.IsRefusal) (works : ∀ call ∈ calls, ¬ call.Failed)
    (others : calls.countP Exchange.isSubmit = 0)
    (outcome : task.Outcome index (.ofResult r) change reply calls result later) :
    task.AllOrNothing index (⟨.submit action payload mode, .ok r⟩ :: calls) result later := by
  have only {other : LedgerAction} {sent : Json.Value} {awaits : ConfirmMode}
      {reply : Except LedgerError TxResult}
      (listed : ⟨.submit other sent awaits, reply⟩ ∈
        (⟨.submit action payload mode, .ok r⟩ : Exchange) :: calls) : reply = .ok r := by
    rcases List.mem_cons.mp listed with same | later
    · cases same
      rfl
    · exact (List.countP_eq_zero.mp others _ later rfl).elim
  have once : List.countP Exchange.isSubmit (⟨.submit action payload mode, .ok r⟩ :: calls) = 1 := by
    rw [List.countP_cons_of_pos rfl, others]
  have apart : List.countP Exchange.isCommit (⟨.submit action payload mode, .ok r⟩ :: calls) =
      calls.countP Exchange.isCommit := List.countP_cons_of_neg (by simp [Exchange.isCommit])
  refine ⟨?_, ?_, ?_, ?_, ?_, ?_⟩
  · rintro (⟨e, failed, refusal⟩ | ⟨call, listed, failed⟩)
    · exact (unrefused e failed refusal).elim
    · rcases List.mem_cons.mp listed with rfl | later
      · exact failed.elim
      · exact (works call later failed).elim
  · intro other sent awaits cause listed
    cases only listed
  · intro other sent awaits r listed
    obtain rfl := Except.ok.inj (only listed)
    refine ⟨once, change, reply, List.mem_cons_of_mem _ outcome.committed, outcome.carries,
      outcome.accepted, ?_, outcome.lost⟩
    rw [apart]
    exact outcome.stored
  · intro a done
    refine ⟨⟨_, List.mem_cons_self, trivial⟩, once, ?_⟩
    rw [apart]
    cases reply with
    | ok _ => exact (outcome.stored rfl).2.1
    | error e => cases done.symm.trans (outcome.lost e rfl).1
  · intro e stopped
    cases reply with
    | ok _ =>
        obtain ⟨a, done, -⟩ := (outcome.stored rfl).1
        cases done.symm.trans stopped
    | error e => exact .inr (.inr ⟨_, List.mem_cons_of_mem _ outcome.committed, trivial⟩)
  · intro before change reply after split
    cases before with
    | nil => cases (List.cons.inj split).1
    | cons first before =>
        obtain ⟨rfl, -⟩ := List.cons.inj split
        exact ⟨_, List.mem_cons_self, trivial⟩

theorem Accounts.allOrNothing {action : LedgerAction} {payload : Json.Value} {mode : ConfirmMode}
    {r : TxResult} (accounts : task.Accounts index (.ofResult r) calls result later) :
    task.AllOrNothing index (⟨.submit action payload mode, .ok r⟩ :: calls) result later := by
  cases accounts with
  | @stored calls change a plain carries allowed back =>
      obtain ⟨submits, commits⟩ := Exchange.countP_of_isRead fun call listed => (plain call listed).1
      have outcome : task.Outcome index (.ofResult r) change (.ok ())
          (calls ++ [⟨.commit change, .ok ()⟩]) (.ok a) (index.apply change) := by
        refine ⟨by simp, carries, Index.check_eq_ok_iff.mpr allowed, ?_, nofun⟩
        intro _
        refine ⟨⟨a, rfl, back⟩, ?_, rfl, ?_⟩
        · simp [List.countP_append, commits, Exchange.isCommit]
        · rw [Index.orphans_apply, carries.orphans_eq_nil, List.append_nil]
      refine allOrNothing_of_outcome nofun ?_ ?_ outcome
      · rw [List.forall_mem_append]
        exact ⟨fun call listed => (plain call listed).2, by simp [Exchange.Failed]⟩
      · simp [List.countP_append, submits, Exchange.isSubmit]
  | @lost calls change e t orphan recorded later plain carries allowed fault own same left =>
      obtain ⟨submits, -⟩ := Exchange.countP_of_isRead fun call listed => (plain call listed).1
      have outcome : task.Outcome index (.ofResult r) change (.error e)
          (calls ++ [⟨.commit change, .error e⟩, ⟨.now, t⟩, ⟨.commit (.recordOrphan orphan), recorded⟩])
          (.error (.storage e (some r.handle))) later := by
        refine ⟨by simp, carries, Index.check_eq_ok_iff.mpr allowed, nofun, ?_⟩
        rintro f ⟨⟩
        exact ⟨rfl, left.imp_right fun recorded => ⟨orphan, same, recorded⟩⟩
      refine allOrNothing_of_outcome ?_ ?_ ?_ outcome
      · rintro f ⟨⟩
        exact id
      · rw [List.forall_mem_append]
        exact ⟨fun call listed => (plain call listed).2, by simp [Exchange.Failed]⟩
      · simp [List.countP_append, submits, Exchange.isSubmit]

theorem allOrNothing_of_declined {action : LedgerAction} {payload : Json.Value} {mode : ConfirmMode}
    {cause : LedgerError} : task.AllOrNothing index [⟨.submit action payload mode, .error cause⟩]
      (.error (.ledger action cause)) index where
  untouched := by
    rintro (⟨e, ⟨⟩, refusal⟩ | ⟨call, listed, failed⟩)
    · exact refusal.elim
    · obtain rfl := List.mem_singleton.mp listed
      exact failed.elim
  unsubmitted _ _ _ _ _ := rfl
  submitted _ _ _ _ listed := by cases List.mem_singleton.mp listed
  succeeded := nofun
  failed _ _ := .inr (.inr ⟨_, List.mem_cons_self, trivial⟩)
  committed before _ _ _ split := by
    cases before with
    | nil => cases (List.cons.inj split).1
    | cons first before => simp at split

theorem allOrNothing_of_runs {action : LedgerAction} {event : EventId} {site : Option SiteId}
    (writes : task.subject = some (action, event, site)) {c : Configuration}
    (runs : (task.operation c).run.Runs index calls result later) :
    task.AllOrNothing index calls result later := by
  cases task.goes writes c index _ _ _ runs with
  | refused plain refusal =>
      exact allOrNothing_of_isRead (fun call listed => (plain call listed).1) (.inl refusal)
  | unread plain =>
      refine .after plain (allOrNothing_of_isRead (List.forall_mem_singleton.mpr trivial) (.inr ?_))
      exact ⟨_, List.mem_cons_self, trivial⟩
  | onward plain goes =>
      apply AllOrNothing.after plain
      cases goes with
      | accepted accounts => exact accounts.allOrNothing
      | failed => exact allOrNothing_of_declined

/-- A task that writes does it all or leaves the index as it was. An orphan comes of a failure of the
commit alone. -/
theorem all_or_nothing (task : Task) {action : LedgerAction} {event : EventId} {site : Option SiteId}
    (writes : task.subject = some (action, event, site)) (c : Configuration) {σ : Type}
    (host : Host σ) (s : σ) : task.AllOrNothing (host.index s) (host.run (task.operation c).run s).2.2
      (host.run (task.operation c).run s).1 (host.index (host.run (task.operation c).run s).2.1) :=
  allOrNothing_of_runs writes (host.runs _ s)

end Task

def Host.poisoned : Host Index where
  index := id
  answer
    | .now, index => (.ofSeconds 10, index)
    | .commitLimit, index => (none, index)
    | .query q, index => (.ok (index.answer q), index)
    | .commit (.recordOrphan orphan), index => index.commit (.recordOrphan orphan)
    | .commit _, index => (.error .poisoned, index)
    | .submit .., index => (.ok ⟨⟨"tx"⟩, none, .submitted, .ofSeconds 10⟩, index)
    | .check _, index => (.ok ⟨none, .submitted⟩, index)
  replies r index := by
    have fault : StoreError.poisoned.IsFault := fun _ same => by cases same
    cases r with
    | now => exact .now _
    | commitLimit => exact .commitLimit none
    | query q => exact .query q
    | commit change =>
        cases change with
        | recordOrphan orphan => exact .commit (.recordOrphan orphan)
        | _ => exact .commitFault _ fault
    | submit action payload mode => exact .submit action payload mode _
    | check handle => exact .check handle _

/-- The commit of a new event fails, and an orphan keeps its transaction. -/
theorem Task.all_or_nothing_of_poisoned : ∃ (plan : EventPlan) (orphan : Orphan),
    (Host.poisoned.run ((Task.createEvent plan).operation .standard).run .empty).1 =
      .error (.storage .poisoned (some ⟨"tx"⟩)) ∧
    (Host.poisoned.run ((Task.createEvent plan).operation .standard).run .empty).2.1 =
      { Index.empty with orphans := [orphan] } ∧
    (Task.createEvent plan).AllOrNothing .empty
      (Host.poisoned.run ((Task.createEvent plan).operation .standard).run .empty).2.2
      (.error (.storage .poisoned (some ⟨"tx"⟩))) { Index.empty with orphans := [orphan] } := by
  let plan : EventPlan := ⟨⟨"DR-1"⟩, .ofSeconds 0, .ofSeconds 3600, 100, 3, 1⟩
  exact ⟨plan, _, rfl, rfl, Task.all_or_nothing (.createEvent plan) rfl .standard .poisoned .empty⟩

end Curtail
