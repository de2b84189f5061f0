import Curtail.Proofs.Engine.Inquiry

namespace Curtail

open Reconciliation

def Request.isApart : Request → Bool
  | .query (.pending _) | .check _ | .commit (.applyTxUpdates _) => false
  | _ => true

def Program.Apart {α : Type} : Program α → Prop
  | .done _ => True
  | .ask r next => r.isApart ∧ ∀ reply, (next reply).Apart

def Program.inPass {α : Type} : Program α → Bool
  | .done _ => false
  | .ask r _ => !r.isApart

theorem Program.Apart.andThen {α β : Type} {p : Program α} {f : α → Program β} (apart : p.Apart)
    (others : ∀ a, (f a).Apart) : (p.andThen f).Apart := by
  induction p with
  | done a => exact others a
  | ask r next ih => exact ⟨apart.1, fun reply => ih reply (apart.2 reply)⟩

namespace Operation

variable {α β : Type}

structure Apart (op : Operation α) : Prop where
  run : op.run.Apart

namespace Apart

theorem pure (a : α) : Apart (pure a) := ⟨trivial⟩

theorem fail (f : Failure) : Apart (fail f : Operation α) := ⟨trivial⟩

theorem bind {op : Operation α} {f : α → Operation β} (apart : op.Apart) (others : ∀ a, (f a).Apart) :
    Apart (op >>= f) := by
  refine ⟨apart.run.andThen ?_⟩
  intro result
  cases result with
  | ok a => exact (others a).run
  | error e => trivial

theorem fail_bind (e : Failure) (f : α → Operation β) : Apart (Operation.fail e >>= f) := ⟨trivial⟩

theorem now : Operation.now.Apart := ⟨rfl, fun _ => trivial⟩

theorem commitLimit : Operation.commitLimit.Apart := ⟨rfl, fun _ => trivial⟩

theorem query {q : Query} (other : (Request.query q).isApart) : (Operation.query q).Apart := by
  refine ⟨other, ?_⟩
  intro reply
  cases reply <;> trivial

theorem tryCommit {change : Change} (other : (Request.commit change).isApart) :
    (Operation.tryCommit change).Apart :=
  ⟨other, fun _ => trivial⟩

theorem commit {change : Change} (other : (Request.commit change).isApart) :
    (Operation.commit change).Apart := by
  apply (tryCommit other).bind
  intro reply
  cases reply with
  | ok _ => exact .pure _
  | error e => exact .fail _

theorem submit (mode : ConfirmMode) (action : LedgerAction) (payload : Json.Value) :
    (Operation.submit mode action payload).Apart := by
  refine ⟨rfl, ?_⟩
  intro reply
  cases reply <;> trivial

theorem commitSubmitted (action : LedgerAction) (event : EventId) (site : Option SiteId) (tx : TxRecord)
    {change : Change} (other : (Request.commit change).isApart) :
    (Operation.commitSubmitted action event site tx change).Apart := by
  apply (tryCommit other).bind
  intro reply
  cases reply with
  | ok _ => exact .pure _
  | error e =>
      apply Apart.now.bind
      intro recordedAt
      refine .bind (.tryCommit rfl) ?_
      intro _
      exact .fail _

theorem requireEvent (id : EventId) : (Operation.requireEvent id).Apart := by
  refine .bind (.query rfl) ?_
  intro found
  cases found with
  | some event => exact .pure event
  | none => exact .fail _

theorem requireProof (key : SiteKey) : (Operation.requireProof key).Apart := by
  refine .bind (.query rfl) ?_
  intro found
  cases found with
  | some proof => exact .pure proof
  | none => exact .fail _

theorem createEvent (c : Configuration) (plan : EventPlan) : (Operation.createEvent c plan).Apart := by
  unfold Operation.createEvent
  by_cases window : compare plan.start plan.stop ≠ .lt
  · simp only [if_pos window]
    exact .fail_bind _ _
  · simp only [if_neg window]
    refine .bind (.query rfl) ?_
    intro found
    cases found with
    | some event => exact .fail_bind _ _
    | none =>
        refine .bind (.submit _ _ _) ?_
        intro tx
        apply Apart.now.bind
        intro createdAt
        refine .bind (.commitSubmitted _ _ _ _ rfl) ?_
        intro _
        exact .pure _

theorem closeEvent (c : Configuration) (id : EventId) : (Operation.closeEvent c id).Apart := by
  apply (requireEvent id).bind
  intro event
  cases event.status with
  | closed => exact .fail_bind _ _
  | settled => exact .fail_bind _ _
  | active =>
      refine .bind (.submit _ _ _) ?_
      intro tx
      apply Apart.now.bind
      intro closedAt
      refine .bind (.commitSubmitted _ _ _ _ rfl) ?_
      intro _
      exact .pure _

theorem makePayload (s : Submission) (createdAt : Instant) : (Operation.makePayload s createdAt).Apart := by
  unfold Operation.makePayload
  cases Payload.of? ⟨s.event, s.site, s.baseline, s.actual, s.method, s.raw, createdAt⟩ with
  | ok payload => exact .pure payload
  | error e => exact .fail _

theorem checkDeclared (declared : Option String) (computed : ProofHash) :
    (Operation.checkDeclared declared computed).Apart := by
  unfold Operation.checkDeclared
  cases declared with
  | none => exact .pure _
  | some text =>
      by_cases same : ProofHash.declares text computed
      · simp only [if_pos same]
        exact .pure _
      · simp only [if_neg same]
        exact .fail _

theorem checkProofSize (payload uri : String) : (Operation.checkProofSize payload uri).Apart := by
  apply Apart.commitLimit.bind
  intro limit
  cases limit with
  | none => exact .pure _
  | some most =>
      by_cases large : most < quotedSize payload + quotedSize uri + proofHeadroom
      · simp only [if_pos large]
        exact .fail _
      · simp only [if_neg large]
        exact .pure _

theorem submitProof (c : Configuration) (s : Submission) : (Operation.submitProof c s).Apart := by
  apply (requireEvent s.event).bind
  intro event
  by_cases inactive : event.status ≠ .active
  · simp only [if_pos inactive]
    exact .fail_bind _ _
  · simp only [if_neg inactive]
    refine .bind (.query rfl) ?_
    intro found
    cases found with
    | some proof => exact .fail_bind _ _
    | none =>
        apply Apart.now.bind
        intro submittedAt
        apply (makePayload s submittedAt).bind
        intro payload
        apply (checkDeclared _ _).bind
        intro _
        apply (checkProofSize _ _).bind
        intro _
        refine .bind (.submit _ _ _) ?_
        intro tx
        refine .bind (.commitSubmitted _ _ _ _ rfl) ?_
        intro _
        exact .pure _

theorem sitesToSettle (id : EventId) (requested : List SiteId) :
    (Operation.sitesToSettle id requested).Apart := by
  unfold Operation.sitesToSettle
  by_cases all : requested = []
  · simp only [if_pos all]
    refine .bind (.query rfl) ?_
    intro proofs
    exact .pure _
  · simp only [if_neg all]
    exact .pure _

theorem payouts (event : Event) (id : EventId) (share : UInt64) (sites : List SiteId) :
    (Operation.payouts event id share sites).Apart := by
  induction sites with
  | nil => exact .pure _
  | cons site sites ih =>
      refine .bind (.query rfl) ?_
      intro proof
      cases proof with
      | none => exact .fail _
      | some proof =>
          refine .bind (.query rfl) ?_
          intro found
          cases found with
          | some row => exact .fail_bind _ _
          | none =>
              apply ih.bind
              intro others
              exact .pure _

theorem settleEvent (c : Configuration) (id : EventId) (requested : List SiteId) :
    (Operation.settleEvent c id requested).Apart := by
  apply (requireEvent id).bind
  intro event
  cases event.status with
  | active => exact .fail_bind _ _
  | settled => exact .fail_bind _ _
  | closed =>
      apply (sitesToSettle id requested).bind
      intro sites
      cases Scoring.targetShare event.target sites.length with
      | none => exact .fail _
      | some share =>
          apply (payouts event id share sites).bind
          intro payouts
          refine .bind (.submit _ _ _) ?_
          intro tx
          apply Apart.now.bind
          intro settledAt
          refine .bind (.commitSubmitted _ _ _ _ rfl) ?_
          intro _
          exact .pure _

theorem claimReward (c : Configuration) (key : SiteKey) (claimant : ActorId) :
    (Operation.claimReward c key claimant).Apart := by
  refine .bind (.query rfl) ?_
  intro found
  cases found with
  | none => exact .fail _
  | some row =>
      by_cases unclaimable : row.status ≠ .settled
      · simp only [if_pos unclaimable]
        exact .fail_bind _ _
      · simp only [if_neg unclaimable]
        apply (requireProof key).bind
        intro proof
        by_cases other : proof.submitter ≠ claimant
        · simp only [if_pos other]
          exact .fail_bind _ _
        · simp only [if_neg other]
          refine .bind (.submit _ _ _) ?_
          intro tx
          apply Apart.now.bind
          intro claimedAt
          refine .bind (.commitSubmitted _ _ _ _ rfl) ?_
          intro _
          exact .pure _

theorem getAudit (key : SiteKey) : (Operation.getAudit key).Apart := by
  apply (requireProof key).bind
  intro proof
  apply Apart.now.bind
  intro requestedAt
  refine .bind (.commit rfl) ?_
  intro _
  exact .pure _

end Apart

theorem bind_pure (op : Operation α) : (op >>= fun a => Pure.pure a) = op := by
  change op.run.andThen _ = op.run
  induction op.run with
  | done result => cases result <;> rfl
  | ask r next ih => exact congrArg (Program.ask r) (funext ih)

end Operation

namespace Exchange

def reads (event : EventId) : Exchange → Bool
  | ⟨.query (.pending scope), _⟩ => scope.contains event
  | _ => false

def asks (handle : TxHandle) : Exchange → Bool
  | ⟨.check other, _⟩ => other = handle
  | _ => false

theorem asks_check (handle : TxHandle) (reply : Except LedgerError TxCheck) :
    (⟨.check handle, reply⟩ : Exchange).asks handle :=
  decide_eq_true rfl

theorem eq_of_asks {call : Exchange} {handle : TxHandle} (asks : call.asks handle) :
    ∃ reply, call = ⟨.check handle, reply⟩ := by
  unfold Exchange.asks at asks
  split at asks
  · obtain rfl := of_decide_eq_true asks
    exact ⟨_, rfl⟩
  · cases asks

theorem eq_of_reads {call : Exchange} {event : EventId} (reads : call.reads event) :
    ∃ scope reply, call = ⟨.query (.pending scope), reply⟩ ∧ scope.contains event := by
  unfold Exchange.reads at reads
  split at reads
  · exact ⟨_, _, rfl, reads⟩
  · cases reads

theorem not_reads_of_isApart {call : Exchange} {event : EventId} (apart : call.request.isApart) :
    ¬call.reads event := by
  unfold reads
  split
  · exact fun _ => Bool.false_ne_true apart
  · exact Bool.false_ne_true

theorem not_asks_of_isApart {call : Exchange} {handle : TxHandle} (apart : call.request.isApart) :
    ¬call.asks handle := by
  unfold asks
  split
  · exact fun _ => Bool.false_ne_true apart
  · exact Bool.false_ne_true

end Exchange

/-- How far a program has come with its pass, after these calls. -/
inductive Passes {α : Type} : List Exchange → Program α → Prop
  | apart {calls : List Exchange} {p : Program α} : (∀ call ∈ calls, call.request.isApart) → p.Apart →
      Passes calls p
  | entering {scope : Scope} {next : Except StoreError (List PendingTx) → Program α} :
      (∀ reply, Passes [⟨.query (.pending scope), reply⟩] (next reply)) →
      Passes [] (.ask (.query (.pending scope)) next)
  | unread {scope : Scope} {e : StoreError} {calls : List Exchange} {p : Program α} :
      (∀ call ∈ calls, call.request.isApart) → p.Apart →
      Passes (⟨.query (.pending scope), .error e⟩ :: calls) p
  | asking {scope : Scope} {items : List PendingTx} {told : Findings} {handle : TxHandle}
      {handles : List TxHandle} {next : Except LedgerError TxCheck → Program α} :
      told.handles ++ handle :: handles = firsts (items.map (·.record.handle)) →
      (∀ reply, Passes (⟨.query (.pending scope), .ok items⟩ :: Findings.calls (told ++ [(handle, reply)]))
        (next reply)) →
      Passes (⟨.query (.pending scope), .ok items⟩ :: told.calls) (.ask (.check handle) next)
  | committing {scope : Scope} {items : List PendingTx} {told : Findings}
      {next : Except StoreError Unit → Program α} :
      told.handles = firsts (items.map (·.record.handle)) → (∀ reply, (next reply).Apart) →
      Passes (⟨.query (.pending scope), .ok items⟩ :: told.calls)
        (.ask (.commit (.applyTxUpdates (told.updates items))) next)
  | left {scope : Scope} {items : List PendingTx} {told : Findings} {commits calls : List Exchange}
      {p : Program α} :
      told.handles = firsts (items.map (·.record.handle)) →
      (commits = [] ∧ told.updates items = [] ∨
        ∃ reply, commits = [⟨.commit (.applyTxUpdates (told.updates items)), reply⟩]) →
      (∀ call ∈ calls, call.request.isApart) → p.Apart →
      Passes (⟨.query (.pending scope), .ok items⟩ :: (told.calls ++ (commits ++ calls))) p

/-- The calls of a program that makes one pass at most. -/
inductive Passed : List Exchange → Prop
  | apart {calls : List Exchange} : (∀ call ∈ calls, call.request.isApart) → Passed calls
  | unread {scope : Scope} {e : StoreError} {calls : List Exchange} :
      (∀ call ∈ calls, call.request.isApart) → Passed (⟨.query (.pending scope), .error e⟩ :: calls)
  | read {scope : Scope} {items : List PendingTx} {told : Findings} {handles : List TxHandle}
      {commits calls : List Exchange} :
      told.handles ++ handles = firsts (items.map (·.record.handle)) →
      (commits = [] ∨ ∃ reply, commits = [⟨.commit (.applyTxUpdates (told.updates items)), reply⟩]) →
      (∀ call ∈ calls, call.request.isApart) →
      Passed (⟨.query (.pending scope), .ok items⟩ :: (told.calls ++ (commits ++ calls)))

namespace Passes

variable {α : Type} {calls : List Exchange} {p : Program α}

theorem passed (passes : Passes calls p) : Passed calls := by
  have begun {scope : Scope} {items : List PendingTx} {told : Findings} {handles : List TxHandle}
      (asked : told.handles ++ handles = firsts (items.map (·.record.handle))) :
      Passed (⟨.query (.pending scope), .ok items⟩ :: told.calls) := by
    rw [← List.append_nil told.calls]
    exact .read asked (.inl rfl) (List.forall_mem_nil _)
  cases passes with
  | apart before others => exact .apart before
  | entering others => exact .apart (List.forall_mem_nil _)
  | unread before others => exact .unread before
  | asking asked others => exact begun asked
  | committing asked others => exact begun ((List.append_nil _).trans asked)
  | left asked made before others =>
      exact .read ((List.append_nil _).trans asked) (made.imp_left And.left) before

theorem call {r : Request} {next : r.Reply → Program α} (passes : Passes calls (.ask r next))
    (reply : r.Reply) : Passes (calls ++ [⟨r, reply⟩]) (next reply) := by
  have both {calls : List Exchange} (apart : ∀ call ∈ calls, call.request.isApart) (own : r.isApart) :
      ∀ call ∈ calls ++ [(⟨r, reply⟩ : Exchange)], call.request.isApart :=
    List.forall_mem_append.mpr ⟨apart, List.forall_mem_singleton.mpr own⟩
  cases passes with
  | apart before others => exact .apart (both before others.1) (others.2 reply)
  | entering others => exact others reply
  | unread before others => exact .unread (both before others.1) (others.2 reply)
  | asking asked others =>
      have passes := others reply
      rw [Findings.calls, List.map_append] at passes
      exact passes
  | committing asked others =>
      exact .left asked (.inr ⟨reply, rfl⟩) (List.forall_mem_nil _) (others reply)
  | left asked made before others =>
      rw [List.cons_append, List.append_assoc, List.append_assoc]
      exact .left asked made (both before others.1) (others.2 reply)

theorem askAll {scope : Scope} {items : List PendingTx} {handles : List TxHandle} {told : Findings}
    (asked : told.handles ++ handles = firsts (items.map (·.record.handle)))
    {f : ReconcileReport → Operation α} (others : ∀ report, (f report).Apart) :
    Passes (⟨.query (.pending scope), .ok items⟩ :: told.calls)
      (Reconciliation.askAll handles >>= fun more => conclude items (told ++ more) >>= f).run := by
  induction handles generalizing told with
  | nil =>
      rw [List.append_nil] at asked
      change Passes _ (conclude items (told ++ []) >>= f).run
      rw [List.append_nil]
      unfold conclude
      have verdict : Operation.Apart
          (ExceptT.mk (pure (told.verdict items.length (told.updates items).length)) >>= f) := by
        cases told.verdict items.length (told.updates items).length with
        | ok report => exact others report
        | error e => exact .fail_bind e f
      by_cases found : told.updates items ≠ []
      · rw [if_pos found]
        refine .committing asked ?_
        intro reply
        cases reply with
        | ok _ => exact verdict.run
        | error e => trivial
      · rw [if_neg found]
        rw [← List.append_nil told.calls, ← List.append_nil (told.calls ++ []), List.append_assoc]
        exact .left asked (.inl ⟨rfl, not_not.mp found⟩) (List.forall_mem_nil _) verdict.run
  | cons handle handles ih =>
      rw [askAll_cons_bind]
      refine .asking asked ?_
      intro reply
      have further : Findings.handles (told ++ [(handle, reply)]) ++ handles =
          firsts (items.map (·.record.handle)) := by
        rw [← asked, Findings.handles, List.map_append, List.append_assoc]
        rfl
      have passes := ih further
      simp only [List.append_assoc, List.singleton_append] at passes
      exact passes

theorem reconcile {scope : Scope} {f : ReconcileReport → Operation α}
    (others : ∀ report, (f report).Apart) : Passes [] (Operation.reconcile scope >>= f).run := by
  rw [reconcile_eq_askAll]
  refine .entering ?_
  intro reply
  cases reply with
  | error e => exact .unread (List.forall_mem_nil _) trivial
  | ok items =>
      change Passes _ ((Reconciliation.askAll _ >>= conclude items) >>= f).run
      rw [Operation.bind_assoc]
      exact @askAll _ _ _ _ [] rfl _ others

end Passes

theorem mem_pass {scope : Scope} {items : List PendingTx} {told : Findings} {commits calls : List Exchange}
    (made : commits = [] ∨ ∃ reply, commits = [⟨.commit (.applyTxUpdates (told.updates items)), reply⟩])
    (apart : ∀ call ∈ calls, call.request.isApart) {call : Exchange}
    (listed : call ∈ ⟨.query (.pending scope), .ok items⟩ :: (told.calls ++ (commits ++ calls))) :
    call = ⟨.query (.pending scope), .ok items⟩ ∨
      (∃ handle ∈ told.handles, ∃ reply, call = ⟨.check handle, reply⟩) ∨
      (∃ reply, call = ⟨.commit (.applyTxUpdates (told.updates items)), reply⟩) ∨
      call.request.isApart := by
  rcases List.mem_cons.mp listed with same | listed
  · exact .inl same
  rcases List.mem_append.mp listed with found | listed
  · obtain ⟨⟨handle, reply⟩, member, same⟩ := List.mem_map.mp found
    exact .inr (.inl ⟨handle, List.mem_map_of_mem member, reply, same.symm⟩)
  rcases List.mem_append.mp listed with committed | listed
  · rcases made with rfl | ⟨reply, rfl⟩
    · cases committed
    · exact .inr (.inr (.inl ⟨reply, List.mem_singleton.mp committed⟩))
  · exact .inr (.inr (.inr (apart call listed)))

namespace Passed

variable {calls : List Exchange}

theorem countP_reads (passed : Passed calls) (event : EventId) : calls.countP (·.reads event) ≤ 1 := by
  have none_apart {calls : List Exchange} (apart : ∀ call ∈ calls, call.request.isApart) :
      calls.countP (·.reads event) = 0 :=
    List.countP_eq_zero.mpr fun call listed => Exchange.not_reads_of_isApart (apart call listed)
  cases passed with
  | apart before => exact (none_apart before).trans_le (Nat.zero_le 1)
  | unread before =>
      rw [List.countP_cons, none_apart before]
      split <;> decide
  | @read _ items told _ commits calls _ made before =>
      have asked : told.calls.countP (·.reads event) = 0 := by
        rw [Findings.calls, List.countP_map]
        exact List.countP_eq_zero.mpr fun _ _ reads => Bool.false_ne_true reads
      have committed : commits.countP (·.reads event) = 0 := by
        rcases made with rfl | ⟨reply, rfl⟩ <;> rfl
      rw [List.countP_cons, List.countP_append, List.countP_append, asked, committed, none_apart before]
      split <;> decide

theorem countP_asks (passed : Passed calls) (handle : TxHandle) : calls.countP (·.asks handle) ≤ 1 := by
  have none_apart {calls : List Exchange} (apart : ∀ call ∈ calls, call.request.isApart) :
      calls.countP (·.asks handle) = 0 :=
    List.countP_eq_zero.mpr fun call listed => Exchange.not_asks_of_isApart (apart call listed)
  cases passed with
  | apart before => exact (none_apart before).trans_le (Nat.zero_le 1)
  | unread before =>
      rw [List.countP_cons_of_neg (by simp [Exchange.asks]), none_apart before]
      exact Nat.zero_le 1
  | @read _ items told handles commits calls asked made before =>
      have once : told.handles.count handle ≤ 1 := by
        have distinct := firsts_nodup (items.map (·.record.handle))
        rw [← asked] at distinct
        exact List.nodup_iff_count_le_one.mp distinct.of_append_left handle
      have counted : told.calls.countP (·.asks handle) = told.handles.count handle := by
        rw [Findings.calls, List.countP_map, Findings.handles, List.count, List.countP_map]
        rfl
      have committed : commits.countP (·.asks handle) = 0 := by
        rcases made with rfl | ⟨reply, rfl⟩ <;> rfl
      rw [List.countP_cons_of_neg (by simp [Exchange.asks]), List.countP_append, List.countP_append,
        counted, committed, none_apart before]
      exact once

theorem asked (passed : Passed calls) {handle : TxHandle} {reply : Except LedgerError TxCheck}
    (listed : ⟨.check handle, reply⟩ ∈ calls) : ∃ (scope : Scope) (items : List PendingTx),
      ⟨.query (.pending scope), .ok items⟩ ∈ calls ∧ ∃ item ∈ items, item.record.handle = handle := by
  cases passed with
  | apart before => exact (Bool.false_ne_true (before _ listed)).elim
  | unread before =>
      rcases List.mem_cons.mp listed with same | listed
      · cases same
      · exact (Bool.false_ne_true (before _ listed)).elim
  | @read scope items told handles commits calls asked made before =>
      refine ⟨scope, items, List.mem_cons_self, ?_⟩
      rcases mem_pass made before listed with same | ⟨other, known, answer, same⟩ | ⟨answer, same⟩ | apart
      · cases same
      · obtain rfl := Request.check.inj (Exchange.mk.inj same).1
        have first : handle ∈ firsts (items.map (·.record.handle)) :=
          asked ▸ List.mem_append_left _ known
        rw [mem_firsts, List.mem_map] at first
        exact first
      · cases same
      · exact (Bool.false_ne_true apart).elim

theorem committed (passed : Passed calls) {updates : List TxUpdate} {reply : Except StoreError Unit}
    (listed : ⟨.commit (.applyTxUpdates updates), reply⟩ ∈ calls) :
    ∃ (scope : Scope) (items : List PendingTx) (told : Findings),
      ⟨.query (.pending scope), .ok items⟩ ∈ calls ∧ told.calls ⊆ calls ∧ updates = told.updates items := by
  cases passed with
  | apart before => exact (Bool.false_ne_true (before _ listed)).elim
  | unread before =>
      rcases List.mem_cons.mp listed with same | listed
      · cases same
      · exact (Bool.false_ne_true (before _ listed)).elim
  | @read scope items told handles commits calls asked made before =>
      refine ⟨scope, items, told, List.mem_cons_self, ?_, ?_⟩
      · exact List.Subset.trans (List.subset_append_left _ _) (List.subset_cons_self _ _)
      rcases mem_pass made before listed with same | ⟨other, -, answer, same⟩ | ⟨answer, same⟩ | apart
      · cases same
      · cases same
      · exact Change.applyTxUpdates.inj (Request.commit.inj (Exchange.mk.inj same).1)
      · exact (Bool.false_ne_true apart).elim

end Passed

theorem Passes.concluded {α : Type} {calls : List Exchange} {p : Program α} (passes : Passes calls p)
    (left : p.inPass = false) {scope : Scope} {items : List PendingTx}
    (listed : ⟨.query (.pending scope), .ok items⟩ ∈ calls) : ∃ told : Findings,
      told.handles = firsts (items.map (·.record.handle)) ∧ told.calls ⊆ calls ∧
      (told.updates items ≠ [] →
        ∃ reply, ⟨.commit (.applyTxUpdates (told.updates items)), reply⟩ ∈ calls) := by
  cases passes with
  | apart before others => exact (Bool.false_ne_true (before _ listed)).elim
  | entering others => cases listed
  | unread before others =>
      rcases List.mem_cons.mp listed with same | listed
      · cases same
      · exact (Bool.false_ne_true (before _ listed)).elim
  | asking asked others => exact (Bool.false_ne_true left.symm).elim
  | committing asked others => exact (Bool.false_ne_true left.symm).elim
  | @left _ read told commits calls _ asked made before others =>
      have own : items = read := by
        rcases mem_pass (made.imp_left And.left) before listed with
          same | ⟨other, -, answer, same⟩ | ⟨answer, same⟩ | apart
        · cases same
          rfl
        · cases same
        · cases same
        · exact (Bool.false_ne_true apart).elim
      subst own
      refine ⟨told, asked, List.Subset.trans (List.subset_append_left _ _) (List.subset_cons_self _ _), ?_⟩
      intro found
      rcases made with ⟨-, nothing⟩ | ⟨reply, rfl⟩
      · exact (found nothing).elim
      · exact ⟨reply, by simp⟩

theorem Task.passes (task : Task) (c : Configuration) : Passes [] (task.operation c).run := by
  have apart {op : Operation task.Result} (apart : op.Apart) : Passes [] op.run :=
    .apart (List.forall_mem_nil _) apart.run
  have after {α : Type} {id : EventId} {f : Unit → Operation α} (others : (f ()).Apart) :
      Passes [] (Operation.reconcileEvent id >>= f).run := by
    unfold Operation.reconcileEvent
    rw [Operation.bind_assoc]
    exact .reconcile fun _ => others
  cases task with
  | createEvent plan => exact apart (.createEvent c plan)
  | closeEvent id => exact apart (.closeEvent c id)
  | submitProof submission => exact apart (.submitProof c submission)
  | settleEvent id requested => exact apart (.settleEvent c id requested)
  | claimReward key claimant => exact apart (.claimReward c key claimant)
  | reconcile scope =>
      rw [operation, ← Operation.bind_pure (Operation.reconcile scope)]
      exact .reconcile fun report => .pure report
  | getEvent id => exact after (.requireEvent id)
  | listSettlements id =>
      apply after
      apply (Operation.Apart.requireEvent id).bind
      intro _
      exact .query rfl
  | getProof key => exact after (.requireProof key)
  | getAudit key => exact apart (.getAudit key)
  | getSummary id =>
      apply after
      apply (Operation.Apart.requireEvent id).bind
      intro _
      refine .bind (.query rfl) ?_
      intro _
      refine .bind (.query rfl) ?_
      intro _
      refine .bind (.query rfl) ?_
      intro _
      exact .pure _
  | listOrphans => exact apart (.query rfl)

end Curtail
