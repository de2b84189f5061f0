import Curtail.Proofs.Engine.Passage
import Curtail.Proofs.Engine.Schedule
import Curtail.Proofs.Ledger.Simulated

namespace Curtail

namespace Calls

def own (position : Nat) (calls : List (Nat × Exchange)) : List Exchange :=
  (calls.filter fun call => call.1 = position).map (·.2)

def positions (test : Exchange → Bool) (calls : List (Nat × Exchange)) : List Nat :=
  (calls.filter fun call => test call.2).map (·.1)

variable {calls more : List (Nat × Exchange)} {position : Nat} {call : Exchange} {test : Exchange → Bool}

theorem mem_own : call ∈ own position calls ↔ (position, call) ∈ calls := by
  simp [own]

theorem own_append : own position (calls ++ more) = own position calls ++ own position more := by
  simp [own]

theorem mem_positions : position ∈ positions test calls ↔ ∃ call, (position, call) ∈ calls ∧ test call := by
  simp [positions]

theorem length_positions : (positions test calls).length = calls.countP fun call => test call.2 := by
  rw [positions, List.length_map, List.countP_eq_length_filter]

theorem count_positions : (positions test calls).count position = (own position calls).countP test := by
  rw [positions, own, List.count, List.countP_map, List.countP_map, List.countP_filter, List.countP_filter]
  apply List.countP_congr
  intro call _
  simp [and_comm]

theorem positions_nodup (once : ∀ position, (own position calls).countP test ≤ 1) :
    (positions test calls).Nodup := by
  rw [List.nodup_iff_count_le_one]
  intro position
  rw [count_positions]
  exact once position

end Calls

open Calls

/-- Operations over a simulated ledger, and the calls so far, each with its caller. -/
structure Simulation extends System where
  ledger : SimulatedLedger
  calls : List (Nat × Exchange)

/-- No call fails, and no handle is given out twice. -/
inductive Responds (index : Index) (issued : List TxHandle) (ledger : SimulatedLedger) :
    (r : Request) → r.Reply → Index → List TxHandle → SimulatedLedger → Prop
  | now (t : Instant) : Responds index issued ledger .now t index issued ledger
  | commitLimit (limit : Option Nat) :
      Responds index issued ledger .commitLimit limit index issued ledger
  | query (q : Query) : Responds index issued ledger (.query q) (.ok (index.answer q)) index issued ledger
  | commit (change : Change) : Responds index issued ledger (.commit change) (index.commit change).1
      (index.commit change).2 issued ledger
  | submit (t : Instant) (action : LedgerAction) (payload : Json.Value) (mode : ConfirmMode) :
      (ledger.submit t action payload mode).1.handle ∉ issued →
      Responds index issued ledger (.submit action payload mode)
        (.ok (ledger.submit t action payload mode).1) index
        ((ledger.submit t action payload mode).1.handle :: issued)
        (ledger.submit t action payload mode).2
  | check (t : Instant) (handle : TxHandle) : Responds index issued ledger (.check handle)
      (.ok (ledger.check t handle).1) index issued (ledger.check t handle).2

namespace Exchange

def leavesOpen (handle : TxHandle) : Exchange → Bool
  | ⟨.check other, .ok check⟩ => other = handle && check.outcome.state = .submitted
  | _ => false

theorem asks_of_leavesOpen {handle : TxHandle} {call : Exchange} (leaves : call.leavesOpen handle) :
    call.asks handle := by
  unfold leavesOpen at leaves
  split at leaves
  · exact (Bool.and_eq_true_iff.mp leaves).1
  · cases leaves

end Exchange

namespace Stage

def ofCalls (calls : List Exchange) : Stage :=
  calls.foldl (fun stage call => stage.after call.request call.reply) .idle

theorem ofCalls_append (calls : List Exchange) (call : Exchange) :
    ofCalls (calls ++ [call]) = (ofCalls calls).after call.request call.reply :=
  List.foldl_append

theorem submitted_of_holding {calls : List Exchange} {tx : TxRecord} (held : ofCalls calls = .holding tx) :
    ∃ action payload mode r, ⟨.submit action payload mode, .ok r⟩ ∈ calls ∧ tx = .ofResult r := by
  induction calls using List.reverseRecOn with
  | nil => cases held
  | append_singleton calls call ih =>
      rw [ofCalls_append] at held
      obtain ⟨r, reply⟩ := call
      cases before : ofCalls calls with
      | idle =>
          rw [before] at held
          cases r with
          | submit action payload mode =>
              cases reply with
              | ok result =>
                  obtain rfl := Stage.holding.inj held
                  exact ⟨action, payload, mode, result, List.mem_append_right _ List.mem_cons_self, rfl⟩
              | error e => cases held
          | _ => cases held
      | holding other =>
          rw [before] at held
          have kept : other = tx := by
            cases r with
            | commit change => cases reply <;> cases held
            | _ => exact Stage.holding.inj held
          obtain ⟨action, payload, mode, result, listed, same⟩ := ih (kept ▸ before)
          exact ⟨action, payload, mode, result, List.mem_append_left _ listed, same⟩
      | stored other change =>
          rw [before] at held
          cases held
      | refused other =>
          rw [before] at held
          cases r with
          | commit change => cases change <;> cases held
          | _ => cases held
      | orphaned orphan =>
          rw [before] at held
          cases held

end Stage

namespace Simulation

def start (checksUntilConfirm : UInt32) : Simulation := ⟨.initial, .new checksUntilConfirm, []⟩

inductive Step : Simulation → Simulation → Prop
  | enter {s : Simulation} (c : Configuration) (task : Task) :
      Step s { s with callers := s.callers ++ [⟨task, task.operation c, []⟩] }
  | call {s : Simulation} {position : Nat} {task : Task} {r : Request}
      {next : r.Reply → Program (Except Failure task.Result)} {handles issued : List TxHandle}
      {reply : r.Reply} {index : Index} {ledger : SimulatedLedger} :
      s.callers[position]? = some ⟨task, .ask r next, handles⟩ →
      Responds s.index s.issued s.ledger r reply index issued ledger →
      Step s ⟨⟨index, issued, s.callers.set position ⟨task, next reply, handles ++ r.obtained reply⟩⟩,
        ledger, s.calls ++ [(position, ⟨r, reply⟩)]⟩

end Simulation

section Responds

variable {index later : Index} {issued known : List TxHandle} {ledger after : SimulatedLedger} {r : Request}
  {reply : r.Reply}

theorem Responds.answers (responds : Responds index issued ledger r reply later known after) :
    Answers index issued r reply later known := by
  cases responds with
  | now t => exact .now t
  | commitLimit limit => exact .commitLimit limit
  | query q => exact .query q
  | commit change => exact .commit change
  | submit t action payload mode fresh => exact .submitted action payload mode _ fresh
  | check t handle => exact .checked handle _

theorem Responds.serves (responds : Responds index issued ledger r reply later known after) :
    (Storage.memory index).Serves r reply (.memory later) := by
  cases responds with
  | now t => exact .now t
  | commitLimit limit => exact .commitLimit limit
  | query q => exact .query q
  | commit change => exact .commit change rfl
  | submit t action payload mode fresh => exact .submit action payload mode _
  | check t handle => exact .check handle _

theorem Responds.subset (responds : Responds index issued ledger r reply later known after) :
    issued ⊆ known := by
  cases responds with
  | submit t action payload mode fresh => exact List.subset_cons_self _ _
  | _ => exact List.Subset.refl _

theorem Responds.checksUntilConfirm (responds : Responds index issued ledger r reply later known after) :
    after.checksUntilConfirm = ledger.checksUntilConfirm := by
  cases responds with
  | submit t action payload mode fresh =>
      exact SimulatedLedger.checksUntilConfirm_submit t action payload mode
  | check t handle => exact SimulatedLedger.checksUntilConfirm_check t handle
  | _ => rfl

end Responds

namespace Simulation

variable {s later : Simulation} {checksUntilConfirm : UInt32}

theorem Step.toSystem (step : Step s later) : System.Step s.toSystem later.toSystem := by
  cases step with
  | enter c task => exact .enter c task
  | call present responds => exact .call present responds.answers

theorem accounted_of_run (run : Relation.ReflTransGen Step (start checksUntilConfirm) s) :
    s.toSystem.Accounted := by
  apply System.accounted_of_run
  induction run with
  | refl => exact .refl
  | tail _ step ih => exact ih.tail step.toSystem

def toService (s : Simulation) (history : List (Task × Change)) : Service :=
  ⟨.memory s.index, s.callers.map fun caller => ⟨caller.task, caller.rest⟩, history⟩

theorem Step.toService (step : Step s later) (history : List (Task × Change)) :
    ∃ made, Service.Step (s.toService history) (later.toService made) := by
  cases step with
  | enter c task =>
      refine ⟨history, ?_⟩
      simp only [Simulation.toService, List.map_append]
      exact .enter c task
  | @call position task r next handles issued reply index ledger present responds =>
      refine ⟨history ++ (r.accepted reply).map (Prod.mk task), ?_⟩
      have client : (s.toService history).clients[position]? = some ⟨task, .ask r next⟩ := by
        simp [Simulation.toService, present]
      simp only [Simulation.toService, List.map_set]
      exact .call client responds.serves

theorem made_of_run (run : Relation.ReflTransGen Step (start checksUntilConfirm) s) : s.index.Made := by
  suffices reached : ∃ history, Relation.ReflTransGen Service.Step ⟨.memory .empty, [], []⟩
      (s.toService history) by
    obtain ⟨history, reached⟩ := reached
    exact ⟨history, (Service.sound_of_run .memory reached).made⟩
  induction run with
  | refl => exact ⟨[], .refl⟩
  | tail _ step ih =>
      obtain ⟨history, reached⟩ := ih
      obtain ⟨made, further⟩ := step.toService history
      exact ⟨made, reached.tail further⟩

theorem checksUntilConfirm_of_run (run : Relation.ReflTransGen Step (start checksUntilConfirm) s) :
    s.ledger.checksUntilConfirm = checksUntilConfirm := by
  induction run with
  | refl => rfl
  | tail _ step ih =>
      cases step with
      | enter c task => exact ih
      | call present responds => exact responds.checksUntilConfirm.trans ih

/-- What holds of a new operation, and goes on to hold with each call, holds of every caller. -/
theorem callers_of_run (run : Relation.ReflTransGen Step (start checksUntilConfirm) s)
    (holds : (task : Task) → List Exchange → Program (Except Failure task.Result) → Prop)
    (begins : ∀ task c, holds task [] (task.operation c).run)
    (goesOn : ∀ task calls (r : Request) next (reply : r.Reply), holds task calls (.ask r next) →
      holds task (calls ++ [⟨r, reply⟩]) (next reply)) :
    (∀ call ∈ s.calls, call.1 < s.callers.length) ∧ ∀ (position : Nat) caller,
      s.callers[position]? = some caller → holds caller.task (own position s.calls) caller.rest := by
  induction run with
  | refl => exact ⟨List.forall_mem_nil _, nofun⟩
  | @tail s later _ step ih =>
      obtain ⟨inside, ih⟩ := ih
      cases step with
      | enter c task =>
          refine ⟨?_, ?_⟩
          · intro call listed
            rw [List.length_append]
            exact Nat.lt_add_right _ (inside call listed)
          · intro position caller found
            rcases System.getElem?_enter found with old | ⟨rfl, rfl⟩
            · exact ih position caller old
            · have none_yet : own s.callers.length s.calls = [] := by
                rw [own, List.map_eq_nil_iff, List.filter_eq_nil_iff]
                intro call listed same
                exact (inside call listed).ne (of_decide_eq_true same)
              rw [none_yet]
              exact begins task c
      | @call position task r next handles issued reply index ledger present responds =>
          refine ⟨?_, ?_⟩
          · rw [List.length_set, List.forall_mem_append, List.forall_mem_singleton]
            exact ⟨inside, (List.getElem?_eq_some_iff.mp present).1⟩
          · intro other caller found
            rw [own_append]
            rcases System.getElem?_call present found with ⟨rfl, rfl⟩ | ⟨distinct, old⟩
            · have last : own other [(other, (⟨r, reply⟩ : Exchange))] = [⟨r, reply⟩] := by simp [own]
              rw [last]
              exact goesOn task _ r next reply (ih other _ present)
            · have not_own : own other [(position, (⟨r, reply⟩ : Exchange))] = [] := by
                simp [own, Ne.symm distinct]
              rw [not_own, List.append_nil]
              exact ih other caller old

theorem passes_of_run (run : Relation.ReflTransGen Step (start checksUntilConfirm) s) {position : Nat}
    {caller : Caller} (found : s.callers[position]? = some caller) :
    Passes (own position s.calls) caller.rest :=
  (callers_of_run run (fun _ calls rest => Passes calls rest) Task.passes
    fun _ _ _ _ reply passes => passes.call reply).2 position caller found

theorem passed_of_run (run : Relation.ReflTransGen Step (start checksUntilConfirm) s) (position : Nat) :
    Passed (own position s.calls) := by
  obtain ⟨inside, all⟩ := callers_of_run run (fun _ calls rest => Passes calls rest) Task.passes
    fun _ _ _ _ reply passes => passes.call reply
  cases found : s.callers[position]? with
  | some caller => exact (all position caller found).passed
  | none =>
      apply Passed.apart
      intro call listed
      have least := inside _ (mem_own.mp listed)
      exact (Nat.not_lt.mpr (List.getElem?_eq_none_iff.mp found) least).elim

theorem follows_of_run (run : Relation.ReflTransGen Step (start checksUntilConfirm) s) {position : Nat}
    {caller : Caller} (found : s.callers[position]? = some caller) :
    caller.rest.Follows caller.task.Ends (.ofCalls (own position s.calls)) := by
  refine (callers_of_run run (fun task calls rest => rest.Follows task.Ends (.ofCalls calls))
    Task.follows ?_).2 position caller found
  intro task calls r next reply follows
  rw [Stage.ofCalls_append]
  exact follows.2 reply

inductive Step.Records (s later : Simulation) : Prop
  | unchanged : (∀ target, later.index.record? target = s.index.record? target) → Records s later
  | updates {position : Nat} {updates : List TxUpdate} :
      later.calls = s.calls ++ [(position, ⟨.commit (.applyTxUpdates updates), .ok ()⟩)] →
      (∀ target, later.index.record? target =
        (s.index.record? target).map (Index.updatedBy (Index.recordsFor target updates))) → Records s later
  | carries {position : Nat} {change : Change} {tx : TxRecord} :
      later.calls = s.calls ++ [(position, ⟨.commit change, .ok ()⟩)] →
      Stage.ofCalls (own position s.calls) = .holding tx → s.index.Accounts tx.handle [] [] →
      change.Carries tx → Index.Receives s.index later.index change.targets tx → Records s later

theorem Step.records (run : Relation.ReflTransGen Step (start checksUntilConfirm) s)
    (step : Step s later) : Step.Records s later := by
  have accounted := accounted_of_run run
  cases step with
  | enter c task => exact .unchanged fun _ => rfl
  | @call position task r next handles issued reply index ledger present responds =>
      obtain ⟨permits, -⟩ := follows_of_run run present
      obtain ⟨stage, ⟨agrees, -⟩, -, holds⟩ := accounted.staged position _ present
      cases responds with
      | commit change =>
          cases checked : s.index.check change with
          | error cause =>
              refine .unchanged fun target => ?_
              simp only [Index.commit, checked]
          | ok _ =>
              have made : s.index.commit change = (.ok (), s.index.apply change) := by
                simp only [Index.commit, checked]
              rw [made]
              cases held : Stage.ofCalls (own position s.calls) with
              | idle =>
                  rw [held] at permits
                  cases change with
                  | upsertAudit request => exact .unchanged fun _ => rfl
                  | applyTxUpdates updates => exact .updates rfl (s.index.record?_applyTxUpdates updates)
                  | recordOrphan orphan => exact .unchanged fun _ => rfl
                  | _ => exact permits.1.elim
              | holding tx =>
                  rw [held] at permits
                  have receives := Index.apply_receives accounted.regular permits checked
                  refine .carries rfl held ?_ permits receives
                  -- The stage that agrees with the index is at the same transaction.
                  cases stage with
                  | idle => exact (permits.not_isQuiet agrees.1).elim
                  | holding other => exact permits.eq agrees ▸ holds
                  | refused other =>
                      obtain ⟨orphan, rfl, -⟩ := agrees
                      exact permits.elim
                  | stored other others => exact agrees.elim
                  | orphaned orphan => exact agrees.elim
              | refused tx =>
                  rw [held] at permits
                  obtain ⟨orphan, rfl, -⟩ := permits
                  exact .unchanged fun _ => rfl
              | stored tx others =>
                  rw [held] at permits
                  exact permits.elim
              | orphaned orphan =>
                  rw [held] at permits
                  exact permits.elim
      | _ => exact .unchanged fun _ => rfl

theorem Step.read (step : Step s later) : ∃ more, later.calls = s.calls ++ more ∧
    ∀ position scope reply, (position, ⟨.query (.pending scope), reply⟩) ∈ more →
      reply = .ok (s.index.pending scope) := by
  cases step with
  | enter c task => exact ⟨[], (List.append_nil _).symm, nofun⟩
  | call present responds =>
      refine ⟨_, rfl, ?_⟩
      intro position scope reply listed
      cases List.mem_singleton.mp listed
      cases responds
      rfl

theorem Step.commit (step : Step s later) {position : Nat} {updates : List TxUpdate}
    {reply : Except StoreError Unit}
    (listed : (position, ⟨.commit (.applyTxUpdates updates), reply⟩) ∈ later.calls) :
    (position, ⟨.commit (.applyTxUpdates updates), reply⟩) ∈ s.calls ∨
    later.calls = s.calls ++ [(position, ⟨.commit (.applyTxUpdates updates), .ok ()⟩)] ∧
      ∀ target, later.index.record? target =
        (s.index.record? target).map (Index.updatedBy (Index.recordsFor target updates)) := by
  cases step with
  | enter c task => exact .inl listed
  | call present responds =>
      refine (List.mem_append.mp listed).imp_right fun new => ?_
      cases List.mem_singleton.mp new
      cases responds
      exact ⟨rfl, s.index.record?_applyTxUpdates updates⟩

theorem Step.record?_becomes (run : Relation.ReflTransGen Step (start checksUntilConfirm) s)
    (step : Step s later) {target : TxRef} {r : TxRecord} (found : s.index.record? target = some r) :
    ∃ after, later.index.record? target = some after ∧ r.Becomes after := by
  cases step.records run with
  | unchanged same => exact ⟨r, (same target).trans found, .refl r⟩
  | updates _ brought =>
      rw [brought, found]
      exact ⟨_, rfl, Index.updatedBy_becomes _ r⟩
  | carries _ _ _ _ receives =>
      refine ⟨r, ?_, .refl r⟩
      rw [receives.filled, if_neg ?_, found]
      intro listed
      cases (receives.free target listed).symm.trans found

theorem Step.handle?_eq (run : Relation.ReflTransGen Step (start checksUntilConfirm) s)
    (step : Step s later) {target : TxRef} {handle : TxHandle}
    (carried : s.index.handle? target = some handle) : later.index.handle? target = some handle := by
  obtain ⟨r, found, rfl⟩ := Option.map_eq_some_iff.mp carried
  obtain ⟨after, kept, becomes⟩ := step.record?_becomes run found
  rw [Index.handle?, kept, Option.map_some, becomes.handle]

structure Tells (ledger : SimulatedLedger) (calls : List (Nat × Exchange)) (handle : TxHandle) : Prop where
  counts : ledger.Counts handle (calls.countP fun call => call.2.asks handle)
  answers : ∀ position reply, (position, ⟨.check handle, reply⟩) ∈ calls → reply = .ok ⟨none, .submitted⟩ ∨
    ledger.checksUntilConfirm.toNat ≤ (calls.countP fun call => call.2.asks handle) ∧
      ∃ t, reply = .ok ⟨some 0, .confirmed t⟩
  unconfirmed : (calls.countP fun call => call.2.leavesOpen handle) =
    min (calls.countP fun call => call.2.asks handle) (ledger.checksUntilConfirm.toNat - 1)

section Tells

variable {ledger after : SimulatedLedger} {calls : List (Nat × Exchange)} {handle : TxHandle}
  {index next : Index} {issued known : List TxHandle} {r : Request} {reply : r.Reply}

theorem tells_of_submit (unasked : ∀ call ∈ calls, ¬call.2.asks handle) (counts : ledger.Counts handle 0) :
    Tells ledger calls handle := by
  have none_asked : (calls.countP fun call => call.2.asks handle) = 0 := List.countP_eq_zero.mpr unasked
  have none_open : (calls.countP fun call => call.2.leavesOpen handle) = 0 :=
    List.countP_eq_zero.mpr fun call listed leaves => unasked call listed (Exchange.asks_of_leavesOpen leaves)
  refine ⟨none_asked ▸ counts, ?_, ?_⟩
  · intro position reply listed
    exact (unasked _ listed (Exchange.asks_check handle _)).elim
  · rw [none_asked, none_open, Nat.zero_min]

theorem Tells.unasked (tells : Tells ledger calls handle) {call : Nat × Exchange}
    (other : ¬call.2.asks handle) (same : after.checksUntilConfirm = ledger.checksUntilConfirm)
    (counts : ∀ count, ledger.Counts handle count → after.Counts handle count) :
    Tells after (calls ++ [call]) handle := by
  have asked : ((calls ++ [call]).countP fun call => call.2.asks handle) =
      calls.countP fun call => call.2.asks handle := by
    rw [List.countP_append, List.countP_singleton, if_neg other, Nat.add_zero]
  have left : ((calls ++ [call]).countP fun call => call.2.leavesOpen handle) =
      calls.countP fun call => call.2.leavesOpen handle := by
    rw [List.countP_append, List.countP_singleton, if_neg (mt Exchange.asks_of_leavesOpen other),
      Nat.add_zero]
  refine ⟨asked ▸ counts _ tells.counts, ?_, ?_⟩
  · intro position reply listed
    rw [asked, same]
    rcases List.mem_append.mp listed with old | new
    · exact tells.answers position reply old
    · obtain rfl := List.mem_singleton.mp new
      exact (other (Exchange.asks_check handle _)).elim
  · rw [asked, left, same]
    exact tells.unconfirmed

theorem Tells.check (tells : Tells ledger calls handle) (t : Instant) (position : Nat) :
    Tells (ledger.check t handle).2
      (calls ++ [(position, ⟨.check handle, .ok (ledger.check t handle).1⟩)]) handle := by
  obtain ⟨answer, counts⟩ := tells.counts.check t
  have asked : ((calls ++ [(position, (⟨.check handle, .ok (ledger.check t handle).1⟩ : Exchange))]).countP
      fun call => call.2.asks handle) = (calls.countP fun call => call.2.asks handle) + 1 := by
    rw [List.countP_append, List.countP_singleton, if_pos (Exchange.asks_check handle _)]
  refine ⟨asked ▸ counts, ?_, ?_⟩
  · intro other reply listed
    rw [asked, SimulatedLedger.checksUntilConfirm_check]
    rcases List.mem_append.mp listed with old | new
    · refine (tells.answers other reply old).imp_right ?_
      rintro ⟨enough, confirmed⟩
      exact ⟨Nat.le_add_right_of_le enough, confirmed⟩
    · cases List.mem_singleton.mp new
      rw [answer]
      split
      · exact .inl rfl
      · rename_i enough
        exact .inr ⟨Nat.le_of_not_lt enough, t, rfl⟩
  · rw [asked, SimulatedLedger.checksUntilConfirm_check, List.countP_append, List.countP_singleton,
      tells.unconfirmed, answer]
    by_cases further :
        (calls.countP fun call => call.2.asks handle) + 1 < ledger.checksUntilConfirm.toNat
    · rw [if_pos further]
      have leaves : Exchange.leavesOpen handle ⟨.check handle, .ok ⟨none, .submitted⟩⟩ := by
        simp [Exchange.leavesOpen, TxOutcome.state]
      rw [if_pos leaves]
      omega
    · rw [if_neg further]
      have settles : ¬Exchange.leavesOpen handle ⟨.check handle, .ok ⟨some 0, .confirmed t⟩⟩ := by
        simp [Exchange.leavesOpen, TxOutcome.state]
      rw [if_neg settles]
      omega

theorem Tells.responds (tells : Tells ledger calls handle) (given : handle ∈ issued)
    (responds : Responds index issued ledger r reply next known after) (position : Nat) :
    Tells after (calls ++ [(position, ⟨r, reply⟩)]) handle := by
  have same := responds.checksUntilConfirm
  cases responds with
  | submit t action payload mode fresh =>
      refine tells.unasked Bool.false_ne_true same fun count counts => ?_
      apply counts.submit
      rintro rfl
      exact fresh given
  | check t other =>
      by_cases own : other = handle
      · subst own
        exact tells.check t position
      · have unlike : ¬(⟨.check other, .ok (ledger.check t other).1⟩ : Exchange).asks handle := by
          simpa [Exchange.asks] using own
        exact tells.unasked unlike same fun count counts => counts.check_other t (Ne.symm own)
  | _ => exact tells.unasked Bool.false_ne_true same fun _ counts => counts

end Tells

structure Sound (s : Simulation) : Prop where
  reads : ∀ position scope reply, (position, ⟨.query (.pending scope), reply⟩) ∈ s.calls →
    ∃ items : List PendingTx, reply = .ok items ∧ ∀ item ∈ items,
      scope.contains item.target.event ∧ s.index.handle? item.target = some item.record.handle
  submits : ∀ position action payload mode reply,
    (position, ⟨.submit action payload mode, reply⟩) ∈ s.calls → ∃ r, reply = .ok r ∧
      r.handle ∈ s.issued ∧ (r.outcome.state = .confirmed ∨
        r.fee = none ∧ r.outcome = .submitted ∧ Tells s.ledger s.calls r.handle)

theorem Sound.carried_of_read (sound : s.Sound) {position : Nat} {scope : Scope} {items : List PendingTx}
    (read : (position, ⟨.query (.pending scope), .ok items⟩) ∈ s.calls) :
    ∀ item ∈ items, scope.contains item.target.event ∧
      s.index.handle? item.target = some item.record.handle := by
  obtain ⟨others, same, all⟩ := sound.reads position scope _ read
  obtain rfl := Except.ok.inj same
  exact all

theorem Sound.carried (sound : s.Sound) (run : Relation.ReflTransGen Step (start checksUntilConfirm) s)
    {position : Nat} {handle : TxHandle} {reply : Except LedgerError TxCheck}
    (listed : (position, ⟨.check handle, reply⟩) ∈ s.calls) :
    ∃ (scope : Scope) (items : List PendingTx),
      (position, ⟨.query (.pending scope), .ok items⟩) ∈ s.calls ∧ ∃ item ∈ items,
        item.record.handle = handle ∧ scope.contains item.target.event ∧
        s.index.handle? item.target = some handle := by
  obtain ⟨scope, items, read, item, member, same⟩ := (passed_of_run run position).asked (mem_own.mpr listed)
  obtain ⟨covered, carried⟩ := sound.carried_of_read (mem_own.mp read) item member
  exact ⟨scope, items, mem_own.mp read, item, member, same, covered, same ▸ carried⟩

theorem Sound.reads_step (sound : s.Sound)
    (run : Relation.ReflTransGen Step (start checksUntilConfirm) s) (step : Step s later) :
    ∀ position scope reply, (position, ⟨.query (.pending scope), reply⟩) ∈ later.calls →
      ∃ items : List PendingTx, reply = .ok items ∧ ∀ item ∈ items,
        scope.contains item.target.event ∧ later.index.handle? item.target = some item.record.handle := by
  intro position scope reply listed
  have old (before : (position, ⟨.query (.pending scope), reply⟩) ∈ s.calls) :
      ∃ items : List PendingTx, reply = .ok items ∧ ∀ item ∈ items,
        scope.contains item.target.event ∧
          later.index.handle? item.target = some item.record.handle := by
    obtain ⟨items, same, all⟩ := sound.reads position scope reply before
    refine ⟨items, same, ?_⟩
    intro item member
    exact ⟨(all item member).1, step.handle?_eq run (all item member).2⟩
  cases step with
  | enter c task => exact old listed
  | call present responds =>
      rcases List.mem_append.mp listed with before | new
      · exact old before
      · cases List.mem_singleton.mp new
        cases responds with
        | query q =>
            refine ⟨s.index.pending scope, rfl, ?_⟩
            intro item member
            obtain ⟨covered, found, -⟩ :=
              (Index.mem_pending_iff (made_of_run run).lifecycle.toKeyed).mp member
            exact ⟨covered, by rw [Index.handle?, found, Option.map_some]⟩

theorem Sound.submits_step (sound : s.Sound)
    (run : Relation.ReflTransGen Step (start checksUntilConfirm) s) (step : Step s later) :
    ∀ position action payload mode reply, (position, ⟨.submit action payload mode, reply⟩) ∈ later.calls →
      ∃ r, reply = .ok r ∧ r.handle ∈ later.issued ∧ (r.outcome.state = .confirmed ∨
        r.fee = none ∧ r.outcome = .submitted ∧ Tells later.ledger later.calls r.handle) := by
  intro position action payload mode reply listed
  cases step with
  | enter c task => exact sound.submits position action payload mode reply listed
  | @call caller task request next handles issued answer index ledger present responds =>
      rcases List.mem_append.mp listed with before | new
      · obtain ⟨r, same, given, told⟩ := sound.submits position action payload mode reply before
        refine ⟨r, same, responds.subset given, ?_⟩
        refine told.imp_right ?_
        rintro ⟨free, state, tells⟩
        exact ⟨free, state, tells.responds given responds caller⟩
      · cases List.mem_singleton.mp new
        cases responds with
        | submit t action payload mode fresh =>
            refine ⟨_, rfl, List.mem_cons_self, ?_⟩
            refine (SimulatedLedger.submit_cases t action payload mode).imp_right ?_
            rintro ⟨free, state, counts⟩
            refine ⟨free, state, tells_of_submit ?_ counts⟩
            -- Nothing asks about a handle that has not been given out.
            rintro ⟨other, call⟩ listed asks
            obtain ⟨reply, rfl⟩ := Exchange.eq_of_asks asks
            rcases List.mem_append.mp listed with before | new
            · obtain ⟨_, _, _, item, _, _, _, carried⟩ := sound.carried run before
              exact fresh ((accounted_of_run run).given.rows _ _ carried)
            · cases List.mem_singleton.mp new

theorem sound_of_run (run : Relation.ReflTransGen Step (start checksUntilConfirm) s) : s.Sound := by
  induction run with
  | refl => exact ⟨nofun, nofun⟩
  | tail before step ih => exact ⟨ih.reads_step before step, ih.submits_step before step⟩

theorem Sound.tells_of_submitted (sound : s.Sound) {position : Nat} {action : LedgerAction}
    {payload : Json.Value} {mode : ConfirmMode} {r : TxResult}
    (listed : (position, ⟨.submit action payload mode, .ok r⟩) ∈ s.calls)
    (waiting : r.outcome.state = .submitted) : r.fee = none ∧ Tells s.ledger s.calls r.handle := by
  obtain ⟨result, same, -, confirmed | ⟨free, -, tells⟩⟩ := sound.submits position action payload mode _ listed
  · obtain rfl := Except.ok.inj same
    cases waiting.symm.trans confirmed
  · obtain rfl := Except.ok.inj same
    exact ⟨free, tells⟩

theorem Sound.unread (sound : s.Sound) {handle : TxHandle}
    (uncarried : ∀ target, s.index.handle? target ≠ some handle) {position : Nat} {scope : Scope}
    {items : List PendingTx} (read : (position, ⟨.query (.pending scope), .ok items⟩) ∈ s.calls) :
    ∀ item ∈ items, item.record.handle ≠ handle := by
  intro item member same
  exact uncarried item.target (same ▸ (sound.carried_of_read read item member).2)

def inPass (s : Simulation) (position : Nat) : Bool :=
  s.callers[position]?.any fun caller => caller.rest.inPass

theorem concluded_of_run (run : Relation.ReflTransGen Step (start checksUntilConfirm) s) {position : Nat}
    (left : s.inPass position = false) {scope : Scope} {items : List PendingTx}
    (listed : (position, ⟨.query (.pending scope), .ok items⟩) ∈ s.calls) : ∃ told : Findings,
      (∀ item ∈ items, ∃ reply, told.lookup item.record.handle = some reply ∧
        (position, ⟨.check item.record.handle, reply⟩) ∈ s.calls) ∧
      (told.updates items ≠ [] →
        ∃ reply, (position, ⟨.commit (.applyTxUpdates (told.updates items)), reply⟩) ∈ s.calls) := by
  have inside := (callers_of_run run (fun _ _ _ => True) (fun _ _ => trivial) fun _ _ _ _ _ => id).1 _ listed
  have found := List.getElem?_eq_getElem inside
  have apart : s.callers[position].rest.inPass = false := by
    rw [inPass, found] at left
    exact left
  obtain ⟨told, asked, own, made⟩ := (passes_of_run run found).concluded apart (mem_own.mpr listed)
  refine ⟨told, ?_, ?_⟩
  · intro item member
    have known : item.record.handle ∈ told.handles := by
      rw [asked, mem_firsts]
      exact List.mem_map_of_mem member
    obtain ⟨reply, found⟩ := Option.ne_none_iff_exists'.mp (Findings.lookup_ne_none.mpr known)
    exact ⟨reply, found, mem_own.mp (own (Findings.mem_calls_of_lookup found))⟩
  · intro nonempty
    obtain ⟨reply, committed⟩ := made nonempty
    exact ⟨reply, mem_own.mp committed⟩

theorem call_of_last {first : Simulation} (callers : List Caller) {index later : Index}
    {issued known : List TxHandle} {ledger after : SimulatedLedger} {calls : List (Nat × Exchange)} {task : Task}
    {r : Request} {next : r.Reply → Program (Except Failure task.Result)} {handles : List TxHandle}
    {reply : r.Reply}
    (run : Relation.ReflTransGen Step first
      ⟨⟨index, issued, callers ++ [⟨task, .ask r next, handles⟩]⟩, ledger, calls⟩)
    (responds : Responds index issued ledger r reply later known after) :
    Relation.ReflTransGen Step first
      ⟨⟨later, known, callers ++ [⟨task, next reply, handles ++ r.obtained reply⟩]⟩, after,
        calls ++ [(callers.length, ⟨r, reply⟩)]⟩ := by
  have called := run.tail (.call List.getElem?_concat_length responds)
  have replaced (old new : Caller) : (callers ++ [old]).set callers.length new = callers ++ [new] := by simp
  rw [replaced] at called
  exact called

end Simulation

end Curtail
