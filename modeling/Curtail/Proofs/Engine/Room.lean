import Curtail.Proofs.Engine.Crowd
import Curtail.Proofs.Engine.Offers
import Curtail.Proofs.Engine.Passage
import Curtail.Proofs.Index.Refusal
import Curtail.Proofs.Index.Size

/-!
Whether what the engine offers to a journaled store fits in one frame. A proof is weighed before the ledger
is called, and what is kept for the rest of its commit suffices. Batches are not weighed: up to a number they
fit in any case, and beyond another number they never do.
-/

namespace Curtail

open Journal Json

/-- The store may have been used by others between the calls. -/
def Exchange.IsJournaled : Exchange → Prop
  | ⟨.now, t⟩ => t.inRange = true
  | ⟨.commitLimit, limit⟩ => limit = some JournaledIndex.maxChangeBytes
  | ⟨.commit change, reply⟩ => ∃ (store : JournaledIndex) (file : Bytes) (fate : WriteFate),
      reply = (store.commit file fate change).1
  | ⟨.submit .., .ok result⟩ => (TxRecord.ofResult result).IsShort
  | _ => True

theorem Instant.inRange_wholeSecond {t : Instant} (within : t.inRange = true) :
    t.wholeSecond.inRange = true := by
  have seconds : t.wholeSecond.seconds = t.seconds := by
    unfold wholeSecond
    split
    · rfl
    · unfold ofParts?
      by_cases leap : 1000000000 < 2000000000 ∧ (1000000000 ≤ 1000000000 → t.seconds % 60 = 59)
      · rw [dif_pos leap]
      · rw [dif_neg leap]
  unfold inRange at within ⊢
  rwa [seconds]

namespace Change

def IsOrphan : Change → Prop
  | .recordOrphan _ => True
  | _ => False

def Spends (calls : List Exchange) : Change → Prop
  | .settleEvent _ rows _ => ∃ action body mode sent, ⟨.submit action body mode, .ok sent⟩ ∈ calls ∧
      ∀ row ∈ rows, row.settleTx = .ofResult sent
  | _ => True

variable {change : Change} {reply : Except StoreError Unit}

theorem Fits.not_too_large (fits : change.Fits)
    (journaled : Exchange.IsJournaled ⟨.commit change, reply⟩) (size : Nat) :
    reply ≠ .error (.journal (.payloadTooLarge size)) := by
  obtain ⟨store, file, fate, rfl⟩ := journaled
  intro same
  generalize committed : store.commit file fate change = outcome at same
  obtain ⟨result, after, left⟩ := outcome
  obtain rfl : result = .error (.journal (.payloadTooLarge size)) := same
  cases JournaledIndex.refuses_of_commit committed with
  | tooLarge checked large => exact large (fits _)

theorem Outgrows.not_accepted (outgrows : change.Outgrows)
    (journaled : Exchange.IsJournaled ⟨.commit change, reply⟩) : reply ≠ .ok () := by
  obtain ⟨store, file, fate, rfl⟩ := journaled
  cases checked : store.index.check change with
  | error cause =>
      have refused : store.Refuses fate change _ := .rejected checked
      rw [refused.commit_error file]
      nofun
  | ok _ =>
      have refused : store.Refuses fate change _ := .tooLarge checked (outgrows _)
      rw [refused.commit_error file]
      nofun

end Change

namespace Reconciliation.Informed

variable {assumed : Exchange → Prop} {scope : Scope} {items : List PendingTx} {told : Findings}
  {item : PendingTx}

theorem answer (informed : Informed assumed scope items told) (clean : told.failures = [])
    (present : item ∈ items) : ∃ check, told.lookup item.record.handle = some (.ok check) ∧
      assumed ⟨.check item.record.handle, .ok check⟩ := by
  have asked : item.record.handle ∈ told.handles := by
    rw [informed.asked, mem_firsts]
    exact List.mem_map_of_mem present
  obtain ⟨reply, given⟩ := Option.ne_none_iff_exists'.mp (Findings.lookup_ne_none.mpr asked)
  obtain ⟨check, rfl⟩ := Findings.answered_of_clean clean given
  exact ⟨check, given, informed.told _ (Findings.mem_calls_of_lookup given)⟩

theorem of_update? (informed : Informed assumed scope items told) {u : TxUpdate}
    (made : told.update? item = some u) : u.target = item.target ∧ ∃ check,
      assumed ⟨.check item.record.handle, .ok check⟩ ∧ item.record.advanced check = some u.record := by
  obtain ⟨record, found, rfl⟩ := Option.map_eq_some_iff.mp made
  obtain ⟨reply, given, answered⟩ := Option.bind_eq_some_iff.mp found
  cases reply with
  | error e => cases answered
  | ok check => exact ⟨rfl, check, informed.told _ (Findings.mem_calls_of_lookup given), answered⟩

end Reconciliation.Informed

def Submission.notice (s : Submission) (hash : ProofHash) : Value :=
  .record [("event_id", .string s.event.text), ("site_id", .string s.site.text),
    ("baseline_kwh", .nat s.baseline.toNat), ("actual_kwh", .nat s.actual.toNat),
    ("proof_hash", .string hash.text), ("uri", .string s.uri)]

namespace Operation

theorem quotedSize_eq (s : String) : quotedSize s = (Tree.text s).size := rfl

theorem fits_of_weighed {s : Submission} {t : Instant} {payload : Payload} {tx : TxRecord}
    (admitted : (s.proof payload tx t).IsAdmitted) (made : Payload.of? (s.input t) = .ok payload)
    (weighed : Weighed (some JournaledIndex.maxChangeBytes) payload.text s.uri)
    (within : t.inRange = true) (short : tx.IsShort) : (Change.insertProof (s.proof payload tx t)).Fits := by
  have plain : (s.proof payload tx t).hash.IsPlain := by
    change payload.hash.IsPlain
    rw [Payload.hash_eq made]
    exact ProofHash.ofBytes_isPlain _
  have size := Proof.size_le admitted plain within short
  have room := weighed _ rfl
  rw [quotedSize_eq, quotedSize_eq] at room
  change _ ≤ (Tree.text payload.text).size + (Tree.text s.uri).size + _ + _ at size
  apply Change.fits_insertProof
  -- 16 KiB are kept: 14 for the record of the transaction, and the rest for all other members.
  unfold JournaledIndex.maxChangeBytes JournaledIndex.envelopeBytes maxPayload proofHeadroom at room
  unfold TxRecord.shortSize at size
  unfold maxPayload
  omega

theorem Offers.fits {α : Type} {op : Operation α} {ends : α → Prop} {calls : List Exchange}
    {result : Except Failure α}
    (offers : op.Offers (· ∈ calls) (fun change => ¬change.IsOrphan → change.Fits) ends)
    (talks : op.run.Talks calls result) (journaled : ∀ call ∈ calls, call.IsJournaled) {change : Change}
    {reply : Except StoreError Unit} (listed : (⟨.commit change, reply⟩ : Exchange) ∈ calls)
    (own : ¬change.IsOrphan) :
    change.Fits ∧ ∀ size, reply ≠ .error (.journal (.payloadTooLarge size)) := by
  have fits := (offers.of_talks talks).1 change reply listed own
  exact ⟨fits, fits.not_too_large (journaled _ listed)⟩

theorem submitProof_offers_fitting {assumed : Exchange → Prop} (c : Configuration) {s : Submission}
    (event : s.event.IsAdmitted) (site : s.site.IsAdmitted) (method : s.method.IsAdmitted)
    (submitter : s.submitter.IsAdmitted)
    (journaled : ∀ call, assumed call → call.isCommit = false → call.IsJournaled) :
    (submitProof c s).Offers assumed (fun change => ¬change.IsOrphan → change.Fits)
      fun p => assumed ⟨.commit (.insertProof p), .ok ()⟩ := by
  apply submitProof_offers c fun _ own => (own trivial).elim
  intro t payload limit action body mode result clock made limited weighed submitted _
  obtain rfl : limit = some JournaledIndex.maxChangeBytes := journaled _ limited rfl
  exact fits_of_weighed ⟨event, site, method, submitter⟩ made weighed
    (Instant.inRange_wholeSecond (journaled _ clock rfl)) (journaled _ submitted rfl)

/-- A proof that has been found small enough is never refused for its size once its transaction is
submitted. -/
theorem submitProof_fits {c : Configuration} {s : Submission} (event : s.event.IsAdmitted)
    (site : s.site.IsAdmitted) (method : s.method.IsAdmitted) (submitter : s.submitter.IsAdmitted)
    {calls : List Exchange} {result : Except Failure Proof}
    (talks : (submitProof c s).run.Talks calls result) (journaled : ∀ call ∈ calls, call.IsJournaled) :
    ∀ p reply, (⟨.commit (.insertProof p), reply⟩ : Exchange) ∈ calls →
      (∀ seq, (JournaledIndex.frameOf ⟨seq, .insertProof p⟩).Fits) ∧
      ∀ size, reply ≠ .error (.journal (.payloadTooLarge size)) := by
  have offers := @submitProof_offers_fitting (· ∈ calls) c s event site method submitter
    fun call listed _ => journaled call listed
  exact fun p reply listed => offers.fits talks journaled listed id

theorem talks_checkProofSize {α : Type} {payload uri : String} {limit : Option Nat}
    (weighed : Weighed limit payload uri) {f : Unit → Operation α} {calls : List Exchange}
    {result : Except Failure α} (others : (f ()).run.Talks calls result) :
    (checkProofSize payload uri >>= f).run.Talks (⟨.commitLimit, limit⟩ :: calls) result := by
  refine .ask ?_
  cases limit with
  | none => exact others
  | some most =>
      change ((if _ then _ else _ : Operation Unit) >>= f).run.Talks calls result
      rw [if_neg (Nat.not_lt.mpr (weighed most rfl))]
      exact others

def smoothCalls (c : Configuration) (s : Submission) (event : Event) (t : Instant) (limit : Option Nat)
    (sent : TxResult) (payload : Payload) : List Exchange :=
  [⟨.query (.event s.event), .ok (some event)⟩, ⟨.query (.proof ⟨s.event, s.site⟩), .ok none⟩,
    ⟨.now, t⟩, ⟨.commitLimit, limit⟩, ⟨.submit .submitProof (s.notice payload.hash) c.mode, .ok sent⟩,
    ⟨.commit (.insertProof (s.proof payload (.ofResult sent) t.wholeSecond)), .ok ()⟩]

theorem submitProof_talks (c : Configuration) {s : Submission} (undeclared : s.declaredHash = none)
    {event : Event} (active : event.status = .active) {t : Instant} {payload : Payload}
    (made : Payload.of? (s.input t.wholeSecond) = .ok payload) {limit : Option Nat}
    (weighed : Weighed limit payload.text s.uri) (sent : TxResult) :
    (submitProof c s).run.Talks (smoothCalls c s event t limit sent payload)
      (.ok (s.proof payload (.ofResult sent) t.wholeSecond)) := by
  have ready : makePayload s t.wholeSecond = pure payload := by
    unfold makePayload
    simp only [Submission.input] at made
    simp only [made]
  have free (computed : ProofHash) : checkDeclared s.declaredHash computed = pure () := by
    rw [undeclared]
    rfl
  refine .ask ?_
  change (if event.status ≠ .active then _ else _ : Operation Proof).run.Talks _ _
  rw [if_neg (not_not_intro active)]
  refine .ask (.ask ?_)
  change (makePayload s t.wholeSecond >>= _).run.Talks _ _
  rw [ready]
  change ((checkDeclared s.declaredHash payload.hash) >>= _).run.Talks _ _
  rw [free]
  exact talks_checkProofSize weighed (.ask (.ask (.done _)))

def siteA : Submission :=
  ⟨⟨"DR-1"⟩, ⟨"site-a"⟩, 90, 30, ⟨"meter"⟩, "a.json", none, none, ⟨"participant-a"⟩⟩

theorem siteA_weighed (t : Instant) (clock : t = .ofSeconds 20) :
    ∃ payload, Payload.of? (siteA.input t) = .ok payload ∧
      Weighed (some JournaledIndex.maxChangeBytes) payload.text siteA.uri := by
  refine ⟨_, Payload.of?_eq_ok_iff.mpr ⟨[], rfl, rfl⟩, ?_⟩
  rintro _ ⟨⟩
  have uri : quotedSize siteA.uri = 8 := by decide +kernel
  have text : quotedSize (Payload.value (siteA.input t) []).canonicalText ≤ 1000 := by
    rw [clock, quotedSize_eq, Tree.size_eq]
    change String.utf8Len ('"' :: ((String.ofList _).toList.flatMap Tree.escape ++ ['"'])) ≤ _
    rw [String.toList_ofList]
    decide +kernel
  rw [uri]
  unfold proofHeadroom JournaledIndex.maxChangeBytes JournaledIndex.envelopeBytes maxPayload
  change quotedSize (Payload.value (siteA.input t) []).canonicalText + 8 + 16 * 1024 ≤ _
  omega

theorem submitProof_fits_of_siteA : ∃ (p : Proof) (calls : List Exchange),
    (submitProof .standard siteA).run.Talks calls (.ok p) ∧ (∀ call ∈ calls, call.IsJournaled) ∧
    ⟨.commit (.insertProof p), .ok ()⟩ ∈ calls ∧
    ∀ seq, (JournaledIndex.frameOf ⟨seq, .insertProof p⟩).Fits := by
  let t : Instant := .ofSeconds 20
  let sent : TxResult := ⟨⟨"tx"⟩, none, .submitted, .ofSeconds 10⟩
  have short : (TxRecord.ofResult sent).IsShort := by decide +kernel
  let event := (⟨siteA.event, .ofSeconds 0, .ofSeconds 3600, 100, 3, 1⟩ : EventPlan).event
    (.ofResult sent) (.ofSeconds 10)
  obtain ⟨payload, made, weighed⟩ := siteA_weighed t.wholeSecond rfl
  have talks := @submitProof_talks .standard siteA rfl event rfl t payload made _ weighed sent
  have admitted : siteA.event.IsAdmitted ∧ siteA.site.IsAdmitted ∧ siteA.method.IsAdmitted ∧
      siteA.submitter.IsAdmitted := ⟨by decide, by decide, by decide, by decide⟩
  obtain ⟨eventAdmitted, siteAdmitted, methodAdmitted, submitterAdmitted⟩ := admitted
  have fits : (Change.insertProof (siteA.proof payload (.ofResult sent) t.wholeSecond)).Fits :=
    fits_of_weighed ⟨eventAdmitted, siteAdmitted, methodAdmitted, submitterAdmitted⟩ made weighed rfl short
  let store : JournaledIndex := ⟨Index.empty.apply (.insertEvent event), ⟨headerSize⟩, 1⟩
  have allowed : store.index.Allows
      (.insertProof (siteA.proof payload (.ofResult sent) t.wholeSecond)) :=
    ⟨⟨event, (Table.get?_insert ..).trans (if_pos rfl), rfl⟩, rfl⟩
  have committed := @JournaledIndex.commit_of_fits store header _ rfl (Index.check_eq_ok_iff.mpr allowed)
    (fits _)
  have journaled : ∀ call ∈ smoothCalls .standard siteA event t (some JournaledIndex.maxChangeBytes) sent payload,
      call.IsJournaled := by
    simp only [smoothCalls, List.forall_mem_cons]
    refine ⟨trivial, trivial, rfl, rfl, short, ⟨store, header, .done, ?_⟩, List.forall_mem_nil _⟩
    rw [committed]
  have last : ⟨.commit (.insertProof (siteA.proof payload (.ofResult sent) t.wholeSecond)), .ok ()⟩ ∈
      smoothCalls .standard siteA event t (some JournaledIndex.maxChangeBytes) sent payload :=
    List.mem_append_right [_, _, _, _, _] List.mem_cons_self
  have accepted := submitProof_fits eventAdmitted siteAdmitted methodAdmitted submitterAdmitted talks journaled
  exact ⟨_, _, talks, journaled, last, (accepted _ _ last).1⟩

/-! ## Batches -/

structure SettlesFew (id : EventId) (requested : List SiteId) (calls : List Exchange) : Prop where
  event : id.IsAdmitted
  requested : requested.length ≤ Change.batchRoom ∧ ∀ site ∈ requested, site.IsAdmitted
  proven : ∀ proofs : List Proof, ⟨.query (.proofs id), .ok proofs⟩ ∈ calls →
    proofs.length ≤ Change.batchRoom ∧ ∀ p ∈ proofs, p.site.IsAdmitted

structure PassesFew (scope : Scope) (calls : List Exchange) : Prop where
  waiting : ∀ items : List PendingTx, ⟨.query (.pending scope), .ok items⟩ ∈ calls →
    items.length ≤ Change.batchRoom ∧ ∀ item ∈ items, item.target.IsAdmitted ∧
      ∀ check record, ⟨.check item.record.handle, .ok check⟩ ∈ calls →
        item.record.advanced check = some record → record.IsShort

def SettlesAll (scope : Scope) (calls : List Exchange) (least : Nat) : Prop :=
  ∀ items : List PendingTx, ⟨.query (.pending scope), .ok items⟩ ∈ calls → ∀ item ∈ items, ∀ check,
    ⟨.check item.record.handle, .ok check⟩ ∈ calls →
      ∃ record, item.record.advanced check = some record ∧ least ≤ (encode record).size

theorem length_firsts_le {α : Type} [DecidableEq α] (items : List α) : (firsts items).length ≤ items.length :=
  (List.subperm_of_subset (firsts_nodup items) fun _ => mem_firsts.mp).length_le

theorem SettlesFew.sites {id : EventId} {requested sites : List SiteId} {calls : List Exchange}
    (few : SettlesFew id requested calls)
    (listed : sites = firsts requested ∨ ∃ proofs : List Proof,
      ⟨.query (.proofs id), .ok proofs⟩ ∈ calls ∧ sites = firsts (proofs.map (·.site))) :
    sites.length ≤ Change.batchRoom ∧ ∀ site ∈ sites, site.IsAdmitted := by
  rcases listed with rfl | ⟨proofs, told, rfl⟩
  · obtain ⟨short, admitted⟩ := few.requested
    exact ⟨(length_firsts_le _).trans short, fun site member => admitted site (mem_firsts.mp member)⟩
  · obtain ⟨short, admitted⟩ := few.proven proofs told
    refine ⟨((length_firsts_le _).trans (List.length_map _).le).trans short, ?_⟩
    intro site member
    obtain ⟨p, present, rfl⟩ := List.mem_map.mp (mem_firsts.mp member)
    exact admitted p present

theorem settleEvent_fits {c : Configuration} {id : EventId} {requested : List SiteId}
    {calls : List Exchange} {result : Except Failure (List Settlement)}
    (talks : (settleEvent c id requested).run.Talks calls result)
    (journaled : ∀ call ∈ calls, call.IsJournaled) (few : SettlesFew id requested calls)
    {change : Change} {reply : Except StoreError Unit}
    (listed : (⟨.commit change, reply⟩ : Exchange) ∈ calls) (own : ¬change.IsOrphan) :
    change.Fits ∧ ∀ size, reply ≠ .error (.journal (.payloadTooLarge size)) := by
  have offers := @settleEvent_offers (· ∈ calls) (fun change => ¬change.IsOrphan → change.Fits) id requested
    c (fun _ own => (own trivial).elim) ?_
  · exact offers.fits talks journaled listed own
  intro sites payouts action body mode sent t listed paid submitted clock _
  obtain ⟨count, admitted⟩ := few.sites listed
  have within := Instant.inRange_wholeSecond (journaled _ clock)
  apply Change.fits_settleEvent few.event _ _ within
  · rw [List.forall_mem_map]
    intro pay member
    have site := admitted pay.1 (paid ▸ List.mem_map_of_mem member)
    exact ⟨few.event, site, journaled _ submitted, within, rfl, rfl, rfl⟩
  · rw [List.length_map, ← List.length_map Prod.fst, paid]
    exact count

theorem settleEvent_spends {c : Configuration} {id : EventId} {requested : List SiteId}
    {calls : List Exchange} {result : Except Failure (List Settlement)}
    (talks : (settleEvent c id requested).run.Talks calls result) {change : Change}
    {reply : Except StoreError Unit} (listed : (⟨.commit change, reply⟩ : Exchange) ∈ calls) :
    change.Spends calls := by
  have offers := @settleEvent_offers (· ∈ calls) (Change.Spends calls) id requested c (fun _ => trivial) ?_
  · exact (offers.of_talks talks).1 change reply listed
  intro sites payouts action body mode sent t _ _ submitted _
  refine ⟨action, body, mode, sent, submitted, ?_⟩
  rw [List.forall_mem_map]
  exact fun _ _ => rfl

theorem settleEvent_bounded {c : Configuration} {id : EventId} {requested : List SiteId}
    {calls : List Exchange} {rows : List Settlement}
    (talks : (settleEvent c id requested).run.Talks calls (.ok rows))
    (journaled : ∀ call ∈ calls, call.IsJournaled) {least : Nat}
    (long : ∀ row ∈ rows, least ≤ (encode row.settleTx).size) :
    rows.length * (least + 1) ≤ maxPayload := by
  have offers : (settleEvent c id requested).Offers (· ∈ calls) (fun _ => True) _ :=
    settleEvent_offers c (fun _ => trivial) fun _ _ _ _ _ _ _ _ _ _ _ => trivial
  obtain ⟨settledAt, accepted⟩ := (offers.of_talks talks).2 rows rfl
  by_contra many
  have outgrows := Change.outgrows_settleEvent long (Nat.not_le.mp many) id settledAt
  exact outgrows.not_accepted (journaled _ accepted) rfl

theorem reconcile_fits {scope : Scope} {calls : List Exchange} {result : Except Failure ReconcileReport}
    (talks : (reconcile scope).run.Talks calls result) (journaled : ∀ call ∈ calls, call.IsJournaled)
    (few : PassesFew scope calls) {change : Change} {reply : Except StoreError Unit}
    (listed : (⟨.commit change, reply⟩ : Exchange) ∈ calls) (own : ¬change.IsOrphan) :
    change.Fits ∧ ∀ size, reply ≠ .error (.journal (.payloadTooLarge size)) := by
  have offers := @reconcile_offers (· ∈ calls) (fun change => ¬change.IsOrphan → change.Fits) scope ?_
  · exact offers.fits talks journaled listed own
  intro items told informed _
  obtain ⟨count, good⟩ := few.waiting items informed.listed
  apply Change.fits_applyTxUpdates
  · intro u member
    obtain ⟨item, present, made⟩ := List.mem_filterMap.mp member
    rw [(informed.of_update? made).1]
    exact (good item present).1
  · intro u member
    obtain ⟨item, present, made⟩ := List.mem_filterMap.mp member
    obtain ⟨-, check, answered, advanced⟩ := informed.of_update? made
    exact (good item present).2 check u.record answered advanced
  · exact (List.length_filterMap_le _ _).trans count

theorem reconcile_bounded {scope : Scope} {calls : List Exchange} {report : ReconcileReport}
    (talks : (reconcile scope).run.Talks calls (.ok report))
    (journaled : ∀ call ∈ calls, call.IsJournaled) {least : Nat} (all : SettlesAll scope calls least) :
    ∃ items : List PendingTx, ⟨.query (.pending scope), .ok items⟩ ∈ calls ∧
      items.length * (least + 1) ≤ maxPayload := by
  have offers := @reconcile_offers (· ∈ calls) (fun _ => True) scope fun _ _ _ => trivial
  obtain ⟨items, told, informed, verdict, settled⟩ := (offers.of_talks talks).2 report rfl
  have clean := (Findings.of_verdict verdict).1
  have settles : ∀ item ∈ items, ∃ record, told.update? item = some ⟨item.target, record⟩ ∧
      least ≤ (encode record).size := by
    intro item present
    obtain ⟨check, given, answered⟩ := informed.answer clean present
    obtain ⟨record, advanced, large⟩ := all items informed.listed item present check answered
    refine ⟨record, ?_, large⟩
    simp only [Findings.update?, Findings.record?, given, Option.bind_some, Except.toOption, advanced,
      Option.map_some]
  -- So the updates are as many as the items, and as long.
  have count : (told.updates items).length = items.length := by
    rw [Findings.updates, List.length_filterMap_eq_countP, List.countP_eq_length]
    intro item present
    obtain ⟨record, made, -⟩ := settles item present
    rw [made]
    rfl
  have long : ∀ u ∈ told.updates items, least ≤ (encode u.record).size := by
    intro u member
    obtain ⟨item, present, made⟩ := List.mem_filterMap.mp member
    obtain ⟨record, settled, large⟩ := settles item present
    obtain rfl := Option.some.inj (settled.symm.trans made)
    exact large
  refine ⟨items, informed.listed, ?_⟩
  by_contra many
  rw [Nat.not_le, ← count] at many
  rcases settled with nothing | accepted
  · rw [nothing, List.length_nil, Nat.zero_mul] at many
    exact Nat.not_lt_zero _ many
  · have outgrows := Change.outgrows_applyTxUpdates long many
    exact outgrows.not_accepted (journaled _ accepted) rfl

/-- Batches are not weighed before the ledger is called: up to a number of rows they fit, and none
succeeds that is larger than a frame. -/
theorem batches_fit_up_to_a_frame {calls : List Exchange} (journaled : ∀ call ∈ calls, call.IsJournaled) :
    (∀ c id requested result, (settleEvent c id requested).run.Talks calls result →
      (SettlesFew id requested calls → ∀ change reply, (⟨.commit change, reply⟩ : Exchange) ∈ calls →
        ¬change.IsOrphan → ∀ size, reply ≠ .error (.journal (.payloadTooLarge size))) ∧
      (∀ event rows settledAt reply,
        (⟨.commit (.settleEvent event rows settledAt), reply⟩ : Exchange) ∈ calls →
          ∃ action body mode sent, ⟨.submit action body mode, .ok sent⟩ ∈ calls ∧
            ∀ row ∈ rows, row.settleTx = .ofResult sent) ∧
      ∀ rows least, result = .ok rows → (∀ row ∈ rows, least ≤ (encode row.settleTx).size) →
        rows.length * (least + 1) ≤ maxPayload) ∧
    (∀ scope result, (reconcile scope).run.Talks calls result →
      (PassesFew scope calls → ∀ change reply, (⟨.commit change, reply⟩ : Exchange) ∈ calls →
        ¬change.IsOrphan → ∀ size, reply ≠ .error (.journal (.payloadTooLarge size))) ∧
      ∀ report least, result = .ok report → SettlesAll scope calls least →
        ∃ items : List PendingTx, ⟨.query (.pending scope), .ok items⟩ ∈ calls ∧
          items.length * (least + 1) ≤ maxPayload) := by
  refine ⟨fun c id requested result talks => ⟨?_, ?_, ?_⟩, fun scope result talks => ⟨?_, ?_⟩⟩
  · exact fun few change reply listed own => (settleEvent_fits talks journaled few listed own).2
  · exact fun event rows settledAt reply listed => settleEvent_spends talks listed
  · rintro rows least rfl long
    exact settleEvent_bounded talks journaled long
  · exact fun few change reply listed own => (reconcile_fits talks journaled few listed own).2
  · rintro report least rfl all
    exact reconcile_bounded talks journaled all

end Operation

def crowdAnswer (store : JournaledIndex) (file : Bytes) : (r : Request) → r.Reply
  | .now => Instant.ofSeconds 20
  | .commitLimit => some JournaledIndex.maxChangeBytes
  | .query q => .ok (store.index.answer q)
  | .commit change => (store.commit file .done change).1
  | .submit .. => .error (.rejected "closed")
  | .check _ => .ok (crowdCheck 14200)

theorem crowdAnswer_isJournaled {store : JournaledIndex} {file : Bytes} {call : Exchange}
    (answered : call.reply = crowdAnswer store file call.request) : call.IsJournaled := by
  obtain ⟨r, reply⟩ := call
  obtain rfl : reply = crowdAnswer store file r := answered
  cases r with
  | now => rfl
  | commitLimit => rfl
  | commit change => exact ⟨store, file, .done, rfl⟩
  | query q => trivial
  | submit action payload mode => trivial
  | check handle => trivial

/-- A pass over 1200 pending events fails though each of its checks is answered. -/
theorem pass_over_crowd : ∃ (store : JournaledIndex) (file : Bytes) (calls : List Exchange)
    (result : Except Failure ReconcileReport), Held store file ∧ store.index.Made ∧
    (∀ item ∈ store.index.pending .all, item.target.IsAdmitted ∧
      ∀ record, item.record.advanced (crowdCheck 14200) = some record → record.IsShort) ∧
    (Operation.reconcile .all).run.Talks calls result ∧
    (∀ call ∈ calls, call.reply = crowdAnswer store file call.request) ∧
    ∀ report, result ≠ .ok report := by
  obtain ⟨store, file, crowd⟩ := exists_crowd (show 1200 ≤ 10 ^ 4 by decide)
  obtain ⟨record, advanced, size⟩ := crowdTx_advanced 14200
  obtain ⟨calls, talks, answered⟩ :=
    Program.talks_comesTo (crowdAnswer store file) (Operation.reconcile .all).run
  refine ⟨store, file, calls, _, crowd.held, crowd.made, ?_, talks, answered, ?_⟩
  · intro item listed
    obtain ⟨i, within, rfl⟩ := crowd.mem_pending.mp listed
    refine ⟨crowdId_isAdmitted (by omega), ?_⟩
    intro other made
    obtain rfl := Option.some.inj (advanced.symm.trans made)
    exact Nat.le_trans (Nat.le_of_eq size) (by decide)
  · intro report done
    have journaled : ∀ call ∈ calls, call.IsJournaled := fun call listed =>
      crowdAnswer_isJournaled (answered call listed)
    have listing (items : List PendingTx) (listed : ⟨.query (.pending .all), .ok items⟩ ∈ calls) :
        items = store.index.pending .all := Except.ok.inj (answered _ listed)
    have settles : Operation.SettlesAll .all calls 14281 := by
      intro items listed item member check told
      rw [listing items listed] at member
      obtain ⟨i, -, rfl⟩ := crowd.mem_pending.mp member
      obtain rfl : check = crowdCheck 14200 := Except.ok.inj (answered _ told)
      exact ⟨record, advanced, Nat.le_of_eq size.symm⟩
    have bounded := ((Operation.batches_fit_up_to_a_frame journaled).2 _ _ talks).2 report 14281 done settles
    obtain ⟨items, listed, small⟩ := bounded
    rw [listing items listed] at small
    have count := crowd.le_length_pending
    unfold maxPayload at small
    omega

end Curtail
