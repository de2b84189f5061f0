import Curtail.Proofs.Engine.Room
import Mathlib.Data.List.TFAE
import Mathlib.Tactic.TFAE

namespace Curtail

namespace ProofHash

theorem isBlank_of_mem_text {h : ProofHash} (plain : h.IsPlain) {c : Char} (listed : c ∈ h.text.toList) :
    Text.isBlank c = false := by
  rw [toList_text] at listed
  rcases List.mem_append.mp listed with named | digit
  · have inked : scheme.toList.all (fun d => !Text.isBlank d) = true := by decide
    simpa using List.all_eq_true.mp inked c named
  · have bounds := isLowerHex_iff.mp (List.all_eq_true.mp plain.2 c digit)
    rw [← Bool.not_eq_true]
    simp only [Text.isBlank, Bool.or_eq_true, Bool.and_eq_true, decide_eq_true_eq, beq_iff_eq]
    omega

theorem trim_of_blank_around {h : ProofHash} (plain : h.IsPlain) {front core back : List Char}
    (blank : ∀ c ∈ front ++ back, Text.isBlank c = true) (same : Text.lower core = h.text.toList) :
    Text.trim (front ++ core ++ back) = core := by
  apply Text.trim_append blank
  · rintro rfl
    rw [toList_text] at same
    cases same
  · intro c listed
    rw [← Text.isBlank_toLower]
    exact isBlank_of_mem_text plain (same ▸ List.mem_map_of_mem listed)

theorem declares_ofBytes_tfae (declared : String) (bytes : Bytes) :
    [declares declared (ofBytes bytes) = true,
      Text.lower (Text.trim declared.toList) = Text.lower (ofBytes bytes).text.toList,
      ∃ front core back, declared.toList = front ++ core ++ back ∧
        (∀ c ∈ front ++ back, Text.isBlank c = true) ∧
        Text.lower core = Text.lower (ofBytes bytes).text.toList].TFAE := by
  have plain := ofBytes_isPlain bytes
  rw [lower_text plain]
  tfae_have 1 ↔ 2 := declares_eq_true_iff plain
  tfae_have 2 → 3 := by
    intro same
    obtain ⟨front, back, parts, blank⟩ := Text.exists_eq_append_trim declared.toList
    exact ⟨front, _, back, parts, blank, same⟩
  tfae_have 3 → 2 := by
    rintro ⟨front, core, back, parts, blank, same⟩
    rw [parts, trim_of_blank_around plain blank same, same]
  tfae_finish

end ProofHash

namespace Program

variable {α σ : Type} (answer : (r : Request) → σ → r.Reply × σ)

theorem Offers.ends_run {right : Change → Prop} {ends : α → Prop} {p : Program α}
    (offers : p.Offers (fun _ => True) right ends) (s : σ) : ends (p.run answer s).1 := by
  induction p generalizing s with
  | done a => exact offers
  | ask r next ih => exact ih _ (offers.2 _ trivial) _

end Program

namespace Operation

/-- What a submission comes to before its declared hash is looked at. -/
def evidence (s : Submission) : Operation (Instant × Payload) := do
  let event ← requireEvent s.event
  if event.status ≠ .active then fail (.eventNotActive event.id event.status)
  let found ← query (.proof ⟨s.event, s.site⟩)
  if found.isSome then fail (.proofExists ⟨s.event, s.site⟩)
  let submittedAt ← now
  let payload ← makePayload s submittedAt
  return (submittedAt, payload)

def deliver (c : Configuration) (s : Submission) (submittedAt : Instant) (payload : Payload) :
    Operation Proof := do
  checkProofSize payload.text s.uri
  let tx ← submit c.mode .submitProof (s.notice payload.hash)
  let proof := s.proof payload tx submittedAt
  commitSubmitted .submitProof proof.event (some proof.site) tx (.insertProof proof)
  return proof

theorem submitProof_eq (c : Configuration) (s : Submission) :
    submitProof c s = evidence s >>= fun made => checkDeclared s.declaredHash made.2.hash >>= fun _ =>
      deliver c s made.1 made.2 := by
  unfold evidence
  rw [bind_assoc]
  refine congrArg (requireEvent s.event >>= ·) (funext fun event => ?_)
  by_cases inactive : event.status ≠ .active
  · simp only [if_pos inactive]
    rfl
  · simp only [if_neg inactive]
    rw [bind_assoc]
    refine congrArg (query (.proof ⟨s.event, s.site⟩) >>= ·) (funext fun found => ?_)
    cases found with
    | some proof => rfl
    | none =>
        change (now >>= fun t => makePayload s t >>= fun payload => _) = (now >>= fun t =>
          makePayload s t >>= fun payload => pure (t, payload)) >>= _
        rw [bind_assoc]
        refine congrArg (now >>= ·) (funext fun submittedAt => ?_)
        rw [bind_assoc]
        rfl

/-- The operation comes to something like this or fails, and that not for a declared hash. -/
structure Spares (found : α → Prop) (op : Operation α) : Prop where
  run : op.run.Offers (fun _ => True) (fun _ => True) fun
    | .ok a => found a
    | .error f => ∀ declared computed, f ≠ .hashMismatch declared computed

namespace Spares

variable {α β : Type} {found : α → Prop}

theorem pure {a : α} (here : found a) : (Pure.pure a : Operation α).Spares found := ⟨here⟩

theorem fail {f : Failure} (other : ∀ declared computed, f ≠ .hashMismatch declared computed) :
    (Operation.fail f : Operation α).Spares found := ⟨other⟩

theorem fail_bind {β : Type} {f : Failure} (other : ∀ declared computed, f ≠ .hashMismatch declared computed)
    (g : β → Operation α) : (Operation.fail f >>= g).Spares found :=
  ⟨other⟩

theorem bind {between : β → Prop} {op : Operation β} {f : β → Operation α} (first : op.Spares between)
    (second : ∀ b, between b → (f b).Spares found) : (op >>= f).Spares found := by
  refine ⟨first.run.andThen ?_⟩
  intro result reached
  cases result with
  | ok b => exact (second b reached).run
  | error e => exact reached

theorem query (q : Query) : (Operation.query q).Spares fun _ => True := by
  refine ⟨trivial, ?_⟩
  rintro (_ | _) -
  · exact nofun
  · trivial

theorem now : Operation.now.Spares fun _ => True := ⟨trivial, fun _ _ => trivial⟩

theorem commitLimit : Operation.commitLimit.Spares fun _ => True := ⟨trivial, fun _ _ => trivial⟩

theorem tryCommit (change : Change) : (Operation.tryCommit change).Spares fun _ => True :=
  ⟨trivial, fun _ _ => trivial⟩

theorem submit (mode : ConfirmMode) (action : LedgerAction) (payload : Json.Value) :
    (Operation.submit mode action payload).Spares fun _ => True := by
  refine ⟨trivial, ?_⟩
  rintro (_ | _) -
  · exact nofun
  · trivial

theorem requireEvent (id : EventId) : (Operation.requireEvent id).Spares fun _ => True := by
  apply (query _).bind
  rintro (_ | event) -
  · exact fail nofun
  · exact .pure trivial

theorem commitSubmitted (action : LedgerAction) (event : EventId) (site : Option SiteId) (tx : TxRecord)
    (change : Change) : (Operation.commitSubmitted action event site tx change).Spares fun _ => True := by
  apply (tryCommit change).bind
  rintro (e | _) -
  · apply now.bind
    intro recordedAt _
    apply (tryCommit _).bind
    intro _ _
    apply fail
    unfold Failure.ofCommit Failure.ofConflict
    grind
  · exact .pure trivial

theorem makePayload (s : Submission) (submittedAt : Instant) :
    (Operation.makePayload s submittedAt).Spares fun payload =>
      Payload.of? (s.input submittedAt) = .ok payload := by
  unfold Operation.makePayload
  cases made : Payload.of? ⟨s.event, s.site, s.baseline, s.actual, s.method, s.raw, submittedAt⟩ with
  | ok payload => exact .pure made
  | error e => exact fail nofun

theorem checkProofSize (payload uri : String) :
    (Operation.checkProofSize payload uri).Spares fun _ => True := by
  apply commitLimit.bind
  rintro (_ | most) -
  · exact .pure trivial
  · dsimp only
    split
    · exact fail nofun
    · exact .pure trivial

end Spares

theorem evidence_spares (s : Submission) : (evidence s).Spares fun made =>
    Payload.of? (s.input made.1) = .ok made.2 := by
  apply (Spares.requireEvent s.event).bind
  intro event _
  by_cases inactive : event.status ≠ .active
  · simp only [if_pos inactive]
    apply Spares.fail_bind
    exact nofun
  · simp only [if_neg inactive]
    apply (Spares.query _).bind
    rintro (_ | proof) -
    · apply Spares.now.bind
      intro submittedAt _
      apply (Spares.makePayload s submittedAt).bind
      exact fun payload made => .pure made
    · apply Spares.fail_bind
      exact nofun

theorem deliver_spares (c : Configuration) (s : Submission) (submittedAt : Instant) (payload : Payload) :
    (deliver c s submittedAt payload).Spares fun p => p.payload = payload.text ∧ p.hash = payload.hash := by
  apply (Spares.checkProofSize _ _).bind
  intro _ _
  apply (Spares.submit _ _ _).bind
  intro tx _
  apply (Spares.commitSubmitted _ _ _ _ _).bind
  exact fun _ _ => .pure ⟨rfl, rfl⟩

section Submissions

variable (c : Configuration) (s : Submission) {σ : Type} (answer : (r : Request) → σ → r.Reply × σ)
  {state after : σ} {t : Instant} {payload : Payload}

theorem hash_of_evidence (first : (evidence s).run.run answer state = (.ok (t, payload), after)) :
    payload.hash = .ofBytes (Bytes.ofText payload.text) := by
  have ends := (evidence_spares s).run.ends_run answer state
  rw [first] at ends
  exact Payload.hash_eq ends

theorem deliver_run_ne (declared : String) (computed : ProofHash) :
    ((deliver c s t payload).run.run answer state).1 ≠ .error (.hashMismatch declared computed) := by
  intro failed
  have ends := (deliver_spares c s t payload).run.ends_run answer state
  rw [failed] at ends
  exact ends _ _ rfl

theorem submitProof_run_cases (first : (evidence s).run.run answer state = (.ok (t, payload), after)) :
    (∀ declared, s.declaredHash = some declared → ProofHash.declares declared payload.hash = true) ∧
        (submitProof c s).run.run answer state = (deliver c s t payload).run.run answer after ∨
      ∃ declared, s.declaredHash = some declared ∧ ProofHash.declares declared payload.hash = false ∧
        (submitProof c s).run.run answer state =
          (.error (.hashMismatch declared payload.hash), after) := by
  rw [submitProof_eq, run_bind_of_ok first]
  cases s.declaredHash with
  | none => exact .inl ⟨nofun, rfl⟩
  | some declared =>
      simp only [checkDeclared]
      cases same : ProofHash.declares declared payload.hash with
      | true =>
          refine .inl ⟨?_, rfl⟩
          rintro _ ⟨⟩
          exact same
      | false => exact .inr ⟨declared, rfl, same, rfl⟩

theorem submitProof_run_of_error {e : Failure}
    (first : (evidence s).run.run answer state = (.error e, after)) :
    (submitProof c s).run.run answer state = (.error e, after) := by
  rw [submitProof_eq, run_bind_of_error first]

theorem submitProof_run_undeclared
    (first : (evidence s).run.run answer state = (.ok (t, payload), after)) :
    (submitProof c { s with declaredHash := none }).run.run answer state =
      (deliver c s t payload).run.run answer after := by
  rcases submitProof_run_cases c { s with declaredHash := none } answer first with
    ⟨-, same⟩ | ⟨declared, present, -⟩
  · exact same
  · cases present

theorem submitProof_run_eq_hashMismatch_iff {declared : String} {computed : ProofHash} :
    (submitProof c s).run.run answer state = (.error (.hashMismatch declared computed), after) ↔
      s.declaredHash = some declared ∧ ProofHash.declares declared computed = false ∧
      ∃ t payload, (evidence s).run.run answer state = (.ok (t, payload), after) ∧
        payload.hash = computed := by
  constructor
  · intro failed
    rcases first : (evidence s).run.run answer state with ⟨_ | ⟨t, payload⟩, between⟩
    · have ends := (evidence_spares s).run.ends_run answer state
      rw [submitProof_run_of_error c s answer first] at failed
      rw [first] at ends
      exact absurd (Except.error.inj (Prod.mk.inj failed).1) (ends declared computed)
    · rcases submitProof_run_cases c s answer first with ⟨-, delivered⟩ | ⟨d, present, other, mismatch⟩
      · rw [delivered] at failed
        exact absurd (congrArg Prod.fst failed) (deliver_run_ne c s answer declared computed)
      · rw [mismatch] at failed
        obtain ⟨same, rfl⟩ := Prod.mk.inj failed
        obtain ⟨rfl, rfl⟩ := Failure.hashMismatch.inj (Except.error.inj same)
        exact ⟨present, other, t, payload, rfl, rfl⟩
  · rintro ⟨present, other, t, payload, first, rfl⟩
    rcases submitProof_run_cases c s answer first with ⟨same, -⟩ | ⟨d, present', -, mismatch⟩
    · rw [same declared present] at other
      cases other
    · rw [present] at present'
      cases present'
      exact mismatch

theorem submitProof_run_eq_undeclared (spared : ∀ declared computed,
      ((submitProof c s).run.run answer state).1 ≠ .error (.hashMismatch declared computed)) :
    (submitProof c s).run.run answer state =
      (submitProof c { s with declaredHash := none }).run.run answer state := by
  rcases first : (evidence s).run.run answer state with ⟨e | ⟨t, payload⟩, between⟩
  · rw [submitProof_run_of_error c s answer first]
    exact (submitProof_run_of_error c { s with declaredHash := none } answer first).symm
  · rw [submitProof_run_undeclared c s answer first]
    rcases submitProof_run_cases c s answer first with ⟨-, delivered⟩ | ⟨declared, -, -, mismatch⟩
    · exact delivered
    · exact absurd (congrArg Prod.fst mismatch) (spared declared payload.hash)

theorem hash_of_submitProof {p : Proof} (accepted : ((submitProof c s).run.run answer state).1 = .ok p) :
    p.hash = .ofBytes (Bytes.ofText p.payload) := by
  rcases first : (evidence s).run.run answer state with ⟨e | ⟨t, payload⟩, between⟩
  · rw [submitProof_run_of_error c s answer first] at accepted
    cases accepted
  · rcases submitProof_run_cases c s answer first with ⟨-, delivered⟩ | ⟨declared, -, -, mismatch⟩
    · have ends := (deliver_spares c s t payload).run.ends_run answer between
      rw [← delivered, accepted] at ends
      rw [ends.1, ends.2, hash_of_evidence s answer first]
    · rw [mismatch] at accepted
      cases accepted

end Submissions

/-- A submission fails for its declared hash exactly if it would have gone on otherwise and the text is
not that of its payload's hash. -/
theorem declared_hash_is_compared (c : Configuration) (s : Submission) {σ : Type}
    (answer : (r : Request) → σ → r.Reply × σ) (state : σ) :
    (∀ declared bytes, ProofHash.declares declared (.ofBytes bytes) = true ↔
      Text.lower (Text.trim declared.toList) = Text.lower (ProofHash.ofBytes bytes).text.toList) ∧
    (∀ declared computed after,
      (submitProof c s).run.run answer state = (.error (.hashMismatch declared computed), after) ↔
        s.declaredHash = some declared ∧
        Text.lower (Text.trim declared.toList) ≠ Text.lower computed.text.toList ∧
        ∃ t payload, (evidence s).run.run answer state = (.ok (t, payload), after) ∧
          payload.hash = computed) ∧
    ((∀ declared computed,
        ((submitProof c s).run.run answer state).1 ≠ .error (.hashMismatch declared computed)) →
      (submitProof c s).run.run answer state =
        (submitProof c { s with declaredHash := none }).run.run answer state) ∧
    ∀ p, ((submitProof c s).run.run answer state).1 = .ok p →
      p.hash = .ofBytes (Bytes.ofText p.payload) := by
  refine ⟨fun declared bytes => (ProofHash.declares_ofBytes_tfae declared bytes).out 0 1, ?_,
    submitProof_run_eq_undeclared c s answer, fun p => hash_of_submitProof c s answer⟩
  intro declared computed after
  rw [submitProof_run_eq_hashMismatch_iff]
  refine and_congr_right fun _ => and_congr_left ?_
  rintro ⟨t, payload, first, rfl⟩
  rw [hash_of_evidence s answer first, ← Bool.not_eq_true, ne_eq, not_iff_not]
  exact (ProofHash.declares_ofBytes_tfae _ _).out 0 1

end Operation

end Curtail
