import Curtail.Proofs.Index.Recorded
import Curtail.Proofs.Index.Size

/-!
Hashes that are read with a proof. Every text that is accepted has the computed form of a hash in it, but
the case of a letter is told in characters and the digits are cut off in bytes: after a long s the colon
stays with the digits. Main result: all other hashes, and the journals that they go into, can be read
again, and those with a colon cannot.
-/

namespace Curtail

open Json Journal

theorem Change.decode_encode (c : Change) :
    (decode (encode c) : Option Change) = ofContent? c.name (.record c.content) := rfl

theorem Change.decode_encode_insertProof_eq_none {p : Proof}
    (unread : ∀ h, ProofHash.parse p.hash.text ≠ .ok h) :
    (decode (encode (Change.insertProof p)) : Option Change) = none := by
  have names : ((Tree.field "proof" p).map Prod.fst).Sublist ["proof"] := List.Sublist.refl _
  rw [Change.decode_encode]
  refine (congrArg (· >>= _) (Members.of?_record (by decide) names)).trans ?_
  simp [Members.required_record, Tree.lookup_field, Proof.decode_encode_eq_none unread]

theorem Commit.commits_eq_notJson {commit : Commit}
    (lost : (decode (encode commit.change) : Option Change) = none) :
    (commits decode (JournaledIndex.frameOf commit) : Except _ (Option Commit)) = .error .notJson := by
  unfold commits JournaledIndex.frameOf
  rw [if_neg (by simp), Bytes.toText?_ofText]
  simp only [Tree.ofText?_compactText commit.encode_isPlain, Option.bind_some, decode_encode, lost,
    Option.map_none]

theorem Keeps.start_of_lost {entries : List Entry} {store after : JournaledIndex} {file left : Bytes}
    {fate : WriteFate} {change : Change} (keeps : Keeps entries store file)
    (committed : store.commit file fate change = (.ok (), after, left))
    (lost : (decode (encode change) : Option Change) = none) :
    JournaledIndex.start .standard (some left) = .error (.journal .notJson, some left) := by
  rcases JournaledIndex.commit_cases keeps.writer keeps.headed committed with ⟨e, failed, -⟩ | accepted
  · cases failed
  · obtain ⟨-, -, fits, -, rfl⟩ := accepted
    have read := readFrame_bytes fits .permissive file.length []
    rw [List.append_nil] at read
    rw [keeps.start_append, JournaledIndex.resume_refused _ _ _ read (Commit.commits_eq_notJson lost)]
    rfl

theorem Keeps.start_of_writable {entries : List Entry} {store after : JournaledIndex} {file left : Bytes}
    {fate : WriteFate} {change : Change} (keeps : Keeps entries store file)
    (committed : store.commit file fate change = (.ok (), after, left)) (writable : change.IsWritable) :
    ∃ reopened, JournaledIndex.start .standard (some left) = .ok (reopened, left) ∧
      reopened.index = after.index := by
  have kept := keeps.commit_writable writable committed
  obtain ⟨reopened, started, again⟩ := kept.start_whole
  exact ⟨reopened, started, again.index.trans kept.index.symm⟩

namespace ProofHash

variable {h : ProofHash} {value : String}

theorem parse_text_ne_ok (read : parse value = .ok h) (other : ¬h.IsPlain) (again : ProofHash) :
    parse h.text ≠ .ok again :=
  fun reread => other ((parse_text_iff_of_parse read).mp ⟨again, reread⟩)

theorem colon_of_long_s (read : parse value = .ok h) (long : value.toList.head? = some 'ſ') :
    ∃ plain : ProofHash, plain.IsPlain ∧ h.digits = ":" ++ plain.digits := by
  rcases parse_cases read with ⟨other, -⟩ | ⟨-, kept⟩
  · exact absurd long other
  · exact kept

/-- Without a long s at the front a hash is read back, also from a journal. With one neither the proof
nor the journal can be read again. -/
theorem read_back_unless_long_s (value : String) (tree : Tree) :
    (∀ h, parse value = .ok h → h.text = "sha256:" ++ h.digits ∧
      (value.toList.head? ≠ some 'ſ' → h.IsPlain ∧ parse h.text = .ok h) ∧
      (value.toList.head? = some 'ſ' →
        (∃ plain : ProofHash, plain.IsPlain ∧ h.digits = ":" ++ plain.digits) ∧
        ∀ again, parse h.text ≠ .ok again)) ∧
    ∀ p : Proof, decode tree = some p →
      (p.hash.IsPlain ∧ decode (encode p) = some p ∨
        ¬p.hash.IsPlain ∧ (decode (encode p) : Option Proof) = none) ∧
      ∀ entries store file fate after left, Keeps entries store file →
        store.commit file fate (.insertProof p) = (.ok (), after, left) →
        (p.hash.IsPlain → ∃ reopened,
          JournaledIndex.start .standard (some left) = .ok (reopened, left) ∧
          reopened.index = after.index) ∧
        (¬p.hash.IsPlain → JournaledIndex.start .standard (some left) = .error (.journal .notJson, some left)) := by
  constructor
  · intro h read
    refine ⟨rfl, fun other => ?_, fun long => ⟨colon_of_long_s read long, ?_⟩⟩
    · have plain := (isPlain_iff_of_parse read).mpr other
      exact ⟨plain, parse_text plain⟩
    · exact parse_text_ne_ok read fun plain => (isPlain_iff_of_parse read).mp plain long
  · intro p decoded
    obtain ⟨within, value, read⟩ := Proof.of_decode decoded
    constructor
    · by_cases plain : p.hash.IsPlain
      · exact .inl ⟨plain, (Proof.readsBack within plain).decode_encode⟩
      · exact .inr ⟨plain, Proof.decode_encode_eq_none (parse_text_ne_ok read plain)⟩
    · intro entries store file fate after left keeps committed
      constructor
      · intro plain
        exact keeps.start_of_writable committed ⟨within, List.forall_mem_singleton.mpr plain⟩
      · intro other
        exact keeps.start_of_lost committed
          (Change.decode_encode_insertProof_eq_none (parse_text_ne_ok read other))

def sixtyFourDigits : String := "0123456789abcdef0123456789abcdef0123456789abcdef0123456789abcdef"

def longProof : Proof :=
  { event := ⟨"DR-1"⟩, site := ⟨"site-a"⟩, baseline := 90, actual := 30, reduction := 60,
    method := ⟨"meter"⟩, uri := "a.json", payload := "\x7b\x7d", hash := ⟨":" ++ sixtyFourDigits⟩,
    submitTx := ⟨⟨"tx"⟩, none, .submitted, .ofSeconds 0, none, none⟩, submitter := ⟨"participant-a"⟩,
    submittedAt := .ofSeconds 0 }

def longProofTree : Tree :=
  .record [("event_id", .text "DR-1"), ("site_id", .text "site-a"), ("baseline_kwh", .nat 90),
    ("actual_kwh", .nat 30), ("reduction_kwh", .nat 60), ("baseline_method", .text "meter"),
    ("uri", .text "a.json"), ("payload", .text "\x7b\x7d"),
    ("proof_hash", .text ("ſha256:" ++ sixtyFourDigits)), ("submit_tx", encode longProof.submitTx),
    ("submitter", .text "participant-a"), ("submitted_at", .text "1970-01-01T00:00:00Z")]

theorem decode_longProofTree : (decode longProofTree : Option Proof) = some longProof := by
  decide +kernel

def activeEvent : Event :=
  ⟨⟨"DR-1"⟩, .ofSeconds 0, .ofSeconds 3600, 100, 3, 1, .active, longProof.submitTx, none, .ofSeconds 0,
    none, none⟩

theorem activeEvent_fits : (JournaledIndex.frameOf ⟨1, .insertEvent activeEvent⟩).Fits := by
  rw [JournaledIndex.frameOf_fits_iff, Tree.size_eq]
  decide +kernel

theorem longProof_fits : (JournaledIndex.frameOf ⟨2, .insertProof longProof⟩).Fits := by
  rw [JournaledIndex.frameOf_fits_iff, Tree.size_eq]
  decide +kernel

/-- The proof is taken in, and then the journal cannot be opened any more. -/
theorem start_of_longProof : ∃ (store after : JournaledIndex) (file left : Bytes),
    (decode longProofTree : Option Proof) = some longProof ∧
    parse ("ſha256:" ++ sixtyFourDigits) = .ok longProof.hash ∧
    longProof.hash.digits = ":" ++ sixtyFourDigits ∧
    (∃ reopened, JournaledIndex.start .standard (some file) = .ok (reopened, file)) ∧
    store.commit file .done (.insertProof longProof) = (.ok (), after, left) ∧
    JournaledIndex.start .standard (some left) = .error (.journal .notJson, some left) := by
  have read : parse ("ſha256:" ++ sixtyFourDigits) = .ok longProof.hash := by decide +kernel
  have other : ¬longProof.hash.IsPlain := by decide +kernel
  have empty := (Keeps.opened (.inl rfl)).2
  have created := JournaledIndex.commit_of_fits empty.writer rfl activeEvent_fits
  have writable : (Change.insertEvent activeEvent).IsWritable := Change.IsStorable.isWritable (by decide)
  have keeps := empty.commit_writable writable created
  have proven := JournaledIndex.commit_of_fits keeps.writer rfl longProof_fits
  obtain ⟨reopened, started, -⟩ := keeps.start_whole
  refine ⟨_, _, _, _, decode_longProofTree, read, rfl, ⟨reopened, started⟩, proven, ?_⟩
  exact keeps.start_of_lost proven (Change.decode_encode_insertProof_eq_none (parse_text_ne_ok read other))

end ProofHash

end Curtail
