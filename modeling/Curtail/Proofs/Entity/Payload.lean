import Curtail.Entity.Proof
import Curtail.Proofs.Instant.Text
import Curtail.Proofs.Json.Canonical

namespace Curtail

open Json

theorem Identifier.eq_of_text {kind : IdentifierKind} {a b : Identifier kind} (texts : a.text = b.text) :
    a = b := by
  cases a
  cases b
  exact congrArg _ texts

namespace Payload

theorem of?_eq_ok_iff {input : PayloadInput} {payload : Payload} : of? input = .ok payload ↔
    ∃ raw, rawMembers? input.raw = .ok raw ∧
      payload = ⟨(value input raw).canonicalText, Scoring.reduction input.baseline input.actual,
        hashOf (value input raw).canonicalText⟩ := by
  unfold of?
  cases rawMembers? input.raw with
  | error e => simp [bind, Except.bind]
  | ok raw => simp [bind, Except.bind, pure, Except.pure, eq_comm]

theorem hash_eq {input : PayloadInput} {payload : Payload} (made : of? input = .ok payload) :
    payload.hash = hashOf payload.text := by
  obtain ⟨raw, -, rfl⟩ := of?_eq_ok_iff.mp made
  rfl

theorem value_eq (input : PayloadInput) (raw : List (String × Value)) : value input raw =
    .object [("actual_kwh", .nat input.actual.toNat), ("baseline_kwh", .nat input.baseline.toNat),
      ("baseline_method", .string input.method.text),
      ("created_at", .string input.createdAt.textToSecond), ("event_id", .string input.event.text),
      ("raw_payload", .object raw),
      ("reduction_kwh", .nat (Scoring.reduction input.baseline input.actual).toNat),
      ("site_id", .string input.site.text)] := rfl

theorem getD_of_rawMembers? {raw : Option Value} {members : List (String × Value)}
    (read : rawMembers? raw = .ok members) : raw.getD (.object []) = .object members := by
  cases raw with
  | none =>
      obtain rfl := Except.ok.inj read
      rfl
  | some v =>
      cases v with
      | object own =>
          obtain rfl := Except.ok.inj read
          rfl
      | _ => cases read

/-- The text of a payload tells its input, the instant to the second. -/
theorem input_of_text {input other : PayloadInput} {payload payload' : Payload}
    (made : of? input = .ok payload) (made' : of? other = .ok payload')
    (same : payload.text = payload'.text) :
    input.event = other.event ∧ input.site = other.site ∧ input.baseline = other.baseline ∧
      input.actual = other.actual ∧ input.method = other.method ∧
      input.createdAt.wholeSecond = other.createdAt.wholeSecond ∧
      input.raw.getD (.object []) = other.raw.getD (.object []) := by
  obtain ⟨raw, read, rfl⟩ := of?_eq_ok_iff.mp made
  obtain ⟨raw', read', rfl⟩ := of?_eq_ok_iff.mp made'
  have values := Value.canonicalText_injective same
  simp only [value_eq, Value.nat, Value.object.injEq, List.cons.injEq, Prod.mk.injEq, true_and, and_true,
    Value.number.injEq, Number.integer.injEq, Value.string.injEq, Int.natCast_inj, UInt64.toNat_inj]
    at values
  obtain ⟨actual, baseline, method, created, event, evidence, -, site⟩ := values
  rw [getD_of_rawMembers? read, getD_of_rawMembers? read', evidence]
  exact ⟨Identifier.eq_of_text event, Identifier.eq_of_text site, baseline, actual,
    Identifier.eq_of_text method, Instant.wholeSecond_eq_of_text created, rfl⟩

def quoted (raw : Option Value) (createdAt : Instant) : PayloadInput :=
  ⟨⟨"peak \"\\\" 7"⟩, ⟨"Ωmega\n😀"⟩, 100, 60, ⟨"avg"⟩, raw, createdAt⟩

def late : Instant := ⟨1700000000, 500000000, by decide, by decide⟩

/-- Neither the fraction of a second nor the absence of evidence is told. -/
theorem input_of_text_of_quoted : ∃ payload payload', of? (quoted none late) = .ok payload ∧
    of? (quoted (some (.object [])) (.ofSeconds 1700000000)) = .ok payload' ∧
    payload.text = payload'.text ∧
    (quoted none late).createdAt.wholeSecond =
      (quoted (some (.object [])) (.ofSeconds 1700000000)).createdAt.wholeSecond := by
  have made : of? (quoted none late) = .ok _ := of?_eq_ok_iff.mpr ⟨[], rfl, rfl⟩
  have made' : of? (quoted (some (.object [])) (.ofSeconds 1700000000)) = .ok _ :=
    of?_eq_ok_iff.mpr ⟨[], rfl, rfl⟩
  have seconds : late.textToSecond = (Instant.ofSeconds 1700000000).textToSecond := rfl
  have same : value (quoted none late) [] =
      value (quoted (some (.object [])) (.ofSeconds 1700000000)) [] := by
    simp only [value_eq, quoted, seconds]
  have texts := congrArg Value.canonicalText same
  exact ⟨_, _, made, made', texts, (input_of_text made made' texts).2.2.2.2.2.1⟩

end Payload

end Curtail
