import Curtail.Proofs.Index.Recovery

/-!
A commit to a journaled index that is refused leaves the store and its file as they were, wherever it
failed, so a history says the same without it. Main result: `Held.refusals_leave_no_trace`.
-/

namespace Curtail

open Journal

namespace Journal.Writer

variable {options : WriteOptions} {given : Option Bytes} {w after : Writer} {file left : Bytes}

theorem truncate_length {target : Nat} (cut : w.truncate file target = (.ok (), after, left)) :
    after = ⟨left.length⟩ ∧ headerSize ≤ left.length := by
  unfold truncate at cut
  split at cut
  · cases cut
  rename_i within
  rw [not_or, Nat.not_lt, Nat.not_lt] at within
  cases cut
  rw [List.length_take_of_le within.2]
  exact ⟨rfl, within.1⟩

theorem attempt_length (started : attempt options given = .ok (w, file)) :
    w = ⟨file.length⟩ ∧ headerSize ≤ file.length := by
  match given with
  | none =>
      simp only [attempt] at started
      split at started
      · cases started
        exact ⟨rfl, Nat.le_refl _⟩
      · cases started
  | some [] =>
      cases started
      exact ⟨rfl, Nat.le_refl _⟩
  | some (first :: others) =>
      simp only [attempt] at started
      split at started
      · cases started
      rename_i long
      split at started
      · cases started
      split at started
      · cases started
        exact ⟨rfl, Nat.not_lt.mp long⟩
      split at started
      · cases started
      rename_i cut
      cases started
      exact truncate_length cut

end Journal.Writer

namespace JournaledIndex

theorem start_length {options : WriteOptions} {given : Option Bytes} {store : JournaledIndex}
    {file : Bytes} (started : start options given = .ok (store, file)) :
    store.writer = ⟨file.length⟩ ∧ headerSize ≤ file.length := by
  unfold start at started
  split at started
  · cases started
  split at started
  · cases started
  rename_i w whole begun
  split at started
  · cases started
    exact Writer.attempt_length begun
  split at started
  · cases started
  rename_i cut
  cases started
  exact Writer.truncate_length cut

end JournaledIndex

/-- A store that was opened on any file or used since, and its file. -/
inductive Held : JournaledIndex → Bytes → Prop
  | opened {options : WriteOptions} {given : Option Bytes} {store : JournaledIndex} {file : Bytes} :
      JournaledIndex.start options given = .ok (store, file) → Held store file
  | committed {store after : JournaledIndex} {file left : Bytes} {fate : WriteFate} {change : Change}
      {result : Except StoreError Unit} :
      Held store file → store.commit file fate change = (result, after, left) → Held after left

theorem Held.length {store : JournaledIndex} {file : Bytes} (held : Held store file) :
    store.writer = ⟨file.length⟩ ∧ headerSize ≤ file.length := by
  induction held with
  | opened started => exact JournaledIndex.start_length started
  | committed before done ih =>
      rcases JournaledIndex.commit_cases ih.1 ih.2 done with ⟨-, -, rfl, rfl⟩ | ⟨-, -, -, rfl, rfl⟩
      · exact ih
      · refine ⟨rfl, Nat.le_trans ih.2 ?_⟩
        rw [List.length_append]
        exact Nat.le_add_right _ _

theorem Held.unchanged {store after : JournaledIndex} {file left : Bytes} (held : Held store file)
    {fate : WriteFate} {change : Change} {e : StoreError}
    (refused : store.commit file fate change = (.error e, after, left)) : after = store ∧ left = file := by
  obtain ⟨synced, headed⟩ := held.length
  rcases JournaledIndex.commit_cases synced headed refused with ⟨-, -, same⟩ | ⟨done, -⟩
  · exact same
  · cases done

namespace JournaledIndex

inductive Refuses (store : JournaledIndex) (fate : WriteFate) (change : Change) : StoreError → Prop
  | rejected {cause : Rejection} : store.index.check change = .error cause →
      Refuses store fate change (.rejected cause)
  | tooLarge : store.index.check change = .ok () → ¬(frameOf ⟨store.seq + 1, change⟩).Fits →
      Refuses store fate change
        (.journal (.payloadTooLarge (frameOf ⟨store.seq + 1, change⟩).payload.length))
  | stopped {written : Nat} {reason : String} : store.index.check change = .ok () →
      (frameOf ⟨store.seq + 1, change⟩).Fits → fate = .stopped written reason →
      Refuses store fate change (.journal (.io (.device reason)))

theorem Refuses.commit_error {store : JournaledIndex} {fate : WriteFate} {change : Change}
    {e : StoreError} (refuses : Refuses store fate change e) (file : Bytes) :
    (store.commit file fate change).1 = .error e := by
  unfold commit
  cases refuses with
  | rejected checked => simp only [checked]
  | tooLarge checked large => simp only [checked, Writer.append, Frame.encode_of_not_fits large]
  | stopped checked fits stop =>
      subst stop
      simp only [checked, Writer.append, Frame.encode_of_fits fits]

theorem refuses_of_commit {store after : JournaledIndex} {file left : Bytes} {fate : WriteFate}
    {change : Change} {e : StoreError}
    (refused : store.commit file fate change = (.error e, after, left)) :
    Refuses store fate change e := by
  unfold commit at refused
  cases checked : store.index.check change with
  | error cause =>
      simp only [checked] at refused
      cases refused
      exact .rejected checked
  | ok _ =>
      simp only [checked, Writer.append] at refused
      by_cases fits : (frameOf ⟨store.seq + 1, change⟩).Fits
      · rw [Frame.encode_of_fits fits] at refused
        cases fate with
        | done => cases refused
        | stopped written reason =>
            cases refused
            exact .stopped checked fits rfl
      · rw [Frame.encode_of_not_fits fits] at refused
        cases refused
        exact .tooLarge checked fits

end JournaledIndex

/-! ## Histories with refused commits in them -/

inductive Deed
  | commit (fate : WriteFate) (change : Change)
  | reopen (options : WriteOptions)

structure Holding where
  store : Option JournaledIndex
  file : Bytes

structure Outcome where
  deed : Deed
  reply : Except StoreError Unit
  after : Holding

namespace Holding

def perform (holding : Holding) : Deed → Except StoreError Unit × Holding
  | .commit fate change =>
    match holding.store with
    | none => (.error .poisoned, holding)
    | some store =>
      let (reply, store, file) := store.commit holding.file fate change
      (reply, ⟨some store, file⟩)
  | .reopen options =>
    match JournaledIndex.start options (some holding.file) with
    | .ok (store, file) => (.ok (), ⟨some store, file⟩)
    | .error (e, left) => (.error e, ⟨none, left.getD []⟩)

def history (holding : Holding) : List Deed → List Outcome
  | [] => []
  | deed :: deeds =>
    let (reply, after) := holding.perform deed
    ⟨deed, reply, after⟩ :: history after deeds

end Holding

namespace Outcome

def isRefusal : Outcome → Bool
  | ⟨.commit _ _, .error _, _⟩ => true
  | _ => false

def withoutRefusals (history : List Outcome) : List Outcome := history.filter fun outcome => !outcome.isRefusal

theorem exists_of_isRefusal {deed : Deed} {reply : Except StoreError Unit} {after : Holding}
    (refusal : isRefusal ⟨deed, reply, after⟩) :
    ∃ fate change e, deed = .commit fate change ∧ reply = .error e := by
  cases deed with
  | commit fate change =>
      cases reply with
      | error e => exact ⟨fate, change, e, rfl, rfl⟩
      | ok _ => cases refusal
  | reopen options => cases refusal

theorem withoutRefusals_of_refusal {outcome : Outcome} (refusal : outcome.isRefusal) (others : List Outcome) :
    withoutRefusals (outcome :: others) = withoutRefusals others :=
  List.filter_cons_of_neg (by simpa using refusal)

theorem withoutRefusals_of_not_refusal {outcome : Outcome} (done : ¬outcome.isRefusal) (others : List Outcome) :
    withoutRefusals (outcome :: others) = outcome :: withoutRefusals others :=
  List.filter_cons_of_pos (by simpa using done)

end Outcome

namespace Holding

def Sound (holding : Holding) : Prop := ∀ store, holding.store = some store → Held store holding.file

variable {holding : Holding}

theorem Sound.perform (sound : holding.Sound) (deed : Deed) : (holding.perform deed).2.Sound := by
  obtain ⟨opened, file⟩ := holding
  cases deed with
  | commit fate change =>
      cases opened with
      | none => exact sound
      | some store =>
          intro after same
          obtain rfl := Option.some.inj same
          exact .committed (sound store rfl) rfl
  | reopen options =>
      simp only [Holding.perform]
      cases started : JournaledIndex.start options (some file) with
      | error e => exact nofun
      | ok found =>
          intro after same
          obtain rfl := Option.some.inj same
          exact .opened started

theorem Sound.refused (sound : holding.Sound) {fate : WriteFate} {change : Change} {e : StoreError}
    {after : Holding} (refused : holding.perform (.commit fate change) = (.error e, after)) :
    after = holding := by
  obtain ⟨_ | store, file⟩ := holding
  · cases refused
    rfl
  · rcases committed : store.commit file fate change with ⟨reply, later, left⟩
    simp only [Holding.perform, committed] at refused
    cases refused
    obtain ⟨rfl, rfl⟩ := (sound store rfl).unchanged committed
    rfl

theorem Sound.history_withoutRefusals (sound : holding.Sound) (deeds : List Deed) :
    holding.history ((Outcome.withoutRefusals (holding.history deeds)).map Outcome.deed) =
      Outcome.withoutRefusals (holding.history deeds) := by
  induction deeds generalizing holding with
  | nil => rfl
  | cons deed deeds ih =>
      rcases performed : holding.perform deed with ⟨reply, after⟩
      have goes (more : List Deed) :
          holding.history (deed :: more) = ⟨deed, reply, after⟩ :: after.history more := by
        simp only [history, performed]
      have later : after.Sound := by
        have kept := sound.perform deed
        rwa [performed] at kept
      rw [goes]
      by_cases refusal : Outcome.isRefusal ⟨deed, reply, after⟩
      · rw [Outcome.withoutRefusals_of_refusal refusal]
        obtain ⟨fate, change, e, rfl, rfl⟩ := Outcome.exists_of_isRefusal refusal
        -- The next deed starts from where this one did.
        obtain rfl := sound.refused performed
        exact ih sound
      · rw [Outcome.withoutRefusals_of_not_refusal refusal, List.map_cons, goes, ih later]

end Holding

theorem Held.commit_error_iff {store after : JournaledIndex} {file left : Bytes} (held : Held store file)
    {fate : WriteFate} {change : Change} {e : StoreError} :
    store.commit file fate change = (.error e, after, left) ↔
      store.Refuses fate change e ∧ after = store ∧ left = file := by
  constructor
  · intro refused
    exact ⟨JournaledIndex.refuses_of_commit refused, held.unchanged refused⟩
  · rintro ⟨refuses, rfl, rfl⟩
    have failed := refuses.commit_error left
    rcases committed : after.commit left fate change with ⟨reply, later, more⟩
    rw [committed] at failed
    obtain rfl : reply = .error e := failed
    obtain ⟨rfl, rfl⟩ := held.unchanged committed
    rfl

/-- A commit that fails changes nothing, and whatever is done from there on comes to the same without
it. -/
theorem Held.refusals_leave_no_trace {store : JournaledIndex} {file : Bytes} (held : Held store file) :
    (∀ fate change e after left, store.commit file fate change = (.error e, after, left) ↔
      store.Refuses fate change e ∧ after = store ∧ left = file) ∧
    ∀ deeds, Holding.history ⟨store, file⟩
        ((Outcome.withoutRefusals (Holding.history ⟨store, file⟩ deeds)).map Outcome.deed) =
      Outcome.withoutRefusals (Holding.history ⟨store, file⟩ deeds) := by
  refine ⟨fun fate change e after left => held.commit_error_iff, fun deeds => ?_⟩
  have sound : Holding.Sound ⟨store, file⟩ := by
    intro opened same
    obtain rfl := Option.some.inj same
    exact held
  exact sound.history_withoutRefusals deeds

theorem Outcome.deeds_of_stopped {store after : JournaledIndex} {file left : Bytes} {change : Change}
    {written : Nat} {reason : String} {e : StoreError}
    (stopped : store.commit file (.stopped written reason) change = (.error e, store, file))
    (done : store.commit file .done change = (.ok (), after, left)) :
    (Outcome.withoutRefusals (Holding.history ⟨store, file⟩
      [.commit (.stopped written reason) change, .commit .done change])).map Outcome.deed =
      [.commit .done change] := by
  simp only [Holding.history, Holding.perform, stopped, done]
  rfl

theorem refusals_leave_no_trace_of_orphan : ∃ store file, Held store file ∧
    store.commit file (.stopped 5 "disk full") Commit.orphanOfFullDisk =
      (.error (.journal (.io (.device "disk full"))), store, file) ∧
    Holding.history ⟨store, file⟩ [.commit .done Commit.orphanOfFullDisk] =
      Outcome.withoutRefusals (Holding.history ⟨store, file⟩
        [.commit (.stopped 5 "disk full") Commit.orphanOfFullDisk,
          .commit .done Commit.orphanOfFullDisk]) := by
  obtain ⟨started, keeps⟩ := Keeps.opened (.inl rfl)
  have held := Held.opened started
  have fits := Commit.orphanOfFullDisk_fits
  have traceless := held.refusals_leave_no_trace
  have stopped := (traceless.1 (.stopped 5 "disk full") Commit.orphanOfFullDisk _ _ _).mpr
    ⟨.stopped rfl fits rfl, rfl, rfl⟩
  have done := JournaledIndex.commit_of_fits keeps.writer rfl fits
  have same := traceless.2 [.commit (.stopped 5 "disk full") Commit.orphanOfFullDisk,
    .commit .done Commit.orphanOfFullDisk]
  rw [Outcome.deeds_of_stopped stopped done] at same
  exact ⟨_, _, held, stopped, same⟩

end Curtail
