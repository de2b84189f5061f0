import Curtail.Proofs.Index.Recovery

namespace Curtail

open Journal Json Entry

/-- A crash leaves the front of the file behind, from which the store is opened again. -/
inductive History : List Entry → JournaledIndex → Bytes → Prop
  | opened {given : Option Bytes} {store : JournaledIndex} {file : Bytes} :
      given = none ∨ given = some [] → JournaledIndex.start .standard given = .ok (store, file) →
      History [] store file
  | committed {entries : List Entry} {store after : JournaledIndex} {file longer : Bytes}
      {fate : WriteFate} {change : Change} :
      History entries store file → change.IsStorable →
      store.commit file fate change = (.ok (), after, longer) →
      History (entries ++ [⟨some change, longer.length⟩]) after longer
  | refused {entries : List Entry} {store after : JournaledIndex} {file left : Bytes}
      {fate : WriteFate} {change : Change} {e : StoreError} :
      History entries store file → store.commit file fate change = (.error e, after, left) →
      History entries after left
  | foreign {entries : List Entry} {store after : JournaledIndex} {file opened longer left : Bytes}
      {writer closed : Writer} {frame : Frame} {place : Nat} :
      History entries store file → frame.kind ≠ commitKind →
      Writer.start .standard (some file) = .ok (writer, opened) →
      writer.append opened .done frame = (.ok place, closed, longer) →
      JournaledIndex.start .standard (some longer) = .ok (after, left) →
      History (entries ++ [⟨none, longer.length⟩]) after left
  | crashed {entries : List Entry} {store after : JournaledIndex} {file left : Bytes} {cut : Nat} :
      History entries store file → headerSize ≤ cut → cut ≤ file.length →
      JournaledIndex.start .standard (some (file.take cut)) = .ok (after, left) →
      History (inside cut entries) after left

theorem History.keeps {entries : List Entry} {store : JournaledIndex} {file : Bytes}
    (history : History entries store file) : Keeps entries store file := by
  induction history with
  | opened fresh started =>
      obtain ⟨begun, keeps⟩ := Keeps.opened fresh
      rw [begun] at started
      cases started
      exact keeps
  | committed before storable done keeps => exact keeps.commit_ok storable done
  | refused before failed keeps =>
      rcases JournaledIndex.commit_cases keeps.writer keeps.headed failed with ⟨-, -, rfl, rfl⟩ | accepted
      · exact keeps
      · cases accepted.1
  | @foreign _ store _ _ _ _ _ _ _ frame _ before unlike begun appended started keeps =>
      have headed : Writer.start .standard (some _) = .ok (⟨_⟩, _) := keeps.start_writer
      rw [headed] at begun
      cases begun
      obtain ⟨fits, -, rfl⟩ := Writer.append_ok appended
      obtain ⟨reopened, same, after⟩ := (keeps.written fits (.foreign unlike)).start_whole
      rw [same] at started
      cases started
      exact after
  | crashed before low high started keeps =>
      obtain ⟨recovered, same, after⟩ := keeps.start_take low high
      rw [same] at started
      cases started
      exact after

namespace JournaledIndex

def commitAll (store : JournaledIndex) (file : Bytes) :
    List (WriteFate × Change) → List Change × JournaledIndex × Bytes
  | [] => ([], store, file)
  | (fate, change) :: more =>
    match store.commit file fate change with
    | (.error _, store, file) => commitAll store file more
    | (.ok (), store, file) =>
      let (accepted, store, file) := commitAll store file more
      (change :: accepted, store, file)

end JournaledIndex

theorem Keeps.commitAll {entries : List Entry} {store : JournaledIndex} {file : Bytes}
    (keeps : Keeps entries store file) {further : List (WriteFate × Change)}
    (storable : ∀ attempt ∈ further, attempt.2.IsStorable) :
    ∃ added, changes added = (store.commitAll file further).1 ∧
      Keeps (entries ++ added) (store.commitAll file further).2.1 (store.commitAll file further).2.2 := by
  induction further generalizing entries store file with
  | nil => exact ⟨[], rfl, by simpa [JournaledIndex.commitAll] using keeps⟩
  | cons attempt further ih =>
      obtain ⟨fate, change⟩ := attempt
      have others := fun attempt member => storable attempt (List.mem_cons_of_mem _ member)
      rcases committed : store.commit file fate change with ⟨e | _, after, left⟩
      · rcases JournaledIndex.commit_cases keeps.writer keeps.headed committed with ⟨-, -, rfl, rfl⟩ | accepted
        · simpa only [JournaledIndex.commitAll, committed] using ih keeps others
        · cases accepted.1
      · have kept := keeps.commit_ok (storable _ List.mem_cons_self) committed
        obtain ⟨added, same, after⟩ := ih kept others
        refine ⟨⟨some change, left.length⟩ :: added, ?_, ?_⟩
        · simp only [JournaledIndex.commitAll, committed, ← same]
          rfl
        · rw [List.append_cons]
          simpa only [JournaledIndex.commitAll, committed] using after

/-- Whatever part of a journal a crash leaves, the store opens on it with the commits whose frames lie
within. -/
theorem History.start_after_crash {entries : List Entry} {store : JournaledIndex} {file : Bytes}
    (history : History entries store file) (cut : Nat) (low : headerSize ≤ cut)
    (high : cut ≤ file.length) :
    ∃ recovered, JournaledIndex.start .standard (some (file.take cut)) =
        .ok (recovered, file.take (lastStop headerSize (inside cut entries))) ∧
      recovered.index = Index.empty.applyAll (changes (inside cut entries)) ∧
      recovered.seq = .ofNat (changes (inside cut entries)).length ∧
      (file.length < 2 ^ 64 → recovered.seq.toNat = (changes (inside cut entries)).length) ∧
      ∀ further : List (WriteFate × Change), (∀ attempt ∈ further, attempt.2.IsStorable) →
        ∀ accepted after left, recovered.commitAll
            (file.take (lastStop headerSize (inside cut entries))) further = (accepted, after, left) →
          ∃ reopened, JournaledIndex.start .standard (some left) = .ok (reopened, left) ∧
            reopened.index =
              Index.empty.applyAll (changes (inside cut entries) ++ accepted) ∧
            reopened.seq = .ofNat (changes (inside cut entries) ++ accepted).length ∧
            readJournal .permissive (commits decode) (some left) = .ok
              ⟨Commit.numbered 0 (changes (inside cut entries) ++ accepted), left.length, none, none⟩ := by
  obtain ⟨recovered, started, keeps⟩ := history.keeps.start_take low high
  refine ⟨recovered, started, keeps.index, keeps.seq, ?_, ?_⟩
  · intro small
    apply keeps.toNat_seq
    rw [List.length_take]
    omega
  · intro further storable accepted after left committed
    obtain ⟨added, same, kept⟩ := keeps.commitAll storable
    rw [committed] at same kept
    obtain ⟨reopened, opened, again⟩ := kept.start_whole
    have all : changes (inside cut entries ++ added) = changes (inside cut entries) ++ accepted := by
      rw [changes_append, same]
    refine ⟨reopened, opened, ?_, ?_, ?_⟩
    · rw [← all]
      exact again.index
    · rw [← all]
      exact again.seq
    · rw [← all]
      exact again.read_whole

theorem History.start_after_crash_in_first_frame : ∃ store file recovered,
    History [⟨some Commit.orphanOfFullDisk, file.length⟩] store file ∧
      JournaledIndex.start .standard (some (file.take 20)) = .ok (recovered, header) ∧
      recovered.index = .empty ∧ recovered.seq = 0 := by
  obtain ⟨started, keeps⟩ := Keeps.opened (.inl rfl)
  have committed := JournaledIndex.commit_of_fits keeps.writer rfl Commit.orphanOfFullDisk_fits
  have history := History.committed (.opened (.inl rfl) started) (by decide) committed
  have long := Frame.length_header_append_bytes (JournaledIndex.frameOf ⟨1, Commit.orphanOfFullDisk⟩)
  have front : (header ++ (JournaledIndex.frameOf ⟨1, Commit.orphanOfFullDisk⟩).bytes).take headerSize =
      header := List.take_left' rfl
  change History [⟨_, (header ++ (JournaledIndex.frameOf ⟨1, _⟩).bytes).length⟩] _
    (header ++ (JournaledIndex.frameOf ⟨1, _⟩).bytes) at history
  generalize header ++ (JournaledIndex.frameOf ⟨1, Commit.orphanOfFullDisk⟩).bytes = file at *
  have torn : 20 < file.length := by
    rw [long, headerSize, frameHeaderSize]
    omega
  have outside : inside 20 [⟨some Commit.orphanOfFullDisk, file.length⟩] = [] := by
    apply inside_eq_nil
    simpa using torn
  obtain ⟨recovered, opened, index, seq, -⟩ :=
    History.start_after_crash history 20 (by decide) (Nat.le_of_lt torn)
  rw [outside] at opened index seq
  exact ⟨_, file, recovered, history, front ▸ opened, index, seq⟩

end Curtail
