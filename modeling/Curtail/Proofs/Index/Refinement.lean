import Curtail.Proofs.Index.Recovery

namespace Curtail

open Journal Json

inductive Call
  | commit (change : Change)
  | query (q : Query)

inductive Reply
  | committed (result : Except StoreError Unit)
  | answered (q : Query) (answer : q.Answer)

namespace Index

def serve (index : Index) : Call → Reply × Index
  | .commit change => (.committed (index.commit change).1, (index.commit change).2)
  | .query q => (.answered q (index.answer q), index)

def serveAll (index : Index) : List Call → List Reply
  | [] => []
  | call :: calls => (index.serve call).1 :: (index.serve call).2.serveAll calls

/-- Every commit that is accepted can be stored and fits into a frame. -/
def Admits (index : Index) (seq : UInt64) : List Call → Prop
  | [] => True
  | .query _ :: calls => index.Admits seq calls
  | .commit change :: calls =>
    match index.check change with
    | .error _ => index.Admits seq calls
    | .ok () => change.IsStorable ∧ (JournaledIndex.frameOf ⟨seq + 1, change⟩).Fits ∧
      (index.apply change).Admits (seq + 1) calls

end Index

namespace JournaledIndex

/-- Without a call the store is closed and opened again. -/
def serve (store : JournaledIndex) (file : Bytes) : Option Call → List Reply × JournaledIndex × Bytes
  | some (.commit change) =>
    let (result, store, file) := store.commit file .done change
    ([.committed result], store, file)
  | some (.query q) => ([.answered q (store.index.answer q)], store, file)
  | none =>
    match start .standard (some file) with
    | .ok (store, file) => ([], store, file)
    | .error (e, left) => ([.committed (.error e)], store, left.getD [])

def serveAll (store : JournaledIndex) (file : Bytes) : List (Option Call) → List Reply
  | [] => []
  | step :: steps =>
    let (replies, store, file) := store.serve file step
    replies ++ store.serveAll file steps

theorem commit_rejected {store : JournaledIndex} {change : Change} {cause : Rejection}
    (rejected : store.index.check change = .error cause) (file : Bytes) :
    store.commit file .done change = (.error (.rejected cause), store, file) := by
  unfold commit
  rw [rejected]

end JournaledIndex

namespace Keeps

variable {entries : List Entry} {store : JournaledIndex} {file : Bytes}

theorem serveAll_eq (keeps : Keeps entries store file) {steps : List (Option Call)}
    (admits : store.index.Admits store.seq (steps.filterMap id)) :
    store.serveAll file steps = store.index.serveAll (steps.filterMap id) := by
  induction steps generalizing entries store file with
  | nil => rfl
  | cons step steps ih =>
      rcases step with _ | call
      · -- The store that is opened again keeps the same entries, hence has the same index and number.
        obtain ⟨reopened, started, kept⟩ := keeps.start_whole
        have index : reopened.index = store.index := by rw [kept.index, keeps.index]
        have seq : reopened.seq = store.seq := by rw [kept.seq, keeps.seq]
        rw [List.filterMap_cons_none rfl] at admits ⊢
        rw [← index, ← seq] at admits
        rw [← index, ← ih kept admits]
        simp only [JournaledIndex.serveAll, JournaledIndex.serve, started, List.nil_append]
      · have called : (some call :: steps).filterMap id = call :: steps.filterMap id := rfl
        rw [called] at admits ⊢
        cases call with
        | query q =>
            rw [Index.serveAll, Index.serve, ← ih keeps admits]
            rfl
        | commit change =>
            cases checked : store.index.check change with
            | error cause =>
                simp only [Index.Admits, checked] at admits
                have rejected := JournaledIndex.commit_rejected checked file
                rw [Index.serveAll, Index.serve, Index.commit, checked, ← ih keeps admits]
                simp only [JournaledIndex.serveAll, JournaledIndex.serve, rejected]
                rfl
            | ok _ =>
                simp only [Index.Admits, checked] at admits
                obtain ⟨storable, fits, admits⟩ := admits
                have committed := JournaledIndex.commit_of_fits keeps.writer checked fits
                have kept := keeps.commit_ok storable committed
                rw [Index.serveAll, Index.serve, Index.commit, checked, ← ih kept admits]
                simp only [JournaledIndex.serveAll, JournaledIndex.serve, committed]
                rfl

end Keeps

namespace JournaledIndex

/-- A journaled index and an index in memory reply the same to the same calls. -/
theorem replies_eq_in_memory {given : Option Bytes} (fresh : given = none ∨ given = some [])
    {steps : List (Option Call)} (admits : Index.empty.Admits 0 (steps.filterMap id)) :
    ∃ store file, start .standard given = .ok (store, file) ∧
      store.serveAll file steps = Index.empty.serveAll (steps.filterMap id) := by
  obtain ⟨started, keeps⟩ := Keeps.opened fresh
  exact ⟨_, _, started, keeps.serveAll_eq admits⟩

theorem replies_eq_for_orphan : ∃ store file, start .standard none = .ok (store, file) ∧
    store.serveAll file [some (.commit Commit.orphanOfFullDisk), none, some (.query .orphans)] =
      Index.empty.serveAll [.commit Commit.orphanOfFullDisk, .query .orphans] :=
  replies_eq_in_memory (.inl rfl) ⟨by decide, Commit.orphanOfFullDisk_fits, trivial⟩

end JournaledIndex

end Curtail
