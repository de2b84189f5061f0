import Curtail.Proofs.Engine.Service
import Curtail.Proofs.Index.Refusal
import Curtail.Proofs.Index.Transitions

/-!
What is left of a batch of settlements that a store has accepted. The rows go in one after another under
the event that is settled, so of several for one site the last one stays, and a row that names another
event is filed where it does not belong. Main result: `Storage.Reached.batch_kept_iff`.
-/

namespace Curtail

open Journal

namespace Index

/-- The row that a batch has for a site in the end. -/
def lastFor (rows : List Settlement) (site : SiteId) : Option Settlement :=
  rows.reverse.find? fun row => row.site = site

theorem lastFor_cons (row : Settlement) (rows : List Settlement) (site : SiteId) :
    lastFor (row :: rows) site = (lastFor rows site).or (if row.site = site then some row else none) := by
  by_cases same : row.site = site <;> simp [lastFor, same]

theorem lastFor_eq_none_iff {rows : List Settlement} {site : SiteId} :
    lastFor rows site = none ↔ site ∉ rows.map (·.site) := by
  simp [lastFor]

theorem lastFor_mem {rows : List Settlement} {site : SiteId} {row : Settlement}
    (last : lastFor rows site = some row) : row ∈ rows ∧ row.site = site := by
  unfold lastFor at last
  exact ⟨by simpa using List.mem_of_find?_eq_some last, by simpa using List.find?_some last⟩

theorem lastFor_of_nodup {rows : List Settlement} (apart : (rows.map (·.site)).Nodup) {row : Settlement}
    (listed : row ∈ rows) : lastFor rows row.site = some row := by
  cases last : lastFor rows row.site with
  | none => exact absurd (List.mem_map_of_mem listed) (lastFor_eq_none_iff.mp last)
  | some other =>
      obtain ⟨member, site⟩ := lastFor_mem last
      rw [List.inj_on_of_nodup_map apart member listed site]

theorem get?_foldl_insert (table : Table SiteKey Settlement) (id : EventId) (rows : List Settlement)
    (key : SiteKey) :
    (rows.foldl (fun t row => t.insert ⟨id, row.site⟩ row) table).get? key =
      if key.event = id then (lastFor rows key.site).or (table.get? key) else table.get? key := by
  induction rows generalizing table with
  | nil => simp [lastFor]
  | cons row rows ih =>
      obtain ⟨event, site⟩ := key
      rw [List.foldl_cons, ih, Table.get?_insert, lastFor_cons]
      by_cases own : event = id
      · by_cases same : row.site = site
        · simp [own, same]
        · have other : site ≠ row.site := fun equal => same equal.symm
          simp [own, same, other]
      · simp [own]

theorem Accepts.unsettled {history : List Change} (accepted : empty.Accepts history) {id : EventId} {e : Event}
    (found : (empty.applyAll history).events.get? id = some e) (before : e.status ≠ .settled)
    (site : SiteId) : (empty.applyAll history).settlements.get? ⟨id, site⟩ = none := by
  by_contra present
  obtain ⟨f, here, done⟩ := accepted.shows _ (accepted.settled ⟨id, site⟩ present)
  obtain rfl := Option.some.inj (found.symm.trans here)
  exact before done

def settlementsOf (index : Index) (id : EventId) : List Settlement := index.answer (.settlements id)

/-- Nothing of the batch is lost, and nothing of it is filed under another event. -/
structure KeepsBatch (index : Index) (id : EventId) (rows : List Settlement) : Prop where
  listed : (index.settlementsOf id).Perm rows
  found : ∀ row ∈ rows, index.answer (.settlement ⟨row.event, row.site⟩) = some row
  own : ∀ row ∈ index.settlementsOf id, row.event = id

section Kept

variable {index : Index} {id : EventId} {rows : List Settlement}
  (filed : ∀ site, index.settlements.get? ⟨id, site⟩ = lastFor rows site)

include filed

theorem mem_settlementsOf {row : Settlement} :
    row ∈ index.settlementsOf id ↔ lastFor rows row.site = some row := by
  rw [settlementsOf, answer, mem_rowsOf]
  constructor
  · rintro ⟨site, found⟩
    rw [filed] at found
    obtain ⟨-, rfl⟩ := lastFor_mem found
    exact found
  · intro last
    exact ⟨row.site, (filed row.site).trans last⟩

theorem map_site_settlementsOf :
    (index.settlementsOf id).map (·.site) = sitesOf index.settlements id := by
  rw [settlementsOf, answer, rowsOf_eq_filter, sitesOf, List.map_map]
  apply List.map_congr_left
  intro entry member
  obtain ⟨present, own⟩ := List.mem_filter.mp member
  obtain rfl : entry.1.event = id := by simpa using own
  have found := (filed entry.1.site).symm.trans (Table.get?_eq_some_iff.mpr present)
  exact (lastFor_mem found).2

theorem keepsBatch_iff :
    index.KeepsBatch id rows ↔ (rows.map (·.site)).Nodup ∧ ∀ row ∈ rows, row.event = id := by
  have distinct : ((index.settlementsOf id).map (·.site)).Nodup := by
    rw [map_site_settlementsOf filed]
    exact sitesOf_nodup _ _
  constructor
  · intro kept
    refine ⟨(kept.listed.map (·.site)).nodup_iff.mp distinct, ?_⟩
    exact fun row listed => kept.own row (kept.listed.mem_iff.mpr listed)
  · rintro ⟨apart, own⟩
    have listing : (index.settlementsOf id).Perm rows := by
      rw [List.perm_ext_iff_of_nodup distinct.of_map apart.of_map]
      intro row
      rw [mem_settlementsOf filed]
      exact ⟨fun last => (lastFor_mem last).1, lastFor_of_nodup apart⟩
    refine ⟨listing, ?_, fun row listed => own row (listing.mem_iff.mp listed)⟩
    intro row listed
    change index.settlements.get? ⟨row.event, row.site⟩ = some row
    rw [own row listed, filed, lastFor_of_nodup apart listed]

end Kept

end Index

namespace JournaledIndex

theorem accepts_of_replay {index later : Index} {seq last : UInt64} {found : List Commit}
    (replayed : replay index seq found = .ok (later, last)) :
    index.Accepts (found.map (·.change)) ∧ later = index.applyAll (found.map (·.change)) := by
  induction found generalizing index seq with
  | nil =>
      cases replayed
      exact ⟨trivial, rfl⟩
  | cons commit found ih =>
      unfold replay at replayed
      split at replayed
      · cases replayed
      cases checked : index.check commit.change with
      | error cause =>
          rw [checked] at replayed
          cases replayed
      | ok _ =>
          rw [checked] at replayed
          obtain ⟨accepted, made⟩ := ih replayed
          exact ⟨⟨checked, accepted⟩, made⟩

theorem accepts_of_recover? {options : WriteOptions} {given : Option Bytes} {index : Index} {seq : UInt64}
    {torn : Option Nat} (recovered : recover? options given = .ok (index, seq, torn)) :
    ∃ history, Index.empty.Accepts history ∧ index = Index.empty.applyAll history := by
  unfold recover? at recovered
  split at recovered
  · cases recovered
    exact ⟨[], trivial, rfl⟩
  split at recovered
  · unfold recover at recovered
    split at recovered
    · cases recovered
    split at recovered
    · cases recovered
    rename_i later last replayed
    split at recovered
    · cases recovered
    cases recovered
    exact ⟨_, accepts_of_replay replayed⟩
  · cases recovered
    exact ⟨[], trivial, rfl⟩

theorem accepts_of_start {options : WriteOptions} {given : Option Bytes} {store : JournaledIndex}
    {file : Bytes} (started : start options given = .ok (store, file)) :
    ∃ history, Index.empty.Accepts history ∧ store.index = Index.empty.applyAll history := by
  unfold start at started
  split at started
  · cases started
  rename_i recovered
  split at started
  · cases started
  split at started
  · cases started
    exact accepts_of_recover? recovered
  split at started
  · cases started
  · cases started
    exact accepts_of_recover? recovered

end JournaledIndex

namespace Storage

/-- The write of a journal may stop before its end. -/
def commit (storage : Storage) (fate : WriteFate) (change : Change) :
    Except StoreError Unit × Storage :=
  match storage with
  | .memory index => ((index.commit change).1, .memory (index.commit change).2)
  | .journal store file =>
    let (reply, after, left) := store.commit file fate change
    (reply, .journal after left)

/-- A store that was opened in any way on any file, and what commits make of it. -/
inductive Reached : Storage → Prop
  | empty : Reached (.memory .empty)
  | opened {options : WriteOptions} {given : Option Bytes} {store : JournaledIndex} {file : Bytes} :
      JournaledIndex.start options given = .ok (store, file) → Reached (.journal store file)
  | committed {storage : Storage} (fate : WriteFate) (change : Change) : Reached storage →
      Reached (storage.commit fate change).2

def IsHeld : Storage → Prop
  | .memory _ => True
  | .journal store file => Held store file

variable {storage : Storage}

theorem IsHeld.commit (held : storage.IsHeld) (fate : WriteFate) (change : Change) :
    (storage.commit fate change).2.IsHeld := by
  cases storage with
  | memory index => trivial
  | journal store file =>
      have made : store.commit file fate change = store.commit file fate change := rfl
      exact Held.committed held made

theorem IsHeld.commit_cases (held : storage.IsHeld) (fate : WriteFate) (change : Change) :
    (∃ e, storage.commit fate change = (.error e, storage)) ∨
      (storage.commit fate change).1 = .ok () ∧ storage.index.Allows change ∧
        (storage.commit fate change).2.index = storage.index.apply change := by
  cases storage with
  | memory index =>
      cases checked : index.check change with
      | error cause =>
          refine .inl ⟨.rejected cause, ?_⟩
          simp only [Storage.commit, Index.commit, checked]
      | ok _ =>
          refine .inr ⟨?_, Index.check_eq_ok_iff.mp checked, ?_⟩ <;>
            simp only [Storage.commit, Index.commit, checked, Storage.index]
  | journal store file =>
      have held : Held store file := held
      rcases committed : store.commit file fate change with ⟨reply, after, left⟩
      obtain ⟨synced, headed⟩ := held.length
      rcases JournaledIndex.commit_cases synced headed committed with
        ⟨e, rfl, rfl, rfl⟩ | ⟨rfl, accepted, -, rfl, rfl⟩
      · exact .inl ⟨e, by simp only [Storage.commit, committed]⟩
      · refine .inr ⟨?_, Index.check_eq_ok_iff.mp accepted, ?_⟩ <;>
          simp only [Storage.commit, committed, Storage.index]

namespace Reached

theorem isHeld (reached : storage.Reached) : storage.IsHeld := by
  induction reached with
  | empty => trivial
  | opened started => exact Held.opened started
  | committed fate change _ ih => exact ih.commit fate change

theorem accepts (reached : storage.Reached) :
    ∃ history, Index.empty.Accepts history ∧ storage.index = Index.empty.applyAll history := by
  induction reached with
  | empty => exact ⟨[], trivial, rfl⟩
  | opened started => exact JournaledIndex.accepts_of_start started
  | committed fate change before ih =>
      obtain ⟨history, accepted, made⟩ := ih
      rcases before.isHeld.commit_cases fate change with ⟨e, refused⟩ | ⟨-, allowed, done⟩
      · rw [refused]
        exact ⟨history, accepted, made⟩
      · refine ⟨history ++ [change], ?_, ?_⟩
        · rw [made] at allowed
          exact Index.accepts_append.mpr ⟨accepted, Index.check_eq_ok_iff.mpr allowed, trivial⟩
        · rw [done, made, Index.applyAll, Index.applyAll, List.foldl_append]
          rfl

/-- An accepted batch is kept in full if and only if no site comes twice and each row names the event.
-/
theorem batch_kept_iff (reached : storage.Reached) {fate : WriteFate} {id : EventId}
    {rows : List Settlement} {settledAt : Instant} {reply : Except StoreError Unit} {later : Storage}
    (committed : storage.commit fate (.settleEvent id rows settledAt) = (reply, later)) :
    (∀ e, reply = .error e → later = storage) ∧
    (reply = .ok () →
      (∀ site, later.index.answer (.settlement ⟨id, site⟩) = Index.lastFor rows site) ∧
      (∀ key : SiteKey, key.event ≠ id →
        later.index.answer (.settlement key) = storage.index.answer (.settlement key)) ∧
      (later.index.KeepsBatch id rows ↔ (rows.map (·.site)).Nodup ∧ ∀ row ∈ rows, row.event = id)) := by
  obtain ⟨history, accepted, made⟩ := reached.accepts
  rcases reached.isHeld.commit_cases fate (.settleEvent id rows settledAt) with ⟨e, refused⟩ | ⟨ok, allowed, done⟩
  · cases committed.symm.trans refused
    exact ⟨fun _ _ => rfl, nofun⟩
  rw [committed] at ok done
  obtain ⟨⟨e, found, closed⟩, -⟩ := allowed
  have rowAt (key : SiteKey) : later.index.settlements.get? key =
      if key.event = id then (Index.lastFor rows key.site).or (storage.index.settlements.get? key)
      else storage.index.settlements.get? key := by
    rw [done]
    exact Index.get?_foldl_insert _ id rows key
  have free (site : SiteId) : storage.index.settlements.get? ⟨id, site⟩ = none := by
    rw [made] at found ⊢
    exact accepted.unsettled found (by simp [closed]) site
  have filed (site : SiteId) : later.index.settlements.get? ⟨id, site⟩ = Index.lastFor rows site := by
    simp [rowAt, free]
  constructor
  · intro e failed
    cases ok.symm.trans failed
  · intro _
    refine ⟨filed, ?_, Index.keepsBatch_iff filed⟩
    intro key other
    exact (rowAt key).trans (if_neg other)

end Reached

def closed : Storage := .memory (Index.empty.applyAll (Index.wholeLife.take 3))

def paying (id : EventId) (payout : Int64) : Settlement :=
  ⟨id, ⟨"S1"⟩, payout, .settled, Index.sentTx "d", none, .ofSeconds 3, none⟩

theorem closed_reached : closed.Reached :=
  ((Reached.empty.committed .done Index.wholeLife[0]).committed .done Index.wholeLife[1]).committed .done
    Index.wholeLife[2]

def secondProof : Change :=
  .insertProof ⟨⟨"DR-1"⟩, ⟨"S2"⟩, 80, 80, 0, ⟨"flat"⟩, "", "", ⟨""⟩, Index.sentTx "f", ⟨"participant-b"⟩,
    .ofSeconds 1⟩

def closedWithTwo : Storage :=
  .memory (Index.empty.applyAll [Index.wholeLife[0], Index.wholeLife[1], secondProof, Index.wholeLife[2]])

def twoSites : List Settlement := [paying ⟨"DR-1"⟩ 80, { paying ⟨"DR-1"⟩ (-5) with site := ⟨"S2"⟩ }]

theorem closedWithTwo_reached : closedWithTwo.Reached :=
  (((Reached.empty.committed .done Index.wholeLife[0]).committed .done Index.wholeLife[1]).committed .done
    secondProof).committed .done Index.wholeLife[2]

theorem batch_kept_of_two_sites : ∃ later,
    closedWithTwo.Reached ∧
    closedWithTwo.commit .done (.settleEvent ⟨"DR-1"⟩ twoSites (.ofSeconds 3)) = (.ok (), later) ∧
    later.index.KeepsBatch ⟨"DR-1"⟩ twoSites := by
  rcases made : closedWithTwo.commit .done (.settleEvent ⟨"DR-1"⟩ twoSites (.ofSeconds 3)) with ⟨reply, later⟩
  obtain rfl : Except.ok () = reply := congrArg Prod.fst made
  obtain ⟨-, kept⟩ := closedWithTwo_reached.batch_kept_iff made
  obtain ⟨-, -, iff⟩ := kept rfl
  exact ⟨later, closedWithTwo_reached, rfl, iff.mpr (by decide)⟩

/-- Of two rows for one site the first is gone, and a row may be listed for an event that it does not
name. -/
theorem batch_lost : closed.Reached ∧
    (∃ later, closed.commit .done (.settleEvent ⟨"DR-1"⟩ [paying ⟨"DR-1"⟩ 1, paying ⟨"DR-1"⟩ 2]
        (.ofSeconds 3)) = (.ok (), later) ∧
      later.index.settlementsOf ⟨"DR-1"⟩ = [paying ⟨"DR-1"⟩ 2]) ∧
    ∃ later, closed.commit .done (.settleEvent ⟨"DR-1"⟩ [paying ⟨"DR-2"⟩ 1] (.ofSeconds 3)) =
        (.ok (), later) ∧
      later.index.settlementsOf ⟨"DR-1"⟩ = [paying ⟨"DR-2"⟩ 1] ∧
      later.index.answer (.settlement ⟨⟨"DR-2"⟩, ⟨"S1"⟩⟩) = none :=
  ⟨closed_reached, ⟨_, rfl, rfl⟩, _, rfl, rfl, rfl⟩

end Storage

end Curtail
