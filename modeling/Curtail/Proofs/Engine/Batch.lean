import Curtail.Proofs.Engine.Race
import Curtail.Proofs.Index.Commute
import Curtail.Proofs.Index.Size

namespace Curtail

section Rows

variable {index : Index} {id : EventId} {rows others : List Settlement} {t : Instant}

theorem Index.apply_settleEvent_perm (apart : (rows.map (·.site)).Nodup) (reordered : others.Perm rows) :
    index.apply (.settleEvent id others t) = index.apply (.settleEvent id rows t) := by
  refine ext_get? (fun _ => rfl) (fun _ => rfl) (fun key => ?_) rfl rfl
  simp only [apply]
  rcases get?_insertRows index.settlements id rows key with ⟨row, listed, same, found⟩ | ⟨unlike, kept⟩ <;>
    rcases get?_insertRows index.settlements id others key with ⟨other, member, too, there⟩ | ⟨apart', still⟩
  · have site : other.site = row.site := (SiteKey.mk.inj (too.symm.trans same)).2
    have equal : other = row := List.inj_on_of_nodup_map apart (reordered.mem_iff.mp member) listed site
    rw [found, there, equal]
  · exact (apart' row (reordered.mem_iff.mpr listed) same).elim
  · exact (unlike other (reordered.mem_iff.mp member) too).elim
  · rw [kept, still]

theorem Index.allows_settleEvent_perm (reordered : others.Perm rows) :
    index.Allows (.settleEvent id others t) ↔ index.Allows (.settleEvent id rows t) := by
  simp only [Index.Allows, reordered.mem_iff]

end Rows

namespace Journal

theorem length_writeAt {data other : Bytes} (same : data.length = other.length) (file : Bytes) (offset : Nat) :
    (writeAt file offset data).length = (writeAt file offset other).length := by
  unfold writeAt
  split <;> simp [same]

theorem Writer.append_congr {f g : Frame} (same : f.payload.length = g.payload.length) (w : Writer)
    (file : Bytes) (fate : WriteFate) :
    (w.append file fate f).1 = (w.append file fate g).1 ∧
      (w.append file fate f).2.1 = (w.append file fate g).2.1 := by
  by_cases fits : f.Fits
  · have fits' : g.Fits := by
      unfold Frame.Fits at fits ⊢
      rwa [← same]
    have length : f.bytes.length = g.bytes.length := by
      rw [Frame.length_bytes, Frame.length_bytes, same]
    unfold append
    rw [Frame.encode_of_fits fits, Frame.encode_of_fits fits']
    cases fate with
    | done => exact ⟨rfl, congrArg (fun n => Writer.mk (w.length + n)) length⟩
    | stopped written reason =>
        have damaged : (writeAt file w.length (f.bytes.take written)).length =
            (writeAt file w.length (g.bytes.take written)).length :=
          length_writeAt (by simp [length]) file w.length
        refine ⟨rfl, ?_⟩
        simp only [truncate, damaged]
        split <;> rfl
  · have large : ¬g.Fits := by
      unfold Frame.Fits at fits ⊢
      rwa [← same]
    unfold append
    rw [Frame.encode_of_not_fits fits, Frame.encode_of_not_fits large, same]
    exact ⟨rfl, rfl⟩

end Journal

theorem JournaledIndex.commit_settleEvent_perm {id : EventId} {rows others : List Settlement} {t : Instant}
    (apart : (rows.map (·.site)).Nodup) (reordered : others.Perm rows) (store : JournaledIndex)
    (file : Bytes) (fate : Journal.WriteFate) (allowed : store.index.Allows (.settleEvent id rows t)) :
    let left := store.commit file fate (.settleEvent id rows t)
    let right := store.commit file fate (.settleEvent id others t)
    right.1 = left.1 ∧ right.2.1 = left.2.1 := by
  have accepted := Index.check_eq_ok_iff.mpr allowed
  have accepted' := Index.check_eq_ok_iff.mpr ((Index.allows_settleEvent_perm reordered).mpr allowed)
  have length : (frameOf ⟨store.seq + 1, .settleEvent id others t⟩).payload.length =
      (frameOf ⟨store.seq + 1, .settleEvent id rows t⟩).payload.length := by
    change (Bytes.ofText _).length = (Bytes.ofText _).length
    rw [Bytes.length_ofText, Bytes.length_ofText]
    change (Json.encode (Commit.mk _ _)).size = (Json.encode (Commit.mk _ _)).size
    rw [Commit.size_settleEvent, Commit.size_settleEvent, Json.Tree.size_list_perm reordered]
  have appended := Journal.Writer.append_congr length store.writer file fate
  simp only [commit, accepted, accepted', Index.apply_settleEvent_perm apart reordered]
  generalize store.writer.append file fate (frameOf ⟨store.seq + 1, .settleEvent id others t⟩) = right at *
  generalize store.writer.append file fate (frameOf ⟨store.seq + 1, .settleEvent id rows t⟩) = left at *
  obtain ⟨result, writer, bytes⟩ := left
  obtain ⟨_, _, bytes'⟩ := right
  obtain ⟨rfl, rfl⟩ := appended
  rename_i result writer
  cases result <;> exact ⟨rfl, rfl⟩

def settlementNotice (id : EventId) (sites : List SiteId) : Json.Value :=
  .record [("event_id", .string id.text), ("site_ids", .array (sites.map fun site => .string site.text))]

namespace Index

/-- A settlement that names no sites is for all that have a proof. -/
def Names (index : Index) (id : EventId) (requested : List SiteId) (site : SiteId) : Prop :=
  site ∈ requested ∨ requested = [] ∧ index.proofs.get? ⟨id, site⟩ ≠ none

def CanSettle (index : Index) (id : EventId) (sites : List SiteId) : Prop :=
  sites ≠ [] ∧ ∀ site ∈ sites, index.proofs.get? ⟨id, site⟩ ≠ none

def payoutFor (index : Index) (id : EventId) (event : Event) (share : UInt64) (site : SiteId) :
    SiteId × Int64 :=
  (site, (index.proofs.get? ⟨id, site⟩).elim 0 (event.payout share))

variable {index : Index} {id : EventId} {requested : List SiteId} {site : SiteId}

theorem mem_sitesToSettle : site ∈ index.sitesToSettle id requested ↔ index.Names id requested site := by
  unfold sitesToSettle Names
  split
  case isTrue none => simp [none, mem_sitesOf]
  case isFalse filled => simp [filled, mem_firsts]

end Index

namespace Index

variable {index : Index} {id : EventId} {event : Event} {sites : List SiteId} {share : UInt64}
  {tx : TxRecord} {t : Instant}

def settledRows (index : Index) (id : EventId) (event : Event) (share : UInt64) (tx : TxRecord) (t : Instant)
    (sites : List SiteId) : List Settlement :=
  (sites.map (index.payoutFor id event share)).map (.ofPayout id tx t)

theorem map_site_settledRows : (index.settledRows id event share tx t sites).map (·.site) = sites := by
  simp [settledRows, Function.comp_def, Settlement.ofPayout, payoutFor]

theorem Lifecycle.allows_settledRows (lifecycle : index.Lifecycle) (found : index.events.get? id = some event)
    (closed : event.status = .closed) (ready : index.CanSettle id sites) :
    index.Allows (.settleEvent id (index.settledRows id event share tx t sites) t) := by
  refine ⟨⟨event, found, closed⟩, ?_⟩
  unfold settledRows
  rw [List.forall_mem_map, List.forall_mem_map]
  intro site listed
  exact ⟨ready.2 site listed, lifecycle.unsettled found (by simp [closed]) site⟩

theorem Lifecycle.rowsOf_settled (lifecycle : index.Lifecycle) (found : index.events.get? id = some event)
    (closed : event.status = .closed) (ready : index.CanSettle id sites) (distinct : sites.Nodup)
    (coherent : tx.Coherent) :
    (rowsOf (index.apply (.settleEvent id (index.settledRows id event share tx t sites) t)).settlements id).Perm
      (index.settledRows id event share tx t sites) := by
  have allowed : index.Allows (.settleEvent id (index.settledRows id event share tx t sites) t) :=
    lifecycle.allows_settledRows found closed ready
  have after : (index.apply (.settleEvent id (index.settledRows id event share tx t sites) t)).Lifecycle :=
    lifecycle.settleEvent allowed (by simpa using ready.1) coherent
  have apart : (index.settledRows id event share tx t sites).map (·.site) |>.Nodup := by
    rwa [map_site_settledRows]
  rw [List.perm_ext_iff_of_nodup (after.distinct_settlements id).of_map apart.of_map]
  intro row
  rw [mem_rowsOf]
  constructor
  · rintro ⟨site, here⟩
    rcases settlement_cases here with ⟨pay, listed, -, rfl⟩ | old
    · exact List.mem_map_of_mem listed
    -- There were no rows of the event before.
    · cases (lifecycle.unsettled found (by simp [closed]) site).symm.trans old
  · intro listed
    refine ⟨row.site, ?_⟩
    rcases get?_insertRows index.settlements id (index.settledRows id event share tx t sites) ⟨id, row.site⟩ with
      ⟨other, member, same, here⟩ | ⟨unlike, -⟩
    · rwa [List.inj_on_of_nodup_map apart member listed (SiteKey.mk.inj same).2.symm] at here
    · exact (unlike row listed rfl).elim

end Index

namespace Operation

variable {around : Surroundings} {index : Index} {id : EventId} {event : Event} {share : UInt64}
  {sites requested : List SiteId} {c : Configuration}

theorem payouts_gives (proven : ∀ site ∈ sites, index.proofs.get? ⟨id, site⟩ ≠ none)
    (free : ∀ site, index.settlements.get? ⟨id, site⟩ = none) :
    (payouts event id share sites).Gives around index (sites.map (index.payoutFor id event share)) := by
  rw [payouts_gives_iff, List.forall₂_map_right_iff, List.forall₂_same]
  intro site listed
  obtain ⟨p, present⟩ := Option.ne_none_iff_exists'.mp (proven site listed)
  exact ⟨free site, p, present, by rw [Index.payoutFor, present]; rfl⟩

theorem proven_of_gives {pays : List (SiteId × Int64)}
    (paid : (payouts event id share sites).Gives around index pays) :
    ∀ site ∈ sites, index.proofs.get? ⟨id, site⟩ ≠ none := by
  have each := payouts_gives_iff.mp paid
  clear paid
  induction each with
  | nil => exact nofun
  | cons first _ ih =>
      obtain ⟨-, p, proven, -⟩ := first
      rw [List.forall_mem_cons]
      exact ⟨by simp [proven], ih⟩

theorem targetShare_of_ne_nil (target : UInt64) (filled : sites ≠ []) :
    ∃ share, Scoring.targetShare target sites.length = some share := by
  unfold Scoring.targetShare
  rw [if_neg (mt List.length_eq_zero_iff.mp filled)]
  exact ⟨_, rfl⟩

variable (lifecycle : index.Lifecycle) (found : index.events.get? id = some event)
  (closed : event.status = .closed)

include lifecycle found closed

theorem settleEvent_upToCommit (ready : index.CanSettle id (index.sitesToSettle id requested)) {r : TxResult}
    (sent : around.submit .settleEvent (settlementNotice id (index.sitesToSettle id requested)) c.mode = .ok r)
    (shared : Scoring.targetShare event.target (index.sitesToSettle id requested).length = some share) :
    let t := around.clock.wholeSecond
    let rows := index.settledRows id event share (.ofResult r) t (index.sitesToSettle id requested)
    (settleEvent c id requested).upToCommit around index =
      (commitSubmitted .settleEvent id none (.ofResult r) (.settleEvent id rows t) >>= fun _ =>
        (pure rows : Operation (List Settlement))).run := by
  have free := lifecycle.unsettled found (by simp [closed])
  intro t rows
  refine (upToCommit_bind (requireEvent_gives_iff.mpr found)).trans ?_
  simp only [closed]
  refine (upToCommit_bind ((sitesToSettle_gives_iff lifecycle).mpr rfl)).trans ?_
  rw [shared]
  refine (upToCommit_bind (payouts_gives ready.2 free)).trans ?_
  refine (upToCommit_bind (submit_gives_iff.mpr ⟨r, sent, rfl⟩)).trans ?_
  rfl

theorem settleEvent_succeeds (ready : index.CanSettle id (index.sitesToSettle id requested)) {r : TxResult}
    (sent : around.submit .settleEvent (settlementNotice id (index.sitesToSettle id requested)) c.mode = .ok r)
    (shared : Scoring.targetShare event.target (index.sitesToSettle id requested).length = some share) :
    let t := around.clock.wholeSecond
    let rows := index.settledRows id event share (.ofResult r) t (index.sitesToSettle id requested)
    (∃ next, (settleEvent c id requested).upToCommit around index =
      .ask (.commit (.settleEvent id rows t)) next) ∧
    (settleEvent c id requested).run.run around.serve index =
      (.ok rows, index.apply (.settleEvent id rows t)) := by
  intro t rows
  have built := settleEvent_upToCommit lifecycle found closed ready sent shared
  refine ⟨⟨_, built⟩, ?_⟩
  rw [← Program.run_advance]
  unfold upToCommit at built
  rw [built]
  exact commitSubmitted_run (Index.check_eq_ok_iff.mpr (lifecycle.allows_settledRows found closed ready)) _

theorem settleEvent_fails (unready : ¬(index.CanSettle id (index.sitesToSettle id requested) ∧ ∃ r,
      around.submit .settleEvent (settlementNotice id (index.sitesToSettle id requested)) c.mode = .ok r)) :
    ∃ f, (settleEvent c id requested).Fails around index f := by
  have start : ∀ {f}, _ → (settleEvent c id requested).Fails around index f := fun {f} rest =>
    (upToCommit_bind (requireEvent_gives_iff.mpr found)).trans <| by
      simp only [closed]
      exact (upToCommit_bind ((sitesToSettle_gives_iff lifecycle).mpr rfl)).trans rest
  by_cases filled : index.sitesToSettle id requested = []
  · refine ⟨.noSites id, start ?_⟩
    rw [filled]
    rfl
  · obtain ⟨share, shared⟩ := targetShare_of_ne_nil event.target filled
    have ends : (payouts event id share (index.sitesToSettle id requested)).Finishes around index :=
      payouts_finishes event id share _
    obtain ⟨verdict, paid⟩ := ends
    cases verdict with
    | error f =>
        refine ⟨f, start ?_⟩
        rw [shared]
        exact upToCommit_bind_error paid
    | ok pays =>
        cases sent : around.submit .settleEvent
          (settlementNotice id (index.sitesToSettle id requested)) c.mode with
        | ok r => exact (unready ⟨⟨filled, proven_of_gives paid⟩, r, sent⟩).elim
        | error e =>
            refine ⟨.ledger .settleEvent e, start ?_⟩
            rw [shared]
            refine (upToCommit_bind paid).trans (upToCommit_bind_error ?_)
            rw [upToCommit_submit, ← settlementNotice, sent]

end Operation

namespace Service

/-- Requests that name the same sites, in any order and however often, succeed alike and leave the same
index. -/
theorem settlement_ignores_order {first s : Service} (begins : first.Begins)
    (run : Relation.ReflTransGen Step first s) {id : EventId} {event : Event}
    (found : s.index.events.get? id = some event) (closed : event.status = .closed)
    {requested other : List SiteId}
    (same : ∀ site, s.index.Names id requested site ↔ s.index.Names id other site) (c : Configuration)
    {around : Surroundings}
    (answered : around.submit .settleEvent (settlementNotice id (s.index.sitesToSettle id other)) c.mode =
      around.submit .settleEvent (settlementNotice id (s.index.sitesToSettle id requested)) c.mode) :
    let left := (Operation.settleEvent c id requested).run.run around.serve s.index
    let right := (Operation.settleEvent c id other).run.run around.serve s.index
    (left.1.isOk ↔ right.1.isOk) ∧ right.2 = left.2 ∧
    (∀ rows, left.1 = .ok rows → (Index.rowsOf left.2.settlements id).Perm rows ∧
      (∃ others, right.1 = .ok others ∧ others.Perm rows) ∧
      (requested = [] → rows.map (·.site) = (Index.rowsOf s.index.proofs id).map (·.site)) ∧
      (requested ≠ [] → (∀ site, site ∈ rows.map (·.site) ↔ site ∈ requested) ∧
        (rows.map (·.site)).Pairwise fun a b => requested.idxOf a < requested.idxOf b)) ∧
    ∀ change next,
      (Operation.settleEvent c id requested).upToCommit around s.index = .ask (.commit change) next →
      ∃ change' next',
        (Operation.settleEvent c id other).upToCommit around s.index = .ask (.commit change') next' ∧
        ∀ (store : JournaledIndex) file fate, store.index = s.index →
          (store.commit file fate change').1 = (store.commit file fate change).1 ∧
          (store.commit file fate change').2.1 = (store.commit file fate change).2.1 := by
  have lifecycle := (sound_of_run begins run).made.lifecycle
  have reordered : (s.index.sitesToSettle id other).Perm (s.index.sitesToSettle id requested) := by
    rw [List.perm_ext_iff_of_nodup (Index.sitesToSettle_nodup id _) (Index.sitesToSettle_nodup id _)]
    intro site
    rw [Index.mem_sitesToSettle, Index.mem_sitesToSettle, same]
  have ready_iff : s.index.CanSettle id (s.index.sitesToSettle id other) ↔
      s.index.CanSettle id (s.index.sitesToSettle id requested) := by
    simp only [Index.CanSettle, ← List.length_pos_iff, reordered.length_eq, reordered.mem_iff]
  by_cases goes : s.index.CanSettle id (s.index.sitesToSettle id requested) ∧ ∃ r,
      around.submit .settleEvent (settlementNotice id (s.index.sitesToSettle id requested)) c.mode = .ok r
  case neg =>
    obtain ⟨f, fails⟩ := Operation.settleEvent_fails lifecycle found closed goes
    have others : ∃ g, (Operation.settleEvent c id other).Fails around s.index g :=
      Operation.settleEvent_fails lifecycle found closed (by rwa [ready_iff, answered])
    obtain ⟨g, fails'⟩ := others
    simp only [fails.run, fails'.run]
    refine ⟨by simp [Except.isOk, Except.toBool], trivial, nofun, ?_⟩
    intro change next built
    cases fails.symm.trans built
  case pos =>
    obtain ⟨ready, r, sent⟩ := goes
    obtain ⟨share, shared⟩ := Operation.targetShare_of_ne_nil event.target ready.1
    obtain ⟨⟨_, built⟩, ran⟩ := Operation.settleEvent_succeeds lifecycle found closed ready sent shared
    obtain ⟨⟨_, built'⟩, ran'⟩ := Operation.settleEvent_succeeds lifecycle found closed (ready_iff.mpr ready)
      (answered.trans sent) (reordered.length_eq ▸ shared)
    have apart : ((s.index.settledRows id event share (.ofResult r) around.clock.wholeSecond
        (s.index.sitesToSettle id requested)).map (·.site)).Nodup := by
      rw [Index.map_site_settledRows]
      exact Index.sitesToSettle_nodup _ _
    have others := (reordered.map (s.index.payoutFor id event share)).map
      (Settlement.ofPayout id (.ofResult r) around.clock.wholeSecond)
    simp only [ran, ran']
    refine ⟨Iff.rfl, Index.apply_settleEvent_perm apart others, ?_, ?_⟩
    · rintro _ ⟨⟩
      refine ⟨?_, ⟨_, rfl, others⟩, ?_, ?_⟩
      · exact lifecycle.rowsOf_settled found closed ready (Index.sitesToSettle_nodup _ _)
          (TxRecord.coherent_ofResult r)
      · rintro rfl
        rw [Index.map_site_settledRows, lifecycle.map_site, Index.sitesToSettle, if_pos rfl]
      · intro filled
        rw [Index.map_site_settledRows, Index.sitesToSettle, if_neg filled]
        exact ⟨fun _ => mem_firsts, firsts_in_order requested⟩
    · intro change next asked
      cases built.symm.trans asked
      refine ⟨_, _, built', ?_⟩
      rintro store file fate here
      exact store.commit_settleEvent_perm apart others file fate
        (here ▸ lifecycle.allows_settledRows found closed ready)

theorem settlement_of_two_orders : ∃ (s : Service) (rows : List Settlement),
    let asked (sites : List SiteId) := (Operation.settleEvent .standard ⟨"DR-1"⟩ sites).run.run
      (Surroundings.confirming (.ofSeconds 10)).serve s.index
    (asked [⟨"site-b"⟩, ⟨"site-a"⟩, ⟨"site-b"⟩]).1 = .ok rows ∧ rows.map (·.site) = [⟨"site-b"⟩, ⟨"site-a"⟩] ∧
    (asked []).2 = (asked [⟨"site-b"⟩, ⟨"site-a"⟩, ⟨"site-b"⟩]).2 ∧
    ∃ others, (asked []).1 = .ok others ∧ others.Perm rows := by
  obtain ⟨s, run, here⟩ := reaches_tasks (.confirming (.ofSeconds 10)) .standard (season.take 4)
    (s := ⟨.memory .empty, [], []⟩) rfl
  have event : ∃ e, s.index.events.get? ⟨"DR-1"⟩ = some e ∧ e.status = .closed := by
    rw [index, here]
    exact ⟨_, rfl, rfl⟩
  have proven : Index.sitesOf s.index.proofs ⟨"DR-1"⟩ = [⟨"site-a"⟩, ⟨"site-b"⟩] := by
    rw [index, here]
    rfl
  have done : ∃ rows, ((Operation.settleEvent .standard ⟨"DR-1"⟩ [⟨"site-b"⟩, ⟨"site-a"⟩, ⟨"site-b"⟩]).run.run
      (Surroundings.confirming (.ofSeconds 10)).serve s.index).1 = .ok rows ∧
      rows.map (·.site) = [⟨"site-b"⟩, ⟨"site-a"⟩] := by
    rw [index, here]
    exact ⟨_, rfl, rfl⟩
  obtain ⟨e, found, closed⟩ := event
  obtain ⟨rows, passed, order⟩ := done
  have same : ∀ site, s.index.Names ⟨"DR-1"⟩ [⟨"site-b"⟩, ⟨"site-a"⟩, ⟨"site-b"⟩] site ↔
      s.index.Names ⟨"DR-1"⟩ [] site := by
    intro site
    simp only [Index.Names, ← Index.mem_sitesOf, proven, List.mem_cons, List.not_mem_nil]
    tauto
  have answered (sites others : List SiteId) : (Surroundings.confirming (.ofSeconds 10)).submit .settleEvent
      (settlementNotice ⟨"DR-1"⟩ sites) .hybrid = (Surroundings.confirming (.ofSeconds 10)).submit .settleEvent
      (settlementNotice ⟨"DR-1"⟩ others) .hybrid := rfl
  obtain ⟨-, equal, both, -⟩ :=
    settlement_ignores_order .memory run found closed same .standard (answered _ _)
  exact ⟨s, rows, passed, order, equal, (both rows passed).2.1⟩

end Service

end Curtail
