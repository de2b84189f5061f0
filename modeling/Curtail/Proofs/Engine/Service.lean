import Curtail.Proofs.Engine.Alone
import Curtail.Proofs.Engine.Conduct
import Curtail.Proofs.Entity.Payload
import Curtail.Proofs.Index.Recovery
import Mathlib.Logic.Relation

/-!
The engine at work: any number of tasks over one storage, which is kept in memory or in a journal that
may be opened again at any time. Every index that it comes to is made by the changes of its tasks, and
hence keeps to the lifecycle.
-/

namespace Curtail

open Journal Json

/-- In memory, or in a store whose journal is this file. -/
inductive Storage
  | memory (index : Index)
  | journal (store : JournaledIndex) (file : Bytes)

def Storage.index : Storage → Index
  | .memory index => index
  | .journal store _ => store.index

/-- Every call may fail at will. Instants in a journal lie in the range of the calendar. -/
inductive Storage.Serves (storage : Storage) : (r : Request) → r.Reply → Storage → Prop
  | now (t : Instant) : Serves storage .now t storage
  | commitLimit (limit : Option Nat) : Serves storage .commitLimit limit storage
  | query (q : Query) : Serves storage (.query q) (.ok (storage.index.answer q)) storage
  | queryFailed (q : Query) (e : StoreError) : Serves storage (.query q) (.error e) storage
  | commit {index : Index} (change : Change) : storage = .memory index →
      Serves storage (.commit change) (index.commit change).1 (.memory (index.commit change).2)
  | append {store after : JournaledIndex} {file left : Bytes} {fate : WriteFate} {change : Change}
      {result : Except StoreError Unit} : storage = .journal store file →
      (∀ t ∈ change.instants, t.inRange = true) →
      store.commit file fate change = (result, after, left) →
      Serves storage (.commit change) result (.journal after left)
  | commitFailed (change : Change) (e : StoreError) :
      Serves storage (.commit change) (.error e) storage
  | submit (action : LedgerAction) (payload : Value) (mode : ConfirmMode)
      (reply : Except LedgerError TxResult) :
      Serves storage (.submit action payload mode) reply storage
  | check (handle : TxHandle) (reply : Except LedgerError TxCheck) :
      Serves storage (.check handle) reply storage

structure Client where
  task : Task
  rest : Program (Except Failure task.Result)

structure Service where
  storage : Storage
  clients : List Client
  history : List (Task × Change)

def Request.accepted : (r : Request) → r.Reply → List Change
  | .commit change, .ok () => [change]
  | _, _ => []

namespace Service

def index (s : Service) : Index := s.storage.index

inductive Begins : Service → Prop
  | memory : Begins ⟨.memory .empty, [], []⟩
  | journal {given : Option Bytes} {store : JournaledIndex} {file : Bytes} :
      given = none ∨ given = some [] → JournaledIndex.start .standard given = .ok (store, file) →
      Begins ⟨.journal store file, [], []⟩

/-- A task begins or makes its next call, or the journal is opened again. -/
inductive Step : Service → Service → Prop
  | enter {s : Service} (c : Configuration) (task : Task) :
      Step s { s with clients := s.clients ++ [⟨task, task.operation c⟩] }
  | call {s : Service} {position : Nat} {task : Task} {request : Request}
      {next : request.Reply → Program (Except Failure task.Result)} {reply : request.Reply}
      {storage : Storage} : s.clients[position]? = some ⟨task, .ask request next⟩ →
      s.storage.Serves request reply storage →
      Step s ⟨storage, s.clients.set position ⟨task, next reply⟩,
        s.history ++ (request.accepted reply).map (Prod.mk task)⟩
  | reopen {s : Service} {store after : JournaledIndex} {file left : Bytes} :
      s.storage = .journal store file →
      JournaledIndex.start .standard (some file) = .ok (after, left) →
      Step s { s with storage := .journal after left }

end Service

theorem Task.Makes.hashes_isPlain {task : Task} {index : Index} {change : Change}
    (makes : task.Makes index change) : ∀ h ∈ change.hashes, h.IsPlain := by
  cases makes with
  | submitProof made coherent =>
      intro h listed
      obtain rfl := List.mem_singleton.mp listed
      change (Payload.hash _).IsPlain
      rw [Payload.hash_eq made]
      exact ProofHash.ofBytes_isPlain _
  | _ => exact nofun

theorem Index.Serves.madeBy {index later : Index} {r : Request} {reply : r.Reply} {task : Task}
    {history : List (Task × Change)} (serves : index.Serves r reply later)
    (made : index.MadeBy history)
    (makes : ∀ change, r = .commit change → index.Allows change → task.Makes index change) :
    later.MadeBy (history ++ (r.accepted reply).map (Prod.mk task)) := by
  cases serves with
  | commit allowed => exact .change made allowed (makes _ rfl allowed)
  | submit action payload mode reply => cases reply <;> simpa [Request.accepted] using made
  | _ => simpa [Request.accepted] using made

def Storage.IsKept : Storage → Prop
  | .memory _ => True
  | .journal store file => ∃ entries, Keeps entries store file

theorem Storage.IsKept.reopened {store after : JournaledIndex} {file left : Bytes}
    (kept : (Storage.journal store file).IsKept)
    (started : JournaledIndex.start .standard (some file) = .ok (after, left)) :
    after.index = store.index ∧ (Storage.journal after left).IsKept := by
  obtain ⟨entries, keeps⟩ := kept
  obtain ⟨reopened, opened, again⟩ := keeps.start_whole
  rw [opened] at started
  obtain ⟨rfl, rfl⟩ := Prod.mk.inj (Except.ok.inj started)
  exact ⟨by rw [again.index, keeps.index], entries, again⟩

theorem Storage.Serves.index {storage later : Storage} {r : Request} {reply : r.Reply}
    (serves : storage.Serves r reply later) (kept : storage.IsKept)
    (plain : ∀ change, r = .commit change → storage.index.Allows change →
      ∀ h ∈ change.hashes, h.IsPlain) :
    storage.index.Serves r reply later.index ∧ later.IsKept := by
  cases serves with
  | now t => exact ⟨.now t, kept⟩
  | commitLimit limit => exact ⟨.commitLimit limit, kept⟩
  | query q => exact ⟨.query q, kept⟩
  | queryFailed q e => exact ⟨.queryFailed q e, kept⟩
  | @commit index change same =>
      subst same
      refine ⟨?_, trivial⟩
      unfold Index.commit
      cases checked : index.check change with
      | ok _ => exact .commit (Index.check_eq_ok_iff.mp checked)
      | error cause => exact .commitFailed change _
  | @append store after file left fate change result same within committed =>
      subst same
      obtain ⟨entries, keeps⟩ := kept
      rcases JournaledIndex.commit_cases keeps.writer keeps.headed committed with
        ⟨e, rfl, rfl, rfl⟩ | ⟨rfl, accepted, -, same, -⟩
      · exact ⟨.commitFailed change e, entries, keeps⟩
      · have allowed := Index.check_eq_ok_iff.mp accepted
        have writable : change.IsWritable := ⟨within, plain change rfl allowed⟩
        refine ⟨?_, _, keeps.commit_writable writable committed⟩
        have made : after.index = store.index.apply change := by rw [same]
        change store.index.Serves _ _ after.index
        rw [made]
        exact .commit allowed
  | commitFailed change e => exact ⟨.commitFailed change e, kept⟩
  | submit action payload mode reply => exact ⟨.submit action payload mode reply, kept⟩
  | check handle reply => exact ⟨.check handle reply, kept⟩

theorem Surroundings.serve_serves (around : Surroundings) (r : Request) (index : Index) :
    (Storage.memory index).Serves r (around.serve r index).1 (.memory (around.serve r index).2) := by
  cases r with
  | now => exact .now around.clock
  | commitLimit => exact .commitLimit none
  | query q => exact .query q
  | commit change => exact .commit change rfl
  | submit action payload mode => exact .submit action payload mode _
  | check handle => exact .check handle _

namespace Service

/-- The history makes the index, and every task in progress commits what it may make. -/
structure Sound (s : Service) : Prop where
  made : s.index.MadeBy s.history
  kept : s.storage.IsKept
  tasks : ∀ client ∈ s.clients, client.rest.Commits client.task (fun _ _ => True) s.index

theorem Begins.sound {s : Service} (begins : s.Begins) : s.Sound := by
  cases begins with
  | memory => exact ⟨.empty, trivial, nofun⟩
  | journal fresh started =>
      obtain ⟨begun, keeps⟩ := Keeps.opened fresh
      rw [begun] at started
      cases started
      exact ⟨.empty, ⟨[], keeps⟩, nofun⟩

theorem Sound.served {s : Service} (sound : s.Sound) {position : Nat} {task : Task} {request : Request}
    {next : request.Reply → Program (Except Failure task.Result)} {reply : request.Reply}
    {storage : Storage} (present : s.clients[position]? = some ⟨task, .ask request next⟩)
    (serves : s.storage.Serves request reply storage) :
    s.index.Serves request reply storage.index ∧ storage.IsKept := by
  obtain ⟨makes, -⟩ :=
    sound.tasks _ (List.mem_of_getElem? present) s.index (.refl s.index) ⟨s.history, sound.made⟩
  exact serves.index sound.kept fun change same allowed => (makes change same allowed).hashes_isPlain

theorem Sound.reopened {s : Service} (sound : s.Sound) {store after : JournaledIndex}
    {file left : Bytes} (same : s.storage = .journal store file)
    (started : JournaledIndex.start .standard (some file) = .ok (after, left)) :
    (Storage.journal after left).index = s.index ∧ (Storage.journal after left).IsKept := by
  have kept := sound.kept
  rw [same] at kept
  rw [Service.index, same]
  exact kept.reopened started

theorem Sound.step {s later : Service} (sound : s.Sound) (step : Step s later) : later.Sound := by
  cases step with
  | enter c task =>
      refine ⟨sound.made, sound.kept, ?_⟩
      intro client member
      rcases List.mem_append.mp member with old | new
      · exact sound.tasks client old
      · obtain rfl := List.mem_singleton.mp new
        exact (task.commits c s.index).run.mono fun _ _ _ => trivial
  | @call position task request next reply storage present serves =>
      obtain ⟨makes, others⟩ :=
        sound.tasks _ (List.mem_of_getElem? present) s.index (.refl s.index) ⟨s.history, sound.made⟩
      obtain ⟨served, kept⟩ := sound.served present serves
      refine ⟨served.madeBy sound.made makes, kept, ?_⟩
      intro client listed
      rcases List.mem_or_eq_of_mem_set listed with old | rfl
      · exact (sound.tasks client old).onward served.onward
      · exact others reply storage.index served
  | @reopen store after file left same started =>
      obtain ⟨index, kept⟩ := sound.reopened same started
      refine ⟨?_, kept, ?_⟩
      · change (Storage.journal after left).index.MadeBy s.history
        rw [index]
        exact sound.made
      · intro client member
        change client.rest.Commits client.task _ (Storage.journal after left).index
        rw [index]
        exact sound.tasks client member

theorem sound_of_run {first s : Service} (begins : first.Begins)
    (run : Relation.ReflTransGen Step first s) : s.Sound := by
  induction run with
  | refl => exact begins.sound
  | tail _ step ih => exact ih.step step

theorem Step.onward {s later : Service} (sound : s.Sound) (step : Step s later) :
    s.index.Onward later.index := by
  cases step with
  | enter c task => exact .refl s.index
  | call present serves => exact (sound.served present serves).1.onward
  | @reopen store after file left same started =>
      change s.index.Onward (Storage.journal after left).index
      rw [(sound.reopened same started).1]
      exact .refl s.index

theorem onward_of_run {s later : Service} (sound : s.Sound)
    (run : Relation.ReflTransGen Step s later) : later.Sound ∧ s.index.Onward later.index := by
  induction run with
  | refl => exact ⟨sound, .refl s.index⟩
  | tail _ step ih => exact ⟨ih.1.step step, ih.2.trans (step.onward ih.1)⟩

theorem reaches_call (around : Surroundings) {task : Task} {s : Service} {index : Index} {position : Nat}
    {r : Request} {next : r.Reply → Program (Except Failure task.Result)} (here : s.storage = .memory index)
    (present : s.clients[position]? = some ⟨task, .ask r next⟩) :
    ∃ later, Step s later ∧ later.storage = .memory (around.serve r index).2 ∧
      later.clients[position]? = some ⟨task, next (around.serve r index).1⟩ ∧
      ∀ other, other ≠ position → later.clients[other]? = s.clients[other]? := by
  have serves := around.serve_serves r index
  rw [← here] at serves
  have inside : position < s.clients.length := (List.getElem?_eq_some_iff.mp present).1
  exact ⟨_, .call present serves, rfl, List.getElem?_set_self inside,
    fun other apart => List.getElem?_set_ne apart.symm⟩

theorem reaches_run (around : Surroundings) {task : Task} {s : Service} {index : Index}
    {position : Nat} {rest : Program (Except Failure task.Result)} (here : s.storage = .memory index)
    (present : s.clients[position]? = some ⟨task, rest⟩) :
    ∃ later, Relation.ReflTransGen Step s later ∧
      later.storage = .memory (rest.run around.serve index).2 ∧
      ∀ other, other ≠ position → later.clients[other]? = s.clients[other]? := by
  induction rest generalizing s index with
  | done result => exact ⟨s, .refl, here, fun _ _ => rfl⟩
  | ask r next ih =>
      obtain ⟨between, step, there, turned, beside⟩ := reaches_call around here present
      obtain ⟨later, run, ended, kept⟩ := ih (around.serve r index).1 there turned
      exact ⟨later, .head step run, ended, fun other apart => (kept other apart).trans (beside other apart)⟩

theorem reaches_tasks_beside (around : Surroundings) (c : Configuration) (tasks : List Task) {s : Service}
    {index : Index} (here : s.storage = .memory index) :
    ∃ later, Relation.ReflTransGen Step s later ∧
      later.storage = .memory (tasks.foldl (around.after c) index) ∧
      ∀ (position : Nat) (client : Client), s.clients[position]? = some client →
        later.clients[position]? = some client := by
  induction tasks generalizing s index with
  | nil => exact ⟨s, .refl, here, fun _ _ => id⟩
  | cons task tasks ih =>
      let entered : Service := { s with clients := s.clients ++ [⟨task, task.operation c⟩] }
      have present : entered.clients[s.clients.length]? = some ⟨task, task.operation c⟩ :=
        List.getElem?_concat_length
      obtain ⟨between, run, there, beside⟩ := reaches_run around (s := entered) here present
      obtain ⟨later, others, reached, kept⟩ := ih there
      refine ⟨later, .head (.enter c task) (run.trans others), reached, ?_⟩
      intro position client old
      have inside := (List.getElem?_eq_some_iff.mp old).1
      refine kept position client ?_
      rw [beside position (Nat.ne_of_lt inside), List.getElem?_append_left inside, old]

theorem reaches_tasks (around : Surroundings) (c : Configuration) (tasks : List Task) {s : Service}
    {index : Index} (here : s.storage = .memory index) :
    ∃ later, Relation.ReflTransGen Step s later ∧
      later.storage = .memory (tasks.foldl (around.after c) index) := by
  obtain ⟨later, run, reached, -⟩ := reaches_tasks_beside around c tasks here
  exact ⟨later, run, reached⟩

/-- The lifecycle is kept in every state that the engine comes to. -/
theorem lifecycle_of_run {first s : Service} (begins : first.Begins)
    (run : Relation.ReflTransGen Step first s) : s.index.Lifecycle :=
  (sound_of_run begins run).made.lifecycle

/-- Two sites of an event prove what they did, and one of them claims its reward. -/
def season : List Task :=
  [.createEvent ⟨⟨"DR-1"⟩, .ofSeconds 0, .ofSeconds 3600, 100, 3, 1⟩,
    .submitProof ⟨⟨"DR-1"⟩, ⟨"site-a"⟩, 90, 30, ⟨"meter"⟩, "a.json", none, none, ⟨"participant-a"⟩⟩,
    .submitProof ⟨⟨"DR-1"⟩, ⟨"site-b"⟩, 80, 40, ⟨"meter"⟩, "b.json", none, none, ⟨"participant-b"⟩⟩,
    .closeEvent ⟨"DR-1"⟩, .settleEvent ⟨"DR-1"⟩ [],
    .claimReward ⟨⟨"DR-1"⟩, ⟨"site-a"⟩⟩ ⟨"participant-a"⟩]

theorem lifecycle_of_season : ∃ s : Service, s.index.Lifecycle ∧
    (s.index.events.get? ⟨"DR-1"⟩).map (·.status) = some .settled ∧
    (s.index.settlements.get? ⟨⟨"DR-1"⟩, ⟨"site-a"⟩⟩).map (·.status) = some .claimed := by
  obtain ⟨s, run, here⟩ := reaches_tasks (.confirming (.ofSeconds 10)) .standard season
    (s := ⟨.memory .empty, [], []⟩) rfl
  refine ⟨s, lifecycle_of_run .memory run, ?_, ?_⟩
  · rw [index, here]
    rfl
  · rw [index, here]
    rfl

/-- The payouts of a settled event follow from the event and its proofs. -/
theorem payouts_of_run {first s : Service} (begins : first.Begins)
    (run : Relation.ReflTransGen Step first s) {id : EventId} {e : Event}
    (found : s.index.events.get? id = some e) (done : e.status = .settled) :
    (∃ share : UInt64, Index.rowsOf s.index.settlements id ≠ [] ∧
      share.toNat = e.target.toNat / (Index.rowsOf s.index.settlements id).length ∧
      ∀ row ∈ Index.rowsOf s.index.settlements id, ∃ p,
        s.index.proofs.get? ⟨row.event, row.site⟩ = some p ∧
        row.payout = Scoring.payout p.reduction share e.rewardRate e.penaltyRate) ∧
    (∃ requested rows settledAt,
      (Task.settleEvent id requested, Change.settleEvent id rows settledAt) ∈ s.history) ∧
    ∀ rows settledAt, (Task.settleEvent id [], Change.settleEvent id rows settledAt) ∈ s.history →
      ∀ site, s.index.settlements.get? ⟨id, site⟩ ≠ none ↔ s.index.proofs.get? ⟨id, site⟩ ≠ none := by
  have made := (sound_of_run begins run).made
  obtain ⟨share, shared, paid⟩ := made.pays found done
  rw [← Index.length_rowsOf] at shared
  obtain ⟨filled, equal⟩ := Index.targetShare_eq_some shared
  refine ⟨⟨share, ?_, equal, ?_⟩, made.settled found done, ?_⟩
  · intro empty
    rw [empty] at filled
    exact filled rfl
  · intro row listed
    obtain ⟨site, present⟩ := Index.mem_rowsOf.mp listed
    obtain ⟨p, proven, payout⟩ := paid site row present
    obtain ⟨rfl, rfl⟩ := made.lifecycle.settlements _ row present
    exact ⟨p, proven, payout⟩
  · intro rows settledAt listed site
    obtain ⟨requested, f, same, -, -, sites⟩ := made.sites listed
    obtain ⟨-, rfl⟩ := Task.settleEvent.inj same
    have all : s.index.sitesToSettle id [] = Index.sitesOf s.index.proofs id := if_pos rfl
    rw [← Index.mem_sitesOf, ← Index.mem_sitesOf, sites.mem_iff, all]

theorem payouts_of_season : ∃ (s : Service) (share : UInt64), share.toNat = 50 ∧
    (Index.rowsOf s.index.settlements ⟨"DR-1"⟩).length = 2 ∧
    ∀ row ∈ Index.rowsOf s.index.settlements ⟨"DR-1"⟩, ∃ p,
      s.index.proofs.get? ⟨row.event, row.site⟩ = some p ∧
      row.payout = Scoring.payout p.reduction share 3 1 := by
  obtain ⟨s, run, here⟩ := reaches_tasks (.confirming (.ofSeconds 10)) .standard season
    (s := ⟨.memory .empty, [], []⟩) rfl
  have event : ∃ e, s.index.events.get? ⟨"DR-1"⟩ = some e ∧ e.status = .settled ∧
      e.target = 100 ∧ e.rewardRate = 3 ∧ e.penaltyRate = 1 := by
    rw [index, here]
    exact ⟨_, rfl, rfl, rfl, rfl, rfl⟩
  have rows : (Index.rowsOf s.index.settlements ⟨"DR-1"⟩).length = 2 := by
    rw [index, here]
    rfl
  obtain ⟨e, found, done, target, reward, penalty⟩ := event
  obtain ⟨⟨share, -, equal, paid⟩, -, -⟩ := payouts_of_run .memory run found done
  rw [rows, target] at equal
  rw [reward, penalty] at paid
  exact ⟨s, share, equal, rows, paid⟩

end Service

end Curtail
