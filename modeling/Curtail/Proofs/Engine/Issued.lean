import Curtail.Proofs.Engine.Schedule
import Curtail.Proofs.Engine.Service

namespace Curtail

/-- They are the same place, or belong to one settlement. -/
def TxRef.Shares (target other : TxRef) : Prop :=
  target = other ∨ ∃ id site place, target = ⟨id, .settle site⟩ ∧ other = ⟨id, .settle place⟩

theorem Change.shares_of_targets {change : Change} {target other : TxRef}
    (listed : target ∈ change.targets) (also : other ∈ change.targets) : target.Shares other := by
  cases change with
  | settleEvent id rows settledAt =>
      obtain ⟨row, -, rfl⟩ := List.mem_map.mp listed
      obtain ⟨other, -, rfl⟩ := List.mem_map.mp also
      exact .inr ⟨id, row.site, other.site, rfl, rfl⟩
  | upsertAudit request => cases listed
  | applyTxUpdates updates => cases listed
  | recordOrphan orphan => cases listed
  | _ => exact .inl ((List.mem_singleton.mp listed).trans (List.mem_singleton.mp also).symm)

namespace Index

structure Numbered (index : Index) (issued : List TxHandle) : Prop where
  known : ∀ target handle, index.handle? target = some handle → handle ∈ issued
  shared : ∀ target other handle, index.handle? target = some handle →
    index.handle? other = some handle → target.Shares other

def Lacks (index : Index) (handle : TxHandle) : Prop := ∀ target, index.handle? target ≠ some handle

theorem Lifecycle.regular {index : Index} (lifecycle : index.Lifecycle) : index.Regular where
  events id e found active := by
    have closed := (lifecycle.eventRows id e found).closed
    rw [active] at closed
    simpa using closed
  settlements key s found settled := by
    have claimed := (lifecycle.settlementRows key s found).claimed
    rw [settled] at claimed
    simpa using claimed

variable {index later : Index} {issued : List TxHandle} {handle : TxHandle}

theorem numbered_empty : Index.empty.Numbered [] := by
  have nothing : ∀ target, Index.empty.handle? target = none := by
    rintro ⟨id, _ | _ | _ | _ | _⟩ <;> rfl
  exact ⟨fun target handle carried => by simp [nothing] at carried,
    fun target other handle carried => by simp [nothing] at carried⟩

theorem Numbered.lacks (numbered : index.Numbered issued) (fresh : handle ∉ issued) :
    index.Lacks handle :=
  fun target carried => fresh (numbered.known target handle carried)

theorem Numbered.mono (numbered : index.Numbered issued) (more : List TxHandle) :
    index.Numbered (more ++ issued) where
  known target handle carried := List.mem_append_right _ (numbered.known target handle carried)
  shared := numbered.shared

theorem Numbered.congr (numbered : index.Numbered issued)
    (same : ∀ target, later.handle? target = index.handle? target) : later.Numbered issued := by
  constructor
  · intro target handle carried
    exact numbered.known target handle (same target ▸ carried)
  · intro target other handle carried also
    exact numbered.shared target other handle (same target ▸ carried) (same other ▸ also)

theorem Numbered.fill (numbered : index.Numbered issued) (member : handle ∈ issued)
    (lacks : index.Lacks handle) {change : Change} (fills : Fills index later change.targets handle) :
    later.Numbered issued := by
  have cases_of (target : TxRef) (other : TxHandle) (carried : later.handle? target = some other) :
      target ∈ change.targets ∧ other = handle ∨ index.handle? target = some other ∧ other ≠ handle := by
    rw [fills.filled] at carried
    split at carried
    case isTrue listed => exact .inl ⟨listed, (Option.some.inj carried).symm⟩
    case isFalse =>
      refine .inr ⟨carried, ?_⟩
      rintro rfl
      exact lacks target carried
  constructor
  · intro target other carried
    rcases cases_of target other carried with ⟨-, rfl⟩ | ⟨old, -⟩
    · exact member
    · exact numbered.known target other old
  · intro target place other carried also
    rcases cases_of target other carried with ⟨listed, rfl⟩ | ⟨old, unlike⟩
    · rcases cases_of place other also with ⟨again, -⟩ | ⟨-, unlike⟩
      · exact Change.shares_of_targets listed again
      · exact absurd rfl unlike
    · rcases cases_of place other also with ⟨-, same⟩ | ⟨older, -⟩
      · exact absurd same unlike
      · exact numbered.shared target place other old older

end Index

def Stage.held : Stage → List TxHandle
  | .holding tx => [tx.handle]
  | _ => []

/-- What the caller holds is its own, and what others hold does not get into the index. -/
structure Numbering (stage : Stage) (index : Index) (issued : List TxHandle) (r : Request)
    (reply : r.Reply) (later : Index) : Prop where
  numbered : later.Numbered (r.obtained reply ++ issued)
  held : ∀ handle ∈ (stage.after r reply).held, handle ∈ stage.held ∨ handle ∈ r.obtained reply
  lacks : ∀ handle ∈ (stage.after r reply).held, later.Lacks handle
  others : ∀ handle, handle ∉ stage.held → index.Lacks handle → later.Lacks handle

namespace Numbering

variable {stage : Stage} {index later : Index} {issued : List TxHandle} {r : Request} {reply : r.Reply}

theorem unchanged (numbered : index.Numbered issued) (lacks : ∀ handle ∈ stage.held, index.Lacks handle)
    (stays : ∀ handle ∈ (stage.after r reply).held, handle ∈ stage.held) :
    Numbering stage index issued r reply index where
  numbered := numbered.mono _
  held handle mine := .inl (stays handle mine)
  lacks handle mine := lacks handle (stays handle mine)
  others _ _ lacks := lacks

theorem quiet {change : Change} (numbered : index.Numbered issued) (quiet : change.IsQuiet)
    (leaves : (stage.after (.commit change) (.ok ())).held = []) :
    Numbering stage index issued (.commit change) (.ok ()) (index.apply change) where
  numbered := numbered.congr (Index.handle?_applyQuiet quiet)
  held handle mine := by simp [leaves] at mine
  lacks handle mine := by simp [leaves] at mine
  others handle _ lacks target := by
    rw [Index.handle?_applyQuiet quiet]
    exact lacks target

theorem of_serves (serves : index.Serves r reply later) (regular : index.Regular)
    (numbered : index.Numbered issued)
    (mine : ∀ handle ∈ stage.held, handle ∈ issued ∧ index.Lacks handle) (permits : stage.Permits r)
    (fresh : ∀ handle ∈ r.obtained reply, handle ∉ issued) :
    Numbering stage index issued r reply later := by
  have lacks : ∀ handle ∈ stage.held, index.Lacks handle := fun handle held => (mine handle held).2
  cases serves with
  | now t => cases stage <;> exact .unchanged numbered lacks fun _ held => held
  | commitLimit limit => cases stage <;> exact .unchanged numbered lacks fun _ held => held
  | query q => cases stage <;> exact .unchanged numbered lacks fun _ held => held
  | queryFailed q e => cases stage <;> exact .unchanged numbered lacks fun _ held => held
  | check handle reply => cases stage <;> exact .unchanged numbered lacks fun _ held => held
  | @commit change allowed =>
      cases stage with
      | idle => exact .quiet numbered permits.1 rfl
      | holding tx =>
          have carries : change.Carries tx := permits
          have fills := Index.apply_fills regular carries (Index.check_eq_ok_iff.mpr allowed)
          obtain ⟨known, unused⟩ := mine tx.handle List.mem_cons_self
          refine ⟨numbered.fill known unused fills, nofun, nofun, ?_⟩
          intro handle other lacks target
          rw [fills.filled]
          split
          · exact fun same => other (List.mem_singleton.mpr (Option.some.inj same).symm)
          · exact lacks target
      | stored tx change => exact permits.elim
      | refused tx =>
          obtain ⟨orphan, rfl, -⟩ := permits
          exact .quiet numbered trivial rfl
      | orphaned orphan => exact permits.elim
  | commitFailed change e =>
      cases stage with
      | idle => exact .unchanged numbered lacks nofun
      | holding tx => exact .unchanged numbered lacks nofun
      | stored tx change => exact permits.elim
      | refused tx =>
          obtain ⟨orphan, rfl, -⟩ := permits
          exact .unchanged numbered lacks nofun
      | orphaned orphan => exact permits.elim
  | submit action payload mode reply =>
      cases stage with
      | idle =>
          cases reply with
          | error e => exact .unchanged numbered lacks nofun
          | ok result =>
              refine ⟨numbered.mono _, fun handle held => .inr held, ?_, fun _ _ lacks => lacks⟩
              exact fun handle held => numbered.lacks (fresh handle held)
      | _ => exact permits.elim

end Numbering

namespace Service

/-- The ledger has given out these handles, none of them twice. -/
inductive Issues (first : Service) : Service → List TxHandle → Prop
  | start : Issues first first []
  | enter {s : Service} {issued : List TxHandle} (c : Configuration) (task : Task) :
      Issues first s issued →
      Issues first { s with clients := s.clients ++ [⟨task, task.operation c⟩] } issued
  | call {s : Service} {issued : List TxHandle} {position : Nat} {task : Task} {request : Request}
      {next : request.Reply → Program (Except Failure task.Result)} {reply : request.Reply}
      {storage : Storage} : Issues first s issued →
      s.clients[position]? = some ⟨task, .ask request next⟩ →
      s.storage.Serves request reply storage → (∀ handle ∈ request.obtained reply, handle ∉ issued) →
      Issues first ⟨storage, s.clients.set position ⟨task, next reply⟩,
        s.history ++ (request.accepted reply).map (Prod.mk task)⟩ (request.obtained reply ++ issued)
  | reopen {s : Service} {issued : List TxHandle} {store after : JournaledIndex} {file left : Bytes} :
      Issues first s issued → s.storage = .journal store file →
      JournaledIndex.start .standard (some file) = .ok (after, left) →
      Issues first { s with storage := .journal after left } issued

variable {first s : Service} {issued : List TxHandle}

theorem Issues.run (issues : Issues first s issued) : Relation.ReflTransGen Step first s := by
  induction issues with
  | start => exact .refl
  | enter c task _ ih => exact ih.tail (.enter c task)
  | call _ present serves _ ih => exact ih.tail (.call present serves)
  | reopen _ here started ih => exact ih.tail (.reopen here started)

structure Staged (s : Service) (issued : List TxHandle) (stages : Nat → Stage) : Prop where
  numbered : s.index.Numbered issued
  follows : ∀ p (client : Client), s.clients[p]? = some client →
    client.rest.Follows client.task.Ends (stages p)
  unbegun : ∀ p, s.clients[p]? = none → stages p = .idle
  held : ∀ p, ∀ handle ∈ (stages p).held, handle ∈ issued ∧ s.index.Lacks handle
  apart : ∀ p q, ∀ handle ∈ (stages p).held, handle ∈ (stages q).held → p = q

variable {stages : Nat → Stage}

theorem Begins.staged (begins : first.Begins) : first.Staged [] fun _ => .idle := by
  have fresh : first.index = .empty ∧ first.clients = [] := by
    cases begins with
    | memory => exact ⟨rfl, rfl⟩
    | journal fresh started =>
        obtain ⟨begun, keeps⟩ := Keeps.opened fresh
        rw [begun] at started
        cases started
        exact ⟨rfl, rfl⟩
  obtain ⟨index, clients⟩ := fresh
  refine ⟨?_, ?_, fun _ _ => rfl, nofun, nofun⟩
  · rw [index]
    exact Index.numbered_empty
  · intro p client present
    simp [clients] at present

theorem Staged.enter (staged : s.Staged issued stages) (c : Configuration) (task : Task) :
    Staged { s with clients := s.clients ++ [⟨task, task.operation c⟩] } issued stages where
  numbered := staged.numbered
  follows p client present := by
    by_cases old : p < s.clients.length
    · rw [List.getElem?_append_left old] at present
      exact staged.follows p client present
    · have new : s.clients.length ≤ p := Nat.le_of_not_lt old
      rw [List.getElem?_append_right new] at present
      obtain rfl := List.mem_singleton.mp (List.mem_of_getElem? present)
      rw [staged.unbegun p (List.getElem?_eq_none new)]
      exact task.follows c
  unbegun p absent := by
    have beyond := List.getElem?_eq_none_iff.mp absent
    rw [List.length_append] at beyond
    exact staged.unbegun p (List.getElem?_eq_none (by omega))
  held := staged.held
  apart := staged.apart

theorem Staged.apart_update (staged : s.Staged issued stages) {position : Nat} {stage : Stage}
    (own : ∀ handle ∈ stage.held, handle ∈ (stages position).held ∨ handle ∉ issued) (p q : Nat) :
    ∀ handle ∈ (Function.update stages position stage p).held,
      handle ∈ (Function.update stages position stage q).held → p = q := by
  have alone (other : Nat) (handle : TxHandle) (mine : handle ∈ stage.held)
      (held : handle ∈ (stages other).held) : other = position := by
    rcases own handle mine with old | new
    · exact staged.apart other position handle held old
    · exact absurd (staged.held other handle held).1 new
  intro handle mine also
  by_cases first : p = position <;> by_cases second : q = position
  · rw [first, second]
  · rw [first, Function.update_self] at mine
    rw [Function.update_of_ne second] at also
    exact absurd (alone q handle mine also) second
  · rw [second, Function.update_self] at also
    rw [Function.update_of_ne first] at mine
    exact absurd (alone p handle also mine) first
  · rw [Function.update_of_ne first] at mine
    rw [Function.update_of_ne second] at also
    exact staged.apart p q handle mine also

theorem Staged.call (staged : s.Staged issued stages) (regular : s.index.Regular) {position : Nat}
    {task : Task} {request : Request} {next : request.Reply → Program (Except Failure task.Result)}
    {reply : request.Reply} {storage : Storage} {history : List (Task × Change)}
    (present : s.clients[position]? = some ⟨task, .ask request next⟩)
    (serves : s.index.Serves request reply storage.index)
    (fresh : ∀ handle ∈ request.obtained reply, handle ∉ issued) :
    Staged ⟨storage, s.clients.set position ⟨task, next reply⟩, history⟩ (request.obtained reply ++ issued)
      (Function.update stages position ((stages position).after request reply)) := by
  obtain ⟨permits, others⟩ := staged.follows position _ present
  have numbering := Numbering.of_serves serves regular staged.numbered (staged.held position) permits fresh
  have inside : position < s.clients.length := (List.getElem?_eq_some_iff.mp present).1
  refine ⟨numbering.numbered, ?_, ?_, ?_, staged.apart_update fun handle held => ?_⟩
  · intro p client there
    by_cases same : p = position
    · subst same
      rw [List.getElem?_set_self inside] at there
      obtain rfl := Option.some.inj there
      rw [Function.update_self]
      exact others reply
    · rw [List.getElem?_set_ne (Ne.symm same)] at there
      rw [Function.update_of_ne same]
      exact staged.follows p client there
  · intro p absent
    have beyond := List.getElem?_eq_none_iff.mp absent
    rw [List.length_set] at beyond
    rw [Function.update_of_ne (by omega)]
    exact staged.unbegun p (List.getElem?_eq_none beyond)
  · intro p handle held
    by_cases same : p = position
    · subst same
      rw [Function.update_self] at held
      refine ⟨?_, numbering.lacks handle held⟩
      rcases numbering.held handle held with old | new
      · exact List.mem_append_right _ (staged.held p handle old).1
      · exact List.mem_append_left _ new
    · rw [Function.update_of_ne same] at held
      obtain ⟨known, lacks⟩ := staged.held p handle held
      have other : handle ∉ (stages position).held := fun mine =>
        same (staged.apart p position handle held mine)
      exact ⟨List.mem_append_right _ known, numbering.others handle other lacks⟩
  · exact (numbering.held handle held).imp_right (fresh handle)

theorem Issues.staged (begins : first.Begins) (issues : Issues first s issued) :
    ∃ stages, s.Staged issued stages := by
  induction issues with
  | start => exact ⟨_, begins.staged⟩
  | enter c task _ ih =>
      obtain ⟨stages, staged⟩ := ih
      exact ⟨stages, staged.enter c task⟩
  | call before present serves fresh ih =>
      obtain ⟨stages, staged⟩ := ih
      have sound := sound_of_run begins before.run
      exact ⟨_, staged.call sound.made.lifecycle.regular present (sound.served present serves).1 fresh⟩
  | @reopen s issued store after file left before here started ih =>
      obtain ⟨stages, staged⟩ := ih
      have index : (Storage.journal after left).index = s.index :=
        ((sound_of_run begins before.run).reopened here started).1
      refine ⟨stages, ?_, staged.follows, staged.unbegun, ?_, staged.apart⟩
      · rw [Service.index, index]
        exact staged.numbered
      · rw [Service.index, index]
        exact staged.held

theorem numbered_of_issues (begins : first.Begins) (issues : Issues first s issued) :
    s.index.Numbered issued := by
  obtain ⟨stages, staged⟩ := issues.staged begins
  exact staged.numbered

end Service

end Curtail
