import Curtail.Proofs.Engine.Task
import Mathlib.Logic.Relation

/-!
Operations of the engine that run at the same time. Every transaction that the ledger accepts is
accounted for once, in the rows of the index or by an orphan.
-/

namespace Curtail

structure Caller where
  task : Task
  rest : Program (Except Failure task.Result)
  handles : List TxHandle

structure System where
  index : Index
  issued : List TxHandle
  callers : List Caller

/-- Calls may fail, except for the record of an orphan, and no handle is given out twice. -/
inductive Answers (index : Index) (issued : List TxHandle) :
    (r : Request) → r.Reply → Index → List TxHandle → Prop
  | now (t : Instant) : Answers index issued .now t index issued
  | commitLimit (limit : Option Nat) : Answers index issued .commitLimit limit index issued
  | query (q : Query) : Answers index issued (.query q) (.ok (index.answer q)) index issued
  | queryFailed (q : Query) (e : StoreError) :
      Answers index issued (.query q) (.error e) index issued
  | commit (change : Change) :
      Answers index issued (.commit change) (index.commit change).1 (index.commit change).2 issued
  | commitFailed {change : Change} (e : StoreError) : (∀ orphan, change ≠ .recordOrphan orphan) →
      Answers index issued (.commit change) (.error e) index issued
  | submitted (action : LedgerAction) (payload : Json.Value) (mode : ConfirmMode)
      (result : TxResult) : result.handle ∉ issued →
      Answers index issued (.submit action payload mode) (.ok result) index (result.handle :: issued)
  | submitFailed (action : LedgerAction) (payload : Json.Value) (mode : ConfirmMode)
      (e : LedgerError) : Answers index issued (.submit action payload mode) (.error e) index issued
  | checked (handle : TxHandle) (reply : Except LedgerError TxCheck) :
      Answers index issued (.check handle) reply index issued

def Request.obtained : (r : Request) → r.Reply → List TxHandle
  | .submit .., .ok result => [result.handle]
  | _, _ => []

structure Index.Accounts (index : Index) (handle : TxHandle) (targets : List TxRef)
    (orphans : List Orphan) : Prop where
  rows : ∀ target, index.handle? target = some handle ↔ target ∈ targets
  orphans : index.orphans.filter (fun orphan => orphan.tx.handle = handle) = orphans

structure Index.Issued (index : Index) (issued : List TxHandle) : Prop where
  rows : ∀ target handle, index.handle? target = some handle → handle ∈ issued
  orphans : ∀ orphan ∈ index.orphans, orphan.tx.handle ∈ issued

namespace Stage

def handles : Stage → List TxHandle
  | .idle => []
  | .holding tx | .stored tx _ | .refused tx => [tx.handle]
  | .orphaned orphan => [orphan.tx.handle]

/-- What the index holds of the transaction at a stage. -/
def Holds (index : Index) : Stage → Prop
  | .idle => True
  | .holding tx | .refused tx => index.Accounts tx.handle [] []
  | .stored tx change => change.Carries tx ∧ index.Accounts tx.handle change.targets []
  | .orphaned orphan => index.Accounts orphan.tx.handle [] [orphan]

theorem Holds.mono {index later : Index} {stage : Stage} (holds : stage.Holds index)
    (kept : ∀ handle ∈ stage.handles, ∀ targets orphans,
      index.Accounts handle targets orphans → later.Accounts handle targets orphans) :
    stage.Holds later := by
  cases stage with
  | idle => trivial
  | holding tx => exact kept _ List.mem_cons_self _ _ holds
  | stored tx change => exact ⟨holds.1, kept _ List.mem_cons_self _ _ holds.2⟩
  | refused tx => exact kept _ List.mem_cons_self _ _ holds
  | orphaned orphan => exact kept _ List.mem_cons_self _ _ holds

end Stage

namespace Index

variable {index : Index} {issued : List TxHandle} {handle : TxHandle} {targets : List TxRef}
  {orphans : List Orphan}

theorem Issued.accounts (known : index.Issued issued) (fresh : handle ∉ issued) :
    index.Accounts handle [] [] := by
  refine ⟨?_, ?_⟩
  · intro target
    simp only [List.not_mem_nil, iff_false]
    intro carried
    exact fresh (known.rows target handle carried)
  · rw [List.filter_eq_nil_iff]
    intro orphan member same
    exact fresh (of_decide_eq_true same ▸ known.orphans orphan member)

theorem Accounts.quiet (accounts : index.Accounts handle targets orphans) {change : Change}
    (quiet : change.IsQuiet) (no_orphan : change.orphans = []) :
    (index.apply change).Accounts handle targets orphans := by
  refine ⟨?_, ?_⟩
  · intro target
    rw [handle?_applyQuiet quiet]
    exact accounts.rows target
  · rw [orphans_apply, no_orphan, List.append_nil]
    exact accounts.orphans

theorem Accounts.fill {tx : TxRecord} {change : Change} (accounts : index.Accounts tx.handle [] [])
    (carries : change.Carries tx) (fills : Fills index (index.apply change) change.targets tx.handle) :
    (index.apply change).Accounts tx.handle change.targets [] := by
  refine ⟨?_, ?_⟩
  · intro target
    rw [fills.filled target]
    by_cases listed : target ∈ change.targets
    · simp [listed]
    · simpa [listed] using accounts.rows target
  · rw [orphans_apply, carries.orphans_eq_nil, List.append_nil]
    exact accounts.orphans

theorem Accounts.fill_other {tx : TxRecord} {change : Change}
    (accounts : index.Accounts handle targets orphans) (carries : change.Carries tx)
    (fills : Fills index (index.apply change) change.targets tx.handle) (other : handle ≠ tx.handle) :
    (index.apply change).Accounts handle targets orphans := by
  refine ⟨?_, ?_⟩
  · intro target
    rw [fills.filled target]
    by_cases listed : target ∈ change.targets
    · have free := fills.free target listed
      have absent : target ∉ targets := by
        intro present
        rw [(accounts.rows target).mpr present] at free
        cases free
      simp [listed, absent, Ne.symm other]
    · simpa [listed] using accounts.rows target
  · rw [orphans_apply, carries.orphans_eq_nil, List.append_nil]
    exact accounts.orphans

theorem Accounts.record {orphan : Orphan} (accounts : index.Accounts orphan.tx.handle [] []) :
    (index.apply (.recordOrphan orphan)).Accounts orphan.tx.handle [] [orphan] := by
  refine ⟨accounts.rows, ?_⟩
  rw [orphans_apply, List.filter_append, accounts.orphans]
  simp [Change.orphans]

theorem Accounts.record_other {orphan : Orphan} (accounts : index.Accounts handle targets orphans)
    (other : handle ≠ orphan.tx.handle) :
    (index.apply (.recordOrphan orphan)).Accounts handle targets orphans := by
  refine ⟨accounts.rows, ?_⟩
  rw [orphans_apply, List.filter_append, accounts.orphans]
  simp [Change.orphans, Ne.symm other]

theorem Issued.quiet (known : index.Issued issued) {change : Change} (quiet : change.IsQuiet)
    (no_orphan : change.orphans = []) : (index.apply change).Issued issued := by
  refine ⟨?_, ?_⟩
  · intro target handle
    rw [handle?_applyQuiet quiet]
    exact known.rows target handle
  · rw [orphans_apply, no_orphan, List.append_nil]
    exact known.orphans

theorem Issued.fill (known : index.Issued issued) {tx : TxRecord} (member : tx.handle ∈ issued)
    {change : Change} (carries : change.Carries tx)
    (fills : Fills index (index.apply change) change.targets tx.handle) :
    (index.apply change).Issued issued := by
  refine ⟨?_, ?_⟩
  · intro target handle carried
    rw [fills.filled target] at carried
    by_cases listed : target ∈ change.targets
    · rw [if_pos listed] at carried
      exact Option.some.inj carried ▸ member
    · rw [if_neg listed] at carried
      exact known.rows target handle carried
  · rw [orphans_apply, carries.orphans_eq_nil, List.append_nil]
    exact known.orphans

theorem Issued.record (known : index.Issued issued) {orphan : Orphan}
    (member : orphan.tx.handle ∈ issued) : (index.apply (.recordOrphan orphan)).Issued issued := by
  refine ⟨known.rows, ?_⟩
  intro other listed
  rw [orphans_apply, Change.orphans] at listed
  rcases List.mem_append.mp listed with old | new
  · exact known.orphans other old
  · obtain rfl := List.mem_singleton.mp new
    exact member

theorem Issued.cons (known : index.Issued issued) (new : TxHandle) : index.Issued (new :: issued) :=
  ⟨fun target handle carried => List.mem_cons_of_mem _ (known.rows target handle carried),
    fun orphan listed => List.mem_cons_of_mem _ (known.orphans orphan listed)⟩

end Index

/-- What a call means to the caller at a stage, and to all others. -/
structure Effect (stage : Stage) (index : Index) (issued : List TxHandle) (r : Request)
    (reply : r.Reply) (later : Index) (known : List TxHandle) : Prop where
  regular : later.Regular
  given : later.Issued known
  holds : (stage.after r reply).Holds later
  handles : (stage.after r reply).handles = stage.handles ++ r.obtained reply
  fresh : ∀ handle ∈ r.obtained reply, handle ∉ issued ∧ handle ∈ known
  grown : issued ⊆ known
  others : ∀ handle ∈ issued, handle ∉ stage.handles → ∀ targets orphans,
    index.Accounts handle targets orphans → later.Accounts handle targets orphans

namespace Effect

variable {stage : Stage} {index later : Index} {issued known : List TxHandle} {r : Request}
  {reply : r.Reply}

theorem unchanged (regular : index.Regular) (given : index.Issued issued)
    (holds : (stage.after r reply).Holds index)
    (handles : (stage.after r reply).handles = stage.handles) (none_new : r.obtained reply = []) :
    Effect stage index issued r reply index issued := by
  refine ⟨regular, given, holds, ?_, ?_, List.Subset.refl _, fun _ _ _ _ _ same => same⟩
  · rw [none_new, List.append_nil, handles]
  · rw [none_new]
    exact nofun

theorem of_commit {change : Change} (regular : index.Regular) (given : index.Issued issued)
    (mine : ∀ handle ∈ stage.handles, handle ∈ issued) (holds : stage.Holds index)
    (permits : stage.Permits (.commit change)) :
    Effect stage index issued (.commit change) (index.commit change).1 (index.commit change).2
      issued := by
  unfold Index.commit
  cases checked : index.check change with
  | error cause =>
      cases stage with
      | idle => exact .unchanged regular given holds rfl rfl
      | holding tx => exact .unchanged regular given holds rfl rfl
      | stored tx change => exact permits.elim
      | refused tx =>
          -- An orphan is always accepted.
          obtain ⟨orphan, rfl, -⟩ := permits
          cases checked
      | orphaned orphan => exact permits.elim
  | ok _ =>
      cases stage with
      | idle =>
          obtain ⟨quiet, no_orphan⟩ := permits
          refine ⟨regular.apply (.inl quiet), given.quiet quiet no_orphan, trivial, rfl, nofun,
            List.Subset.refl _, ?_⟩
          intro handle _ _ targets orphans accounts
          exact accounts.quiet quiet no_orphan
      | holding tx =>
          have carries : change.Carries tx := permits
          have fills := Index.apply_fills regular carries checked
          have own := mine tx.handle List.mem_cons_self
          refine ⟨regular.apply (.inr ⟨tx, carries⟩), given.fill own carries fills,
            ⟨carries, Index.Accounts.fill holds carries fills⟩, rfl, nofun, List.Subset.refl _, ?_⟩
          intro handle _ other targets orphans accounts
          exact accounts.fill_other carries fills (List.ne_of_not_mem_cons other)
      | stored tx change => exact permits.elim
      | refused tx =>
          obtain ⟨orphan, rfl, rfl⟩ := permits
          have own := mine orphan.tx.handle List.mem_cons_self
          have quiet : (Change.recordOrphan orphan).IsQuiet := trivial
          refine ⟨regular.apply (.inl quiet), given.record own, Index.Accounts.record holds, rfl,
            nofun, List.Subset.refl _, ?_⟩
          intro handle _ other targets orphans accounts
          exact accounts.record_other (List.ne_of_not_mem_cons other)
      | orphaned orphan => exact permits.elim

theorem of_answers (answers : Answers index issued r reply later known) (regular : index.Regular)
    (given : index.Issued issued) (mine : ∀ handle ∈ stage.handles, handle ∈ issued)
    (holds : stage.Holds index) (permits : stage.Permits r) :
    Effect stage index issued r reply later known := by
  cases answers with
  | now t =>
      cases stage with
      | idle => exact .unchanged regular given holds rfl rfl
      | holding tx => exact .unchanged regular given holds rfl rfl
      | stored tx change => exact permits.elim
      | refused tx => exact .unchanged regular given holds rfl rfl
      | orphaned orphan => exact permits.elim
  | commitLimit limit =>
      cases stage with
      | idle => exact .unchanged regular given holds rfl rfl
      | _ => exact permits.elim
  | query q =>
      cases stage with
      | idle => exact .unchanged regular given holds rfl rfl
      | _ => exact permits.elim
  | queryFailed q e =>
      cases stage with
      | idle => exact .unchanged regular given holds rfl rfl
      | _ => exact permits.elim
  | commit change => exact .of_commit regular given mine holds permits
  | commitFailed e unlike =>
      cases stage with
      | idle => exact .unchanged regular given holds rfl rfl
      | holding tx => exact .unchanged regular given holds rfl rfl
      | stored tx change => exact permits.elim
      | refused tx =>
          obtain ⟨orphan, same, -⟩ := permits
          exact (unlike orphan same).elim
      | orphaned orphan => exact permits.elim
  | submitted action payload mode result fresh =>
      cases stage with
      | idle =>
          refine ⟨regular, given.cons _, given.accounts fresh, rfl, ?_, List.subset_cons_self _ _,
            fun _ _ _ _ _ same => same⟩
          intro handle obtained
          obtain rfl := List.mem_singleton.mp obtained
          exact ⟨fresh, List.mem_cons_self⟩
      | _ => exact permits.elim
  | submitFailed action payload mode e =>
      cases stage with
      | idle => exact .unchanged regular given holds rfl rfl
      | _ => exact permits.elim
  | checked handle reply =>
      cases stage with
      | idle => exact .unchanged regular given holds rfl rfl
      | _ => exact permits.elim

end Effect

namespace System

def initial : System := ⟨.empty, [], []⟩

inductive Step : System → System → Prop
  | enter {s : System} (c : Configuration) (task : Task) :
      Step s { s with callers := s.callers ++ [⟨task, task.operation c, []⟩] }
  | call {s : System} {position : Nat} {task : Task} {request : Request}
      {next : request.Reply → Program (Except Failure task.Result)} {handles issued : List TxHandle}
      {reply : request.Reply} {index : Index} :
      s.callers[position]? = some ⟨task, .ask request next, handles⟩ →
      Answers s.index s.issued request reply index issued →
      Step s ⟨index, issued,
        s.callers.set position ⟨task, next reply, handles ++ request.obtained reply⟩⟩

/-- Every caller is at a stage that agrees with the index, and no two share a handle. -/
structure Accounted (s : System) : Prop where
  regular : s.index.Regular
  given : s.index.Issued s.issued
  staged : ∀ (position : Nat) caller, s.callers[position]? = some caller →
    ∃ stage, caller.rest.Follows caller.task.Ends stage ∧ stage.handles = caller.handles ∧
      stage.Holds s.index
  obtained : ∀ (position : Nat) caller, s.callers[position]? = some caller →
    ∀ handle ∈ caller.handles, handle ∈ s.issued
  apart : ∀ (position other : Nat) first second, s.callers[position]? = some first →
    s.callers[other]? = some second → position ≠ other → ∀ handle ∈ first.handles,
      handle ∉ second.handles

theorem accounted_initial : initial.Accounted := by
  have alone : ∀ (position : Nat) caller, initial.callers[position]? ≠ some caller := by
    intro position caller found
    cases found
  refine ⟨⟨.empty _, .empty _⟩, ⟨?_, ?_⟩, ?_, ?_, ?_⟩
  · rintro ⟨id, slot⟩ handle carried
    cases slot <;> cases carried
  · intro orphan listed
    cases listed
  · intro position caller found
    exact (alone position caller found).elim
  · intro position caller found
    exact (alone position caller found).elim
  · intro position other first second found
    exact (alone position first found).elim

theorem getElem?_enter {callers : List Caller} {new caller : Caller} {position : Nat}
    (found : (callers ++ [new])[position]? = some caller) :
    callers[position]? = some caller ∨ position = callers.length ∧ caller = new := by
  rcases Nat.lt_or_ge position callers.length with before | behind
  · rw [List.getElem?_append_left before] at found
    exact .inl found
  · rw [List.getElem?_append_right behind] at found
    obtain ⟨least, same⟩ := List.getElem?_eq_some_iff.mp found
    simp only [List.length_singleton, Nat.lt_one_iff] at least
    refine .inr ⟨by omega, ?_⟩
    simpa [least] using same.symm

theorem Accounted.enter {s : System} (accounted : s.Accounted) (c : Configuration) (task : Task) :
    Accounted { s with callers := s.callers ++ [⟨task, task.operation c, []⟩] } := by
  refine ⟨accounted.regular, accounted.given, ?_, ?_, ?_⟩
  · intro position caller found
    rcases getElem?_enter found with old | ⟨-, rfl⟩
    · exact accounted.staged position caller old
    · exact ⟨.idle, task.follows c, rfl, trivial⟩
  · intro position caller found handle member
    rcases getElem?_enter found with old | ⟨-, rfl⟩
    · exact accounted.obtained position caller old handle member
    · cases member
  · intro position other first second found others distinct handle member shared
    rcases getElem?_enter found with old | ⟨-, rfl⟩
    · rcases getElem?_enter others with older | ⟨-, rfl⟩
      · exact accounted.apart position other first second old older distinct handle member shared
      · cases shared
    · cases member

theorem getElem?_call {callers : List Caller} {old new caller : Caller} {position other : Nat}
    (present : callers[position]? = some old)
    (found : (callers.set position new)[other]? = some caller) :
    other = position ∧ caller = new ∨ other ≠ position ∧ callers[other]? = some caller := by
  by_cases same : other = position
  · obtain ⟨least, -⟩ := List.getElem?_eq_some_iff.mp present
    rw [same, List.getElem?_set_self least] at found
    exact .inl ⟨same, (Option.some.inj found).symm⟩
  · rw [List.getElem?_set_ne (Ne.symm same)] at found
    exact .inr ⟨same, found⟩

theorem Accounted.call {s : System} (accounted : s.Accounted) {position : Nat} {task : Task}
    {request : Request} {next : request.Reply → Program (Except Failure task.Result)}
    {handles issued : List TxHandle} {reply : request.Reply} {index : Index}
    (present : s.callers[position]? = some ⟨task, .ask request next, handles⟩)
    (answers : Answers s.index s.issued request reply index issued) :
    Accounted ⟨index, issued,
      s.callers.set position ⟨task, next reply, handles ++ request.obtained reply⟩⟩ := by
  obtain ⟨stage, ⟨permits, follows⟩, same, holds⟩ := accounted.staged position _ present
  have mine := accounted.obtained position _ present
  simp only at same mine
  rw [← same] at mine
  have effect := Effect.of_answers answers accounted.regular accounted.given mine holds permits
  refine ⟨effect.regular, effect.given, ?_, ?_, ?_⟩
  · -- The caller of this call moves on to its next stage. The handles of another are not among its
    -- own, so that the index still holds what it did of them.
    intro other caller found
    rcases getElem?_call present found with ⟨-, rfl⟩ | ⟨distinct, old⟩
    · exact ⟨stage.after request reply, follows reply, same ▸ effect.handles, effect.holds⟩
    · obtain ⟨theirs, following, listed, held⟩ := accounted.staged other caller old
      refine ⟨theirs, following, listed, held.mono ?_⟩
      intro handle member
      rw [listed] at member
      apply effect.others handle (accounted.obtained other caller old handle member)
      rw [same]
      exact accounted.apart other position caller _ old present distinct handle member
  · intro other caller found handle member
    rcases getElem?_call present found with ⟨-, rfl⟩ | ⟨distinct, old⟩
    · rcases List.mem_append.mp member with known | new
      · exact effect.grown (mine handle (same ▸ known))
      · exact (effect.fresh handle new).2
    · exact effect.grown (accounted.obtained other caller old handle member)
  · -- A handle that is new has not been given out, and so nobody else has it.
    intro one other first second found others distinct handle member shared
    rcases getElem?_call present found with ⟨rfl, rfl⟩ | ⟨unlike, old⟩
    · rcases getElem?_call present others with ⟨rfl, -⟩ | ⟨unlike, old⟩
      · exact distinct rfl
      · rcases List.mem_append.mp member with known | new
        · exact accounted.apart one other _ second present old distinct handle known shared
        · exact (effect.fresh handle new).1 (accounted.obtained other second old handle shared)
    · rcases getElem?_call present others with ⟨rfl, rfl⟩ | ⟨away, older⟩
      · rcases List.mem_append.mp shared with known | new
        · exact accounted.apart one other first _ old present distinct handle member known
        · exact (effect.fresh handle new).1 (accounted.obtained one first old handle member)
      · exact accounted.apart one other first second old older distinct handle member shared

theorem Accounted.step {s later : System} (accounted : s.Accounted) (step : Step s later) :
    later.Accounted := by
  cases step with
  | enter c task => exact accounted.enter c task
  | call present answers => exact accounted.call present answers

theorem accounted_of_run {s : System} (run : Relation.ReflTransGen Step initial s) : s.Accounted := by
  induction run with
  | refl => exact accounted_initial
  | tail _ step ih => exact ih.step step

theorem Step.finished {s later : System} (step : Step s later) {position : Nat} {caller : Caller}
    (present : s.callers[position]? = some caller) {result : Except Failure caller.task.Result}
    (done : caller.rest = .done result) : later.callers[position]? = some caller := by
  cases step with
  | enter c task =>
      obtain ⟨least, -⟩ := List.getElem?_eq_some_iff.mp present
      rw [List.getElem?_append_left least]
      exact present
  | @call moved _ _ _ _ _ _ _ asked answers =>
      have distinct : moved ≠ position := by
        rintro rfl
        rw [present] at asked
        obtain rfl := Option.some.inj asked
        cases done
      rw [List.getElem?_set_ne distinct]
      exact present

theorem finished_of_run {s later : System} (onward : Relation.ReflTransGen Step s later)
    {position : Nat} {caller : Caller} (present : s.callers[position]? = some caller)
    {result : Except Failure caller.task.Result} (done : caller.rest = .done result) :
    later.callers[position]? = some caller := by
  induction onward with
  | refl => exact present
  | tail _ step ih => exact step.finished ih done

/-- The transaction of a finished operation is accounted for ever after, by the rows that it reports or
by one orphan. -/
theorem transaction_accounted {s later : System} (run : Relation.ReflTransGen Step initial s)
    (onward : Relation.ReflTransGen Step s later) {position : Nat} {caller : Caller}
    (present : s.callers[position]? = some caller) {result : Except Failure caller.task.Result}
    (done : caller.rest = .done result) {handle : TxHandle} (obtained : handle ∈ caller.handles) :
    later.callers[position]? = some caller ∧
    ((∃ value, result = .ok value ∧ caller.task.targets value ≠ [] ∧
        later.index.Accounts handle (caller.task.targets value) []) ∨
      (∃ failure orphan, result = .error failure ∧
        caller.task.subject = some (orphan.action, orphan.event, orphan.site) ∧
        later.index.Accounts handle [] [orphan])) := by
  have unchanged := finished_of_run onward present done
  obtain ⟨stage, ended, same, holds⟩ :=
    (accounted_of_run (run.trans onward)).staged position caller unchanged
  rw [done] at ended
  rw [← same] at obtained
  refine ⟨unchanged, ?_⟩
  cases stage with
  | idle => cases obtained
  | holding tx => exact ended.elim
  | refused tx => exact ended.elim
  | stored tx change =>
      obtain rfl := List.mem_singleton.mp obtained
      cases result with
      | error failure => exact ended.elim
      | ok value =>
          have listed : change.targets = caller.task.targets value := ended
          obtain ⟨carries, accounts⟩ := holds
          rw [listed] at accounts
          exact .inl ⟨value, rfl, listed ▸ carries.targets_ne_nil, accounts⟩
  | orphaned orphan =>
      obtain rfl := List.mem_singleton.mp obtained
      cases result with
      | ok value => exact ended.elim
      | error failure => exact .inr ⟨failure, orphan, rfl, ended, holds⟩

theorem call_alone {task : Task} {request : Request}
    {next : request.Reply → Program (Except Failure task.Result)} {handles issued known : List TxHandle}
    {reply : request.Reply} {index later : Index}
    (run : Relation.ReflTransGen Step initial ⟨index, issued, [⟨task, .ask request next, handles⟩]⟩)
    (answers : Answers index issued request reply later known) :
    Relation.ReflTransGen Step initial
      ⟨later, known, [⟨task, next reply, handles ++ request.obtained reply⟩]⟩ :=
  run.tail (@Step.call _ 0 _ _ _ _ _ _ _ rfl answers)

def hourPlan : EventPlan := ⟨⟨"DR-1"⟩, .ofSeconds 0, .ofSeconds 3600, 100, 1, 1⟩

def firstResult : TxResult := ⟨⟨"tx"⟩, none, .submitted, .ofSeconds 0⟩

theorem transaction_accounted_by_orphan : ∃ s failure orphan, Relation.ReflTransGen Step initial s ∧
    s.callers = [⟨.createEvent hourPlan, .done (.error failure), [firstResult.handle]⟩] ∧
    orphan.action = .createEvent ∧ s.index.Accounts firstResult.handle [] [orphan] := by
  have entered := Relation.ReflTransGen.single
    (Step.enter .standard (.createEvent hourPlan) : Step initial _)
  have asked := call_alone entered (.query (.event hourPlan.id))
  have submitted := call_alone asked
    (.submitted .createEvent hourPlan.announcement .hybrid firstResult List.not_mem_nil)
  have timed := call_alone submitted (.now (.ofSeconds 1))
  have refused := call_alone timed (.commitFailed .poisoned fun _ same => by cases same)
  have timed_again := call_alone refused (.now (.ofSeconds 2))
  have recorded := call_alone timed_again (.commit _)
  obtain ⟨-, ⟨value, same, -⟩ | ⟨failure, orphan, same, subject, accounts⟩⟩ :=
    @transaction_accounted _ _ recorded .refl 0 _ rfl (.error _) rfl _ List.mem_cons_self
  · cases same
  · have action := (Prod.mk.inj (Option.some.inj subject)).1
    refine ⟨_, failure, orphan, recorded, ?_, action.symm, accounts⟩
    rw [← same]
    rfl

end System

end Curtail
