import Curtail.Proofs.Engine.Advance
import Curtail.Proofs.Engine.Completion
import Curtail.Proofs.Engine.Woven

/-!
A summary whose reads have other tasks between them. Each part of it is from a state of its own, and together
they may not be the view of any state. Main result: `Service.summary_of_moments`.
-/

namespace Curtail

namespace Index

variable {c : Configuration} {index : Index} {id : EventId} {e : Event} {parts : EventPart → Index}

theorem gathered_eq_progress (agrees : ∀ part, (parts part).Agrees index ⟨e.id, c.focus⟩ part) :
    Progress.gathered c e parts = index.progress c e := by
  have audit : index.audits.get? ⟨e.id, c.focus⟩ = _ := agrees .audit
  unfold Progress.gathered progress
  rw [rowsOf_congr (agrees .proofs), rowsOf_congr (agrees .settlements), audit]

end Index

namespace Service

variable {first begun s t later : Service}

/-! ## The changes between two states -/

theorem Step.history (step : Step s later) : s.history <+: later.history := by
  cases step with
  | enter c task => exact List.prefix_rfl
  | call present serves => exact List.prefix_append _ _
  | reopen here started => exact List.prefix_rfl

theorem history_of_run (run : Relation.ReflTransGen Step s later) : s.history <+: later.history := by
  induction run with
  | refl => exact List.prefix_rfl
  | tail _ step ih => exact ih.trans step.history

/-- The changes that one of two states of a run has and the other does not. -/
def between (s t : Service) : List (Task × Change) :=
  s.history.drop t.history.length ++ t.history.drop s.history.length

theorem between_self (s : Service) : s.between s = [] := by
  simp [between]

theorem between_eq_drop (before : s.history <+: t.history) :
    s.between t = t.history.drop s.history.length := by
  rw [between, List.drop_eq_nil_of_le before.length_le, List.nil_append]

theorem between_subset {a b : Service} (since_a : s.history <+: a.history) (since_b : s.history <+: b.history)
    (upto_a : a.history <+: t.history) (upto_b : b.history <+: t.history) : a.between b ⊆ s.between t := by
  rw [between_eq_drop (since_a.trans upto_a)]
  refine List.append_subset.mpr ⟨?_, ?_⟩
  · exact List.Subset.trans (upto_a.drop _).subset (List.drop_subset_drop_left _ since_b.length_le)
  · exact List.Subset.trans (upto_b.drop _).subset (List.drop_subset_drop_left _ since_a.length_le)

theorem Sound.index_eq (sound : s.Sound) : Index.empty.applyAll (s.history.map (·.2)) = s.index :=
  sound.made.accepts.2

theorem Sound.applyAll_between (sound : s.Sound) (sound' : t.Sound) (before : s.history <+: t.history) :
    s.index.applyAll ((s.between t).map (·.2)) = t.index := by
  obtain ⟨more, same⟩ := before
  rw [between_eq_drop ⟨more, same⟩, ← same, List.drop_left, ← sound'.index_eq, ← same, ← sound.index_eq,
    List.map_append, Index.applyAll, Index.applyAll, Index.applyAll, List.foldl_append]

theorem Sound.agrees {view : SiteKey} {part : EventPart} (sound : s.Sound) (sound' : t.Sound)
    (run : s.history <+: later.history) (run' : t.history <+: later.history)
    (spared : ∀ entry ∈ s.between t, ¬entry.2.Touches view part) : s.index.Agrees t.index view part := by
  rcases List.prefix_or_prefix_of_prefix run run' with before | before
  · rw [← sound.applyAll_between sound' before]
    exact s.index.agrees_applyAll (List.forall_mem_map.mpr spared)
  · rw [← sound'.applyAll_between sound before]
    refine (t.index.agrees_applyAll (List.forall_mem_map.mpr ?_)).symm
    intro entry listed
    exact spared entry (List.perm_append_comm.subset listed)

theorem Sound.settled_between {id : EventId} {e f : Event} (sound : s.Sound) (sound' : t.Sound)
    (before : s.history <+: t.history) (found : s.index.events.get? id = some e) (open_yet : e.status ≠ .settled)
    (present : t.index.events.get? id = some f) (done : f.status = .settled) :
    ∃ task rows settledAt, (task, .settleEvent id rows settledAt) ∈ s.between t := by
  have shows : t.index.Shows (.settled id) := ⟨f, present, done⟩
  have shown := sound'.made.shows_iff.mp shows
  have unseen : .settled id ∉ transitions (s.history.map (·.2)) := by
    intro listed
    obtain ⟨g, there, settled⟩ := sound.made.shows_iff.mpr listed
    obtain rfl := Option.some.inj (found.symm.trans there)
    exact open_yet settled
  obtain ⟨more, same⟩ := before
  rw [between_eq_drop ⟨more, same⟩]
  rw [← same] at shown ⊢
  rw [List.drop_left]
  rw [transitions, List.map_append, List.filterMap_append, List.mem_append] at shown
  obtain ⟨_, listed, made⟩ := List.mem_filterMap.mp (shown.resolve_left unseen)
  obtain ⟨⟨task, change⟩, member, rfl⟩ := List.mem_map.mp listed
  cases change with
  | settleEvent other rows settledAt =>
      cases made
      exact ⟨task, rows, settledAt, member⟩
  | _ => cases made

/-! ## The reads of a summary -/

/-- The states at which the parts of a summary are read, one after the other. -/
structure Reads (begun : Service) (moments : EventPart → Service) (later : Service) : Prop where
  event : Relation.ReflTransGen Step begun (moments .event)
  proofs : Relation.ReflTransGen Step (moments .event) (moments .proofs)
  settlements : Relation.ReflTransGen Step (moments .proofs) (moments .settlements)
  audit : Relation.ReflTransGen Step (moments .settlements) (moments .audit)
  ends : Relation.ReflTransGen Step (moments .audit) later

namespace Reads

variable {moments : EventPart → Service}

theorem since (reads : begun.Reads moments later) (part : EventPart) :
    Relation.ReflTransGen Step (moments .event) (moments part) := by
  have settlements := reads.proofs.trans reads.settlements
  cases part with
  | event => exact .refl
  | proofs => exact reads.proofs
  | settlements => exact settlements
  | audit => exact settlements.trans reads.audit

theorem upto (reads : begun.Reads moments later) (part : EventPart) :
    Relation.ReflTransGen Step (moments part) (moments .audit) := by
  have settlements := reads.settlements.trans reads.audit
  cases part with
  | event => exact reads.proofs.trans settlements
  | proofs => exact settlements
  | settlements => exact reads.audit
  | audit => exact .refl

theorem sound (reads : begun.Reads moments later) (sound : begun.Sound) (part : EventPart) :
    (moments part).Sound :=
  (onward_of_run sound (reads.event.trans (reads.since part))).1

theorem onward_since (reads : begun.Reads moments later) (sound : begun.Sound) (part : EventPart) :
    (moments .event).index.Onward (moments part).index :=
  (onward_of_run (reads.sound sound .event) (reads.since part)).2

theorem onward_upto (reads : begun.Reads moments later) (sound : begun.Sound) (part : EventPart) :
    (moments part).index.Onward (moments .audit).index :=
  (onward_of_run (reads.sound sound part) (reads.upto part)).2

variable {c : Configuration} {e : Event}

theorem gathered_eq (reads : begun.Reads moments later) (sound : begun.Sound)
    (found : (moments .event).index.events.get? e.id = some e)
    (since : Relation.ReflTransGen Step (moments .event) t) (upto : Relation.ReflTransGen Step t (moments .audit))
    (spared : ∀ part, ∀ entry ∈ (moments part).between t, ¬entry.2.Touches ⟨e.id, c.focus⟩ part) :
    t.index.events.get? e.id = some e ∧
      Progress.gathered c e (fun part => (moments part).index) = t.index.progress c e := by
  have agrees (part : EventPart) : (moments part).index.Agrees t.index ⟨e.id, c.focus⟩ part :=
    (reads.sound sound part).agrees (onward_of_run (reads.sound sound .event) since).1
      (history_of_run (reads.upto part)) (history_of_run upto) (spared part)
  exact ⟨Eq.trans (agrees .event) found, Index.gathered_eq_progress agrees⟩

theorem gathered_eq_of_one (reads : begun.Reads moments later) (sound : begun.Sound)
    (found : (moments .event).index.events.get? e.id = some e) {part : EventPart}
    (one : ∀ entry ∈ (moments .event).between (moments .audit), ∀ other,
      entry.2.Touches ⟨e.id, c.focus⟩ other → other = part) :
    (moments part).index.events.get? e.id = some e ∧
      Progress.gathered c e (fun part => (moments part).index) = (moments part).index.progress c e := by
  refine reads.gathered_eq sound found (reads.since part) (reads.upto part) ?_
  intro other entry listed touches
  have within := between_subset (history_of_run (reads.since other)) (history_of_run (reads.since part))
    (history_of_run (reads.upto other)) (history_of_run (reads.upto part)) listed
  obtain rfl := one entry within other touches
  rw [between_self] at listed
  cases listed

end Reads

end Service

open Service in
theorem Operation.performs_getSummary {c : Configuration} {id : EventId} {progress : Progress}
    {begun later : Service} (performs : begun.Performs (getSummary c id).run (.ok progress) later) :
    ∃ moments e, begun.Reads moments later ∧ (moments .event).index.events.get? id = some e ∧
      progress = .of c e (Index.rowsOf (moments .proofs).index.proofs id)
        (Index.rowsOf (moments .settlements).index.settlements id)
        ((moments .audit).index.audits.get? ⟨id, c.focus⟩) := by
  unfold getSummary at performs
  obtain ⟨_, _, reconciled, performs⟩ := performs_bind performs
  obtain ⟨e, _, required, performs⟩ := performs_bind performs
  obtain ⟨t₁, before₁, after₁, found⟩ := performs_requireEvent required
  obtain ⟨proofs, _, queried, performs⟩ := performs_bind performs
  obtain ⟨t₂, before₂, after₂, rfl⟩ := performs_query queried
  obtain ⟨settlements, _, queried, performs⟩ := performs_bind performs
  obtain ⟨t₃, before₃, after₃, rfl⟩ := performs_query queried
  obtain ⟨audit, _, queried, performs⟩ := performs_bind performs
  obtain ⟨t₄, before₄, after₄, rfl⟩ := performs_query queried
  obtain ⟨same, ends⟩ := performs.of_done
  let moments (part : EventPart) : Service := part.casesOn t₁ t₂ t₃ t₄
  exact ⟨moments, e, ⟨reconciled.run.trans before₁, after₁.trans before₂, after₂.trans before₃,
    after₃.trans before₄, after₄.trans ends⟩, found, Except.ok.inj same⟩

namespace Service

/-- A summary among other tasks is put together from four states of the run. It has come as far as the
first of them at least, and as the last of them at most. -/
theorem summary_of_moments {first begun later : Service} (begins : first.Begins)
    (run : Relation.ReflTransGen Step first begun) {c : Configuration} {id : EventId} {position : Nat}
    {progress : Progress}
    (present : begun.clients[position]? = some ⟨.getSummary id, (Task.getSummary id).operation c⟩)
    (others : Relation.ReflTransGen Step begun later)
    (ended : later.clients[position]? = some ⟨.getSummary id, .done (.ok progress)⟩) :
    ∃ moments e f, begun.Reads moments later ∧ (moments .event).index.events.get? id = some e ∧
      (moments .audit).index.events.get? id = some f ∧
      progress = .of c e (Index.rowsOf (moments .proofs).index.proofs id)
        (Index.rowsOf (moments .settlements).index.settlements id)
        ((moments .audit).index.audits.get? ⟨id, c.focus⟩) ∧
      ((moments .event).index.progress c e).Precedes progress ∧
      progress.Precedes ((moments .audit).index.progress c f) ∧
      (∀ t, Relation.ReflTransGen Step (moments .event) t → Relation.ReflTransGen Step t (moments .audit) →
        (∀ part, ∀ entry ∈ (moments part).between t, ¬entry.2.Touches ⟨id, c.focus⟩ part) →
        t.index.events.get? id = some e ∧ progress = t.index.progress c e) ∧
      (∀ part, (∀ entry ∈ (moments .event).between (moments .audit), ∀ other,
          entry.2.Touches ⟨id, c.focus⟩ other → other = part) →
        (moments part).index.events.get? id = some e ∧ progress = (moments part).index.progress c e) ∧
      (progress.status = .settled → Index.rowsOf (moments .settlements).index.settlements id ≠ []) ∧
      (progress.status ≠ .settled → Index.rowsOf (moments .settlements).index.settlements id ≠ [] ∨
          progress.claimStatus ≠ .pending ∨ progress.totalPayout ≠ 0 →
        ∃ task rows settledAt, (task, .settleEvent id rows settledAt) ∈
          (moments .event).between (moments .settlements)) := by
  have sound := sound_of_run begins run
  have performs : begun.Performs (Operation.getSummary c id).run (.ok progress) later :=
    performs_of_run others present ended
  obtain ⟨moments, e, reads, found, gathered⟩ := Operation.performs_getSummary performs
  have keyed (part : EventPart) := (reads.sound sound part).made.lifecycle.toKeyed
  obtain ⟨f, there, becomes⟩ := (reads.onward_upto sound .event).events id e found
  obtain rfl := (keyed .event).events id e found
  have whole : progress = Progress.gathered c e fun part => (moments part).index := gathered
  refine ⟨moments, e, f, reads, found, there, gathered, ?_, ?_, ?_, ?_, ?_, ?_⟩
  · have earliest :=
      Index.gathered_precedes (c := c) (reads.onward_since sound) (fun _ => keyed .event) keyed (.refl e)
    rwa [← whole] at earliest
  · have latest :=
      Index.gathered_precedes (c := c) (reads.onward_upto sound) keyed (fun _ => keyed .audit) becomes
    rwa [← whole] at latest
  · intro t since upto spared
    rw [whole]
    exact reads.gathered_eq sound found since upto spared
  · intro part one
    rw [whole]
    exact reads.gathered_eq_of_one sound found one
  · intro done
    rw [gathered] at done
    obtain ⟨site, s, row⟩ := (reads.sound sound .event).made.lifecycle.paid _ e found done
    obtain ⟨t, still, -⟩ := (reads.onward_since sound .settlements).settlements _ s row
    exact List.ne_nil_of_mem (Index.mem_rowsOf.mpr ⟨site, still⟩)
  · intro open_yet reported
    rw [gathered] at open_yet reported
    have filled := reported.elim id Progress.settlements_ne_nil
    obtain ⟨g, here, done⟩ := (reads.sound sound .settlements).made.lifecycle.settled_of_rows filled
    exact (reads.sound sound .event).settled_between (reads.sound sound .settlements)
      (history_of_run (reads.since .settlements)) found open_yet here done

theorem reports_torn {s : Service} {c : Configuration} {id : EventId} (around : Surroundings) {index : Index}
    {e : Event} (here : s.storage = .memory index) (final : index.pending (.event id) = [])
    (found : index.events.get? id = some e) (tasks : List Task) :
    let left := tasks.foldl (around.after c) index
    s.MayReport c (.getSummary id) (.of c e (Index.rowsOf left.proofs id) (Index.rowsOf left.settlements id)
      (left.audits.get? ⟨id, c.focus⟩)) := by
  intro left
  let audited (e : Event) (proofs : List Proof) (rows : List Settlement) : Operation Progress := do
    let audit : Option AuditRequest ← Operation.query (.audit ⟨id, c.focus⟩)
    return .of c e proofs rows audit
  let settled (e : Event) (proofs : List Proof) : Operation Progress := do
    let rows : List Settlement ← Operation.query (.settlements id)
    audited e proofs rows
  let proven (e : Event) : Operation Progress := do
    let proofs : List Proof ← Operation.query (.proofs id)
    settled e proofs
  let begun : Service :=
    { s with clients := s.clients ++ [⟨.getSummary id, (Task.getSummary id).operation c⟩] }
  have present : begun.clients[s.clients.length]? = some ⟨.getSummary id, (Operation.getSummary c id).run⟩ :=
    List.getElem?_concat_length
  have first : (Operation.getSummary c id).run.Asks (.pending (.event id)) []
      (Operation.requireEvent id >>= proven).run := ⟨_, rfl, rfl⟩
  have second : (Operation.requireEvent id >>= proven).run.Asks (.event id) (some e) (proven e).run :=
    ⟨_, rfl, rfl⟩
  have third (proofs : List Proof) : (proven e).run.Asks (.proofs id) proofs (settled e proofs).run :=
    ⟨_, rfl, rfl⟩
  have fourth (proofs : List Proof) (rows : List Settlement) :
      (settled e proofs).run.Asks (.settlements id) rows (audited e proofs rows).run := ⟨_, rfl, rfl⟩
  have fifth (proofs : List Proof) (rows : List Settlement) (audit : Option AuditRequest) :
      (audited e proofs rows).run.Asks (.audit ⟨id, c.focus⟩) audit
        (.done (.ok (.of c e proofs rows audit))) := ⟨_, rfl, rfl⟩
  obtain ⟨t₁, pending, here₁, turn₁⟩ := reaches_query (s := begun) here present first final
  obtain ⟨t₂, event, here₂, turn₂⟩ := reaches_query here₁ turn₁ second found
  obtain ⟨t₃, others, here₃, kept⟩ := reaches_tasks_beside around c tasks here₂
  obtain ⟨t₄, proofs, here₄, turn₄⟩ := reaches_query here₃ (kept _ _ turn₂) (third _) rfl
  obtain ⟨t₅, settlements, here₅, turn₅⟩ := reaches_query here₄ turn₄ (fourth _ _) rfl
  obtain ⟨t₆, audit, -, turn₆⟩ := reaches_query here₅ turn₅ (fifth _ _ _) rfl
  exact ⟨t₆, .head pending (.head event (others.tail proofs |>.tail settlements |>.tail audit)), turn₆⟩

theorem reports_torn_season : ∃ (s : Service) (progress : Progress),
    Relation.ReflTransGen Step ⟨.memory .empty, [], []⟩ s ∧
    s.MayReport .standard (.getSummary ⟨"DR-1"⟩) progress ∧
    progress.status = .closed ∧ progress.claimStatus = .settled ∧ progress.totalPayout ≠ 0 := by
  obtain ⟨s, run, here⟩ := reaches_tasks (.confirming (.ofSeconds 10)) .standard (season.take 4)
    (s := ⟨.memory .empty, [], []⟩) rfl
  have final : ((season.take 4).foldl ((Surroundings.confirming (.ofSeconds 10)).after .standard) .empty).pending
      (.event ⟨"DR-1"⟩) = [] := by
    rfl
  have reports := reports_torn (c := .standard) (.confirming (.ofSeconds 10)) here final (by rfl)
    [.settleEvent ⟨"DR-1"⟩ []]
  refine ⟨s, _, run, reports, ?_, ?_, ?_⟩
  · rfl
  · rfl
  · decide +kernel

theorem summary_of_no_state : ∃ (s : Service) (progress : Progress),
    Relation.ReflTransGen Step ⟨.memory .empty, [], []⟩ s ∧
    s.MayReport .standard (.getSummary ⟨"DR-1"⟩) progress ∧
    progress.status = .closed ∧ progress.claimStatus = .settled ∧ progress.totalPayout ≠ 0 ∧
    ∀ t e, Relation.ReflTransGen Step s t → t.index.events.get? ⟨"DR-1"⟩ = some e →
      progress ≠ t.index.progress .standard e := by
  obtain ⟨s, progress, run, reports, closed, settled, paid⟩ := reports_torn_season
  refine ⟨s, progress, run, reports, closed, settled, paid, ?_⟩
  rintro t e further found rfl
  have lifecycle := lifecycle_of_run .memory (run.trans further)
  have done := lifecycle.settled_of_reported (c := .standard) found (.inr (.inr paid))
  cases closed.symm.trans done

theorem summary_of_season : ∃ (s later : Service) (progress : Progress) (moments : EventPart → Service),
    Relation.ReflTransGen Step ⟨.memory .empty, [], []⟩ s ∧
    Reads { s with
      clients := s.clients ++ [⟨.getSummary ⟨"DR-1"⟩, (Task.getSummary ⟨"DR-1"⟩).operation .standard⟩] }
      moments later ∧ progress.status = .closed ∧ progress.claimStatus = .settled ∧
    (∃ e, progress = .of .standard e (Index.rowsOf (moments .proofs).index.proofs ⟨"DR-1"⟩)
      (Index.rowsOf (moments .settlements).index.settlements ⟨"DR-1"⟩)
      ((moments .audit).index.audits.get? ⟨⟨"DR-1"⟩, Configuration.standard.focus⟩)) ∧
    ∃ task rows settledAt, (task, .settleEvent ⟨"DR-1"⟩ rows settledAt) ∈
      (moments .event).between (moments .settlements) := by
  obtain ⟨s, progress, run, ⟨later, others, ended⟩, closed, settled, paid⟩ := reports_torn_season
  obtain ⟨moments, e, -, reads, -, -, gathered, -, -, -, -, -, torn⟩ := summary_of_moments .memory
    (run.tail (.enter .standard (.getSummary ⟨"DR-1"⟩))) List.getElem?_concat_length others ended
  exact ⟨s, later, progress, moments, run, reads, closed, settled, ⟨e, gathered⟩,
    torn (by simp [closed]) (.inr (.inr paid))⟩

end Service

end Curtail
