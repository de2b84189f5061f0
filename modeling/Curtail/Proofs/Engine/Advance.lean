import Curtail.Proofs.Engine.Sequence
import Curtail.Proofs.Engine.Totals
import Curtail.Proofs.Index.Parts
import Mathlib.Algebra.Order.BigOperators.Group.List

namespace Curtail

def ClaimStatus.rank : ClaimStatus → Nat
  | .pending => 0
  | .settled => 1
  | .claimed => 2

def Step.rank : Step → Nat
  | .create => 0
  | .proofs => 1
  | .close => 2
  | .settle => 3
  | .claim => 4
  | .audit => 5
  | .completed => 6

theorem Proof.Becomes.site {p q : Proof} (becomes : p.Becomes q) : q.site = p.site := by
  rw [becomes.others]

theorem Step.rank_le (step : Step) : step.rank ≤ Step.completed.rank := by
  cases step <;> decide

namespace Progress

/-- The later view has come at least as far in everything. -/
structure Precedes (p q : Progress) : Prop where
  status : p.status.rank ≤ q.status.rank
  claimStatus : p.claimStatus.rank ≤ q.claimStatus.rank
  step : p.step.rank ≤ q.step.rank
  completed : p.completed ≤ q.completed
  proofsSubmitted : p.proofsSubmitted ≤ q.proofsSubmitted
  totalReduction : p.totalReduction ≤ q.totalReduction
  auditRequested : p.auditRequested → q.auditRequested

/-! ## Milestones -/

section Milestones

variable {before after : List (Step × Bool)}

theorem stepOf_cons (m : Step × Bool) (ms : List (Step × Bool)) :
    stepOf (m :: ms) = if m.2 then stepOf ms else m.1 := by
  obtain ⟨step, met⟩ := m
  cases met <;> rfl

theorem le_rank_stepOf {n : Nat} (bounded : n ≤ Step.completed.rank) (least : ∀ m ∈ after, n ≤ m.1.rank) :
    n ≤ (stepOf after).rank := by
  induction after with
  | nil => exact bounded
  | cons m ms ih =>
      obtain ⟨first, rest⟩ := List.forall_mem_cons.mp least
      rw [stepOf_cons]
      split
      · exact ih rest
      · exact first

theorem rank_stepOf_le (kept : List.Forall₂ (fun m n => n.1 = m.1 ∧ (m.2 → n.2)) before after)
    (ordered : after.Pairwise fun m n => m.1.rank ≤ n.1.rank) :
    (stepOf before).rank ≤ (stepOf after).rank := by
  induction kept with
  | nil => exact Nat.le_refl _
  | @cons m n ms ns head tail ih =>
      obtain ⟨first, rest⟩ := List.pairwise_cons.mp ordered
      rw [stepOf_cons, stepOf_cons, ← head.1]
      cases met : m.2 with
      | true =>
          rw [if_pos (head.2 met)]
          exact ih rest
      | false =>
          rw [if_neg Bool.false_ne_true]
          split
          · exact le_rank_stepOf n.1.rank_le first
          · exact Nat.le_refl _

theorem countP_le_of_kept (kept : List.Forall₂ (fun m n => n.1 = m.1 ∧ (m.2 → n.2)) before after) :
    before.countP (·.2) ≤ after.countP (·.2) := by
  induction kept with
  | nil => exact Nat.le_refl _
  | @cons m n ms ns head tail ih =>
      rw [List.countP_cons, List.countP_cons]
      cases met : m.2 with
      | true =>
          rw [if_pos rfl, if_pos (head.2 met)]
          exact Nat.succ_le_succ ih
      | false => exact ih.trans (Nat.le_add_right _ _)

theorem stepOf_eq_completed_iff (real : ∀ m ∈ after, m.1 ≠ .completed) :
    stepOf after = .completed ↔ ∀ m ∈ after, m.2 := by
  induction after with
  | nil => exact ⟨fun _ => List.forall_mem_nil _, fun _ => rfl⟩
  | cons m ms ih =>
      obtain ⟨first, rest⟩ := List.forall_mem_cons.mp real
      rw [stepOf_cons, List.forall_mem_cons]
      cases met : m.2 with
      | true => simpa using ih rest
      | false => simpa using first

end Milestones

/-! ## Rows that grow -/

section Rows

variable {c : Configuration} {e f : Event} {proofs proofs' : List Proof}
  {settlements settlements' : List Settlement} {audit audit' : Option AuditRequest}

theorem proofsSubmitted_eq (c : Configuration) (e : Event) (proofs : List Proof)
    (settlements : List Settlement) (audit : Option AuditRequest) :
    (Progress.of c e proofs settlements audit).proofsSubmitted =
      c.requiredSites.countP fun site => proofs.any fun p => p.site = site := by
  change c.requiredSites.length - (c.requiredSites.filter _).length = _
  rw [← List.countP_eq_length_filter,
    List.length_eq_countP_add_countP fun site => proofs.any fun p => p.site = site]
  simp only [Bool.not_eq_true, Bool.decide_eq_false, Nat.add_sub_cancel]

theorem any_site_iff {site : SiteId} :
    (proofs.any fun p => p.site = site) = true ↔ ∃ p ∈ proofs, p.site = site := by
  simp

theorem missingSites_isEmpty_iff :
    (missingSites c proofs).isEmpty = true ↔ ∀ site ∈ c.requiredSites, ∃ p ∈ proofs, p.site = site := by
  simp [missingSites, List.filter_eq_nil_iff]

theorem proven_becomes (grown : ∀ p ∈ proofs, ∃ q ∈ proofs', p.Becomes q) {site : SiteId}
    (proven : ∃ p ∈ proofs, p.site = site) : ∃ q ∈ proofs', q.site = site := by
  obtain ⟨p, listed, rfl⟩ := proven
  obtain ⟨q, present, becomes⟩ := grown p listed
  exact ⟨q, present, becomes.site⟩

theorem claimStatusOf_eq_of_mem (apart : (settlements.map (·.site)).Nodup) {row : Settlement}
    (listed : row ∈ settlements) : claimStatusOf row.site settlements =
      match row.status with
      | .settled => .settled
      | .claimed => .claimed := by
  have first : settlements.find? (fun s => s.site = row.site) = some row := by
    cases found : settlements.find? fun s => s.site = row.site with
    | none => simpa using List.find?_eq_none.mp found row listed
    | some other =>
        have same : other.site = row.site := by simpa using List.find?_some found
        rw [List.inj_on_of_nodup_map apart (List.mem_of_find?_eq_some found) listed same]
  cases recorded : row.status <;> simp [claimStatusOf, first, recorded]

theorem rank_claimStatusOf_le (apart : (settlements.map (·.site)).Nodup)
    (apart' : (settlements'.map (·.site)).Nodup)
    (grown : ∀ s ∈ settlements, ∃ t ∈ settlements', s.Becomes t) (focus : SiteId) :
    (claimStatusOf focus settlements).rank ≤ (claimStatusOf focus settlements').rank := by
  cases found : settlements.find? fun s => s.site = focus with
  | none =>
      rw [claimStatusOf, found]
      exact Nat.zero_le _
  | some row =>
      obtain rfl : row.site = focus := by simpa using List.find?_some found
      have listed := List.mem_of_find?_eq_some found
      obtain ⟨later, present, becomes⟩ := grown row listed
      rw [claimStatusOf_eq_of_mem apart listed, ← becomes.site, claimStatusOf_eq_of_mem apart' present]
      have forward := becomes.claimed
      cases known : row.status <;> cases then_known : later.status <;>
        simp_all [ClaimStatus.rank]

theorem totalReduction_le (apart : (proofs.map (·.site)).Nodup)
    (grown : ∀ p ∈ proofs, ∃ q ∈ proofs', p.Becomes q) :
    (proofs.map (·.reduction)).foldl addReduction 0 ≤ (proofs'.map (·.reduction)).foldl addReduction 0 := by
  -- Proofs are of different sites, so that none of them counts twice.
  let part (p : Proof) : SiteId × UInt64 := (p.site, p.reduction)
  have distinct : (proofs.map part).Nodup := .of_map Prod.fst (by simpa [part, Function.comp_def] using apart)
  have within : proofs.map part ⊆ proofs'.map part := by
    intro entry listed
    obtain ⟨p, member, rfl⟩ := List.mem_map.mp listed
    obtain ⟨q, present, becomes⟩ := grown p member
    refine List.mem_map.mpr ⟨q, present, ?_⟩
    rw [becomes.others]
  obtain ⟨others, reordered, kept⟩ := List.subperm_of_subset distinct within
  have sums : (proofs.map (·.reduction.toNat)).sum ≤ (proofs'.map (·.reduction.toNat)).sum := by
    have below := (kept.map fun entry => entry.2.toNat).sum_le_sum fun _ _ => Nat.zero_le _
    rw [(reordered.map _).sum_eq] at below
    simpa [part, Function.comp_def] using below
  rw [UInt64.le_iff_toNat_le, toNat_foldl_addReduction, toNat_foldl_addReduction, List.map_map, List.map_map]
  exact min_le_min_right _ (Nat.add_le_add_left sums _)

theorem milestones_kept (event : e.Becomes f) (grown : ∀ p ∈ proofs, ∃ q ∈ proofs', p.Becomes q)
    (apart : (settlements.map (·.site)).Nodup) (apart' : (settlements'.map (·.site)).Nodup)
    (settled : ∀ s ∈ settlements, ∃ t ∈ settlements', s.Becomes t) (asked : audit.isSome → audit'.isSome) :
    List.Forall₂ (fun m n => n.1 = m.1 ∧ (m.2 → n.2)) (milestones c e proofs settlements audit)
      (milestones c f proofs' settlements' audit') := by
  have claims := rank_claimStatusOf_le apart apart' settled c.focus
  refine .cons ⟨rfl, id⟩ (.cons ⟨rfl, ?_⟩ (.cons ⟨rfl, ?_⟩ (.cons ⟨rfl, ?_⟩ (.cons ⟨rfl, ?_⟩
    (.cons ⟨rfl, asked⟩ .nil)))))
  · simp only [missingSites_isEmpty_iff]
    exact fun all site required => proven_becomes grown (all site required)
  · simpa using event.not_active
  · cases settlements with
    | nil => simp
    | cons row rows =>
        obtain ⟨later, present, -⟩ := settled row List.mem_cons_self
        simpa using List.ne_nil_of_mem present
  · intro claimed
    rw [of_decide_eq_true claimed] at claims
    cases known : claimStatusOf c.focus settlements' <;> simp_all [ClaimStatus.rank]

theorem of_precedes (event : e.Becomes f) (proven : (proofs.map (·.site)).Nodup)
    (grown : ∀ p ∈ proofs, ∃ q ∈ proofs', p.Becomes q) (apart : (settlements.map (·.site)).Nodup)
    (apart' : (settlements'.map (·.site)).Nodup)
    (settled : ∀ s ∈ settlements, ∃ t ∈ settlements', s.Becomes t) (asked : audit.isSome → audit'.isSome) :
    (Progress.of c e proofs settlements audit).Precedes (Progress.of c f proofs' settlements' audit') := by
  have kept := milestones_kept (c := c) event grown apart apart' settled asked
  refine ⟨event.status, rank_claimStatusOf_le apart apart' settled c.focus, ?_, countP_le_of_kept kept, ?_,
    totalReduction_le proven grown, asked⟩
  · refine rank_stepOf_le kept ?_
    simp [milestones, Step.rank]
  · rw [proofsSubmitted_eq, proofsSubmitted_eq]
    apply List.countP_mono_left
    intro site _
    simp only [any_site_iff]
    exact proven_becomes grown

theorem health_eq_done_iff : (Progress.of c e proofs settlements audit).health = .done ↔
    (∀ site ∈ c.requiredSites, ∃ p ∈ proofs, p.site = site) ∧ e.status ≠ .active ∧ settlements ≠ [] ∧
      claimStatusOf c.focus settlements = .claimed ∧ audit.isSome := by
  have created : (milestones c e proofs settlements audit).countP (·.2) ≠ 0 := by
    simp [milestones]
  have completed : stepOf (milestones c e proofs settlements audit) = .completed ↔
      ∀ m ∈ milestones c e proofs settlements audit, m.2 :=
    stepOf_eq_completed_iff (by simp [milestones])
  have verdict : (Progress.of c e proofs settlements audit).health = .done ↔
      stepOf (milestones c e proofs settlements audit) = .completed := by
    change (if _ then _ else if _ then _ else _) = _ ↔ _
    rw [if_neg created]
    split <;> simp_all
  rw [verdict, completed]
  simp [milestones, missingSites, List.filter_eq_nil_iff]

theorem completed_eq_six_iff : (Progress.of c e proofs settlements audit).completed = 6 ↔
    (Progress.of c e proofs settlements audit).health = .done := by
  rw [health_eq_done_iff]
  change (milestones c e proofs settlements audit).countP (·.2) =
    (milestones c e proofs settlements audit).length ↔ _
  rw [List.countP_eq_length]
  simp [milestones, missingSites, List.filter_eq_nil_iff]

theorem settlements_ne_nil (reported : (Progress.of c e proofs settlements audit).claimStatus ≠ .pending ∨
    (Progress.of c e proofs settlements audit).totalPayout ≠ 0) : settlements ≠ [] := by
  rintro rfl
  rcases reported with claim | payout
  · exact claim (by simp [Progress.of, claimStatusOf])
  · exact payout (by simp [Progress.of])

end Rows

end Progress

/-- The view of an event whose parts are taken from different indexes. -/
def Progress.gathered (c : Configuration) (e : Event) (parts : EventPart → Index) : Progress :=
  .of c e (Index.rowsOf (parts .proofs).proofs e.id) (Index.rowsOf (parts .settlements).settlements e.id)
    ((parts .audit).audits.get? ⟨e.id, c.focus⟩)

namespace Index

variable {c : Configuration} {first index later last : Index} {id : EventId} {e f : Event}

theorem mem_rowsOf_of_grows {α : Type} {becomes : α → α → Prop} {table grown : Table SiteKey α}
    (grows : table.Grows becomes grown) (id : EventId) :
    ∀ x ∈ rowsOf table id, ∃ y ∈ rowsOf grown id, becomes x y := by
  intro x listed
  obtain ⟨site, found⟩ := mem_rowsOf.mp listed
  obtain ⟨y, present, became⟩ := grows _ x found
  exact ⟨y, mem_rowsOf.mpr ⟨site, present⟩, became⟩

theorem Keyed.exists_site_iff (keyed : index.Keyed) {site : SiteId} :
    (∃ p ∈ rowsOf index.proofs id, p.site = site) ↔ (index.proofs.get? ⟨id, site⟩).isSome := by
  rw [Option.isSome_iff_exists]
  constructor
  · rintro ⟨p, listed, rfl⟩
    exact ⟨p, keyed.get?_of_mem_proofs listed⟩
  · rintro ⟨p, found⟩
    exact ⟨p, mem_rowsOf.mpr ⟨site, found⟩, congrArg SiteKey.site (keyed.proofs _ p found)⟩

theorem Keyed.claimStatusOf_eq_claimed_iff (keyed : index.Keyed) {focus : SiteId} :
    Progress.claimStatusOf focus (rowsOf index.settlements id) = .claimed ↔
      ∃ s, index.settlements.get? ⟨id, focus⟩ = some s ∧ s.status = .claimed := by
  constructor
  · intro claimed
    cases found : (rowsOf index.settlements id).find? fun s => s.site = focus with
    | none => simp [Progress.claimStatusOf, found] at claimed
    | some s =>
        obtain rfl : s.site = focus := by simpa using List.find?_some found
        refine ⟨s, keyed.get?_of_mem_settlements (List.mem_of_find?_eq_some found), ?_⟩
        cases known : s.status <;> simp_all [Progress.claimStatusOf]
  · rintro ⟨s, found, claimed⟩
    obtain rfl : s.site = focus := (keyed.settlements _ s found).2
    rw [Progress.claimStatusOf_eq_of_mem (keyed.distinct_settlements id) (mem_rowsOf.mpr ⟨_, found⟩), claimed]

theorem gathered_precedes {parts later : EventPart → Index} (onward : ∀ part, (parts part).Onward (later part))
    (keyed : ∀ part, (parts part).Keyed) (keyed' : ∀ part, (later part).Keyed) (becomes : e.Becomes f) :
    (Progress.gathered c e parts).Precedes (Progress.gathered c f later) := by
  have own : f.id = e.id := congrArg EventPlan.id becomes.plan
  unfold Progress.gathered
  rw [own]
  refine Progress.of_precedes becomes ((keyed _).distinct_proofs _) (mem_rowsOf_of_grows (onward _).proofs _)
    ((keyed _).distinct_settlements _) ((keyed' _).distinct_settlements _)
    (mem_rowsOf_of_grows (onward _).settlements _) ?_
  simp only [Option.isSome_iff_exists]
  rintro ⟨r, asked⟩
  obtain ⟨s, still, -⟩ := (onward .audit).audits _ r asked
  exact ⟨s, still⟩

theorem Onward.progress_precedes (onward : index.Onward later) (keyed : index.Keyed) (keyed' : later.Keyed)
    (found : index.events.get? id = some e) (present : later.events.get? id = some f) :
    (index.progress c e).Precedes (later.progress c f) := by
  obtain ⟨g, there, becomes⟩ := onward.events id e found
  obtain rfl := Option.some.inj (present.symm.trans there)
  exact gathered_precedes (fun _ => onward) (fun _ => keyed) (fun _ => keyed') becomes

theorem Lifecycle.settled_of_rows (lifecycle : index.Lifecycle) (filled : rowsOf index.settlements id ≠ []) :
    ∃ e, index.events.get? id = some e ∧ e.status = .settled := by
  obtain ⟨row, listed⟩ := List.exists_mem_of_ne_nil _ filled
  obtain ⟨site, present⟩ := mem_rowsOf.mp listed
  obtain ⟨e, found, done, -⟩ := lifecycle.settled _ row present
  exact ⟨e, found, done⟩

theorem Lifecycle.settled_of_reported (lifecycle : index.Lifecycle) (found : index.events.get? id = some e)
    (reported : rowsOf index.settlements id ≠ [] ∨ (index.progress c e).claimStatus ≠ .pending ∨
      (index.progress c e).totalPayout ≠ 0) : e.status = .settled := by
  obtain rfl := lifecycle.events id e found
  obtain ⟨f, here, done⟩ := lifecycle.settled_of_rows (reported.elim id Progress.settlements_ne_nil)
  obtain rfl := Option.some.inj (found.symm.trans here)
  exact done

theorem Keyed.health_eq_done_iff (keyed : index.Keyed) (found : index.events.get? id = some e) :
    (index.progress c e).health = .done ↔
      (∀ site ∈ c.requiredSites, (index.proofs.get? ⟨id, site⟩).isSome) ∧ e.status ≠ .active ∧
      rowsOf index.settlements id ≠ [] ∧
      (∃ s, index.settlements.get? ⟨id, c.focus⟩ = some s ∧ s.status = .claimed) ∧
      (index.audits.get? ⟨id, c.focus⟩).isSome := by
  obtain rfl := keyed.events id e found
  unfold progress
  simp only [Progress.health_eq_done_iff, keyed.exists_site_iff, keyed.claimStatusOf_eq_claimed_iff]

theorem Keyed.proofsSubmitted_eq (keyed : index.Keyed) (found : index.events.get? id = some e) :
    (index.progress c e).proofsSubmitted =
      c.requiredSites.countP fun site => (index.proofs.get? ⟨id, site⟩).isSome := by
  obtain rfl := keyed.events id e found
  unfold progress
  rw [Progress.proofsSubmitted_eq]
  congr 1
  funext site
  rw [Bool.eq_iff_iff, Progress.any_site_iff, keyed.exists_site_iff]

/-- When tasks come one after another, no summary of an event goes back behind an earlier one. -/
theorem Leads.progress_never_goes_back {turns : List Turn} (leads : first.Leads c turns last)
    (made : first.Made) :
    ((turns.filterMap Turn.summary?).Pairwise fun earlier later =>
      earlier.1 = later.1 → earlier.2.Precedes later.2) ∧
    ∀ before turn after id p, turns = before ++ turn :: after → turn.summary? = some (id, p) →
      ∃ index e, first.Leads c (before ++ [turn]) index ∧ index.events.get? id = some e ∧
        p = index.progress c e ∧
        (rowsOf index.settlements id ≠ [] ∨ p.claimStatus ≠ .pending ∨ p.totalPayout ≠ 0 →
          p.status = .settled) ∧
        (p.health = .done ↔ p.completed = 6) ∧
        (p.health = .done ↔ (∀ site ∈ c.requiredSites, (index.proofs.get? ⟨id, site⟩).isSome) ∧
          e.status ≠ .active ∧ rowsOf index.settlements id ≠ [] ∧
          (∃ s, index.settlements.get? ⟨id, c.focus⟩ = some s ∧ s.status = .claimed) ∧
          (index.audits.get? ⟨id, c.focus⟩).isSome) ∧
        p.proofsSubmitted = c.requiredSites.countP fun site => (index.proofs.get? ⟨id, site⟩).isSome := by
  constructor
  · rw [List.pairwise_filterMap]
    induction leads with
    | nil index => exact .nil
    | @cons index between last turn turns runs rest ih =>
        have one := Leads.singleton_iff.mpr runs
        have reached := one.made made
        refine .cons ?_ (ih reached)
        rintro other listed ⟨id, p⟩ found ⟨_, q⟩ again rfl
        obtain ⟨before, after, rfl⟩ := List.append_of_mem listed
        rw [List.append_cons] at rest
        obtain ⟨later, going, -⟩ := rest.split
        have first : index.Leads c ([] ++ [turn]) between := one
        obtain ⟨e, here, rfl⟩ := first.answered made found
        obtain ⟨f, there, rfl⟩ := going.answered reached again
        exact going.onward.progress_precedes reached.lifecycle.toKeyed
          (going.made reached).lifecycle.toKeyed here there
  · rintro before turn after id p rfl found
    rw [List.append_cons] at leads
    obtain ⟨index, going, -⟩ := leads.split
    have lifecycle := (going.made made).lifecycle
    obtain ⟨e, here, rfl⟩ := going.answered made found
    exact ⟨index, e, going, here, rfl, lifecycle.settled_of_reported here,
      Progress.completed_eq_six_iff.symm, lifecycle.toKeyed.health_eq_done_iff here,
      lifecycle.toKeyed.proofsSubmitted_eq here⟩

end Index

/-- The audit of the site in focus comes before its claim, and another settlement fails in between. -/
theorem progress_of_season : ∃ (turns : List Turn) (last : Index) (p q : Progress),
    Index.empty.Leads .standard turns last ∧
    turns.filterMap Turn.summary? = [(⟨"DR-1"⟩, p), (⟨"DR-1"⟩, q)] ∧
    p.step = .claim ∧ p.completed = 5 ∧ q.step = .completed ∧ p.Precedes q := by
  let look : Task := .getSummary ⟨"DR-1"⟩
  let tasks : List Task := Service.season.take 5 ++ [.getAudit ⟨⟨"DR-1"⟩, ⟨"site-a"⟩⟩, look,
    .settleEvent ⟨"DR-1"⟩ [], .claimReward ⟨⟨"DR-1"⟩, ⟨"site-a"⟩⟩ ⟨"participant-a"⟩, look]
  let host := Host.handing (.ofSeconds 10)
  let turns := (host.turns .standard tasks (.empty, ["1", "2", "3", "4", "5", "6"].map (⟨·⟩))).1
  have leads := host.leads .standard tasks (.empty, ["1", "2", "3", "4", "5", "6"].map (⟨·⟩))
  have views : ∃ p q, turns.filterMap Turn.summary? = [(⟨"DR-1"⟩, p), (⟨"DR-1"⟩, q)] ∧
      p.step = .claim ∧ p.completed = 5 ∧ q.step = .completed := ⟨_, _, by rfl, by rfl, by rfl, by rfl⟩
  obtain ⟨p, q, listed, earlier, five, later⟩ := views
  have ordered := (leads.progress_never_goes_back ⟨[], .empty⟩).1
  rw [listed] at ordered
  refine ⟨turns, _, p, q, leads, listed, earlier, five, later, ?_⟩
  exact (List.pairwise_cons.mp ordered).1 _ (List.mem_singleton_self _) rfl

end Curtail
