import Curtail.Configuration
import Curtail.Proofs.Index.Handles
import Mathlib.Data.List.Basic
import Mathlib.Data.List.Induction

namespace Curtail

theorem compare_empty_ne_lt (s : String) : compare s "" ≠ .lt := by
  intro below
  change compareOfLessAndEq s "" = .lt at below
  have less := compareOfLessAndEq_eq_lt.mp below
  rw [String.lt_iff] at less
  exact List.not_lt_nil _ less

theorem SiteKey.compare_eq_lt_iff {a b : SiteKey} : compare a b = .lt ↔
    compare a.event b.event = .lt ∨ a.event = b.event ∧ compare a.site b.site = .lt := by
  change (compare a.event b.event).then (compare a.site b.site) = .lt ↔ _
  rw [Ordering.then_eq_lt, Std.LawfulEqOrd.compare_eq_iff_eq]

def Identifier.codes {kind : IdentifierKind} (id : Identifier kind) : List Nat :=
  id.text.toList.map Char.toNat

theorem Identifier.codes_lt {kind : IdentifierKind} {a b : Identifier kind} (less : compare a b = .lt) :
    a.codes < b.codes := by
  change compareOfLessAndEq a.text b.text = .lt at less
  have before : a.text.toList < b.text.toList := String.lt_iff.mp (compareOfLessAndEq_eq_lt.mp less)
  exact List.map_lt (fun _ _ lower => lower) before

section Lists

variable {α : Type} {p : α → Bool} {items : List α}

theorem takeWhile_eq_filter (closed : items.Pairwise fun a b => p b → p a) :
    items.takeWhile p = items.filter p := by
  induction items with
  | nil => rfl
  | cons a items ih =>
      obtain ⟨before, tail⟩ := List.pairwise_cons.mp closed
      cases good : p a with
      | true => rw [List.takeWhile_cons_of_pos good, List.filter_cons_of_pos good, ih tail]
      | false =>
          have none_later : items.filter p = [] := by
            rw [List.filter_eq_nil_iff]
            intro b member later
            rw [before b member later] at good
            cases good
          simp [good, none_later]

theorem dropWhile_eq_filter (closed : items.Pairwise fun a b => p b → p a) :
    items.dropWhile p = items.filter fun a => !p a := by
  induction items with
  | nil => rfl
  | cons a items ih =>
      obtain ⟨before, tail⟩ := List.pairwise_cons.mp closed
      cases good : p a with
      | true => simp [good, ih tail]
      | false =>
          have all_later : items.filter (fun b => !p b) = items := by
            rw [List.filter_eq_self]
            intro b member
            rw [Bool.not_eq_true', ← Bool.not_eq_true]
            intro later
            rw [before b member later] at good
            cases good
          simp [good, all_later]

variable [DecidableEq α]

theorem firsts_from (items kept : List α) (distinct : kept.Nodup) :
    (items.foldl (fun kept item => if item ∈ kept then kept else kept ++ [item]) kept).Nodup := by
  induction items generalizing kept with
  | nil => exact distinct
  | cons item items ih =>
      rw [List.foldl_cons]
      by_cases known : item ∈ kept
      · rw [if_pos known]
        exact ih kept distinct
      · rw [if_neg known]
        apply ih
        refine List.nodup_append.mpr ⟨distinct, List.pairwise_singleton _ _, ?_⟩
        rintro a member b same rfl
        exact known (List.mem_singleton.mp same ▸ member)

theorem firsts_nodup (items : List α) : (firsts items).Nodup := firsts_from items [] .nil

theorem mem_firsts {a : α} : a ∈ firsts items ↔ a ∈ items := by
  suffices all : ∀ kept : List α,
      a ∈ items.foldl (fun kept item => if item ∈ kept then kept else kept ++ [item]) kept ↔
        a ∈ kept ∨ a ∈ items from (all []).trans (by simp)
  induction items with
  | nil => simp
  | cons item items ih =>
      intro kept
      rw [List.foldl_cons, ih]
      by_cases known : item ∈ kept
      · rw [if_pos known, List.mem_cons]
        refine ⟨Or.imp_right .inr, ?_⟩
        rintro (before | rfl | later)
        · exact .inl before
        · exact .inl known
        · exact .inr later
      · rw [if_neg known, List.mem_append, List.mem_singleton, List.mem_cons, or_assoc]

theorem firsts_append_singleton (items : List α) (a : α) : firsts (items ++ [a]) =
    if a ∈ firsts items then firsts items else firsts items ++ [a] :=
  List.foldl_append

theorem firsts_of_nodup (distinct : items.Nodup) : firsts items = items := by
  suffices all : ∀ kept : List α, (kept ++ items).Nodup →
      items.foldl (fun kept item => if item ∈ kept then kept else kept ++ [item]) kept = kept ++ items from
    all [] distinct
  clear distinct
  induction items with
  | nil => exact fun kept _ => (List.append_nil kept).symm
  | cons item items ih =>
      intro kept distinct
      have new : item ∉ kept := fun known =>
        (List.nodup_append.mp distinct).2.2 item known item List.mem_cons_self rfl
      rw [List.append_cons] at distinct ⊢
      rw [List.foldl_cons, if_neg new, ih _ distinct]

theorem firsts_in_order (items : List α) :
    (firsts items).Pairwise fun a b => items.idxOf a < items.idxOf b := by
  induction items using List.reverseRecOn with
  | nil => exact .nil
  | append_singleton items a ih =>
      have kept : (firsts items).Pairwise fun b d => (items ++ [a]).idxOf b < (items ++ [a]).idxOf d := by
        refine ih.imp_of_mem ?_
        intro b d first second less
        rwa [List.idxOf_append_of_mem (mem_firsts.mp first), List.idxOf_append_of_mem (mem_firsts.mp second)]
      rw [firsts_append_singleton]
      split
      case isTrue => exact kept
      case isFalse new =>
        refine List.pairwise_append.mpr ⟨kept, List.pairwise_singleton _ _, ?_⟩
        intro b listed d last
        obtain rfl := List.mem_singleton.mp last
        have before := List.idxOf_lt_length_iff.mpr (mem_firsts.mp listed)
        rw [List.idxOf_append_of_mem (mem_firsts.mp listed), List.idxOf_append_of_notMem (mt mem_firsts.mpr new)]
        omega

theorem head?_firsts (items : List α) : (firsts items).head? = items.head? := by
  induction items using List.reverseRecOn with
  | nil => rfl
  | append_singleton items a ih =>
      rw [firsts_append_singleton, List.head?_append]
      split
      case isTrue known =>
        obtain ⟨first, front⟩ := Option.ne_none_iff_exists'.mp
          (mt List.head?_eq_none_iff.mp (List.ne_nil_of_mem (mem_firsts.mp known)))
        rw [ih, front, Option.some_or]
      case isFalse new => rw [List.head?_append, ih]

end Lists

namespace Index

variable {α β : Type}

theorem rowsOf_eq_filter (table : Table SiteKey α) (id : EventId) :
    rowsOf table id = (table.entries.filter fun entry => entry.1.event = id).map (·.2) := by
  have least (key : SiteKey) (below : compare key ⟨id, ⟨""⟩⟩ = .lt) :
      compare key.event id = .lt := by
    rcases SiteKey.compare_eq_lt_iff.mp below with event | ⟨-, site⟩
    · exact event
    · exact (compare_empty_ne_lt key.site.text site).elim
  simp only [rowsOf]
  rw [dropWhile_eq_filter, takeWhile_eq_filter, List.filter_filter]
  · -- What is dropped belongs to events before this one.
    congr 2
    funext entry
    by_cases own : entry.1.event = id
    · have kept : compare entry.1 ⟨id, ⟨""⟩⟩ ≠ .lt :=
        fun below => Table.ne_of_compare_eq_lt (least entry.1 below) own
      simp [own, kept]
    · simp [own]
  · rw [List.pairwise_filter]
    apply table.sorted.imp
    intro a b less from_start _ own
    rw [decide_eq_true_eq] at own ⊢
    simp only [Bool.not_eq_true', decide_eq_false_iff_not, SiteKey.compare_eq_lt_iff, not_or] at from_start
    rcases SiteKey.compare_eq_lt_iff.mp less with event | ⟨event, -⟩
    · exact (from_start.1 (own ▸ event)).elim
    · exact event.trans own
  · apply table.sorted.imp
    intro a b less below
    rw [decide_eq_true_eq] at below ⊢
    exact Std.TransCmp.lt_trans less below

def sitesOf (table : Table SiteKey α) (id : EventId) : List SiteId :=
  (table.entries.filter fun entry => entry.1.event = id).map (·.1.site)

variable {table : Table SiteKey α} {id : EventId} {site : SiteId}

theorem mem_sitesOf : site ∈ sitesOf table id ↔ table.get? ⟨id, site⟩ ≠ none := by
  rw [Option.ne_none_iff_exists']
  simp only [sitesOf, List.mem_map, List.mem_filter, decide_eq_true_eq, Table.get?_eq_some_iff]
  refine ⟨?_, ?_⟩
  · rintro ⟨⟨⟨event, place⟩, x⟩, ⟨member, rfl⟩, rfl⟩
    exact ⟨x, member⟩
  · rintro ⟨x, member⟩
    exact ⟨_, ⟨member, rfl⟩, rfl⟩

theorem mem_rowsOf {x : α} : x ∈ rowsOf table id ↔ ∃ site, table.get? ⟨id, site⟩ = some x := by
  simp only [rowsOf_eq_filter, List.mem_map, List.mem_filter, decide_eq_true_eq,
    Table.get?_eq_some_iff]
  refine ⟨?_, ?_⟩
  · rintro ⟨⟨⟨event, place⟩, y⟩, ⟨member, rfl⟩, rfl⟩
    exact ⟨place, member⟩
  · rintro ⟨site, member⟩
    exact ⟨_, ⟨member, rfl⟩, rfl⟩

theorem length_rowsOf (table : Table SiteKey α) (id : EventId) :
    (rowsOf table id).length = (sitesOf table id).length := by
  simp [rowsOf_eq_filter, sitesOf]

theorem map_rowsOf {f : α → SiteId} (keyed : ∀ key x, table.get? key = some x → f x = key.site)
    (id : EventId) : (rowsOf table id).map f = sitesOf table id := by
  rw [rowsOf_eq_filter, sitesOf, List.map_map]
  apply List.map_congr_left
  intro entry member
  exact keyed entry.1 entry.2 (Table.get?_eq_some_iff.mpr (List.mem_filter.mp member).1)

theorem sitesOf_sorted (table : Table SiteKey α) (id : EventId) :
    (sitesOf table id).Pairwise fun a b => compare a b = .lt := by
  rw [sitesOf, List.pairwise_map, List.pairwise_filter]
  apply table.sorted.imp
  intro a b less own same
  rw [decide_eq_true_eq] at own same
  rcases SiteKey.compare_eq_lt_iff.mp less with event | ⟨-, site⟩
  · exact (Table.ne_of_compare_eq_lt event (own.trans same.symm)).elim
  · exact site

theorem sitesOf_nodup (table : Table SiteKey α) (id : EventId) : (sitesOf table id).Nodup :=
  (sitesOf_sorted table id).imp Table.ne_of_compare_eq_lt

theorem sitesOf_perm {sites : List SiteId} (distinct : sites.Nodup)
    (present : ∀ site, table.get? ⟨id, site⟩ ≠ none ↔ site ∈ sites) : (sitesOf table id).Perm sites := by
  rw [List.perm_ext_iff_of_nodup (sitesOf_nodup table id) distinct]
  intro site
  rw [mem_sitesOf, present]

theorem sitesOf_congr {other : Table SiteKey β}
    (same : ∀ site, table.get? ⟨id, site⟩ ≠ none ↔ other.get? ⟨id, site⟩ ≠ none) :
    sitesOf table id = sitesOf other id := by
  apply List.Perm.eq_of_pairwise _ (sitesOf_sorted table id) (sitesOf_sorted other id)
  · apply sitesOf_perm (sitesOf_nodup other id)
    intro site
    rw [same, mem_sitesOf]
  · intro a b _ _ less greater
    exact (Table.ne_of_compare_eq_lt (Std.TransCmp.lt_trans less greater) rfl).elim

/-- Strictly rising by code points, and all that the event has a row for. -/
structure Scans (table : Table SiteKey α) (id : EventId) (sites : List SiteId) (rows : List α) : Prop where
  rising : sites.Pairwise fun a b => a.codes < b.codes
  covers : ∀ site, site ∈ sites ↔ ∃ row, table.get? ⟨id, site⟩ = some row
  found : sites.map (fun site => table.get? ⟨id, site⟩) = rows.map some

theorem scans_rowsOf (table : Table SiteKey α) (id : EventId) :
    Scans table id (sitesOf table id) (rowsOf table id) := by
  refine ⟨(sitesOf_sorted table id).imp Identifier.codes_lt, fun site => ?_, ?_⟩
  · rw [mem_sitesOf, Option.ne_none_iff_exists']
  · rw [sitesOf, rowsOf_eq_filter, List.map_map, List.map_map]
    apply List.map_congr_left
    rintro ⟨key, row⟩ member
    obtain ⟨listed, own⟩ := List.mem_filter.mp member
    obtain rfl := of_decide_eq_true own
    exact Table.get?_eq_some_iff.mpr listed

theorem Scans.unique {sites others : List SiteId} {rows further : List α}
    (scans : Scans table id sites rows) (again : Scans table id others further) : rows = further := by
  have distinct {sites : List SiteId} (rising : sites.Pairwise fun a b => a.codes < b.codes) :
      sites.Nodup := by
    apply rising.imp
    rintro a b less rfl
    exact List.lt_irrefl _ less
  have same : sites = others := by
    apply List.Perm.eq_of_pairwise _ scans.rising again.rising
    · rw [List.perm_ext_iff_of_nodup (distinct scans.rising) (distinct again.rising)]
      exact fun site => (scans.covers site).trans (again.covers site).symm
    · exact fun a b _ _ less greater => (List.lt_asymm less greater).elim
  rw [← List.map_inj_right fun _ _ => Option.some.inj, ← scans.found, ← again.found, same]

theorem eq_rowsOf_iff {rows : List α} : rows = rowsOf table id ↔ ∃ sites, Scans table id sites rows := by
  refine ⟨?_, ?_⟩
  · rintro rfl
    exact ⟨_, scans_rowsOf table id⟩
  · rintro ⟨sites, scans⟩
    exact scans.unique (scans_rowsOf table id)

/-- What is listed of an event is all rows under its key, in the order of their sites' code points. -/
theorem rows_of_event (index : Index) (id : EventId) :
    (∀ rows, rows = rowsOf index.proofs id ↔ ∃ sites, Scans index.proofs id sites rows) ∧
    ∀ rows, rows = rowsOf index.settlements id ↔ ∃ sites, Scans index.settlements id sites rows :=
  ⟨fun _ => eq_rowsOf_iff, fun _ => eq_rowsOf_iff⟩

/-- Empty identifiers, and identifiers that begin with one another. -/
example : rowsOf (⟨[(⟨⟨""⟩, ⟨"a"⟩⟩, 1), (⟨⟨"a"⟩, ⟨""⟩⟩, 2), (⟨⟨"a"⟩, ⟨"a"⟩⟩, 3), (⟨⟨"a"⟩, ⟨"a-b"⟩⟩, 4),
    (⟨⟨"a-b"⟩, ⟨""⟩⟩, 5)], by decide⟩ : Table SiteKey Nat) ⟨"a"⟩ = [2, 3, 4] := by decide

structure Keyed (index : Index) : Prop where
  events : ∀ id e, index.events.get? id = some e → e.id = id
  proofs : ∀ key p, index.proofs.get? key = some p → p.key = key
  settlements : ∀ key s, index.settlements.get? key = some s → s.event = key.event ∧ s.site = key.site
  audits : ∀ key r, index.audits.get? key = some r → r.key = key

theorem Keyed.map_site {index : Index} (keyed : index.Keyed) (id : EventId) :
    (rowsOf index.proofs id).map (·.site) = sitesOf index.proofs id :=
  map_rowsOf (fun key p here => congrArg SiteKey.site (keyed.proofs key p here)) id

theorem Keyed.distinct_proofs {index : Index} (keyed : index.Keyed) (id : EventId) :
    ((rowsOf index.proofs id).map (·.site)).Nodup := by
  rw [keyed.map_site]
  exact sitesOf_nodup _ _

theorem Keyed.distinct_settlements {index : Index} (keyed : index.Keyed) (id : EventId) :
    ((rowsOf index.settlements id).map (·.site)).Nodup := by
  have sites : (rowsOf index.settlements id).map (·.site) = sitesOf index.settlements id :=
    map_rowsOf (fun key s here => (keyed.settlements key s here).2) id
  rw [sites]
  exact sitesOf_nodup _ _

end Index

end Curtail
