import Curtail.CommandLine.Run
import Curtail.Proofs.Entity.RoundTrip
import Curtail.Proofs.Index.Range
import Curtail.Proofs.Index.Size
import Curtail.Proofs.Json.Grammar
import Curtail.Proofs.Text.Blank

namespace Curtail

open Json

theorem IsVerbatim.not_blank {c : Char} (verbatim : IsVerbatim c) (solid : c ≠ ' ') :
    Text.isBlank c = false := by
  have apart : c.toNat ≠ 0x20 := fun same => solid (Char.toNat_inj.mp same)
  unfold IsVerbatim at verbatim
  rw [← Bool.not_eq_true]
  simp only [Text.isBlank, Bool.or_eq_true, Bool.and_eq_true, decide_eq_true_eq, beq_iff_eq]
  omega

theorem IdentifierKind.allowed_of_admits {kind : IdentifierKind} {cs : List Char} (admitted : kind.admits cs) :
    cs ≠ [] ∧ ∀ c ∈ cs, kind.isFirst c ∨ kind.isLater c := by
  cases cs with
  | nil => cases admitted
  | cons c cs =>
      simp only [admits, Bool.and_eq_true, List.all_eq_true] at admitted
      obtain ⟨⟨first, later⟩, -⟩ := admitted
      exact ⟨List.cons_ne_nil c cs, List.forall_mem_cons.mpr ⟨.inl first, fun d listed => .inr (later d listed)⟩⟩

theorem Identifier.IsAdmitted.inked {site : SiteId} (admitted : site.IsAdmitted) :
    site.text.toList ≠ [] ∧ ∀ c ∈ site.text.toList, Text.isBlank c = false ∧ c ≠ ',' := by
  obtain ⟨present, allowed⟩ := IdentifierKind.allowed_of_admits admitted
  refine ⟨present, fun c listed => ⟨?_, ?_⟩⟩
  · apply ((IdentifierKind.verbatim_of_admits admitted).all c listed).not_blank
    rintro rfl
    exact absurd (allowed ' ' listed) (by decide)
  · rintro rfl
    exact absurd (allowed ',' listed) (by decide)

theorem ConfirmMode.readsBack (mode : ConfirmMode) : ReadsBack mode := by
  cases mode <;> exact ⟨rfl, nofun, rfl⟩

theorem Identifier.mapM_parse_eq_ok_iff {α : Type} {kind : IdentifierKind} (text : α → String)
    {items : List α} {ids : List (Identifier kind)} :
    (items.mapM fun item => parse kind (text item)) = .ok ids ↔
      ids = items.map (fun item => ⟨text item⟩) ∧
        ∀ item ∈ items, (⟨text item⟩ : Identifier kind).IsAdmitted := by
  induction items generalizing ids with
  | nil => simp [pure, Except.pure, eq_comm]
  | cons item items ih =>
      rw [List.mapM_cons, List.map_cons, List.forall_mem_cons, parse, IsAdmitted]
      by_cases admitted : kind.admits (text item).toList
      · rw [if_pos admitted]
        cases read : items.mapM fun item => parse kind (text item) with
        | error e =>
            have refused : ¬∀ item ∈ items, (⟨text item⟩ : Identifier kind).IsAdmitted := by
              intro all
              cases read.symm.trans (ih.mpr ⟨rfl, all⟩)
            simp [bind, Except.bind, refused]
        | ok others =>
            obtain ⟨rfl, all⟩ := ih.mp read
            change Except.ok (_ :: _) = Except.ok ids ↔ _
            rw [Except.ok.injEq]
            exact ⟨fun same => ⟨same.symm, admitted, all⟩, fun both => both.1.symm⟩
      · rw [if_neg admitted]
        simp [bind, Except.bind, admitted]

namespace Configuration

variable {sites : List SiteId} {mode : ConfirmMode} {c : Configuration} {text : String}

/-- The sites without repetitions, each where it first comes. -/
structure DrawnFrom (c : Configuration) (sites : List SiteId) : Prop where
  distinct : c.requiredSites.Nodup
  same : ∀ site, site ∈ c.requiredSites ↔ site ∈ sites
  inOrder : c.requiredSites.Pairwise fun a b => sites.idxOf a < sites.idxOf b
  focus : sites.head? = some c.focus

theorem of?_eq_ok_iff : of? sites mode = .ok c ↔ firsts sites = c.requiredSites ∧ c.mode = mode := by
  obtain ⟨focus, others, own⟩ := c
  unfold of? requiredSites
  cases firsts sites with
  | nil => simp
  | cons first rest => simp [and_assoc, eq_comm]

theorem drawnFrom_of_ok (made : of? sites mode = .ok c) : c.DrawnFrom sites := by
  obtain ⟨kept, -⟩ := of?_eq_ok_iff.mp made
  refine ⟨kept ▸ firsts_nodup sites, fun site => ?_, kept ▸ firsts_in_order sites, ?_⟩
  · rw [← kept, mem_firsts]
  · rw [← head?_firsts, kept]
    rfl

theorem of?_nil (mode : ConfirmMode) : of? [] mode = .error (.outOfBounds "required_sites" "0") := rfl

theorem exists_of? (present : sites ≠ []) (mode : ConfirmMode) : ∃ c, of? sites mode = .ok c := by
  unfold of?
  cases kept : firsts sites with
  | nil =>
      have head := head?_firsts sites
      rw [kept] at head
      exact (present (List.head?_eq_none_iff.mp head.symm)).elim
  | cons first rest => exact ⟨_, rfl⟩

/-! ## A list between commas -/

inductive Lists : List SiteId → List (List Char) → Prop
  | nil : Lists [] []
  | blank {item : List Char} {sites : List SiteId} {items : List (List Char)} :
      (∀ c ∈ item, Text.isBlank c = true) → Lists sites items → Lists sites (item :: items)
  | site {front back : List Char} {site : SiteId} {sites : List SiteId} {items : List (List Char)} :
      (∀ c ∈ front ++ back, Text.isBlank c = true) → Lists sites items →
      Lists (site :: sites) ((front ++ site.text.toList ++ back) :: items)

/-- The sites between commas, with any blanks around them and any empty items. -/
def IsListOf (sites : List SiteId) (list : String) : Prop :=
  ∃ items, Lists sites items ∧ list.toList = [','].intercalate items

theorem comma_of_blank {cs : List Char} (blank : ∀ c ∈ cs, Text.isBlank c = true) : ',' ∉ cs :=
  fun listed => absurd (blank ',' listed) (by decide)

theorem Lists.unmarked {items : List (List Char)} (lists : Lists sites items)
    (admitted : ∀ site ∈ sites, site.IsAdmitted) : ∀ item ∈ items, ',' ∉ item := by
  induction lists with
  | nil => exact nofun
  | blank blank _ ih => exact List.forall_mem_cons.mpr ⟨comma_of_blank blank, ih admitted⟩
  | @site front back site sites items blank _ ih =>
      obtain ⟨own, others⟩ := List.forall_mem_cons.mp admitted
      refine List.forall_mem_cons.mpr ⟨?_, ih others⟩
      intro listed
      rw [List.append_assoc, List.mem_append, List.mem_append, or_left_comm, ← List.mem_append] at listed
      exact listed.elim (fun within => (own.inked.2 ',' within).2 rfl) (comma_of_blank blank)

theorem Lists.trimmed {items : List (List Char)} (lists : Lists sites items)
    (admitted : ∀ site ∈ sites, site.IsAdmitted) :
    (items.map Text.trim).filter (· ≠ []) = sites.map (·.text.toList) := by
  induction lists with
  | nil => rfl
  | blank blank _ ih =>
      rw [List.map_cons, Text.trim_of_blank blank, List.filter_cons_of_neg (by simp), ih admitted]
  | @site front back site sites items blank _ ih =>
      obtain ⟨own, others⟩ := List.forall_mem_cons.mp admitted
      obtain ⟨present, inked⟩ := own.inked
      rw [List.map_cons, Text.trim_append blank present fun c listed => (inked c listed).1,
        List.filter_cons_of_pos (by simpa using present), ih others, List.map_cons]

theorem parseSites_of_listed {list : String} (listed : IsListOf sites list)
    (admitted : ∀ site ∈ sites, site.IsAdmitted) : parseSites list = .ok sites := by
  obtain ⟨items, lists, typed⟩ := listed
  have trimmed : ((Text.pieces ',' list.toList).map Text.trim).filter (· ≠ []) =
      sites.map (·.text.toList) := by
    rw [← lists.trimmed admitted, typed, Text.pieces_eq_splitOn]
    by_cases filled : items = []
    · subst filled
      rfl
    · rw [List.splitOn_intercalate ',' (lists.unmarked admitted) filled]
  unfold parseSites
  rw [trimmed, Identifier.mapM_parse_eq_ok_iff, List.forall_mem_map, List.map_map]
  simpa [Function.comp_def] using admitted

theorem admitted_of_parseSites {list : String} (parsed : parseSites list = .ok sites) :
    ∀ site ∈ sites, site.IsAdmitted := by
  obtain ⟨rfl, admitted⟩ := (Identifier.mapM_parse_eq_ok_iff String.ofList).mp parsed
  exact List.forall_mem_map.mpr admitted

def ofList (list : String) (mode : ConfirmMode) : Except Violation Configuration := do
  of? (← parseSites list) mode

/-! ## A document -/

/-- Members in any order, perhaps among others; the usual mode need not be told. -/
structure Tells (members : List (Spelled × Tree)) (sites : List SiteId) (mode : ConfirmMode) : Prop where
  named : ∀ m ∈ members, m.1 ≠ none
  distinct : (members.map Prod.fst).Nodup
  sites : (some "required_sites", encode sites) ∈ members
  mode : (some "confirm_mode", encode mode) ∈ members ∨
    mode = .hybrid ∧ ∀ m ∈ members, m.1 ≠ some "confirm_mode"

def IsDocumentOf (sites : List SiteId) (mode : ConfirmMode) (text : String) : Prop :=
  ∃ members, Tells members sites mode ∧ Padded (Tree.object members).IsText text.toList

theorem Tells.ofTree?_eq {members : List (Spelled × Tree)} (tells : Tells members sites mode) :
    ofTree? (.object members) = some (sites, mode) := by
  obtain ⟨kept, read, found⟩ :=
    Members.exists_keep ["required_sites", "confirm_mode"] tells.named tells.distinct
  have sites' : (⟨kept, false⟩ : Members).required "required_sites" = some sites := by
    rw [Members.required_record, found, if_pos (by decide), Members.lookup_of_mem tells.distinct tells.sites,
      Option.bind_some]
    exact (ReadsBack.list fun site _ => site.readsBack).decode_encode
  have mode' : (⟨kept, false⟩ : Members).defaulted "confirm_mode" .hybrid decode = some mode := by
    rw [Members.defaulted, Members.find?, found, if_pos (by decide)]
    rcases tells.mode with told | ⟨rfl, untold⟩
    · rw [Members.lookup_of_mem tells.distinct told]
      exact mode.readsBack.decode_encode
    · have absent : members.lookup (some "confirm_mode") = none :=
        List.lookup_eq_none_iff.mpr fun m listed => bne_iff_ne.mpr (untold m listed).symm
      rw [absent]
  simp [ofTree?, Members.of?, read, sites', mode']

theorem ofSites_eq (admitted : ∀ site ∈ sites, site.IsAdmitted) (mode : ConfirmMode) :
    ofSites sites mode = of? sites mode := by
  have checked : (sites.mapM fun site => Identifier.parse .site site.text) = .ok sites :=
    (Identifier.mapM_parse_eq_ok_iff Identifier.text).mpr ⟨by simp, admitted⟩
  rw [ofSites, checked]
  rfl

theorem admitted_of_ofSites (made : ofSites sites mode = .ok c) : ∀ site ∈ sites, site.IsAdmitted := by
  unfold ofSites at made
  cases checked : sites.mapM fun site => Identifier.parse .site site.text with
  | error v =>
      rw [checked] at made
      cases made
  | ok ids => exact ((Identifier.mapM_parse_eq_ok_iff Identifier.text).mp checked).2

theorem ofText_of_document {document : String} (told : IsDocumentOf sites mode document)
    (admitted : ∀ site ∈ sites, site.IsAdmitted) :
    ofText document = (of? sites mode).mapError .invalidDocument := by
  obtain ⟨members, tells, padded⟩ := told
  obtain ⟨after, read, blank⟩ := Tree.readFront?_padded padded
  simp only [ofText, read, tells.ofTree?_eq, ofSites_eq admitted]
  cases of? sites mode with
  | error v => rfl
  | ok c =>
      change (if skipSpace after = [] then _ else _) = _
      rw [if_pos blank]
      rfl

structure IsValid (c : Configuration) : Prop where
  present : c.requiredSites ≠ []
  distinct : c.requiredSites.Nodup
  admitted : ∀ site ∈ c.requiredSites, site.IsAdmitted

theorem isValid_of_ok (made : of? sites mode = .ok c) (admitted : ∀ site ∈ sites, site.IsAdmitted) :
    c.IsValid := by
  have drawn := drawnFrom_of_ok made
  exact ⟨List.cons_ne_nil _ _, drawn.distinct, fun site listed => admitted site ((drawn.same site).mp listed)⟩

theorem ofSites_of_ofText (made : ofText text = .ok c) : ∃ sites mode, ofSites sites mode = .ok c := by
  unfold ofText at made
  split at made
  · cases made
  · split at made
    · cases made
    · split at made
      · cases made
      · rename_i checked
        split at made
        · cases made
          exact ⟨_, _, checked⟩
        · cases made

theorem isValid_of_ofText (made : ofText text = .ok c) : c.IsValid := by
  obtain ⟨sites, mode, checked⟩ := ofSites_of_ofText made
  have admitted := admitted_of_ofSites checked
  rw [ofSites_eq admitted] at checked
  exact isValid_of_ok checked admitted

theorem isValid_of_ofList (made : ofList text mode = .ok c) : c.IsValid := by
  unfold ofList at made
  cases parsed : parseSites text with
  | error v =>
      rw [parsed] at made
      cases made
  | ok sites =>
      rw [parsed] at made
      exact isValid_of_ok made (admitted_of_parseSites parsed)

theorem ofList_of_listed {list : String} (listed : IsListOf sites list)
    (admitted : ∀ site ∈ sites, site.IsAdmitted) (mode : ConfirmMode) :
    ofList list mode = of? sites mode := by
  rw [ofList, parseSites_of_listed listed admitted]
  rfl

/-! ## On the command line -/

section Steps

variable {ε δ α β : Type} {made : Except ε α}

theorem mapError_eq_ok_iff {f : ε → δ} {a : α} : made.mapError f = .ok a ↔ made = .ok a := by
  cases made <;> simp [Except.mapError]

theorem bind_eq_ok_iff {next : α → Except ε β} {b : β} :
    made >>= next = .ok b ↔ ∃ a, made = .ok a ∧ next a = .ok b := by
  cases made <;> simp [bind, Except.bind]

end Steps

variable {files : CommandLine.Files}

theorem isValid_of_baseConfiguration {name : Option String}
    (made : CommandLine.baseConfiguration files name = .ok c) : c.IsValid := by
  cases name with
  | none =>
      cases made
      exact ⟨by decide, by decide, by decide⟩
  | some name =>
      obtain ⟨text, -, made⟩ := bind_eq_ok_iff.mp made
      exact isValid_of_ofText (mapError_eq_ok_iff.mp made)

theorem isValid_of_moded {base : Configuration} {name : String} (valid : base.IsValid)
    (made : (do
      let mode ← (parseMode name).mapError CommandLine.CommandError.configuration
      return { base with mode }) = .ok c) : c.IsValid := by
  obtain ⟨mode, -, made⟩ := bind_eq_ok_iff.mp made
  cases made
  exact ⟨valid.present, valid.distinct, valid.admitted⟩

theorem isValid_of_configuration {g : CommandLine.GlobalArguments}
    (made : CommandLine.configuration files g = .ok c) : c.IsValid := by
  obtain ⟨base, based, made⟩ := bind_eq_ok_iff.mp made
  have usual := isValid_of_baseConfiguration based
  cases list : g.requiredSites with
  | none =>
      rw [list] at made
      cases mode : g.confirmMode with
      | none =>
          rw [mode] at made
          cases made
          exact usual
      | some name =>
          rw [mode] at made
          exact isValid_of_moded usual made
  | some text =>
      rw [list] at made
      obtain ⟨listed, chosen, made⟩ := bind_eq_ok_iff.mp made
      have valid := isValid_of_ofList (mapError_eq_ok_iff.mp chosen)
      cases mode : g.confirmMode with
      | none =>
          rw [mode] at made
          cases made
          exact valid
      | some name =>
          rw [mode] at made
          exact isValid_of_moded valid made

/-- A document and a list that is typed in give the same configuration, and whatever is read in either
way has distinct and admitted sites. -/
theorem paths_agree :
    (∀ (sites : List SiteId) (mode : ConfirmMode) (document list : String),
      (∀ site ∈ sites, site.IsAdmitted) → IsDocumentOf sites mode document → IsListOf sites list →
      ofText document = (ofList list mode).mapError .invalidDocument ∧
      (sites = [] → ofList list mode = .error (.outOfBounds "required_sites" "0")) ∧
      (sites ≠ [] → ∃ c, ofList list mode = .ok c ∧ c.mode = mode ∧ c.DrawnFrom sites)) ∧
    (∀ text c, ofText text = .ok c → c.IsValid) ∧
    (∀ text mode c, ofList text mode = .ok c → c.IsValid) ∧
    ∀ files g c, CommandLine.configuration files g = .ok c → c.IsValid := by
  refine ⟨?_, fun _ _ => isValid_of_ofText, fun _ _ _ => isValid_of_ofList,
    fun _ _ _ => isValid_of_configuration⟩
  intro sites mode document list admitted told listed
  rw [ofText_of_document told admitted, ofList_of_listed listed admitted]
  refine ⟨rfl, ?_, fun present => ?_⟩
  · rintro rfl
    exact of?_nil mode
  · obtain ⟨c, made⟩ := exists_of? present mode
    exact ⟨c, made, (of?_eq_ok_iff.mp made).2, drawnFrom_of_ok made⟩

def spelledDocument : String :=
  "\x7b \"confirm_mode\" :\"sync\", \"required_sites\":[\"site-b\",\"\\u0061\" ,\"site-b\"]\x7d"

def typedList : String := "site-b,, a\t,site-b "

theorem spelled_isDocumentOf : IsDocumentOf [⟨"site-b"⟩, ⟨"a"⟩, ⟨"site-b"⟩] .sync spelledDocument := by
  have gap : IsGap [' '] := by simp [IsGap]
  refine ⟨[(some "confirm_mode", encode ConfirmMode.sync),
    (some "required_sites", encode [(⟨"site-b"⟩ : SiteId), ⟨"a"⟩, ⟨"site-b"⟩])],
    ⟨by decide, by decide, .tail _ (.head _), .inl (.head _)⟩, ?_⟩
  have mode : QuotedText (some "sync") "\"sync\"".toList := .itself (by simp)
  have site : QuotedText (some "site-b") "\"site-b\"".toList := .itself (by simp)
  have unit : UnitText 0x61 "\\u0061".toList :=
    .digits (a := 0) (b := 0) (c := 6) (d := 1) (by decide) (by decide) (by decide) (by decide)
  have escaped : QuotedText (some "a") "\"\\u0061\"".toList :=
    ⟨"a", _, rfl, .cons (.unit unit) .nil, by decide⟩
  have items : (encode [(⟨"site-b"⟩ : SiteId), ⟨"a"⟩, ⟨"site-b"⟩]).IsText
      "[\"site-b\",\"\\u0061\" ,\"site-b\"]".toList :=
    ⟨_, ",\"\\u0061\" ,\"site-b\"]".toList, .bare site,
      ⟨"\"\\u0061\" ".toList, ",\"site-b\"]".toList, ⟨[], _, [' '], nofun, escaped, gap, by decide⟩,
        ⟨_, [']'], .bare site, rfl, by decide⟩, by decide⟩, by decide⟩
  exact .bare ⟨" \"confirm_mode\" ".toList, _, ", \"required_sites\":[\"site-b\",\"\\u0061\" ,\"site-b\"]\x7d".toList,
    ⟨[' '], _, [' '], gap, .itself (by simp), gap, by decide⟩, .bare mode,
    ⟨" \"required_sites\"".toList, _, ['}'], ⟨[' '], _, [], gap, .itself (by simp), nofun, by decide⟩,
      .bare items, rfl, by decide⟩, by decide⟩

theorem typed_isListOf : IsListOf [⟨"site-b"⟩, ⟨"a"⟩, ⟨"site-b"⟩] typedList := by
  refine ⟨[[] ++ "site-b".toList ++ [], [], [' '] ++ "a".toList ++ ['\t'], [] ++ "site-b".toList ++ [' ']],
    ?_, by decide⟩
  have space : ∀ c ∈ [' '], Text.isBlank c = true := List.forall_mem_singleton.mpr rfl
  have both : ∀ c ∈ [' ', '\t'], Text.isBlank c = true :=
    List.forall_mem_cons.mpr ⟨rfl, List.forall_mem_singleton.mpr rfl⟩
  exact .site nofun (.blank nofun (.site both (.site space .nil)))

theorem paths_agree_on_spellings : ∃ c, ofText spelledDocument = .ok c ∧ ofList typedList .sync = .ok c ∧
    c.DrawnFrom [⟨"site-b"⟩, ⟨"a"⟩, ⟨"site-b"⟩] ∧ c.IsValid := by
  have admitted : ∀ site ∈ [(⟨"site-b"⟩ : SiteId), ⟨"a"⟩, ⟨"site-b"⟩], site.IsAdmitted := by decide
  obtain ⟨agree, valid, -⟩ := paths_agree
  obtain ⟨same, -, made⟩ := agree _ .sync _ _ admitted spelled_isDocumentOf typed_isListOf
  obtain ⟨c, listed, -, drawn⟩ := made (List.cons_ne_nil _ _)
  rw [listed] at same
  exact ⟨c, same, listed, drawn, valid _ c same⟩

end Configuration

end Curtail
