import Curtail.CommandLine.Run
import Curtail.Proofs.Index.Opening

namespace Curtail.CommandLine

open Journal Json JournaledIndex

/-- What a strict reader finds that looks for one more commit. -/
inductive NextCommit : Nat → Bytes → Except JournalError (Option Commit) → Prop
  | finish {offset : Nat} : NextCommit offset [] (.ok none)
  | cut {offset : Nat} {rest : Bytes} : Cut rest → NextCommit offset rest (.error (.truncatedFrame offset))
  | malformed {offset : Nat} {fault : FrameFault} {rest : Bytes} : Malformed fault rest →
      NextCommit offset rest (.error (.frame offset fault))
  | foreign {offset : Nat} {frame : Frame} {rest : Bytes} {found : Except JournalError (Option Commit)} :
      frame.Fits → frame.kind ≠ commitKind → NextCommit (offset + frame.bytes.length) rest found →
      NextCommit offset (frame.bytes ++ rest) found
  | commit {offset : Nat} {frame : Frame} {found : Except JournalError (Option Commit)} (rest : Bytes) :
      frame.Fits → frame.kind = commitKind → commits decode frame = found →
      NextCommit offset (frame.bytes ++ rest) found

theorem exists_nextCommit (offset : Nat) (rest : Bytes) : ∃ found, NextCommit offset rest found := by
  rcases front rest with left | ⟨frame, more, fits, rfl⟩
  · cases left with
    | nothing => exact ⟨_, .finish⟩
    | cut cut => exact ⟨_, .cut cut⟩
    | malformed malformed => exact ⟨_, .malformed malformed⟩
  · by_cases unlike : frame.kind = commitKind
    · exact ⟨_, .commit more fits unlike rfl⟩
    · obtain ⟨found, next⟩ := exists_nextCommit (offset + frame.bytes.length) more
      exact ⟨found, .foreign fits unlike next⟩
termination_by rest.length
decreasing_by
  have := List.length_pos_iff.mpr frame.bytes_ne_nil
  subst_vars
  rw [List.length_append]
  omega

def Begins (found : Except JournalError (Option Commit)) (transcript : Transcript Commit) : Prop :=
  match found with
  | .error e => transcript.items = [] ∧ transcript.failure = some e
  | .ok none => transcript.items = [] ∧ transcript.failure = none
  | .ok (some c) => ∃ more, transcript.items = c :: more

theorem NextCommit.begins {offset : Nat} {rest : Bytes} {found : Except JournalError (Option Commit)}
    (next : NextCommit offset rest found) : Begins found (scan .strict (commits decode) offset rest) := by
  induction next with
  | finish =>
      rw [scan_nil]
      exact ⟨rfl, rfl⟩
  | cut cut =>
      rw [scan_of_error (cut.readFrame_eq ..)]
      exact ⟨rfl, rfl⟩
  | malformed malformed =>
      rw [scan_of_error (malformed.readFrame_eq ..)]
      exact ⟨rfl, rfl⟩
  | foreign fits unlike next ih => rwa [scan_bytes fits (if_pos unlike)]
  | @commit offset frame found rest fits kind selected =>
      cases found with
      | error e =>
          rw [scan_of_frame (readFrame_bytes fits ..), selected]
          exact ⟨rfl, rfl⟩
      | ok item =>
          obtain ⟨c, rfl⟩ := some_of_commits kind selected
          rw [scan_bytes fits selected]
          exact ⟨_, rfl⟩

/-- The frames hold these commits, and perhaps frames of other kinds. -/
def Holds (frames : List Frame) (found : List Commit) : Prop :=
  (frames.filter fun frame => frame.kind = commitKind).map (commits decode) =
    found.map fun commit => .ok (some commit)

theorem scan_holds {frames : List Frame} {found : List Commit} (fits : ∀ frame ∈ frames, frame.Fits)
    (holds : Holds frames found) (offset : Nat) (rest : Bytes) :
    scan .strict (commits decode) offset (frames.flatMap Frame.bytes ++ rest) =
      let last := scan .strict (commits decode) (offset + (frames.flatMap Frame.bytes).length) rest
      { last with items := found ++ last.items } := by
  induction frames generalizing offset found with
  | nil =>
      obtain rfl : found = [] := List.map_eq_nil_iff.mp holds.symm
      rfl
  | cons frame frames ih =>
      obtain ⟨fit, fits⟩ := List.forall_mem_cons.mp fits
      unfold Holds at holds
      rw [List.flatMap_cons, List.append_assoc, List.length_append, ← Nat.add_assoc]
      by_cases kind : frame.kind = commitKind
      · rw [List.filter_cons_of_pos (by simpa using kind), List.map_cons] at holds
        obtain ⟨c, others, rfl, selected, holds⟩ := List.map_eq_cons_iff.mp holds.symm
        rw [scan_bytes fit selected.symm, ih fits holds.symm]
        rfl
      · rw [List.filter_cons_of_neg (by simpa using kind)] at holds
        rw [scan_bytes fit (if_pos kind), ih fits holds]
        rfl

def listing (json : Bool) (found : List Commit) : String :=
  lines ((if json then [] else journalHeading) ++
    found.map fun c => if json then (encode c).compactText else commitRow c)

/-- A listing up to a number of commits prints them whatever comes after, and succeeds if and only if a
commit or the end of the file comes next. -/
theorem listing_up_to {files : Files} {clock : Instant} {environment : List (String × String)}
    {words : List String} {g : GlobalArguments} {most : UInt64}
    (parsed : parse environment words = .ok (g, .journal (some most))) {frames : List Frame}
    {found : List Commit} {rest : Bytes}
    (stored : files.read g.journal = some (header ++ (frames.flatMap Frame.bytes ++ rest)))
    (fits : ∀ frame ∈ frames, frame.Fits) (holds : Holds frames found)
    (enough : found.length = most.toNat) :
    (∃ next, NextCommit (header ++ frames.flatMap Frame.bytes).length rest next) ∧
    ∀ next, NextCommit (header ++ frames.flatMap Frame.bytes).length rest next →
      run files clock environment words = .ok
        (match next with
        | .ok _ => ⟨0, listing g.json found, "", none⟩
        | .error e => ⟨1, listing g.json found, (CommandError.journal e).report g.json, none⟩) := by
  refine ⟨exists_nextCommit _ _, fun next comes => ?_⟩
  have read : (readJournal .strict (commits decode) (files.read g.journal) :
      Except JournalError (Transcript Commit)) =
        .ok (scan .strict (commits decode) headerSize (frames.flatMap Frame.bytes ++ rest)) := by
    rw [stored, readJournal_header]
  have begins := comes.begins
  rw [List.length_append, length_header] at begins
  have ran : run files clock environment words = .ok (listCommits files g (some most)) := by
    rw [run, parsed]
    rfl
  rw [ran, listCommits, read, scan_holds fits holds]
  generalize (scan .strict (commits decode) (headerSize + (frames.flatMap Frame.bytes).length) rest :
    Transcript Commit) = last at begins ⊢
  simp only [← enough, List.take_left, List.length_append]
  -- Nothing is printed of what comes next, but an error in it is found.
  cases next with
  | error e =>
      obtain ⟨nothing, failure⟩ := begins
      simp [nothing, failure, listing]
  | ok item =>
      cases item with
      | none =>
          obtain ⟨nothing, failure⟩ := begins
          simp [failure, listing]
      | some c =>
          obtain ⟨more, items⟩ := begins
          cases last.failure <;> simp [items, listing]

def tornFiles : Files :=
  ⟨fun _ => some (header ++ ([frameOf ⟨1, Commit.orphanOfFullDisk⟩].flatMap Frame.bytes ++ [1])),
    fun _ => true⟩

theorem parse_one_commit : parse [] ["--json", "journal", "--max-commits", "1"] =
    .ok (⟨defaultJournal, none, none, none, false, true⟩, .journal (some 1)) := by
  have before : collect globalOptions true ⟨[], []⟩ ["--json", "journal", "--max-commits", "1"] =
      .ok (⟨[("json", none)], []⟩, ["journal", "--max-commits", "1"]) := by
    simp [collect, splitOption, globalOptions, Found.add, Found.has]
  have own : ownOptions "journal" = some ⟨["max-commits"], [], []⟩ := by simp [ownOptions]
  have after : collect (globalOptions.and ⟨["max-commits"], [], []⟩) false ⟨[], []⟩
      ["--max-commits", "1"] = .ok (⟨[("max-commits", some "1")], []⟩, []) := by
    simp [collect, splitOption, globalOptions, Options.and, Found.add, Found.has, isValue]
  have globals : globalArguments [] ⟨[("json", none)], []⟩ ⟨[("max-commits", some "1")], []⟩ =
      .ok ⟨defaultJournal, none, none, none, false, true⟩ := by
    simp [globalArguments, checkPath, globalValue, globalVariables, Found.value?, Found.has]
    rfl
  have command : commandOf "journal" ⟨[("max-commits", some "1")], []⟩ = .ok (.journal (some 1)) := by
    simp [commandOf, noOperand, Found.value?, numberOf, number?]
    rfl
  rw [parse, before]
  simp only [bind, Except.bind, own, after, globals, command]
  rfl

/-- One commit is asked for and printed, but the byte after it fails the run. -/
theorem listing_before_torn_tail :
    run tornFiles (.ofSeconds 0) [] ["--json", "journal", "--max-commits", "1"] =
      .ok ⟨1, listing true [⟨1, Commit.orphanOfFullDisk⟩],
        (CommandError.journal (.truncatedFrame
          (header ++ [frameOf ⟨1, Commit.orphanOfFullDisk⟩].flatMap Frame.bytes).length)).report true,
        none⟩ := by
  have stored : tornFiles.read defaultJournal = some (header ++
      ([frameOf ⟨1, Commit.orphanOfFullDisk⟩].flatMap Frame.bytes ++ [1])) := rfl
  have fits : ∀ frame ∈ [frameOf ⟨1, Commit.orphanOfFullDisk⟩], frame.Fits :=
    List.forall_mem_singleton.mpr Commit.orphanOfFullDisk_fits
  have holds : Holds [frameOf ⟨1, Commit.orphanOfFullDisk⟩] [⟨1, Commit.orphanOfFullDisk⟩] :=
    congrArg (· :: []) (Commit.commits_frameOf (by decide))
  have torn : Cut [1] := .header (by decide) (by decide)
  exact (listing_up_to parse_one_commit stored fits holds rfl).2 _ (.cut torn)

end Curtail.CommandLine
