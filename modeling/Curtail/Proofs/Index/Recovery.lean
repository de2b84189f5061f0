import Curtail.Proofs.Index.RoundTrip
import Curtail.Proofs.Journal.Frame

namespace Curtail

open Journal Json

def Index.applyAll (index : Index) (changes : List Change) : Index := changes.foldl Index.apply index

def Commit.numbered (seq : UInt64) : List Change → List Commit
  | [] => []
  | change :: changes => ⟨seq + 1, change⟩ :: numbered (seq + 1) changes

/-- The change that a frame holds, if any, and the length of the file once it was in. -/
structure Entry where
  change : Option Change
  stop : Nat

namespace Entry

def changes (entries : List Entry) : List Change := entries.filterMap change

def inside (cut : Nat) (entries : List Entry) : List Entry := entries.filter fun e => e.stop ≤ cut

def lastStop : Nat → List Entry → Nat
  | start, [] => start
  | _, e :: entries => lastStop e.stop entries

theorem inside_cons {cut : Nat} {e : Entry} (within : e.stop ≤ cut) (entries : List Entry) :
    inside cut (e :: entries) = e :: inside cut entries := by
  simp [inside, within]

theorem inside_eq_nil {cut : Nat} {entries : List Entry} (beyond : ∀ e ∈ entries, cut < e.stop) :
    inside cut entries = [] := by
  rw [inside, List.filter_eq_nil_iff]
  intro e member
  simpa using beyond e member

theorem changes_append (left right : List Entry) :
    changes (left ++ right) = changes left ++ changes right := List.filterMap_append

end Entry

open Entry

inductive Written (seq : UInt64) (index : Index) : Frame → Option Change → UInt64 → Index → Prop
  | commit {change : Change} : change.IsWritable → index.check change = .ok () →
      Written seq index (JournaledIndex.frameOf ⟨seq + 1, change⟩) (some change) (seq + 1)
        (index.apply change)
  | foreign {frame : Frame} : frame.kind ≠ commitKind → Written seq index frame none seq index

inductive Layout : Nat → UInt64 → Index → List Entry → Bytes → Prop
  | nil {offset : Nat} {seq : UInt64} {index : Index} : Layout offset seq index [] []
  | cons {offset : Nat} {seq next : UInt64} {index later : Index} {frame : Frame}
      {change : Option Change} {entries : List Entry} {rest : Bytes} :
      Written seq index frame change next later → frame.Fits →
      Layout (offset + frame.bytes.length) next later entries rest →
      Layout offset seq index (⟨change, offset + frame.bytes.length⟩ :: entries)
        (frame.bytes ++ rest)

namespace Written

variable {seq next : UInt64} {index later : Index} {frame : Frame} {change : Option Change}

theorem selected (written : Written seq index frame change next later) :
    commits decode frame = .ok (change.map (Commit.mk (seq + 1))) := by
  cases written with
  | @commit change writable accepted =>
      exact @Commit.commits_of_isWritable ⟨seq + 1, change⟩ writable
  | foreign unlike => exact if_pos unlike

end Written

namespace Layout

variable {offset : Nat} {seq : UInt64} {index : Index} {entries : List Entry} {bytes : Bytes}

theorem offset_lt (layout : Layout offset seq index entries bytes) :
    ∀ e ∈ entries, offset < e.stop := by
  induction layout with
  | nil => simp
  | @cons offset _ _ _ _ frame _ entries _ written fits others ih =>
      have grown : offset < offset + frame.bytes.length := by
        rw [frame.length_bytes, frameHeaderSize]
        omega
      intro e member
      rcases List.mem_cons.mp member with rfl | later
      · exact grown
      · exact Nat.lt_trans grown (ih e later)

theorem le_stop (layout : Layout offset seq index entries bytes) :
    ∀ e ∈ entries, e.stop ≤ offset + bytes.length := by
  induction layout with
  | nil => simp
  | cons written fits others ih =>
      intro e member
      rw [List.length_append, ← Nat.add_assoc]
      rcases List.mem_cons.mp member with rfl | later
      · exact Nat.le_add_right _ _
      · exact ih e later

theorem lastStop_eq (layout : Layout offset seq index entries bytes) :
    lastStop offset entries = offset + bytes.length := by
  induction layout with
  | nil => rfl
  | cons written fits others ih =>
      rw [List.length_append, ← Nat.add_assoc]
      exact ih

theorem length_changes_le (layout : Layout offset seq index entries bytes) :
    (changes entries).length ≤ bytes.length := by
  induction layout with
  | nil => exact Nat.le_refl 0
  | @cons offset _ _ _ _ frame change entries _ written fits others ih =>
      have filled : 0 < frame.bytes.length := List.length_pos_iff.mpr frame.bytes_ne_nil
      have more : (changes (⟨change, offset + frame.bytes.length⟩ :: entries)).length ≤
          (changes entries).length + 1 := by
        cases change with
        | none => exact Nat.le_succ _
        | some change => exact Nat.le_refl _
      rw [List.length_append]
      omega

theorem count_succ (seq : UInt64) (n : Nat) : seq + .ofNat (n + 1) = seq + 1 + UInt64.ofNat n := by
  rw [UInt64.ofNat_add, UInt64.add_comm (.ofNat n), ← UInt64.add_assoc]
  rfl

theorem append (layout : Layout offset seq index entries bytes) {more : List Entry} {rest : Bytes}
    (others : Layout (offset + bytes.length) (seq + .ofNat (changes entries).length)
      (index.applyAll (changes entries)) more rest) :
    Layout offset seq index (entries ++ more) (bytes ++ rest) := by
  induction layout with
  | nil => simpa [changes, Index.applyAll] using others
  | @cons offset seq next index later frame change entries bytes written fits layout ih =>
      rw [List.cons_append, List.append_assoc]
      refine .cons written fits (ih ?_)
      rw [List.length_append, ← Nat.add_assoc] at others
      cases written with
      | commit writable accepted =>
          rw [← count_succ]
          exact others
      | foreign unlike => exact others

theorem scan_take (layout : Layout offset seq index entries bytes) {count : Nat}
    (within : count ≤ bytes.length) :
    ∃ kept ≤ count, offset + kept = lastStop offset (inside (offset + count) entries) ∧
      Layout offset seq index (inside (offset + count) entries) (bytes.take kept) ∧
      scan .permissive (commits decode) offset (bytes.take count) =
        ⟨Commit.numbered seq (changes (inside (offset + count) entries)), offset + kept,
          if kept = count then none else some (offset + kept), none⟩ := by
  induction layout generalizing count with
  | nil =>
      obtain rfl : count = 0 := by simpa using within
      refine ⟨0, Nat.le_refl 0, rfl, .nil, ?_⟩
      exact scan_nil
  | @cons offset seq next index later frame change entries bytes written fits layout ih =>
      -- Whole frames are passed one by one; reading ends with the first that lies behind the cut.
      by_cases whole : frame.bytes.length ≤ count
      · have remaining : count - frame.bytes.length ≤ bytes.length := by
          rw [List.length_append] at within
          omega
        obtain ⟨kept, most, stop, recovered, scanned⟩ := ih remaining
        have cut : offset + frame.bytes.length + (count - frame.bytes.length) = offset + count := by
          omega
        rw [cut] at stop recovered scanned
        rw [inside_cons (by simp only; omega)]
        refine ⟨frame.bytes.length + kept, by omega, ?_, ?_, ?_⟩
        · rw [← Nat.add_assoc]
          exact stop
        · rw [List.take_length_add_append]
          exact .cons written fits recovered
        · have front : (frame.bytes ++ bytes).take count =
              frame.bytes ++ bytes.take (count - frame.bytes.length) := by
            rw [List.take_append, List.take_of_length_le whole]
          have complete : (frame.bytes.length + kept = count) ↔ (kept = count - frame.bytes.length) := by
            omega
          rw [front, scan_bytes fits written.selected, scanned]
          simp only [complete, ← Nat.add_assoc]
          cases written with
          | commit writable accepted => rfl
          | foreign unlike => rfl
      · have beyond : ∀ e ∈ (⟨change, offset + frame.bytes.length⟩ : Entry) :: entries,
            offset + count < e.stop := by
          intro e member
          rcases List.mem_cons.mp member with rfl | later
          · simp only
            omega
          · have := layout.offset_lt e later
            omega
        rw [inside_eq_nil beyond]
        refine ⟨0, Nat.zero_le count, rfl, .nil, ?_⟩
        rw [List.take_append_of_le_length (by omega)]
        -- If nothing of that frame is left, the journal is not torn.
        rcases Nat.eq_zero_or_pos count with rfl | begun
        · exact scan_nil
        · rw [scan_cut fits begun (by omega), if_neg (by omega)]
          rfl

theorem replay_numbered (layout : Layout offset seq index entries bytes) :
    JournaledIndex.replay index seq (Commit.numbered seq (changes entries)) =
      .ok (index.applyAll (changes entries), seq + .ofNat (changes entries).length) := by
  induction layout with
  | nil => simp [changes, Commit.numbered, JournaledIndex.replay, Index.applyAll]
  | @cons _ seq next index later frame change entries _ written fits layout ih =>
      cases written with
      | @commit change writable accepted =>
          change JournaledIndex.replay index seq
            (⟨seq + 1, change⟩ :: Commit.numbered (seq + 1) (changes entries)) = _
          rw [JournaledIndex.replay, if_neg (by simp)]
          simp only [accepted, ih]
          rw [← count_succ]
          rfl
      | foreign unlike => exact ih

end Layout

theorem start_of_scan {bytes : Bytes} {items : List Commit} {kept : Nat} {index : Index} {seq : UInt64}
    (within : kept ≤ bytes.length)
    (scanned : scan .permissive (commits decode) headerSize bytes =
      ⟨items, headerSize + kept, if kept = bytes.length then none else some (headerSize + kept), none⟩)
    (replayed : JournaledIndex.replay .empty 0 items = .ok (index, seq)) :
    JournaledIndex.start .standard (some (header ++ bytes)) =
      .ok (⟨index, ⟨headerSize + kept⟩, seq⟩, header ++ bytes.take kept) := by
  have recovered : JournaledIndex.recover? .standard (some (header ++ bytes)) =
      .ok (index, seq, if kept = bytes.length then none else some (headerSize + kept)) := by
    change JournaledIndex.recover (header ++ bytes) = _
    unfold JournaledIndex.recover
    rw [readJournal_header, scanned]
    simp only [replayed]
  unfold JournaledIndex.start
  rw [recovered, Writer.attempt_header]
  by_cases complete : kept = bytes.length
  · simp only [if_pos complete]
    rw [complete, List.take_length, List.length_append, length_header]
  · have sound : ¬(headerSize + kept < headerSize ∨ (header ++ bytes).length < headerSize + kept) := by
      rw [List.length_append, length_header]
      omega
    simp only [if_neg complete, Writer.truncate]
    rw [if_neg sound, ← length_header, List.take_length_add_append]

namespace JournaledIndex

variable {store after : JournaledIndex} {file left : Bytes} {fate : WriteFate} {change : Change}

theorem commit_cases {result : Except StoreError Unit} (synced : store.writer = ⟨file.length⟩)
    (headed : headerSize ≤ file.length) (committed : store.commit file fate change = (result, after, left)) :
    (∃ e, result = .error e ∧ after = store ∧ left = file) ∨
    (result = .ok () ∧ store.index.check change = .ok () ∧ (frameOf ⟨store.seq + 1, change⟩).Fits ∧
      after = ⟨store.index.apply change, ⟨left.length⟩, store.seq + 1⟩ ∧
      left = file ++ (frameOf ⟨store.seq + 1, change⟩).bytes) := by
  obtain ⟨index, writer, seq⟩ := store
  obtain rfl : writer = ⟨file.length⟩ := synced
  unfold commit at committed
  cases checked : index.check change with
  | error cause =>
      simp only [checked] at committed
      cases committed
      exact .inl ⟨_, rfl, rfl, rfl⟩
  | ok _ =>
      simp only [checked] at committed
      rcases appended : Writer.append ⟨file.length⟩ file fate (frameOf ⟨seq + 1, change⟩)
        with ⟨e | place, w, longer⟩
      · obtain ⟨rfl, rfl⟩ := Writer.append_error headed appended
        simp only [appended] at committed
        cases committed
        exact .inl ⟨_, rfl, rfl, rfl⟩
      · obtain ⟨fits, rfl, rfl⟩ := Writer.append_ok appended
        simp only [appended] at committed
        cases committed
        exact .inr ⟨rfl, rfl, fits, rfl, rfl⟩

theorem commit_of_fits (synced : store.writer = ⟨file.length⟩)
    (accepted : store.index.check change = .ok ()) (fits : (frameOf ⟨store.seq + 1, change⟩).Fits) :
    store.commit file .done change =
      (.ok (), ⟨store.index.apply change,
        ⟨(file ++ (frameOf ⟨store.seq + 1, change⟩).bytes).length⟩, store.seq + 1⟩,
        file ++ (frameOf ⟨store.seq + 1, change⟩).bytes) := by
  unfold commit
  rw [accepted, synced]
  simp only [Writer.append_of_fits fits]

end JournaledIndex

structure Keeps (entries : List Entry) (store : JournaledIndex) (file : Bytes) : Prop where
  layout : ∃ bytes, file = header ++ bytes ∧ Layout headerSize 0 .empty entries bytes
  index : store.index = Index.empty.applyAll (changes entries)
  seq : store.seq = .ofNat (changes entries).length
  writer : store.writer = ⟨file.length⟩

namespace Keeps

variable {entries : List Entry} {store : JournaledIndex} {file : Bytes}

theorem headed (keeps : Keeps entries store file) : headerSize ≤ file.length := by
  obtain ⟨bytes, rfl, -⟩ := keeps.layout
  exact headerSize_le bytes

theorem start_writer (keeps : Keeps entries store file) :
    Writer.start .standard (some file) = .ok (⟨file.length⟩, file) := by
  obtain ⟨bytes, rfl, -⟩ := keeps.layout
  exact Writer.start_header bytes

theorem toNat_seq (keeps : Keeps entries store file) (small : file.length < 2 ^ 64) :
    store.seq.toNat = (changes entries).length := by
  obtain ⟨bytes, rfl, layout⟩ := keeps.layout
  have most := layout.length_changes_le
  rw [List.length_append] at small
  rw [keeps.seq]
  apply UInt64.toNat_ofNat_of_lt'
  change (changes entries).length < 2 ^ 64
  omega

theorem opened {given : Option Bytes} (fresh : given = none ∨ given = some []) :
    JournaledIndex.start .standard given = .ok (⟨.empty, ⟨headerSize⟩, 0⟩, header) ∧
      Keeps [] ⟨.empty, ⟨headerSize⟩, 0⟩ header := by
  refine ⟨?_, ⟨[], rfl, .nil⟩, rfl, rfl, rfl⟩
  rcases fresh with rfl | rfl <;> rfl

theorem start_take (keeps : Keeps entries store file) {cut : Nat} (low : headerSize ≤ cut)
    (high : cut ≤ file.length) : ∃ recovered,
      JournaledIndex.start .standard (some (file.take cut)) =
        .ok (recovered, file.take (lastStop headerSize (inside cut entries))) ∧
      Keeps (inside cut entries) recovered (file.take (lastStop headerSize (inside cut entries))) := by
  obtain ⟨bytes, rfl, layout⟩ := keeps.layout
  obtain ⟨count, rfl⟩ := Nat.exists_eq_add_of_le low
  rw [List.length_append, length_header] at high
  have within : count ≤ bytes.length := by omega
  obtain ⟨kept, most, stop, recovered, scanned⟩ := layout.scan_take within
  have front (n : Nat) : (header ++ bytes).take (headerSize + n) = header ++ bytes.take n := by
    rw [← length_header, List.take_length_add_append]
  have length : (bytes.take count).length = count := List.length_take_of_le within
  rw [← length] at most
  rw [← stop, front, front]
  have started := start_of_scan most (by rw [scanned, length]) recovered.replay_numbered
  rw [List.take_take, Nat.min_eq_left (length ▸ most)] at started
  refine ⟨_, started, ⟨_, rfl, recovered⟩, rfl, UInt64.zero_add _, ?_⟩
  have least : kept ≤ bytes.length := by omega
  simp only [List.length_append, List.length_take, length_header, Nat.min_eq_left least]

theorem length_le (keeps : Keeps entries store file) : ∀ e ∈ entries, e.stop ≤ file.length := by
  obtain ⟨bytes, rfl, layout⟩ := keeps.layout
  intro e member
  rw [List.length_append]
  exact layout.le_stop e member

theorem inside_length (keeps : Keeps entries store file) : inside file.length entries = entries := by
  rw [inside, List.filter_eq_self]
  intro e member
  simpa using keeps.length_le e member

theorem lastStop_eq (keeps : Keeps entries store file) :
    lastStop headerSize entries = file.length := by
  obtain ⟨bytes, rfl, layout⟩ := keeps.layout
  rw [List.length_append]
  exact layout.lastStop_eq

theorem start_whole (keeps : Keeps entries store file) : ∃ reopened,
    JournaledIndex.start .standard (some file) = .ok (reopened, file) ∧
      Keeps entries reopened file := by
  have reopened := keeps.start_take keeps.headed (Nat.le_refl _)
  rw [keeps.inside_length, keeps.lastStop_eq, List.take_length] at reopened
  exact reopened

theorem read_whole (keeps : Keeps entries store file) :
    readJournal .permissive (commits decode) (some file) =
      .ok ⟨Commit.numbered 0 (changes entries), file.length, none, none⟩ := by
  have unchanged := keeps.inside_length
  obtain ⟨bytes, rfl, layout⟩ := keeps.layout
  rw [List.length_append, length_header] at unchanged
  obtain ⟨kept, -, stop, -, scanned⟩ := layout.scan_take (Nat.le_refl _)
  rw [unchanged, layout.lastStop_eq] at stop
  obtain rfl := Nat.add_left_cancel stop
  rw [unchanged, List.take_length, if_pos rfl] at scanned
  rw [readJournal_header, scanned, List.length_append, length_header]

theorem written (keeps : Keeps entries store file) {frame : Frame} {change : Option Change}
    {next : UInt64} {later : Index} (fits : frame.Fits)
    (written : Written store.seq store.index frame change next later) :
    Keeps (entries ++ [⟨change, (file ++ frame.bytes).length⟩])
      ⟨later, ⟨(file ++ frame.bytes).length⟩, next⟩ (file ++ frame.bytes) := by
  obtain ⟨bytes, rfl, layout⟩ := keeps.layout
  have place : (header ++ bytes ++ frame.bytes).length =
      headerSize + bytes.length + frame.bytes.length := by
    simp only [List.length_append, length_header]
  rw [keeps.index, keeps.seq] at written
  refine ⟨⟨bytes ++ frame.bytes, List.append_assoc .., ?_⟩, ?_, ?_, rfl⟩
  · apply layout.append
    rw [UInt64.zero_add, place]
    have single := @Layout.cons (headerSize + bytes.length) _ _ _ _ _ _ _ _ written fits .nil
    rw [List.append_nil] at single
    exact single
  · cases written with
    | commit writable accepted => simp [changes, Index.applyAll]
    | foreign unlike => simp [changes, Index.applyAll]
  · cases written with
    | commit writable accepted => simp [changes]
    | foreign unlike => simp [changes]

theorem commit_writable (keeps : Keeps entries store file) {fate : WriteFate} {change : Change}
    (writable : change.IsWritable) {after : JournaledIndex} {longer : Bytes}
    (done : store.commit file fate change = (.ok (), after, longer)) :
    Keeps (entries ++ [⟨some change, longer.length⟩]) after longer := by
  rcases JournaledIndex.commit_cases keeps.writer keeps.headed done with ⟨e, refused, -⟩ | accepted
  · cases refused
  · obtain ⟨-, accepted, fits, rfl, rfl⟩ := accepted
    exact keeps.written fits (.commit writable accepted)

theorem commit_ok (keeps : Keeps entries store file) {fate : WriteFate} {change : Change}
    (storable : change.IsStorable) {after : JournaledIndex} {longer : Bytes}
    (done : store.commit file fate change = (.ok (), after, longer)) :
    Keeps (entries ++ [⟨some change, longer.length⟩]) after longer :=
  keeps.commit_writable storable.isWritable done

end Keeps

end Curtail
