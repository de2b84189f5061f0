import Curtail.Json.Codec
import Curtail.Proofs.Json.RoundTrip

namespace Curtail.Json

structure ReadsBack {α : Type} [Codec α] (x : α) : Prop where
  plain : (encode x).IsPlain
  present : encode x ≠ .null
  decode_encode : decode (encode x) = some x

namespace ReadsBack

theorem string (s : String) : ReadsBack s :=
  ⟨rfl, nofun, rfl⟩

theorem nat?_ofNat (n : Nat) : (Numeral.ofNat n).nat? = some n := by
  simp [Numeral.nat?, Numeral.isWhole, Numeral.ofNat]

theorem int?_ofInt (n : Int) : (Numeral.ofInt n).int? = some n := by
  unfold Numeral.int? Numeral.isWhole Numeral.ofInt
  obtain ⟨m, magnitude⟩ : ∃ m, n.natAbs = m := ⟨_, rfl⟩
  rw [magnitude]
  by_cases negative : n < 0
  · have nonzero : m ≠ 0 := by omega
    have value : -(m : Int) = n := by omega
    simp [negative, nonzero, value]
  · have value : (m : Int) = n := by omega
    simp [negative, value]

theorem uint64 (n : UInt64) : ReadsBack n := by
  refine ⟨Numeral.ofNat_isProper _, nofun, ?_⟩
  have bound := n.toNat_lt
  simp [encode, decode, Tree.nat, Codec.decodeNat, nat?_ofNat, bound]

theorem fin {n : Nat} (i : Fin n) : ReadsBack i := by
  refine ⟨Numeral.ofNat_isProper _, nofun, ?_⟩
  simp [encode, decode, Tree.nat, nat?_ofNat]

theorem int64 (n : Int64) : ReadsBack n := by
  refine ⟨Numeral.ofInt_isProper _, nofun, ?_⟩
  have low := n.le_toInt
  have high := n.toInt_lt
  have range : -0x8000000000000000 ≤ n.toInt ∧ n.toInt < 0x8000000000000000 := ⟨low, high⟩
  simp only [encode, decode, Tree.int, int?_ofInt, Option.bind_some]
  rw [if_pos range, Int64.ofInt_toInt]

theorem list {α : Type} [Codec α] {xs : List α} (items : ∀ x ∈ xs, ReadsBack x) : ReadsBack xs := by
  refine ⟨?_, nofun, ?_⟩
  · change Tree.ArePlain (xs.map encode)
    induction xs with
    | nil => trivial
    | cons x xs ih =>
        exact ⟨(items x List.mem_cons_self).plain, ih fun y member => items y (List.mem_cons_of_mem _ member)⟩
  · change Codec.decodeAll decode (xs.map encode) = some xs
    induction xs with
    | nil => rfl
    | cons x xs ih =>
        have first := (items x List.mem_cons_self).decode_encode
        have others := ih fun y member => items y (List.mem_cons_of_mem _ member)
        simp [Codec.decodeAll, first, others]

end ReadsBack

namespace Tree

theorem record_isPlain {members : List (String × Tree)} (plain : ∀ m ∈ members, m.2.IsPlain) :
    (record members).IsPlain := by
  change MembersArePlain (members.map fun m => (some m.1, m.2))
  induction members with
  | nil => trivial
  | cons member members ih =>
      exact ⟨rfl, plain member List.mem_cons_self, ih fun m h => plain m (List.mem_cons_of_mem _ h)⟩

theorem lookup_single {β : Type} (name key : String) (b : β) :
    [(key, b)].lookup name = if name = key then some b else none := by
  by_cases same : name = key
  · simp [same]
  · have unlike : (name == key) = false := by simpa using same
    simp [List.lookup_cons, same, unlike]

variable {α : Type} [Codec α]

theorem lookup_field (name key : String) (x : α) :
    (field key x).lookup name = if name = key then some (encode x) else none :=
  lookup_single name key (encode x)

theorem lookup_optionalField (name key : String) (x : Option α) :
    (optionalField key x).lookup name = if name = key then x.map encode else none := by
  cases x with
  | none => simp [optionalField]
  | some x => exact lookup_single name key (encode x)

end Tree

namespace Members

variable {α : Type} [Codec α]

theorem keep_record {fields : List String} {members : List (String × Tree)}
    (known : ∀ m ∈ members, m.1 ∈ fields) (distinct : (members.map Prod.fst).Nodup) :
    keep fields (members.map fun (name, value) => (some name, value)) = some members := by
  induction members with
  | nil => rfl
  | cons member members ih =>
      obtain ⟨name, value⟩ := member
      obtain ⟨fresh, distinct⟩ := List.nodup_cons.mp distinct
      have kept := ih (fun m h => known m (List.mem_cons_of_mem _ h)) distinct
      have here : name ∈ fields := known (name, value) List.mem_cons_self
      have once : members.any (·.1 = name) = false := by
        rw [List.any_eq_false]
        intro m member same
        exact fresh (List.mem_map.mpr ⟨m, member, by simpa using same⟩)
      simp only [List.map_cons, keep, kept]
      simp [here, once]

theorem exists_keep (fields : List String) {members : List (Spelled × Tree)}
    (named : ∀ m ∈ members, m.1 ≠ none) (distinct : (members.map Prod.fst).Nodup) :
    ∃ kept, keep fields members = some kept ∧
      ∀ name, kept.lookup name = if name ∈ fields then members.lookup (some name) else none := by
  induction members with
  | nil => exact ⟨[], rfl, fun name => by simp⟩
  | cons member members ih =>
      obtain ⟨key, value⟩ := member
      obtain ⟨spelled, others⟩ := List.forall_mem_cons.mp named
      obtain ⟨fresh, apart⟩ := List.nodup_cons.mp distinct
      obtain ⟨name, rfl⟩ := Option.ne_none_iff_exists'.mp spelled
      obtain ⟨kept, read, found⟩ := ih others apart
      simp only [keep, read]
      by_cases known : name ∈ fields
      · have absent : members.lookup (some name) = none := by
          rw [List.lookup_eq_none_iff]
          rintro m listed
          exact bne_iff_ne.mpr fun same => fresh (List.mem_map.mpr ⟨m, listed, same.symm⟩)
        have once : kept.any (·.1 = name) = false := by
          have missing := found name
          rw [absent, ite_self, List.lookup_eq_none_iff] at missing
          rw [List.any_eq_false]
          exact fun m listed same => bne_iff_ne.mp (missing m listed) (of_decide_eq_true same).symm
        refine ⟨(name, value) :: kept, by simp [known, once], fun other => ?_⟩
        by_cases same : other = name
        · simp [same, known]
        · have unlike : (other == name) = false := beq_false_of_ne same
          simp [List.lookup_cons, unlike, found]
      · refine ⟨kept, by simp [known], fun other => ?_⟩
        by_cases same : other = name
        · simp [same, known, found]
        · have unlike : (other == name) = false := beq_false_of_ne same
          simp [List.lookup_cons, unlike, found]

theorem lookup_of_mem {members : List (Spelled × Tree)} (distinct : (members.map Prod.fst).Nodup)
    {key : Spelled} {value : Tree} (listed : (key, value) ∈ members) : members.lookup key = some value := by
  obtain ⟨before, after, rfl⟩ := List.append_of_mem listed
  rw [List.map_append, List.map_cons, List.nodup_append] at distinct
  refine List.lookup_eq_some_iff.mpr ⟨before, after, rfl, fun m earlier => bne_iff_ne.mpr fun same => ?_⟩
  exact distinct.2.2 m.1 (List.mem_map.mpr ⟨m, earlier, rfl⟩) key List.mem_cons_self same.symm

theorem of?_record {fields : List String} {members : List (String × Tree)} (distinct : fields.Nodup)
    (names : (members.map Prod.fst).Sublist fields) :
    of? fields (.record members) = some ⟨members, false⟩ := by
  have kept := keep_record (fun m h => names.subset (List.mem_map_of_mem h)) (distinct.sublist names)
  simp [of?, Tree.record, kept]

theorem required_record (members : List (String × Tree)) (positional : Bool) (name : String) :
    (⟨members, positional⟩ : Members).required name = ((members.lookup name).bind decode : Option α) :=
  rfl

def readOptional : Option Tree → Option (Option α)
  | none => some none
  | some t => decode t

theorem optional_record (members : List (String × Tree)) (name : String) :
    (⟨members, false⟩ : Members).optional name = (readOptional (members.lookup name) : Option (Option α)) := by
  simp only [optional, find?]
  cases members.lookup name <;> rfl

theorem readOptional_map {x : Option α} (back : ∀ y ∈ x, ReadsBack y) :
    readOptional (x.map encode) = some x := by
  cases x with
  | none => rfl
  | some x =>
      obtain ⟨-, present, same⟩ := back x rfl
      change (decode (encode x) : Option (Option α)) = some (some x)
      generalize encode x = t at present same
      cases t <;> simp_all [decode]

theorem exists_of_required {ms : Members} {name : String} {x : α}
    (read : ms.required name = some x) : ∃ t : Tree, decode t = some x :=
  (Option.bind_eq_some_iff.mp read).imp fun _ => And.right

theorem exists_of_optional {ms : Members} {name : String} {x : α}
    (read : ms.optional name = some (some x)) : ∃ t : Tree, decode t = some x := by
  unfold optional at read
  split at read
  · split at read <;> cases read
  case h_2 t _ =>
    cases t with
    | null => cases read
    | _ =>
      obtain ⟨y, found, same⟩ := Option.map_eq_some_iff.mp read
      exact ⟨_, Option.some.inj same ▸ found⟩

end Members

structure Fields (names : List String) (members : List (String × Tree)) : Prop where
  plain : ∀ m ∈ members, m.2.IsPlain
  names : (members.map Prod.fst).Sublist names

namespace Fields

variable {α : Type} [Codec α]

theorem field (name : String) {x : α} (back : ReadsBack x) : Fields [name] (Tree.field name x) :=
  ⟨by simpa [Tree.field] using back.plain, List.Sublist.refl _⟩

theorem optionalField (name : String) {x : Option α} (back : ∀ y ∈ x, ReadsBack y) :
    Fields [name] (Tree.optionalField name x) := by
  cases x with
  | none => exact ⟨by simp [Tree.optionalField], List.nil_sublist _⟩
  | some x => exact field name (back x rfl)

theorem append {names others : List String} {members further : List (String × Tree)}
    (left : Fields names members) (right : Fields others further) :
    Fields (names ++ others) (members ++ further) := by
  refine ⟨fun m member => ?_, ?_⟩
  · rcases List.mem_append.mp member with h | h
    · exact left.plain m h
    · exact right.plain m h
  · rw [List.map_append]
    exact left.names.append right.names

theorem isPlain {names : List String} {members : List (String × Tree)} (fields : Fields names members) :
    (Tree.record members).IsPlain :=
  Tree.record_isPlain fields.plain

theorem of? {names : List String} {members : List (String × Tree)} (fields : Fields names members)
    (distinct : names.Nodup) : Members.of? names (.record members) = some ⟨members, false⟩ :=
  Members.of?_record distinct fields.names

theorem bind_of? {β : Type} {names : List String} {members : List (String × Tree)}
    (fields : Fields names members) (distinct : names.Nodup) (read : Members → Option β) :
    (Members.of? names (.record members) >>= read) = read ⟨members, false⟩ := by
  rw [fields.of? distinct]
  rfl

end Fields

/-- Every value is written as a plain tree, also one that would not be read back. -/
class Codec.IsPlain (α : Type) [Codec α] : Prop where
  isPlain : ∀ x : α, (encode x).IsPlain

def PlainFields (members : List (String × Tree)) : Prop := ∀ m ∈ members, m.2.IsPlain

namespace PlainFields

variable {α : Type} [Codec α] [Codec.IsPlain α]

@[simp] theorem append_iff {members further : List (String × Tree)} :
    PlainFields (members ++ further) ↔ PlainFields members ∧ PlainFields further :=
  List.forall_mem_append

@[simp] theorem field (name : String) (x : α) : PlainFields (Tree.field name x) :=
  List.forall_mem_singleton.mpr (Codec.IsPlain.isPlain x)

@[simp] theorem optionalField (name : String) (x : Option α) :
    PlainFields (Tree.optionalField name x) := by
  cases x with
  | none => exact nofun
  | some x => exact field name x

theorem record {members : List (String × Tree)} (fields : PlainFields members) :
    (Tree.record members).IsPlain :=
  Tree.record_isPlain fields

end PlainFields

namespace Codec.IsPlain

instance : Codec.IsPlain String := ⟨fun s => (ReadsBack.string s).plain⟩

instance : Codec.IsPlain UInt64 := ⟨fun n => (ReadsBack.uint64 n).plain⟩

instance : Codec.IsPlain Int64 := ⟨fun n => (ReadsBack.int64 n).plain⟩

instance (n : Nat) : Codec.IsPlain (Fin n) := ⟨fun i => (ReadsBack.fin i).plain⟩

instance {α : Type} [Codec α] [Codec.IsPlain α] : Codec.IsPlain (List α) := by
  refine ⟨fun xs => ?_⟩
  change Tree.ArePlain (xs.map encode)
  induction xs with
  | nil => trivial
  | cons x xs ih => exact ⟨isPlain x, ih⟩

end Codec.IsPlain

end Curtail.Json
