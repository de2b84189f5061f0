namespace Curtail

structure Table (κ α : Type) [Ord κ] where
  entries : List (κ × α)
  sorted : entries.Pairwise fun a b => compare a.1 b.1 = .lt

namespace Table

variable {κ α : Type} [Ord κ]

def empty : Table κ α := ⟨[], .nil⟩

def find (key : κ) : List (κ × α) → Option α
  | [] => none
  | (k, x) :: rest => if compare key k = .eq then some x else find key rest

def get? (t : Table κ α) (key : κ) : Option α := find key t.entries

def contains (t : Table κ α) (key : κ) : Bool := (t.get? key).isSome

def values (t : Table κ α) : List α := t.entries.map (·.2)

def place (key : κ) (x : α) : List (κ × α) → List (κ × α)
  | [] => [(key, x)]
  | (k, y) :: rest =>
    match compare key k with
    | .lt => (key, x) :: (k, y) :: rest
    | .eq => (key, x) :: rest
    | .gt => (k, y) :: place key x rest

theorem mem_place {key : κ} {x : α} {entries : List (κ × α)} {entry : κ × α}
    (member : entry ∈ place key x entries) : entry = (key, x) ∨ entry ∈ entries := by
  induction entries with
  | nil => simpa [place] using member
  | cons head rest ih =>
    obtain ⟨k, y⟩ := head
    unfold place at member
    split at member
    · rcases List.mem_cons.mp member with h | h
      · exact Or.inl h
      · exact Or.inr h
    · rcases List.mem_cons.mp member with h | h
      · exact Or.inl h
      · exact Or.inr (List.mem_cons_of_mem _ h)
    · rcases List.mem_cons.mp member with h | h
      · exact Or.inr (h ▸ List.mem_cons_self)
      · rcases ih h with h | h
        · exact Or.inl h
        · exact Or.inr (List.mem_cons_of_mem _ h)

variable [Std.TransOrd κ] [Std.LawfulEqOrd κ]

theorem place_sorted (key : κ) (x : α) {entries : List (κ × α)}
    (sorted : entries.Pairwise fun a b => compare a.1 b.1 = .lt) :
    (place key x entries).Pairwise fun a b => compare a.1 b.1 = .lt := by
  induction entries with
  | nil => simp [place]
  | cons head rest ih =>
    obtain ⟨k, y⟩ := head
    have ⟨before, tail⟩ := List.pairwise_cons.mp sorted
    unfold place
    split
    · rename_i less
      refine List.pairwise_cons.mpr ⟨fun entry member => ?_, sorted⟩
      rcases List.mem_cons.mp member with h | h
      · exact h ▸ less
      · exact Std.TransCmp.lt_trans less (before entry h)
    · rename_i equal
      have same : key = k := Std.LawfulEqOrd.eq_of_compare equal
      exact List.pairwise_cons.mpr ⟨fun entry member => same ▸ before entry member, tail⟩
    · rename_i greater
      refine List.pairwise_cons.mpr ⟨fun entry member => ?_, ih tail⟩
      rcases mem_place member with h | h
      · exact h ▸ Std.OrientedCmp.lt_of_gt greater
      · exact before entry h

def insert (t : Table κ α) (key : κ) (x : α) : Table κ α :=
  ⟨place key x t.entries, place_sorted key x t.sorted⟩

def modify (t : Table κ α) (key : κ) (f : α → α) : Table κ α :=
  match t.get? key with
  | some x => t.insert key (f x)
  | none => t

end Table

end Curtail
