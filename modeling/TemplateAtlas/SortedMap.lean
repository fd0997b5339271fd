/-!
# Sorted maps

Finite maps as lists of entries in strictly ascending key order. Two keys that compare equal are one
key, and a map keeps the key that it saw first. The order is part of the type, so a map with given
entries has one form.
-/

namespace TemplateAtlas

variable {κ : Type u} {α : Type v}

/-- Strictly ascending keys. -/
def KeysAscend [Ord κ] (entries : List (κ × α)) : Prop :=
  entries.Pairwise fun a b => compare a.1 b.1 = .lt

/-- A finite map as its entries in ascending key order. -/
structure SortedMap (κ : Type u) (α : Type v) [Ord κ] where
  /-- The entries. -/
  entries : List (κ × α)
  /-- Their keys ascend. -/
  ascend : KeysAscend entries

namespace SortedMap

section Entries

variable [Ord κ]

/-- The entries with `value` at `key`; an entry that is there keeps its key. -/
def insertEntry (key : κ) (value : α) : List (κ × α) → List (κ × α)
  | [] => [(key, value)]
  | (k, v) :: rest =>
    match compare key k with
    | .lt => (key, value) :: (k, v) :: rest
    | .eq => (k, value) :: rest
    | .gt => (k, v) :: insertEntry key value rest

/-- Every key of the new entries is the inserted key or was there. -/
theorem key_mem_insertEntry {key : κ} {value : α} {entries : List (κ × α)} {e : κ × α}
    (h : e ∈ insertEntry key value entries) : e.1 = key ∨ ∃ v, (e.1, v) ∈ entries := by
  induction entries with
  | nil => simp_all [insertEntry]
  | cons head rest ih =>
    obtain ⟨k, v⟩ := head
    simp only [insertEntry] at h
    split at h
    · rcases List.mem_cons.1 h with rfl | h
      · exact .inl rfl
      · exact .inr ⟨e.2, h⟩
    · rcases List.mem_cons.1 h with rfl | h
      · exact .inr ⟨v, List.mem_cons_self⟩
      · exact .inr ⟨e.2, List.mem_cons_of_mem _ h⟩
    · rcases List.mem_cons.1 h with rfl | h
      · exact .inr ⟨v, List.mem_cons_self⟩
      · rcases ih h with h | ⟨w, h⟩
        · exact .inl h
        · exact .inr ⟨w, List.mem_cons_of_mem _ h⟩

/-- Inserting keeps the order. -/
theorem keysAscend_insertEntry [Std.TransOrd κ] (key : κ) (value : α) {entries : List (κ × α)}
    (h : KeysAscend entries) : KeysAscend (insertEntry key value entries) := by
  induction entries with
  | nil => exact List.pairwise_singleton _ _
  | cons head rest ih =>
    obtain ⟨k, v⟩ := head
    obtain ⟨hk, hrest⟩ := List.pairwise_cons.1 h
    simp only [insertEntry]
    split
    next hlt =>
      refine List.pairwise_cons.2 ⟨fun e he => ?_, h⟩
      rcases List.mem_cons.1 he with rfl | he
      · exact hlt
      · exact Std.TransCmp.lt_trans hlt (hk e he)
    next => exact List.pairwise_cons.2 ⟨hk, hrest⟩
    next hgt =>
      refine List.pairwise_cons.2 ⟨fun e he => ?_, ih hrest⟩
      rcases key_mem_insertEntry he with heq | ⟨w, he⟩
      · rw [heq]; exact Std.OrientedCmp.gt_iff_lt.1 hgt
      · exact (hk (e.1, w) he :)

end Entries

section Operations

variable [Ord κ]

/-- The map without entries. -/
def empty : SortedMap κ α :=
  ⟨[], List.Pairwise.nil⟩

instance : Inhabited (SortedMap κ α) :=
  ⟨empty⟩

/-- The value at a key. -/
def find? (m : SortedMap κ α) (key : κ) : Option α :=
  (m.entries.find? fun e => compare key e.1 == .eq).map (·.2)

/-- Is there a value at the key? -/
def contains (m : SortedMap κ α) (key : κ) : Bool :=
  (m.find? key).isSome

/-- The map with the entries that satisfy `p`. -/
def filter (m : SortedMap κ α) (p : κ → α → Bool) : SortedMap κ α :=
  ⟨m.entries.filter fun e => p e.1 e.2, m.ascend.filter _⟩

/-- The map without the key. -/
def erase (m : SortedMap κ α) (key : κ) : SortedMap κ α :=
  m.filter fun k _ => compare key k != .eq

/-- The keys in ascending order. -/
def keys (m : SortedMap κ α) : List κ :=
  m.entries.map (·.1)

/-- The values in the order of their keys. -/
def values (m : SortedMap κ α) : List α :=
  m.entries.map (·.2)

/-- The number of entries. -/
def size (m : SortedMap κ α) : Nat :=
  m.entries.length

/-- Has the map no entries? -/
def isEmpty (m : SortedMap κ α) : Bool :=
  m.entries.isEmpty

variable [Std.TransOrd κ]

/-- The map with `value` at `key`. -/
def insert (m : SortedMap κ α) (key : κ) (value : α) : SortedMap κ α :=
  ⟨insertEntry key value m.entries, keysAscend_insertEntry key value m.ascend⟩

/-- The map with `value` at `key`, unless there is a value already. -/
def insertNew (m : SortedMap κ α) (key : κ) (value : α) : SortedMap κ α :=
  if m.contains key then m else m.insert key value

/-- The map of a list of entries; later ones win. -/
def ofList (entries : List (κ × α)) : SortedMap κ α :=
  entries.foldl (fun m e => m.insert e.1 e.2) empty

/-- The map of a list of entries; earlier ones win. -/
def ofListFirst (entries : List (κ × α)) : SortedMap κ α :=
  entries.foldl (fun m e => m.insertNew e.1 e.2) empty

end Operations

end SortedMap

/-- Finite sets as the keys of a sorted map. -/
abbrev SortedSet (κ : Type u) [Ord κ] :=
  SortedMap κ Unit

namespace SortedSet

variable [Ord κ]

/-- The members in ascending order. -/
def toList (s : SortedSet κ) : List κ :=
  s.keys

variable [Std.TransOrd κ]

/-- The set with `a` in it. -/
def add (s : SortedSet κ) (a : κ) : SortedSet κ :=
  s.insertNew a ()

/-- The set of the members of a list. -/
def ofList (as : List κ) : SortedSet κ :=
  as.foldl add SortedMap.empty

end SortedSet

end TemplateAtlas
