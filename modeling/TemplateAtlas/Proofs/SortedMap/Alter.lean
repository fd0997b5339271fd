import TemplateAtlas.Proofs.SortedMap

/-!
# Changing what a map holds at a key

A map is changed at a key by a value or by none. The entries are then the same whatever the order in
which differing keys are changed (`alter_comm`), down to the keys that stand in them: an entry that
is there keeps its key, and a map is determined by its keys and its look-ups (`ext_of_keys`). The
changes of a set are those of its members (`SortedSet.add_eq_alter`).
-/

namespace TemplateAtlas

open Std

variable {κ : Type u} {α : Type v} [Ord κ] [TransOrd κ]

namespace SortedMap

variable {m : SortedMap κ α} {key k : κ}

/-! ### Keys -/

/-- Maps with the same keys and the same look-ups are the same. -/
theorem ext_of_keys {m₁ m₂ : SortedMap κ α} (hkeys : ∀ k, k ∈ m₁.keys ↔ k ∈ m₂.keys)
    (h : ∀ a, m₁.find? a = m₂.find? a) : m₁ = m₂ := by
  have canonical : ∀ a b, a ∈ m₁.keys → b ∈ m₁.keys → compare a b = .eq → a = b := by
    intro a b ha hb hab
    obtain ⟨v, hv⟩ := mem_keys_iff.1 ha
    obtain ⟨w, hw⟩ := mem_keys_iff.1 hb
    exact congrArg Prod.fst (m₁.entry_unique hv hw hab)
  exact ext_on canonical (fun _ hk => hk) (fun k hk => (hkeys k).2 hk) fun a _ => h a

omit [TransOrd κ] in
theorem mem_keys_erase_iff : k ∈ (m.erase key).keys ↔ k ∈ m.keys ∧ compare key k ≠ .eq := by
  simp only [mem_keys_iff, erase, filter, List.mem_filter, bne_iff_ne, exists_and_right]

/-- A key that is there keeps its place, and no other comes. -/
theorem map_fst_insertEntry {value : α} {entries : List (κ × α)} (ascend : KeysAscend entries)
    (h : ∃ e ∈ entries, compare key e.1 = .eq) :
    (insertEntry key value entries).map (·.1) = entries.map (·.1) := by
  induction entries with
  | nil =>
    obtain ⟨e, he, -⟩ := h
    cases he
  | cons head rest ih =>
    obtain ⟨k, v⟩ := head
    obtain ⟨hk, hrest⟩ := List.pairwise_cons.1 ascend
    obtain ⟨e, he, heq⟩ := h
    rw [insertEntry]
    split
    next hlt =>
      -- a key below the first one is below all of them
      rcases List.mem_cons.1 he with rfl | he
      · rw [hlt] at heq
        cases heq
      · rw [TransCmp.lt_trans hlt (hk e he)] at heq
        cases heq
    next => rfl
    next hgt =>
      rcases List.mem_cons.1 he with rfl | he
      · rw [hgt] at heq
        cases heq
      · rw [List.map_cons, ih hrest ⟨e, he, heq⟩, List.map_cons]

/-- An entry that is there keeps its key. -/
theorem mem_keys_insert_iff {value : α} :
    k ∈ (m.insert key value).keys ↔ k ∈ m.keys ∨ (k = key ∧ m.contains key = false) := by
  have hcontains : m.contains key = false ↔ ∀ e ∈ m.entries, compare key e.1 ≠ .eq := by
    rw [← Bool.not_eq_true, contains_eq_true_iff]
    simp [mem_keys_iff]
  rw [hcontains]
  by_cases hnew : ∀ e ∈ m.entries, compare key e.1 ≠ .eq
  · have hperm : (m.insert key value).keys.Perm (key :: m.keys) := (insertEntry_perm hnew).map _
    rw [hperm.mem_iff, List.mem_cons, or_comm, and_iff_left hnew]
  · have hkeys : (m.insert key value).keys = m.keys := by
      push Not at hnew
      exact map_fst_insertEntry m.ascend hnew
    rw [hkeys]
    simp only [hnew, and_false, or_false]

/-! ### One key -/

/-- The map with a value at a key, or with none. -/
def alter (m : SortedMap κ α) (key : κ) : Option α → SortedMap κ α
  | some value => m.insert key value
  | none => m.erase key

theorem find?_alter (m : SortedMap κ α) (key : κ) (value? : Option α) (a : κ) :
    (m.alter key value?).find? a = if compare a key = .eq then value? else m.find? a := by
  cases value? with
  | some value => exact find?_insert m key value a
  | none => exact find?_erase m key a

theorem contains_alter (m : SortedMap κ α) (key : κ) (value? : Option α) (a : κ) :
    (m.alter key value?).contains a = if compare a key =
      .eq then value?.isSome else m.contains a := by
  rw [contains, find?_alter, contains]
  split <;> rfl

theorem contains_alter_of_ne {a : κ} (h : compare a key ≠ .eq) (value? : Option α) :
    (m.alter key value?).contains a = m.contains a := by
  rw [contains_alter, if_neg h]

theorem contains_alter_self (m : SortedMap κ α) (key : κ) (value? : Option α) :
    (m.alter key value?).contains key = value?.isSome := by
  rw [contains_alter, if_pos ReflCmp.compare_self]

theorem mem_keys_alter_of_ne (h : compare key k ≠ .eq) (value? : Option α) :
    k ∈ (m.alter key value?).keys ↔ k ∈ m.keys := by
  cases value? with
  | some value =>
    have hne : k ≠ key := by
      rintro rfl
      exact h ReflCmp.compare_self
    rw [alter, mem_keys_insert_iff]
    simp [hne]
  | none =>
    rw [alter, mem_keys_erase_iff]
    simp [h]

theorem mem_keys_alter_of_eq (h : compare key k = .eq) (value? : Option α) :
    k ∈ (m.alter key value?).keys ↔
      value?.isSome = true ∧ (k ∈ m.keys ∨ (k = key ∧ m.contains key = false)) := by
  cases value? with
  | some value =>
    rw [alter, mem_keys_insert_iff]
    simp
  | none =>
    rw [alter, mem_keys_erase_iff]
    simp [h]

/-- Changes at keys that differ may be made in any order. -/
theorem alter_comm {a b : κ} (h : compare a b ≠ .eq) (value? other? : Option α) :
    (m.alter a value?).alter b other? = (m.alter b other?).alter a value? := by
  have h' : compare b a ≠ .eq := fun hba => h (OrientedCmp.eq_symm hba)
  refine ext_of_keys (fun k => ?_) fun c => ?_
  · by_cases ha : compare a k = .eq
    · have hb : compare b k ≠ .eq := fun hb => h' (TransCmp.eq_trans hb (OrientedCmp.eq_symm ha))
      rw [mem_keys_alter_of_ne hb, mem_keys_alter_of_eq ha, mem_keys_alter_of_eq ha,
        mem_keys_alter_of_ne hb, contains_alter_of_ne h]
    · by_cases hb : compare b k = .eq
      · rw [mem_keys_alter_of_eq hb, mem_keys_alter_of_ne ha, mem_keys_alter_of_ne ha,
          mem_keys_alter_of_eq hb, contains_alter_of_ne h']
      · rw [mem_keys_alter_of_ne hb, mem_keys_alter_of_ne ha, mem_keys_alter_of_ne ha,
          mem_keys_alter_of_ne hb]
  · simp only [find?_alter]
    by_cases ha : compare c a = .eq
    · have hb : compare c b ≠ .eq := fun hb => h (TransCmp.eq_trans (OrientedCmp.eq_symm ha) hb)
      rw [if_neg hb, if_pos ha, if_pos ha]
    · rw [if_neg ha, if_neg ha]

/-- A change that is made twice is made once. -/
theorem alter_alter (m : SortedMap κ α) (key : κ) (value? : Option α) :
    (m.alter key value?).alter key value? = m.alter key value? := by
  refine ext_of_keys (fun k => ?_) fun c => ?_
  · by_cases hk : compare key k = .eq
    · rw [mem_keys_alter_of_eq hk, contains_alter_self, mem_keys_alter_of_eq hk]
      cases value? <;> simp
    · rw [mem_keys_alter_of_ne hk]
  · simp only [find?_alter]
    split <;> rfl

theorem erase_of_not_contains (h : m.contains key = false) : m.erase key = m := by
  have hne : ∀ k ∈ m.keys, compare key k ≠ .eq := by
    intro k hk heq
    rw [contains_eq_true_iff.2 ⟨k, hk, heq⟩] at h
    cases h
  refine ext_of_keys (fun k => ?_) fun a => ?_
  · rw [mem_keys_erase_iff]
    exact and_iff_left_of_imp (hne k)
  · rw [find?_erase]
    split
    next heq =>
      rw [find?_congr m heq]
      exact (Option.not_isSome_iff_eq_none.1 (by rw [← contains, h]; simp)).symm
    · rfl

end SortedMap

namespace SortedSet

variable {s : SortedSet κ} {a : κ}

theorem add_of_contains (h : s.contains a = true) : s.add a = s := by
  rw [add, SortedMap.insertNew, if_pos h]

theorem add_eq_alter (s : SortedSet κ) (a : κ) : s.add a = s.alter a (some ()) := by
  by_cases h : s.contains a = true
  · rw [add_of_contains h]
    refine SortedMap.ext_of_keys (fun k => ?_) fun b => ?_
    · rw [SortedMap.alter, SortedMap.mem_keys_insert_iff, h]
      simp
    · rw [SortedMap.find?_alter]
      split
      next heq =>
        obtain ⟨u, hu⟩ := Option.isSome_iff_exists.1 h
        rw [SortedMap.find?_congr s heq, hu]
      · rfl
  · rw [add, SortedMap.insertNew, if_neg h]
    rfl

end SortedSet

end TemplateAtlas
