import Mathlib.Data.List.Induction
import Mathlib.Data.List.Pairwise
import Mathlib.Data.List.Sort
import TemplateAtlas.SortedMap

/-!
# Sorted maps: what look-ups find

A sorted map is determined by what its look-ups find. Each operation is described by its effect on
look-ups, and two maps whose look-ups agree have entries that agree one by one (`forall₂_entries`).
Where keys that compare equal are equal, such maps are the same (`ext_on`).
-/

namespace TemplateAtlas

open Std

variable {κ : Type u} {α : Type v} {β : Type w} [Ord κ]

namespace SortedMap

/-! ### Entries -/

@[simp] theorem keys_empty : (empty : SortedMap κ α).keys = [] := rfl

@[simp] theorem find?_empty (a : κ) : (empty : SortedMap κ α).find? a = none := rfl

theorem mem_keys_iff {m : SortedMap κ α} {k : κ} : k ∈ m.keys ↔ ∃ v, (k, v) ∈ m.entries := by
  simp [keys]

/-- The keys stand in strictly ascending order. -/
theorem pairwise_keys (m : SortedMap κ α) : m.keys.Pairwise fun a b => compare a b = .lt :=
  List.pairwise_map.2 m.ascend

/-- Which entries there are does not depend on their values. -/
theorem insertEntry_map (g : α → β) (key : κ) (value : α) (entries : List (κ × α)) :
    insertEntry key (g value) (entries.map fun e => (e.1, g e.2)) =
      (insertEntry key value entries).map fun e => (e.1, g e.2) := by
  induction entries with
  | nil => rfl
  | cons head rest ih =>
    simp only [List.map_cons, insertEntry]
    split <;> simp [ih]

theorem contains_of_isEmpty {m : SortedMap κ α} (h : m.isEmpty = true) (a : κ) :
    m.contains a = false := by
  obtain ⟨entries, ascend⟩ := m
  obtain rfl := List.isEmpty_iff.1 h
  rfl

theorem mem_keys_filter {m : SortedMap κ α} {p : κ → α → Bool} {k : κ} (h : k ∈ (m.filter p).keys) :
    k ∈ m.keys := by
  obtain ⟨v, hmem⟩ := mem_keys_iff.1 h
  exact mem_keys_iff.2 ⟨v, (List.mem_filter.1 hmem).1⟩

theorem mem_keys_erase {m : SortedMap κ α} {key k : κ} (h : k ∈ (m.erase key).keys) : k ∈ m.keys :=
  mem_keys_filter h

variable [TransOrd κ]

/-- Two entries of a map whose keys compare equal are one entry. -/
theorem entry_unique (m : SortedMap κ α) {e f : κ × α} (he : e ∈ m.entries) (hf : f ∈ m.entries)
    (h : compare e.1 f.1 = .eq) : e = f := by
  have apart : m.entries.Pairwise fun a b => compare a.1 b.1 ≠ .eq :=
    m.ascend.imp fun hlt heq => by rw [hlt] at heq; cases heq
  have : Symm fun a b : κ × α => compare a.1 b.1 ≠ .eq :=
    ⟨fun _ _ hab hba => hab (OrientedCmp.eq_symm hba)⟩
  by_contra hne
  exact apart.forall he hf hne h

/-- A look-up finds the value of the entry whose key compares equal. -/
theorem find?_eq_some_iff {m : SortedMap κ α} {a : κ} {v : α} :
    m.find? a = some v ↔ ∃ k, (k, v) ∈ m.entries ∧ compare a k = .eq := by
  simp only [find?, Option.map_eq_some_iff]
  constructor
  · rintro ⟨⟨k, v⟩, hfind, rfl⟩
    exact ⟨k, List.mem_of_find?_eq_some hfind, by simpa using List.find?_some hfind⟩
  · rintro ⟨k, hmem, hk⟩
    cases hfind : m.entries.find? fun e => compare a e.1 == .eq with
    | none => exact absurd hk (by simpa using List.find?_eq_none.1 hfind (k, v) hmem)
    | some e =>
      have he : compare a e.1 = .eq := by simpa using List.find?_some hfind
      have hek : compare e.1 k = .eq := TransCmp.eq_trans (OrientedCmp.eq_symm he) hk
      exact ⟨e, rfl, by rw [entry_unique m (List.mem_of_find?_eq_some hfind) hmem hek]⟩

theorem find?_of_mem {m : SortedMap κ α} {k : κ} {v : α} (h : (k, v) ∈ m.entries) :
    m.find? k = some v :=
  find?_eq_some_iff.2 ⟨k, h, ReflCmp.compare_self⟩

/-- Keys that compare equal find the same. -/
theorem find?_congr (m : SortedMap κ α) {a b : κ} (h : compare a b = .eq) :
    m.find? a = m.find? b := by
  simp only [find?, TransCmp.congr_left h]

theorem contains_congr (m : SortedMap κ α) {a b : κ} (h : compare a b = .eq) :
    m.contains a = m.contains b := by
  rw [contains, contains, find?_congr m h]

theorem contains_eq_true_iff {m : SortedMap κ α} {a : κ} :
    m.contains a = true ↔ ∃ k ∈ m.keys, compare a k = .eq := by
  simp only [contains, Option.isSome_iff_exists, find?_eq_some_iff, mem_keys_iff]
  constructor
  · rintro ⟨v, k, hmem, hk⟩
    exact ⟨k, ⟨v, hmem⟩, hk⟩
  · rintro ⟨k, ⟨v, hmem⟩, hk⟩
    exact ⟨v, k, hmem, hk⟩

theorem contains_of_mem_keys {m : SortedMap κ α} {k : κ} (h : k ∈ m.keys) : m.contains k = true :=
  contains_eq_true_iff.2 ⟨k, h, ReflCmp.compare_self⟩

theorem exists_contains {m : SortedMap κ α} (h : m.isEmpty = false) : ∃ a, m.contains a = true := by
  have hne : m.entries ≠ [] := by
    intro hnil
    rw [isEmpty, hnil] at h
    cases h
  obtain ⟨e, rest, hentries⟩ := List.exists_cons_of_ne_nil hne
  exact ⟨e.1, contains_of_mem_keys (mem_keys_iff.2 ⟨e.2, by simp [hentries]⟩)⟩

/-! ### Operations -/

theorem find?_insert (m : SortedMap κ α) (key : κ) (value : α) (a : κ) :
    (m.insert key value).find? a = if compare a key = .eq then some value else m.find? a := by
  obtain ⟨entries, ascend⟩ := m
  simp only [insert, find?]
  clear ascend
  induction entries with
  | nil => by_cases h : compare a key = .eq <;> simp [insertEntry, h]
  | cons head rest ih =>
    obtain ⟨k, v⟩ := head
    simp only [insertEntry]
    split
    next hlt =>
      by_cases h : compare a key = .eq
      · simp [h]
      · simp [h, List.find?_cons]
    next heq =>
      -- the key that was there stays, and it compares as the new one does
      rw [List.find?_cons, List.find?_cons, ← TransCmp.congr_right heq]
      by_cases h : compare a key = .eq
      · simp [h]
      · rw [beq_eq_false_iff_ne.2 h, if_neg h]
    next hgt =>
      rw [List.find?_cons, List.find?_cons]
      by_cases h : compare a k = .eq
      · have : compare a key ≠ .eq := by
          intro hkey
          rw [TransCmp.congr_left h] at hkey
          rw [OrientedCmp.eq_symm hkey] at hgt
          cases hgt
        simp [h, this]
      · rw [beq_eq_false_iff_ne.2 h]
        exact ih

theorem mem_keys_insert {m : SortedMap κ α} {key : κ} {value : α} {k : κ}
    (h : k ∈ (m.insert key value).keys) : k = key ∨ k ∈ m.keys := by
  obtain ⟨v, hmem⟩ := mem_keys_iff.1 h
  rcases key_mem_insertEntry hmem with heq | hold
  · exact .inl heq
  · exact .inr (mem_keys_iff.2 hold)

theorem find?_insertNew (m : SortedMap κ α) (key : κ) (value : α) (a : κ) :
    (m.insertNew key value).find? a =
      if compare a key = .eq then some ((m.find? key).getD value) else m.find? a := by
  unfold insertNew
  by_cases h : m.contains key = true
  · obtain ⟨v, hv⟩ := Option.isSome_iff_exists.1 h
    rw [if_pos h, hv]
    by_cases ha : compare a key = .eq
    · rw [if_pos ha, find?_congr m ha, hv]; rfl
    · rw [if_neg ha]
  · have hnone : m.find? key = none := by simpa [contains] using h
    rw [if_neg h, find?_insert, hnone]; rfl

theorem mem_keys_insertNew {m : SortedMap κ α} {key : κ} {value : α} {k : κ}
    (h : k ∈ (m.insertNew key value).keys) : k = key ∨ k ∈ m.keys := by
  unfold insertNew at h
  split at h
  · exact .inr h
  · exact mem_keys_insert h

theorem find?_filter_eq_some_iff {m : SortedMap κ α} {p : κ → α → Bool} {a : κ} {v : α} :
    (m.filter p).find? a = some v ↔ ∃ k, (k, v) ∈ m.entries ∧ p k v = true ∧ compare a k = .eq := by
  simp [find?_eq_some_iff, filter, List.mem_filter, and_assoc]

/-- A filter that treats keys that compare equal alike filters what look-ups find. -/
theorem find?_filter {m : SortedMap κ α} {p : κ → α → Bool}
    (respects : ∀ a k v, compare a k = .eq → p k v = p a v) (a : κ) :
    (m.filter p).find? a = (m.find? a).filter (p a) := by
  refine Option.ext fun v => ?_
  rw [find?_filter_eq_some_iff, Option.filter_eq_some_iff, find?_eq_some_iff]
  constructor
  · rintro ⟨k, hmem, hp, hk⟩
    exact ⟨⟨k, hmem, hk⟩, by rw [← respects a k v hk]; exact hp⟩
  · rintro ⟨⟨k, hmem, hk⟩, hp⟩
    exact ⟨k, hmem, by rw [respects a k v hk]; exact hp, hk⟩

theorem contains_filter {m : SortedMap κ α} {p : κ → Bool}
    (respects : ∀ a k, compare a k = .eq → p k = p a) (a : κ) :
    (m.filter fun k _ => p k).contains a = (p a && m.contains a) := by
  rw [contains, find?_filter fun a k _ => respects a k, contains]
  cases m.find? a <;> cases p a <;> simp

theorem find?_erase (m : SortedMap κ α) (key a : κ) :
    (m.erase key).find? a = if compare a key = .eq then none else m.find? a := by
  rw [erase, find?_filter fun a k _ h => by rw [TransCmp.congr_right (OrientedCmp.eq_symm h)]]
  by_cases h : compare a key = .eq
  · rw [if_pos h, OrientedCmp.eq_symm h]
    cases m.find? a <;> rfl
  · have : compare key a ≠ .eq := fun hk => h (OrientedCmp.eq_symm hk)
    rw [if_neg h]
    cases m.find? a <;> simp [this]

theorem contains_erase (m : SortedMap κ α) (key a : κ) :
    (m.erase key).contains a = (compare a key != .eq && m.contains a) := by
  rw [contains, find?_erase, contains]
  by_cases h : compare a key = .eq <;> simp [h]

theorem find?_ofList_append (l : List (κ × α)) (e : κ × α) (a : κ) :
    (ofList (l ++ [e])).find? a = if compare a e.1 = .eq then some e.2 else (ofList l).find? a := by
  rw [ofList, List.foldl_append, List.foldl_cons, List.foldl_nil, find?_insert, ofList]

/-- A look-up finds the last entry with the key. -/
theorem find?_ofList (l : List (κ × α)) (a : κ) :
    (ofList l).find? a = (l.reverse.find? fun e => compare a e.1 == .eq).map (·.2) := by
  induction l using List.reverseRecOn with
  | nil => rfl
  | append_singleton l e ih =>
    rw [find?_ofList_append, List.reverse_concat]
    by_cases h : compare a e.1 = .eq
    · rw [if_pos h, List.find?_cons_of_pos (by simp [h]), Option.map_some]
    · rw [if_neg h, ih, List.find?_cons_of_neg (by simp [h])]

/-- What a look-up finds in the map of a list is the value of an entry of the list. -/
theorem exists_of_find?_ofList {l : List (κ × α)} {a : κ} {v : α}
    (h : (ofList l).find? a = some v) : ∃ e ∈ l, e.2 = v := by
  rw [find?_ofList, Option.map_eq_some_iff] at h
  obtain ⟨e, he, heq⟩ := h
  exact ⟨e, List.mem_reverse.1 (List.mem_of_find?_eq_some he), heq⟩

/-- A look-up in the map that gives each key of a list the value of a function. -/
theorem find?_ofList_map {f : κ → α} (keys : List κ)
    (respects : ∀ a ∈ keys, ∀ b ∈ keys, compare a b = .eq → f a = f b) {a : κ} (ha : a ∈ keys) :
    (ofList (keys.map fun k => (k, f k))).find? a = some (f a) := by
  induction keys using List.reverseRecOn with
  | nil => simp at ha
  | append_singleton l k ih =>
    rw [List.map_append, List.map_singleton, find?_ofList_append]
    by_cases hk : compare a k = .eq
    · rw [if_pos hk, respects a ha k (by simp) hk]
    · have hl : a ∈ l := by
        rcases List.mem_append.1 ha with h | h
        · exact h
        · rw [List.mem_singleton.1 h] at hk
          exact absurd ReflCmp.compare_self hk
      rw [if_neg hk]
      exact ih (fun a ha b hb => respects a (by simp [ha]) b (by simp [hb])) hl

/-- A look-up in the map of a list in which no two keys compare equal. -/
theorem find?_ofList_eq_some_iff {l : List (κ × α)}
    (apart : l.Pairwise fun e f => compare e.1 f.1 ≠ .eq) {a : κ} {v : α} :
    (ofList l).find? a = some v ↔ ∃ k, (k, v) ∈ l ∧ compare a k = .eq := by
  induction l using List.reverseRecOn with
  | nil => simp [ofList]
  | append_singleton l e ih =>
    obtain ⟨hl, -, he⟩ := List.pairwise_append.1 apart
    rw [find?_ofList_append]
    by_cases h : compare a e.1 = .eq
    · rw [if_pos h]
      constructor
      · intro heq
        exact ⟨e.1, by simp [← Option.some.inj heq], h⟩
      · rintro ⟨k, hmem, hk⟩
        rcases List.mem_append.1 hmem with hmem | hmem
        · exact absurd (TransCmp.eq_trans (OrientedCmp.eq_symm hk) h) (he _ hmem _ (by simp))
        · rw [← List.mem_singleton.1 hmem]
    · rw [if_neg h, ih hl]
      refine exists_congr fun k => and_congr_left fun hk => ?_
      rw [List.mem_append, List.mem_singleton]
      refine ⟨.inl, fun hmem => hmem.resolve_right ?_⟩
      rintro rfl
      exact h hk

theorem contains_ofList {l : List (κ × α)} {a : κ} :
    (ofList l).contains a = true ↔ ∃ e ∈ l, compare a e.1 = .eq := by
  induction l using List.reverseRecOn with
  | nil => simp [ofList, contains]
  | append_singleton l e ih =>
    rw [contains, find?_ofList_append]
    by_cases h : compare a e.1 = .eq
    · simp only [h, if_true, Option.isSome_some, true_iff]
      exact ⟨e, by simp, h⟩
    · rw [if_neg h]
      refine ih.trans ⟨fun ⟨f, hf, hc⟩ => ⟨f, by simp [hf], hc⟩, fun ⟨f, hf, hc⟩ => ?_⟩
      rcases List.mem_append.1 hf with hf | hf
      · exact ⟨f, hf, hc⟩
      · rw [List.mem_singleton.1 hf] at hc
        exact absurd hc h

theorem mem_keys_ofList {l : List (κ × α)} {k : κ} (h : k ∈ (ofList l).keys) : k ∈ l.map (·.1) := by
  induction l using List.reverseRecOn with
  | nil => simp [ofList] at h
  | append_singleton l e ih =>
    rw [ofList, List.foldl_append] at h
    rcases mem_keys_insert h with rfl | h
    · simp
    · simp only [List.map_append, List.mem_append]
      exact .inl (ih h)

/-! ### Maps in which earlier entries win -/

theorem ofListFirst_append (l : List (κ × α)) (e : κ × α) :
    ofListFirst (l ++ [e]) = (ofListFirst l).insertNew e.1 e.2 := by
  rw [ofListFirst, List.foldl_append]
  rfl

/-- A look-up finds the first entry with the key. -/
theorem find?_ofListFirst (l : List (κ × α)) (a : κ) :
    (ofListFirst l).find? a = (l.find? fun e => compare a e.1 == .eq).map (·.2) := by
  induction l using List.reverseRecOn with
  | nil => rfl
  | append_singleton l e ih =>
    rw [ofListFirst_append, find?_insertNew, List.find?_append]
    by_cases h : compare a e.1 = .eq
    · rw [if_pos h, ← find?_congr _ h, ih]
      cases l.find? fun e => compare a e.1 == .eq <;> simp [h]
    · rw [if_neg h, ih]
      simp [h]

theorem entries_ofListFirst_map (g : α → β) (l : List (κ × α)) :
    (ofListFirst (l.map fun e => (e.1, g e.2))).entries = (ofListFirst l).entries.map fun e =>
      (e.1, g e.2) := by
  induction l using List.reverseRecOn with
  | nil => rfl
  | append_singleton l e ih =>
    have hcontains : (ofListFirst (l.map fun e => (e.1, g e.2))).contains e.1 =
        (ofListFirst l).contains e.1 := by
      simp [contains, find?, ih, List.find?_map, Function.comp_def]
    rw [List.map_append, List.map_singleton, ofListFirst_append, ofListFirst_append, insertNew,
      insertNew, hcontains]
    split
    · exact ih
    · simp only [insert, ih]
      exact insertEntry_map g e.1 e.2 _

omit [TransOrd κ] in
/-- A new key adds an entry. -/
theorem insertEntry_perm {key : κ} {value : α} {entries : List (κ × α)}
    (h : ∀ e ∈ entries, compare key e.1 ≠ .eq) :
    (insertEntry key value entries).Perm ((key, value) :: entries) := by
  induction entries with
  | nil => exact .refl _
  | cons e entries ih =>
    obtain ⟨k, v⟩ := e
    rw [insertEntry]
    split
    · exact .refl _
    next heq => exact absurd heq (h (k, v) (by simp))
    · exact ((ih fun f hf => h f (by simp [hf])).cons _).trans (.swap _ _ _)

/-- Of a list in which no two keys compare equal all entries are kept. -/
theorem entries_ofListFirst_perm {l : List (κ × α)}
    (apart : l.Pairwise fun e f => compare e.1 f.1 ≠ .eq) : (ofListFirst l).entries.Perm l := by
  induction l using List.reverseRecOn with
  | nil => exact .refl _
  | append_singleton l e ih =>
    obtain ⟨hl, -, he⟩ := List.pairwise_append.1 apart
    have hnew : ∀ f ∈ (ofListFirst l).entries, compare e.1 f.1 ≠ .eq := by
      intro f hf heq
      exact he f ((ih hl).mem_iff.1 hf) e (by simp) (OrientedCmp.eq_symm heq)
    have hcontains : (ofListFirst l).contains e.1 = false := by
      refine Bool.eq_false_iff.2 fun hc => ?_
      obtain ⟨k, hk, heq⟩ := contains_eq_true_iff.1 hc
      obtain ⟨v, hmem⟩ := mem_keys_iff.1 hk
      exact hnew (k, v) hmem heq
    rw [ofListFirst_append, insertNew, hcontains, if_neg Bool.false_ne_true]
    exact (insertEntry_perm hnew).trans
      (((ih hl).cons e).trans (List.perm_append_singleton e l).symm)

/-! ### Maps whose look-ups agree -/

section Agreement

/-- Entries in ascending order do not change, if look-ups below their first key are left out. -/
private theorem find?_tail {k : κ} {v : α} {rest : List (κ × α)} (h : KeysAscend ((k, v) :: rest))
    {a : κ} (ha : compare a k ≠ .gt) : (rest.find? fun e => compare a e.1 == .eq) = none := by
  rw [List.find?_eq_none]
  intro e he heq
  have hlt : compare k e.1 = .lt := (List.pairwise_cons.1 h).1 e he
  have hae : compare a e.1 = .eq := by simpa using heq
  rw [TransCmp.congr_left hae, OrientedCmp.gt_of_lt hlt] at ha
  exact ha rfl

/-- Maps whose look-ups are related have entries that are related one by one. -/
theorem forall₂_entries {r : α → β → Prop} {m₁ : SortedMap κ α} {m₂ : SortedMap κ β}
    (h : ∀ a, Option.Rel r (m₁.find? a) (m₂.find? a)) :
    List.Forall₂ (fun e f => compare e.1 f.1 = .eq ∧ r e.2 f.2) m₁.entries m₂.entries := by
  obtain ⟨l₁, asc₁⟩ := m₁
  obtain ⟨l₂, asc₂⟩ := m₂
  simp only [find?] at h
  induction l₁ generalizing l₂ with
  | nil =>
    cases l₂ with
    | nil => exact .nil
    | cons e _ =>
      have := h e.1
      simp [ReflCmp.compare_self] at this
  | cons e l₁ ih =>
    cases l₂ with
    | nil =>
      have := h e.1
      simp [ReflCmp.compare_self] at this
    | cons f l₂ =>
      have hef : compare e.1 f.1 = .eq := by
        cases hc : compare e.1 f.1 with
        | eq => rfl
        | lt =>
          have := h e.1
          rw [List.find?_cons, List.find?_cons, find?_tail asc₂ (by rw [hc]; decide)] at this
          simp [ReflCmp.compare_self, hc] at this
        | gt =>
          have hfe : compare f.1 e.1 = .lt := OrientedCmp.lt_of_gt hc
          have := h f.1
          rw [List.find?_cons, List.find?_cons, find?_tail asc₁ (by rw [hfe]; decide)] at this
          simp [ReflCmp.compare_self, hfe] at this
      refine .cons ⟨hef, ?_⟩ (ih (List.pairwise_cons.1 asc₁).2 l₂ (List.pairwise_cons.1 asc₂).2 ?_)
      · have := h e.1
        simpa [List.find?_cons, ReflCmp.compare_self, hef] using this
      · intro a
        by_cases ha : compare a e.1 = .eq
        · have haf : compare a f.1 = .eq := TransCmp.eq_trans ha hef
          rw [find?_tail asc₁ (by rw [ha]; decide), find?_tail asc₂ (by rw [haf]; decide)]
          exact .none
        · have haf : compare a f.1 ≠ .eq := by rwa [← TransCmp.congr_right hef]
          simpa [List.find?_cons, ha, haf] using h a

/-- Lists of related members are equal, if members that are related are equal. -/
private theorem eq_of_forall₂ {γ : Type*} {r : γ → γ → Prop} {l₁ l₂ : List γ}
    (h : List.Forall₂ r l₁ l₂) (heq : ∀ a ∈ l₁, ∀ b ∈ l₂, r a b → a = b) : l₁ = l₂ := by
  induction h with
  | nil => rfl
  | @cons a b l₁ l₂ hab _ ih =>
    rw [heq a (by simp) b (by simp) hab]
    rw [ih fun c hc d hd => heq c (by simp [hc]) d (by simp [hd])]

/-- Maps with keys of a class in which keys that compare equal are equal, and whose look-ups of such
keys agree, are the same map. -/
theorem ext_on {family : κ → Prop}
    (canonical : ∀ a b, family a → family b → compare a b = .eq → a = b) {m₁ m₂ : SortedMap κ α}
    (h₁ : ∀ k ∈ m₁.keys, family k) (h₂ : ∀ k ∈ m₂.keys, family k)
    (h : ∀ a, family a → m₁.find? a = m₂.find? a) : m₁ = m₂ := by
  have agree : ∀ a, m₁.find? a = m₂.find? a := by
    intro a
    by_cases hc : m₁.contains a = true ∨ m₂.contains a = true
    · have : ∃ k, family k ∧ compare a k = .eq := by
        rcases hc with hc | hc
        · obtain ⟨k, hk, hak⟩ := contains_eq_true_iff.1 hc
          exact ⟨k, h₁ k hk, hak⟩
        · obtain ⟨k, hk, hak⟩ := contains_eq_true_iff.1 hc
          exact ⟨k, h₂ k hk, hak⟩
      obtain ⟨k, hk, hak⟩ := this
      rw [find?_congr m₁ hak, find?_congr m₂ hak, h k hk]
    · simp only [not_or, contains, Bool.not_eq_true, Option.isSome_eq_false_iff,
        Option.isNone_iff_eq_none] at hc
      rw [hc.1, hc.2]
  have rel : List.Forall₂ (fun e f => compare e.1 f.1 = .eq ∧ e.2 = f.2) m₁.entries m₂.entries :=
    forall₂_entries fun a => by rw [agree a]; cases m₂.find? a <;> simp
  obtain ⟨l₁, _⟩ := m₁
  obtain ⟨l₂, _⟩ := m₂
  have same : l₁ = l₂ := by
    refine eq_of_forall₂ rel fun e he f hf hef => ?_
    exact Prod.ext
      (canonical _ _ (h₁ _ (List.mem_map_of_mem he)) (h₂ _ (List.mem_map_of_mem hf)) hef.1) hef.2
  cases same
  rfl

end Agreement

end SortedMap

/-! ### Sorting by a key -/

/-- A list whose members have different keys is sorted in strictly ascending order. -/
theorem pairwise_lt_mergeSort [TransOrd κ] {γ : Type*} (key : γ → κ) {l : List γ}
    (apart : l.Pairwise fun a b => compare (key a) (key b) ≠ .eq) :
    (l.mergeSort fun a b => (compare (key a) (key b)).isLE).Pairwise fun a b =>
      compare (key a) (key b) = .lt := by
  have trans : ∀ a b c, (compare (key a) (key b)).isLE = true →
      (compare (key b) (key c)).isLE = true →
      (compare (key a) (key c)).isLE = true := fun a b c => TransCmp.isLE_trans
  have total : ∀ a b, ((compare (key a) (key b)).isLE || (compare (key b) (key a)).isLE) =
      true := by
    intro a b
    have swap : compare (key b) (key a) = (compare (key a) (key b)).swap := OrientedCmp.eq_swap
    rw [swap]
    cases compare (key a) (key b) <;> rfl
  have sorted := List.pairwise_mergeSort trans total l
  have apart' := ((List.mergeSort_perm l fun a b => (compare (key a) (key b)).isLE).pairwise_iff
    fun hab hba => hab (OrientedCmp.eq_symm hba)).2 apart
  exact sorted.imp₂ (fun a b hle hne => by cases h : compare (key a) (key b) <;> simp_all) apart'

/-- Lists in strictly ascending order with the same members are the same. -/
theorem eq_of_pairwise_lt [TransOrd κ] {l₁ l₂ : List κ}
    (h₁ : l₁.Pairwise fun a b => compare a b = .lt) (h₂ : l₂.Pairwise fun a b => compare a b = .lt)
    (h : ∀ a, a ∈ l₁ ↔ a ∈ l₂) : l₁ = l₂ := by
  have irrefl : Irrefl fun a b : κ => compare a b = .lt := ⟨fun a ha => by
    have : compare a a = .eq := ReflCmp.compare_self
    rw [this] at ha
    cases ha⟩
  have antisymm : Antisymm fun a b : κ => compare a b = .lt := ⟨fun a b hab hba => by
    rw [OrientedCmp.gt_of_lt hba] at hab
    cases hab⟩
  exact h₁.eq_of_mem_iff h₂ h

/-! ### Sets -/

namespace SortedSet

variable [TransOrd κ]

theorem contains_of_mem {s : SortedSet κ} {a : κ} (h : a ∈ s.toList) : s.contains a = true :=
  SortedMap.contains_of_mem_keys h

theorem contains_add (s : SortedSet κ) (a b : κ) :
    SortedMap.contains (s.add a) b = (compare b a == .eq || s.contains b) := by
  rw [add, SortedMap.contains, SortedMap.find?_insertNew, SortedMap.contains]
  by_cases h : compare b a = .eq <;> simp [h]

theorem mem_add {s : SortedSet κ} {a b : κ} (h : b ∈ (s.add a).toList) : b = a ∨ b ∈ s.toList :=
  SortedMap.mem_keys_insertNew h

theorem contains_ofList {l : List κ} {a : κ} :
    SortedMap.contains (ofList l) a = true ↔ ∃ b ∈ l, compare a b = .eq := by
  induction l using List.reverseRecOn with
  | nil => simp [ofList, SortedMap.contains]
  | append_singleton l b ih =>
    rw [ofList, List.foldl_append, List.foldl_cons, List.foldl_nil, contains_add, Bool.or_eq_true,
      show List.foldl add SortedMap.empty l = ofList l from rfl, ih]
    simp only [beq_iff_eq, List.mem_append, List.mem_singleton]
    constructor
    · rintro (h | ⟨c, hc, h⟩)
      · exact ⟨b, .inr rfl, h⟩
      · exact ⟨c, .inl hc, h⟩
    · rintro ⟨c, hc | rfl, h⟩
      · exact .inr ⟨c, hc, h⟩
      · exact .inl h

theorem mem_ofList {l : List κ} {a : κ} (h : a ∈ (ofList l).toList) : a ∈ l := by
  induction l using List.reverseRecOn with
  | nil => simp [ofList, toList] at h
  | append_singleton l b ih =>
    rw [ofList, List.foldl_append] at h
    rcases mem_add h with rfl | h
    · simp
    · exact List.mem_append_left _ (ih h)

end SortedSet

end TemplateAtlas
