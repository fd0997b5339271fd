import TemplateAtlas.Report.Diagnostic
import Mathlib.Data.List.Pairwise
import Mathlib.Data.List.TakeWhile

/-!
# The order of findings

Findings are sorted by their lines, and on a line the worse come first. What is sorted can be taken
in parts, if nothing in one part comes behind anything in the next (`mergeSort_append`,
`mergeSort_flatMap`), and what can be put in strict order is sorted into that order
(`mergeSort_eq_of_strict`): findings on lines of their own into the order of these lines, in
whatever order they were found.
-/

namespace TemplateAtlas

/-! ### Sorting piece by piece -/

/-- A cut at the first member that fails a test lies in the first part, if all of the second part
fails it. -/
theorem takeWhile_dropWhile_append {α : Type} {p : α → Bool} (xs : List α) {ys : List α}
    (h : ∀ y ∈ ys, p y = false) :
    (xs ++ ys).takeWhile p = xs.takeWhile p ∧ (xs ++ ys).dropWhile p = xs.dropWhile p ++ ys := by
  induction xs with
  | nil =>
    cases ys with
    | nil => exact ⟨rfl, rfl⟩
    | cons y ys => simp [h y (by simp)]
  | cons x xs ih =>
    cases hx : p x with
    | true => simpa [hx] using ih
    | false => simp [hx]

section Sorting

variable {α β : Type} {le : α → α → Bool}
  (trans : ∀ a b c, le a b = true → le b c = true → le a c = true)
  (total : ∀ a b, (le a b || le b a) = true)
include trans total

/-- Sorting puts the first member in front of all that are not below it. -/
theorem mergeSort_cons_eq (a : α) (l : List α) :
    (a :: l).mergeSort le =
      (l.mergeSort le).takeWhile (!le a ·) ++ a :: (l.mergeSort le).dropWhile (!le a ·) := by
  obtain ⟨l₁, l₂, hcons, hl, hbelow⟩ := List.mergeSort_cons trans total a l
  have hsorted := List.pairwise_mergeSort trans total (a :: l)
  rw [hcons] at hsorted
  have habove : ∀ b ∈ l₂, (!le a b) = false := by
    intro b hb
    rw [(List.pairwise_cons.1 (List.pairwise_append.1 hsorted).2.1).1 b hb]
    rfl
  obtain ⟨htake, hdrop⟩ := takeWhile_dropWhile_append l₁ habove
  rw [hcons, hl, htake, hdrop, List.takeWhile_eq_self_iff.2 hbelow,
    List.dropWhile_eq_nil_iff.2 hbelow, List.nil_append]

/-- Where nothing in the first part comes behind anything in the second, the parts are sorted on
their own. -/
theorem mergeSort_append {xs ys : List α} (h : ∀ x ∈ xs, ∀ y ∈ ys, le x y = true) :
    (xs ++ ys).mergeSort le = xs.mergeSort le ++ ys.mergeSort le := by
  induction xs with
  | nil => simp
  | cons x xs ih =>
    have habove : ∀ y ∈ ys.mergeSort le, (!le x y) = false := by
      intro y hy
      rw [h x (by simp) y (List.mem_mergeSort.1 hy)]
      rfl
    obtain ⟨htake, hdrop⟩ := takeWhile_dropWhile_append (xs.mergeSort le) habove
    rw [List.cons_append, mergeSort_cons_eq trans total, mergeSort_cons_eq trans total,
      ih fun a ha => h a (by simp [ha]), htake, hdrop, List.append_assoc, List.cons_append]

/-- Parts that stand in order are sorted on their own. -/
theorem mergeSort_flatMap {f : β → List α} {l : List β}
    (h : l.Pairwise fun a b => ∀ x ∈ f a, ∀ y ∈ f b, le x y = true) :
    (l.flatMap f).mergeSort le = l.flatMap fun b => (f b).mergeSort le := by
  induction l with
  | nil => simp
  | cons b l ih =>
    obtain ⟨hb, hl⟩ := List.pairwise_cons.1 h
    have hafter : ∀ x ∈ f b, ∀ y ∈ l.flatMap f, le x y = true := by
      intro x hx y hy
      obtain ⟨c, hc, hy⟩ := List.mem_flatMap.1 hy
      exact hb c hc x hx y hy
    rw [List.flatMap_cons, mergeSort_append trans total hafter, ih hl, List.flatMap_cons]

/-- What can be put in strict order is sorted into that order. -/
theorem mergeSort_eq_of_strict {found sorted : List α} (h : found.Perm sorted)
    (hstrict : sorted.Pairwise fun a b => le a b = true ∧ le b a = false) :
    found.mergeSort le = sorted := by
  refine List.Perm.eq_of_pairwise ?_ (List.pairwise_mergeSort trans total found)
    (hstrict.imp And.left) ((List.mergeSort_perm found le).trans h)
  intro a b ha hb hab hba
  by_contra hne
  have hsymm : Std.Symm fun a b : α => ¬ (le a b = true ∧ le b a = true) :=
    ⟨fun _ _ h h' => h ⟨h'.2, h'.1⟩⟩
  have happart : sorted.Pairwise fun a b => ¬ (le a b = true ∧ le b a = true) :=
    hstrict.imp fun hab h' => by simp [hab.2] at h'
  exact happart.forall (h.mem_iff.1 (List.mem_mergeSort.1 ha)) hb hne ⟨hab, hba⟩

end Sorting

namespace Diagnostic

theorem comesBefore_iff {a b : Diagnostic} :
    a.comesBefore b = true ↔ a.line < b.line ∨ a.line = b.line ∧
      a.severity.rank ≤ b.severity.rank := by
  simp [comesBefore]

theorem comesBefore_trans (a b c : Diagnostic) (h : a.comesBefore b = true)
    (h' : b.comesBefore c = true) : a.comesBefore c = true := by
  rw [comesBefore_iff] at h h' ⊢
  omega

theorem comesBefore_total (a b : Diagnostic) : (a.comesBefore b || b.comesBefore a) = true := by
  rw [Bool.or_eq_true, comesBefore_iff, comesBefore_iff]
  omega

theorem comesBefore_of_line_lt {a b : Diagnostic} (h : a.line < b.line) : a.comesBefore b = true :=
  comesBefore_iff.2 (.inl h)

/-- Findings on lines of their own are sorted into the order of these lines. -/
theorem mergeSort_eq_of_perm {found sorted : List Diagnostic} (h : found.Perm sorted)
    (hlines : sorted.Pairwise fun a b => a.line < b.line) :
    found.mergeSort comesBefore = sorted := by
  refine mergeSort_eq_of_strict comesBefore_trans comesBefore_total h
    (hlines.imp fun {a b} hlt => ?_)
  refine ⟨comesBefore_of_line_lt hlt, Bool.eq_false_iff.2 fun hba => ?_⟩
  rw [comesBefore_iff] at hba
  omega

end Diagnostic

end TemplateAtlas
