import TemplateAtlas.Proofs.Path.Address
import TemplateAtlas.Proofs.Path.Spelling

/-!
# Directories of paths in normal form

The directory of a path in normal form is in normal form, the directory of an address is the address
of the location above, and the address of a location inside a directory is made by adding its name.
-/

namespace TemplateAtlas

open TemplateAtlas.Text
open RawText (slash dot)

namespace Path

/-! ### The path above -/

theorem parent?_of_segments {p : Path} {first last : List UInt8} {body : List (List UInt8)}
    (h : p.segments = first :: (body ++ [last])) (hlast : isTrivial last = false) :
    p.parent? = some (ofSegments first (dropEndWhile isTrivial body)) :=
  parent?_of_kept h (dropEndWhile_of_getLast (by simp) hlast)

theorem dropEndWhile_map_text {steps : List Component} (h : ∀ c ∈ steps, c.IsInner) :
    dropEndWhile isTrivial (steps.map fun c => c.text.bytes) = steps.map fun c => c.text.bytes := by
  cases steps using List.reverseRecOn with
  | nil => rfl
  | append_singleton steps c =>
    exact dropEndWhile_of_getLast (c := c.text.bytes) (by simp) (text_of_isInner (h c (by simp))).2

theorem ofSegments_root {inner : List Component} :
    ofSegments [] (inner.map fun c => c.text.bytes) = ofSteps (.root :: inner) := by
  have htext : (ofSegments [] (inner.map fun c => c.text.bytes)).text.bytes =
      (ofSteps (.root :: inner)).text.bytes := by
    rw [bytes_ofSteps_root, ofSegments]
    cases inner with
    | nil => rfl
    | cons c inner => simp [List.intercalate_cons_cons]
  exact congrArg Path.mk (RawText.ext htext)

theorem ofSegments_of_isInner {c : Component} {steps : List Component}
    (h : ∀ d ∈ c :: steps, d.IsInner) :
    ofSegments c.text.bytes (steps.map fun c => c.text.bytes) = ofSteps (c :: steps) := by
  have htext : (ofSegments c.text.bytes (steps.map fun c => c.text.bytes)).text.bytes =
      (ofSteps (c :: steps)).text.bytes := by
    have hc := (text_of_isInner (h c (by simp))).2
    simp only [isTrivial, Bool.or_eq_false_iff] at hc
    rw [bytes_ofSteps_of_isInner h, ofSegments, hc.1]
    simp
  exact congrArg Path.mk (RawText.ext htext)

theorem parent?_ofSteps_root {inner : List Component} {c : Component}
    (h : ∀ d ∈ inner ++ [c], d.IsInner) :
    (ofSteps (.root :: (inner ++ [c]))).parent? = some (ofSteps (.root :: inner)) := by
  have hseg := segments_ofSteps_root h
  rw [if_neg (by simp), List.map_append, List.map_singleton] at hseg
  rw [parent?_of_segments hseg (text_of_isInner (h c (by simp))).2,
    dropEndWhile_map_text fun d hd => h d (by simp [hd]), ofSegments_root]

theorem parent?_ofSteps_of_isInner {steps : List Component} {c : Component}
    (h : ∀ d ∈ steps ++ [c], d.IsInner) :
    (ofSteps (steps ++ [c])).parent? = some (ofSteps steps) := by
  have hseg := segments_ofSteps_of_isInner h
  have hlast := (text_of_isInner (h c (by simp))).2
  cases steps with
  | nil =>
    simp only [isTrivial, Bool.or_eq_false_iff] at hlast
    rw [parent?, hseg]
    simp [dropEndWhile, hlast.1, ofSteps]
  | cons d steps =>
    have hsteps : ∀ e ∈ d :: steps, e.IsInner := fun e he => h e (List.mem_append_left _ he)
    rw [if_neg (by simp), List.cons_append, List.map_cons, List.map_append, List.map_singleton]
      at hseg
    rw [List.cons_append, parent?_of_segments hseg hlast,
      dropEndWhile_map_text fun e he => hsteps e (by simp [he]), ofSegments_of_isInner hsteps]

theorem NormalStack.tail {c : Component} {stack : List Component} (h : NormalStack (c :: stack)) :
    NormalStack stack := by
  cases h with
  | root => exact .nil
  | parent hall =>
    cases stack with
    | nil => exact .nil
    | cons d stack =>
      rw [hall d (by simp)]
      exact .parent fun e he => hall e (by simp [he])
  | name _ h => exact h

/-- The path above a normal form lacks its last step. -/
theorem parent?_ofSteps {c : Component} {stack : List Component} (h : NormalStack (c :: stack))
    (hc : c ≠ .root) : (ofSteps (c :: stack).reverse).parent? = some (ofSteps stack.reverse) := by
  rcases h.cases_reverse with ⟨inner, heq, hinner⟩ | hinner
  · rw [List.reverse_cons] at heq ⊢
    cases hstack : stack.reverse with
    | nil =>
      rw [hstack] at heq
      exact absurd (List.cons.inj heq).1 hc
    | cons d front =>
      rw [hstack] at heq
      obtain ⟨rfl, rfl⟩ := List.cons.inj heq
      exact parent?_ofSteps_root hinner
  · rw [List.reverse_cons] at hinner ⊢
    exact parent?_ofSteps_of_isInner hinner

theorem address_nil : address [] = ⟨"/"⟩ := by
  rfl

theorem parent?_address_nil : (address []).parent? = none := by
  have hseg := @segments_ofSteps_root [] (by simp)
  rw [parent?, address, List.map_nil, hseg]
  rfl

theorem parent?_address_append {place : Location} {name : RawText} (h : IsPlace (place ++ [name])) :
    (address (place ++ [name])).parent? = some (address place) := by
  rw [address, List.map_append, List.map_singleton]
  exact parent?_ofSteps_root (by simpa using isInner_of_isPlace h)

/-- The directory of a path in normal form is in normal form. -/
theorem IsNormal.directory {p : Path} (h : p.IsNormal) : p.directory.IsNormal := by
  obtain ⟨stack, hstack, rfl⟩ := h.exists_stack
  have hroot : (⟨"/"⟩ : Path).IsNormal := address_nil ▸ isNormal_address (by simp [IsPlace])
  unfold Path.directory
  cases stack with
  | nil =>
    have hseg := @segments_ofSteps_of_isInner [] (by simp)
    rw [parent?, List.reverse_nil, hseg]
    exact hroot
  | cons c stack =>
    by_cases hc : c = .root
    · cases hstack <;> cases hc
      rw [show ofSteps [Component.root].reverse = address [] from rfl, parent?_address_nil]
      exact hroot
    · rw [parent?_ofSteps hstack hc]
      exact isNormal_ofSteps hstack.tail

/-- The directory of an address is the address of the location above; that of the root is the
root. -/
theorem directory_address {place : Location} (h : IsPlace place) :
    (address place).directory = address place.dropLast := by
  cases place using List.reverseRecOn with
  | nil =>
    rw [Path.directory, parent?_address_nil, Option.getD_none, List.dropLast_nil, address_nil]
  | append_singleton place name =>
    rw [Path.directory, parent?_address_append h, Option.getD_some, List.dropLast_concat]

theorem IsAddress.directory {p : Path} (h : p.IsAddress) : p.directory.IsAddress := by
  obtain ⟨place, hplace, rfl⟩ := h
  rw [directory_address hplace]
  exact isAddress_address hplace.dropLast

/-! ### Ancestors -/

private theorem isAddress_of_mem_go {p q : Path} (n : Nat) (hp : p.IsAddress)
    (h : q ∈ ancestors.go n p) : q.IsAddress := by
  induction n generalizing p with
  | zero =>
    rw [ancestors.go, List.mem_singleton] at h
    exact h ▸ hp
  | succ n ih =>
    obtain ⟨place, hplace, rfl⟩ := hp
    rw [ancestors.go] at h
    cases place using List.reverseRecOn with
    | nil =>
      rw [parent?_address_nil] at h
      rw [List.mem_singleton.1 h]
      exact isAddress_address hplace
    | append_singleton place name =>
      rw [parent?_address_append hplace] at h
      rcases List.mem_cons.1 h with rfl | h
      · exact isAddress_address hplace
      · exact ih (isAddress_address fun n hn => hplace n (by simp [hn])) h

/-- The directories above an address have addresses. -/
theorem IsAddress.of_mem_ancestors {p q : Path} (hp : p.IsAddress) (h : q ∈ p.ancestors) :
    q.IsAddress :=
  isAddress_of_mem_go _ hp h

/-! ### Names in a directory -/

theorem isAbsolute_join {p : Path} (h : p.isAbsolute = true) (q : Path) :
    (p.join q).isAbsolute = true := by
  have happend : ∀ rest, (⟨p.text ++ rest⟩ : Path).isAbsolute = true := by
    intro rest
    simp only [isAbsolute, decide_eq_true_eq, RawText.bytes_append] at h ⊢
    rw [List.head?_append, h]
    rfl
  unfold join
  split
  next hq => exact hq
  next =>
    split
    · exact happend _
    · rw [RawText.append_assoc]
      exact happend _

/-- The text of an address: every name after a slash, or a slash alone. -/
theorem bytes_address (place : Location) :
    (address place).text.bytes = slash :: [slash].intercalate (place.map RawText.bytes) := by
  rw [address, bytes_ofSteps_root, List.map_map]
  rfl

theorem intercalate_append_singleton (sep : List UInt8) (pieces : List (List UInt8))
    (piece : List UInt8) (hne : pieces ≠ []) :
    sep.intercalate (pieces ++ [piece]) = sep.intercalate pieces ++ sep ++ piece := by
  induction pieces with
  | nil => exact absurd rfl hne
  | cons first pieces ih =>
    cases pieces with
    | nil => simp [List.intercalate_cons_cons]
    | cons second pieces =>
      rw [List.cons_append, List.cons_append, List.intercalate_cons_cons, ← List.cons_append,
        ih (by simp), List.intercalate_cons_cons]
      simp [List.append_assoc]

/-- Only the root's address ends with a slash. -/
theorem getLast?_address {place : Location} (h : IsPlace place) :
    (address place).text.bytes.getLast? = some slash ↔ place = [] := by
  cases place using List.reverseRecOn with
  | nil => simp [address_nil]
  | append_singleton front name =>
    obtain ⟨hne, hslash, -⟩ := h name (by simp)
    have hlast : (address (front ++ [name])).text.bytes.getLast? = name.bytes.getLast? := by
      rw [bytes_address, List.map_append, List.map_singleton]
      cases front with
      | nil => simp [List.getLast?_cons, List.getLast?_eq_some_getLast hne]
      | cons first front =>
        rw [intercalate_append_singleton _ _ _ (by simp)]
        simp [List.getLast?_cons, List.getLast?_append, List.getLast?_eq_some_getLast hne]
    rw [hlast]
    simp only [List.append_eq_nil_iff, List.cons_ne_self, and_false, iff_false]
    intro hslash'
    exact hslash (List.mem_of_getLast? hslash')

theorem isAbsolute_of_isName {name : RawText} (h : IsName name) :
    (⟨name⟩ : Path).isAbsolute = false := by
  rw [isAbsolute, decide_eq_false_iff_not]
  exact fun hhead => h.2.1 (List.mem_of_head? hhead)

/-- The address of a location inside a directory. -/
theorem child_address {place : Location} {name : RawText} (h : IsPlace place)
    (hname : IsName name) : (address place).child name = address (place ++ [name]) := by
  have hempty : (address place).text.isEmpty = false := by
    rw [RawText.isEmpty, bytes_address]
    rfl
  have htext : ((address place).child name).text.bytes =
      (address (place ++ [name])).text.bytes := by
    simp only [child, join, isAbsolute_of_isName hname, hempty, Bool.false_or, decide_eq_true_eq,
      Bool.false_eq_true, if_false, getLast?_address h]
    by_cases hplace : place = []
    · simp [hplace, bytes_address]
    · rw [if_neg hplace, bytes_address, List.map_append, List.map_singleton,
        intercalate_append_singleton _ _ _ (by simpa using hplace)]
      simp [bytes_address]
  exact congrArg Path.mk (RawText.ext htext)

end Path

end TemplateAtlas
