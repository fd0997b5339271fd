import Mathlib.Data.List.TakeWhile
import TemplateAtlas.Proofs.Text.Pieces

/-!
# Cutting blanks off the ends

What is cut off the end of a text are blanks, and blanks at the end make no difference to what is
left.
-/

namespace TemplateAtlas.Text

/-! ### Ends of lists -/

section Ends

variable {α : Type u} {p : α → Bool}

theorem dropEndWhile_append (cs : List α) {ds : List α} (h : ∀ d ∈ ds, p d = true) :
    dropEndWhile p (cs ++ ds) = dropEndWhile p cs := by
  have hreverse : ∀ d ∈ ds.reverse, p d = true := fun d hd => h d (List.mem_reverse.1 hd)
  rw [dropEndWhile, List.reverse_append, List.dropWhile_append_of_pos hreverse, dropEndWhile]

/-- The text is what is left, with characters that satisfy `p` behind it. -/
theorem exists_eq_dropEndWhile_append (p : α → Bool) (cs : List α) :
    ∃ ds, (∀ d ∈ ds, p d = true) ∧ cs = dropEndWhile p cs ++ ds := by
  refine ⟨(cs.reverse.takeWhile p).reverse, fun d hd =>
    List.mem_takeWhile_imp (List.mem_reverse.1 hd), ?_⟩
  rw [dropEndWhile, ← List.reverse_append, List.takeWhile_append_dropWhile, List.reverse_reverse]

theorem dropEndWhile_eq_nil {cs : List α} (h : ∀ c ∈ cs, p c = true) : dropEndWhile p cs = [] := by
  have := dropEndWhile_append [] h
  rwa [List.nil_append] at this

/-- What stands before a character that is not cut off is not cut off either. -/
theorem dropEndWhile_append_cons (cs : List α) {c : α} (h : p c = false) (ds : List α) :
    dropEndWhile p (cs ++ c :: ds) = cs ++ c :: dropEndWhile p ds := by
  unfold dropEndWhile
  rw [List.reverse_append, List.reverse_cons, List.append_assoc, List.dropWhile_append]
  split
  next hempty =>
    rw [List.isEmpty_iff.1 hempty]
    simp [h]
  next => simp

end Ends

/-! ### Blanks -/

variable {cs ds : List Char}

theorem trimEnd_append (cs : List Char) (h : ∀ d ∈ ds, isBlank d = true) :
    trimEnd (cs ++ ds) = trimEnd cs :=
  dropEndWhile_append cs h

theorem trimEnd_eq_nil (h : ∀ c ∈ cs, isBlank c = true) : trimEnd cs = [] :=
  dropEndWhile_eq_nil h

theorem trimEnd_append_cons (cs : List Char) {c : Char} (h : isBlank c = false) (ds : List Char) :
    trimEnd (cs ++ c :: ds) = cs ++ c :: trimEnd ds :=
  dropEndWhile_append_cons cs h ds

theorem trimEnd_trimEnd (cs : List Char) : trimEnd (trimEnd cs) = trimEnd cs := by
  obtain ⟨ds, hds, heq⟩ := exists_eq_dropEndWhile_append isBlank cs
  conv_rhs => rw [heq]
  exact (trimEnd_append _ hds).symm

/-- No blank is left at the end. -/
theorem getLast?_trimEnd (cs : List Char) : ∀ c ∈ (trimEnd cs).getLast?, isBlank c = false := by
  intro c hc
  have hnot := List.head?_dropWhile_not isBlank cs.reverse
  rw [trimEnd, dropEndWhile, List.getLast?_reverse] at hc
  rwa [Option.mem_def.1 hc] at hnot

/-- What a text opens with stays, if anything does. -/
theorem head?_all_trimEnd {p : Char → Bool} (h : cs.head?.all p = true) :
    (trimEnd cs).head?.all p = true := by
  obtain ⟨blanks, -, heq⟩ := exists_eq_dropEndWhile_append isBlank cs
  rw [heq] at h
  cases hd : dropEndWhile isBlank cs with
  | nil => rw [trimEnd, hd, List.head?_nil, Option.all_none]
  | cons d ds =>
    rw [hd] at h
    rw [trimEnd, hd]
    exact h

theorem isBlank_of_isIndent {c : Char} (h : isIndent c = true) : isBlank c = true := by
  rw [isIndent, Bool.or_eq_true, decide_eq_true_eq, decide_eq_true_eq] at h
  rcases h with rfl | rfl <;> decide

theorem forall_mem_of_eq_some {p : Char → Bool} {o : Option Char} {c : Char} (ho : o = some c)
    (hc : p c = false) : ∀ d ∈ o, p d = false := by
  rintro d hd
  obtain rfl : c = d := Option.some.inj (ho.symm.trans hd)
  exact hc

/-- A text is blank, or there is a first character in it that is not. -/
theorem blank_or_exists_first (cs : List Char) :
    (∀ c ∈ cs, isBlank c = true) ∨
      ∃ bs c rest, (∀ b ∈ bs, isBlank b = true) ∧ isBlank c = false ∧ cs = bs ++ c :: rest := by
  cases hrest : cs.dropWhile isBlank with
  | nil => exact .inl (List.dropWhile_eq_nil_iff.1 hrest)
  | cons c rest =>
    have hc : isBlank c = false := by
      have hne : cs.dropWhile isBlank ≠ [] := by simp [hrest]
      simpa [hrest] using List.head_dropWhile_not isBlank hne
    refine .inr ⟨cs.takeWhile isBlank, c, rest, fun b hb => List.mem_takeWhile_imp hb, hc, ?_⟩
    rw [← hrest, List.takeWhile_append_dropWhile]

theorem trimStart_append_cons {bs : List Char} (hbs : ∀ b ∈ bs, isBlank b = true) {c : Char}
    (hc : isBlank c = false) (rest : List Char) : trimStart (bs ++ c :: rest) = c :: rest := by
  rw [trimStart, List.dropWhile_append_of_pos hbs, List.dropWhile_cons_of_neg (by simp [hc])]

theorem trim_eq_nil (h : ∀ c ∈ cs, isBlank c = true) : trim cs = [] := by
  rw [trim, trimStart, List.dropWhile_eq_nil_iff.2 h]
  rfl

theorem trim_append_cons {bs : List Char} (hbs : ∀ b ∈ bs, isBlank b = true) {c : Char}
    (hc : isBlank c = false) (rest : List Char) : trim (bs ++ c :: rest) = c :: trimEnd rest := by
  rw [trim, trimStart_append_cons hbs hc]
  exact trimEnd_append_cons [] hc rest

/-- A text is what is left of it between blanks. -/
theorem exists_eq_append_trim_append (cs : List Char) :
    ∃ front back, (∀ b ∈ front, isBlank b = true) ∧ (∀ b ∈ back, isBlank b = true) ∧
      cs = front ++ (trim cs ++ back) := by
  obtain ⟨back, hback, hend⟩ := exists_eq_dropEndWhile_append isBlank (trimStart cs)
  refine ⟨cs.takeWhile isBlank, back, fun b hb => List.mem_takeWhile_imp hb, hback, ?_⟩
  calc cs = cs.takeWhile isBlank ++ trimStart cs := List.takeWhile_append_dropWhile.symm
    _ = cs.takeWhile isBlank ++ (trim cs ++ back) := congrArg _ hend

theorem trim_append (cs : List Char) (h : ∀ d ∈ ds, isBlank d = true) :
    trim (cs ++ ds) = trim cs := by
  rcases blank_or_exists_first cs with hcs | ⟨bs, c, rest, hbs, hc, rfl⟩
  · have hall : ∀ c ∈ cs ++ ds, isBlank c = true := List.forall_mem_append.2 ⟨hcs, h⟩
    rw [trim_eq_nil hall, trim_eq_nil hcs]
  · rw [trim, trim, List.append_assoc, List.cons_append, trimStart_append_cons hbs hc,
      trimStart_append_cons hbs hc, ← List.cons_append, trimEnd_append _ h]

/-- A text without blanks at its ends stays as it is. -/
theorem trim_of_ends (hfirst : ∀ c ∈ cs.head?, isBlank c = false)
    (hlast : ∀ c ∈ cs.getLast?, isBlank c = false) : trim cs = cs := by
  cases cs with
  | nil => rfl
  | cons c cs =>
    rw [trim, trimStart, List.dropWhile_cons_of_neg (by simp [hfirst c rfl])]
    obtain ⟨d, hd⟩ : ∃ d, (c :: cs).getLast? = some d :=
      ⟨_, List.getLast?_eq_getLast_of_ne_nil (by simp)⟩
    exact dropEndWhile_of_getLast hd (hlast d hd)

/-- A text that stays as it is has no blanks at its ends. -/
theorem ends_of_trim (h : trim cs = cs) :
    (∀ c ∈ cs.head?, isBlank c = false) ∧ ∀ c ∈ cs.getLast?, isBlank c = false := by
  refine ⟨?_, h ▸ getLast?_trimEnd (trimStart cs)⟩
  rcases blank_or_exists_first cs with hblank | ⟨bs, c, rest, hbs, hc, rfl⟩
  · rw [← h, trim_eq_nil hblank]
    simp
  · rw [← h, trim_append_cons hbs hc]
    exact forall_mem_of_eq_some rfl hc

/-! ### Lengths in bytes -/

theorem byteLength_append (cs ds : List Char) :
    byteLength (cs ++ ds) = byteLength cs + byteLength ds := by
  induction cs with
  | nil => simp [byteLength]
  | cons c cs ih => rw [List.cons_append, byteLength, byteLength, ih, Nat.add_assoc]

theorem byteLength_of_indent (h : ∀ c ∈ cs, isIndent c = true) : byteLength cs = cs.length := by
  induction cs with
  | nil => rfl
  | cons c cs ih =>
    have hc : c.utf8Size = 1 := by
      have := h c (by simp)
      rw [isIndent, Bool.or_eq_true, decide_eq_true_eq, decide_eq_true_eq] at this
      rcases this with rfl | rfl <;> decide
    rw [byteLength, ih fun d hd => h d (by simp [hd]), hc, List.length_cons, Nat.add_comm]

end TemplateAtlas.Text
