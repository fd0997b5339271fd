import TemplateAtlas.Proofs.Text.Blank
import TemplateAtlas.Template.Argument

/-!
# Comments

A line without its comment has no comment (`stripComment_stripComment`), and a line carries nothing
exactly when nothing is left of it (`isIgnorable_iff`). A comment that is appended where no quote is
open leaves nothing behind (`stripComment_append_comment`).
-/

namespace TemplateAtlas.Template

open TemplateAtlas.Text

/-! ### The scan of a line -/

section Scan

variable {q : Quoting} {afterBlank : Bool} {cs ds : List Char}

/-- Which quotes are open after a text. -/
def Quoting.after (q : Quoting) (cs : List Char) : Quoting :=
  cs.foldl step q

/-- Does the text end in a blank? `afterBlank` tells whether a blank stands before it. -/
def endsInBlank (afterBlank : Bool) (cs : List Char) : Bool :=
  cs.foldl (fun _ c => isBlank c) afterBlank

theorem Quoting.step_of_isBlank (q : Quoting) {c : Char} (h : isBlank c = true) : q.step c = q := by
  have hsingle : c ≠ '\x27' := by rintro rfl; revert h; decide
  have hdouble : c ≠ '\x22' := by rintro rfl; revert h; decide
  simp [step, hsingle, hdouble]

theorem Quoting.after_of_blank (q : Quoting) (h : ∀ c ∈ cs, isBlank c = true) : q.after cs = q := by
  induction cs with
  | nil => rfl
  | cons c cs ih =>
    have hstep : q.after (c :: cs) = (q.step c).after cs := rfl
    rw [hstep, q.step_of_isBlank (h c (by simp)), ih fun d hd => h d (by simp [hd])]

theorem endsInBlank_of_blank (h : ∀ c ∈ cs, isBlank c = true) : endsInBlank true cs = true := by
  rcases List.eq_nil_or_concat cs with rfl | ⟨front, c, rfl⟩
  · rfl
  · simpa [endsInBlank] using h c (by simp)

/-- The scan of a text goes on behind it, unless it meets a comment. -/
theorem cutComment_append (q : Quoting) (afterBlank : Bool) (cs ds : List Char) :
    cutComment q afterBlank (cs ++ ds) =
      if cutComment q afterBlank cs =
        cs then cs ++ cutComment (q.after cs) (endsInBlank afterBlank cs) ds
      else cutComment q afterBlank cs := by
  induction cs generalizing q afterBlank with
  | nil => rfl
  | cons c cs ih =>
    by_cases hstop : (c = '#' && !q.isOpen && afterBlank) = true
    · simp [cutComment, hstop]
    · simp only [List.cons_append, cutComment, hstop, if_false, Bool.false_eq_true,
        List.cons.injEq, true_and, ih]
      split
      · rfl
      · rfl

/-- Blanks start no comment. -/
theorem cutComment_of_blank (q : Quoting) (afterBlank : Bool) (h : ∀ c ∈ cs, isBlank c = true) :
    cutComment q afterBlank cs = cs := by
  induction cs generalizing afterBlank with
  | nil => rfl
  | cons c cs ih =>
    have hc : isBlank c = true := h c (by simp)
    have hhash : c ≠ '#' := by rintro rfl; revert hc; decide
    rw [cutComment, q.step_of_isBlank hc, ih _ fun d hd => h d (by simp [hd])]
    simp [hhash]

/-- What is left of a text has no comment. -/
theorem cutComment_cutComment (q : Quoting) (afterBlank : Bool) (cs : List Char) :
    cutComment q afterBlank (cutComment q afterBlank cs) = cutComment q afterBlank cs := by
  induction cs generalizing q afterBlank with
  | nil => rfl
  | cons c cs ih =>
    by_cases hstop : (c = '#' && !q.isOpen && afterBlank) = true
    · simp [cutComment, hstop]
    · simp [cutComment, hstop, ih]

/-- No text has more characters left than it had. -/
theorem length_cutComment_le (q : Quoting) (afterBlank : Bool) (cs : List Char) :
    (cutComment q afterBlank cs).length ≤ cs.length := by
  induction cs generalizing q afterBlank with
  | nil => exact Nat.le_refl 0
  | cons c cs ih =>
    rw [cutComment]
    split
    · simp
    · simpa using ih (q.step c) (isBlank c)

/-- The beginning of a text without a comment has none. -/
theorem cutComment_of_append (h : cutComment q afterBlank (cs ++ ds) = cs ++ ds) :
    cutComment q afterBlank cs = cs := by
  by_contra hcut
  rw [cutComment_append, if_neg hcut] at h
  have hlength := length_cutComment_le q afterBlank cs
  have hds : ds = [] := by
    rw [h, List.length_append] at hlength
    exact List.length_eq_zero_iff.1 (by omega)
  rw [hds, List.append_nil] at h
  exact hcut h

end Scan

/-! ### Lines without their comments -/

section Strip

variable {line : List Char}

/-- Blanks at the end of a line say nothing. -/
theorem stripComment_append_blanks (line : List Char) {bs : List Char}
    (h : ∀ b ∈ bs, isBlank b = true) : stripComment (line ++ bs) = stripComment line := by
  rw [stripComment, cutComment_append]
  split
  next hcut => rw [cutComment_of_blank _ _ h, trimEnd_append _ h, stripComment, hcut]
  next => rw [stripComment]

@[simp] theorem stripComment_stripComment (line : List Char) :
    stripComment (stripComment line) = stripComment line := by
  obtain ⟨bs, hbs, heq⟩ := exists_eq_dropEndWhile_append isBlank (cutComment {} true line)
  have hkeep : cutComment {} true (stripComment line ++ bs) = stripComment line ++ bs := by
    have := cutComment_cutComment {} true line
    rwa [heq] at this
  have htrim : trimEnd (cutComment {} true line) = trimEnd (stripComment line) := by
    conv_lhs => rw [heq]
    exact trimEnd_append _ hbs
  rw [stripComment, cutComment_of_append hkeep, ← htrim, stripComment]

@[simp] theorem stripComment_dropReturns (line : List Char) :
    stripComment (dropReturns line) = stripComment line := by
  obtain ⟨rs, hrs, heq⟩ := exists_eq_dropEndWhile_append (· = '\r') line
  have hblank : ∀ r ∈ rs, isBlank r = true := by
    intro r hr
    rw [of_decide_eq_true (hrs r hr)]
    decide
  conv_rhs => rw [heq, stripComment_append_blanks _ hblank]
  rfl

/-- A line carries nothing, if nothing is left of it. -/
theorem isIgnorable_iff : isIgnorable line = true ↔ stripComment line = [] := by
  rcases blank_or_exists_first line with hblank | ⟨bs, c, rest, hbs, hc, rfl⟩
  · rw [isIgnorable, trim_eq_nil hblank, stripComment, cutComment_of_blank _ _ hblank,
      trimEnd_eq_nil hblank]
    simp
  · have hafter := endsInBlank_of_blank hbs
    have hopen : (({} : Quoting).after bs).isOpen = false := by
      rw [Quoting.after_of_blank _ hbs]
      rfl
    rw [isIgnorable, trim_append_cons hbs hc, stripComment, cutComment_append,
      if_pos (cutComment_of_blank _ _ hbs), hafter, cutComment, hopen]
    by_cases hhash : c = '#'
    · simp [hhash, trimEnd_eq_nil hbs]
    · simp [hhash, trimEnd_append_cons bs hc]

@[simp] theorem isIgnorable_stripComment (line : List Char) :
    isIgnorable (stripComment line) = isIgnorable line := by
  rw [Bool.eq_iff_iff, isIgnorable_iff, isIgnorable_iff, stripComment_stripComment]

@[simp] theorem isIgnorable_dropReturns (line : List Char) :
    isIgnorable (dropReturns line) = isIgnorable line := by
  rw [Bool.eq_iff_iff, isIgnorable_iff, isIgnorable_iff, stripComment_dropReturns]

/-- Is every quote of the line closed where it ends or its comment starts? -/
def endsOutsideQuotes (line : List Char) : Bool :=
  !(({} : Quoting).after (cutComment {} true line)).isOpen

/-- A comment that is appended outside quotes leaves the line as it was. -/
theorem stripComment_append_comment (h : endsOutsideQuotes line = true) (text : List Char) :
    stripComment (line ++ ' ' :: '#' :: text) = stripComment line := by
  rw [stripComment, cutComment_append]
  split
  next hcut =>
    have hopen : (({} : Quoting).after line).isOpen = false := by
      rwa [endsOutsideQuotes, hcut, Bool.not_eq_true'] at h
    have hcomment : cutComment (({} : Quoting).after line) (endsInBlank true line)
        (' ' :: '#' :: text) = [' '] := by
      have hblank : isBlank ' ' = true := by decide
      simp [cutComment, Quoting.step_of_isBlank _ hblank, hblank, hopen]
    rw [hcomment, trimEnd_append _ (by simp; decide), stripComment, hcut]
  next => rw [stripComment]

end Strip

end TemplateAtlas.Template
