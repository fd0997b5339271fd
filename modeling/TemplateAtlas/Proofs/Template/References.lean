import Mathlib.Data.List.Pairwise
import Mathlib.Data.List.Sort
import TemplateAtlas.Template.Reference

/-!
# The references of a text, line by line

A line makes one reference at most. So the references of a text stand in the order of their lines
(`pairwise_references`), and those on a line are what this line makes (`mem_references_iff`,
`filter_line_references`).
-/

namespace TemplateAtlas.Template

open TemplateAtlas.Text

variable {line : List Char} {number : Nat} {r : TemplateReference}

theorem line_of_referenceOfLine? (h : referenceOfLine? line number = some r) : r.line = number := by
  unfold referenceOfLine? at h
  split at h
  · cases h
  · split at h
    · cases h
    · cases h
      rfl

theorem mem_references_iff {text : String} :
    r ∈ references text ↔ ∃ line, (linesOf text)[r.line]? = some line ∧
      referenceOfLine? line r.line = some r := by
  simp only [references, referencesIn, List.mem_filterMap, Prod.exists,
    List.mem_zipIdx_iff_getElem?]
  constructor
  · rintro ⟨line, number, hline, hr⟩
    obtain rfl := line_of_referenceOfLine? hr
    exact ⟨line, hline, hr⟩
  · rintro ⟨line, hline, hr⟩
    exact ⟨line, r.line, hline, hr⟩

/-- References stand in the order of their lines. -/
theorem pairwise_references (text : String) :
    (references text).Pairwise fun r r' => r.line < r'.line := by
  have hnumbers : (linesOf text).zipIdx.Pairwise fun e e' => e.2 < e'.2 := by
    rw [← List.pairwise_map (f := Prod.snd) (R := (· < ·)), List.zipIdx_map_snd]
    exact List.pairwise_lt_range'
  refine List.pairwise_filterMap.2 (hnumbers.imp fun {e e'} hlt r hr r' hr' => ?_)
  rw [line_of_referenceOfLine? hr, line_of_referenceOfLine? hr']
  exact hlt

/-- The references on a line are what this line makes. -/
theorem filter_line_references (text : String) (number : Nat) :
    (references text).filter (·.line = number) =
      ((linesOf text)[number]?.bind (referenceOfLine? · number)).toList := by
  have irrefl : Std.Irrefl fun r r' : TemplateReference => r.line < r'.line :=
    ⟨fun _ => Nat.lt_irrefl _⟩
  have antisymm : Std.Antisymm fun r r' : TemplateReference => r.line < r'.line :=
    ⟨fun _ _ h h' => absurd h (Nat.lt_asymm h')⟩
  have hone : ∀ r? : Option TemplateReference, r?.toList.Pairwise fun r r' => r.line < r'.line := by
    intro r?
    cases r? <;> simp
  refine ((pairwise_references text).filter _).eq_of_mem_iff (hone _) fun r => ?_
  rw [List.mem_filter, mem_references_iff, decide_eq_true_iff, Option.mem_toList,
    Option.bind_eq_some_iff]
  constructor
  · rintro ⟨hr, rfl⟩
    exact hr
  · rintro ⟨line, hline, hr⟩
    obtain rfl := line_of_referenceOfLine? hr
    exact ⟨⟨line, hline, hr⟩, rfl⟩

end TemplateAtlas.Template
