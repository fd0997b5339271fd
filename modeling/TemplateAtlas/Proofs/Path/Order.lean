import TemplateAtlas.Path.Basic
import TemplateAtlas.Proofs.Path.RawText

/-!
# The order of paths

Two paths compare equal exactly when they have the same components, which is also what their
equality test says.
-/

namespace TemplateAtlas

open Std

theorem Component.rank_injective : Function.Injective Component.rank := by
  intro c d h
  have toNat_injective : Function.Injective UInt8.toNat := fun _ _ => UInt8.toNat_inj.1
  cases c <;> cases d <;> simp [rank] at h ⊢
  exact RawText.ext (List.map_injective_iff.2 toNat_injective h)

namespace Path

theorem beq_iff {p q : Path} : (p == q) = true ↔ p.components = q.components := by
  show (p.components == q.components) = true ↔ _
  exact beq_iff_eq

theorem compare_eq_iff {p q : Path} : compare p q = .eq ↔ p.components = q.components := by
  show compare p.rank q.rank = .eq ↔ _
  rw [Std.compare_eq_iff_eq, rank, rank]
  exact ⟨fun h => List.map_injective_iff.2 Component.rank_injective h, fun h => by rw [h]⟩

instance : LawfulBEqOrd Path where
  compare_eq_iff_beq := by
    intro p q
    rw [compare_eq_iff, beq_iff]

theorem compare_beq_eq (p q : Path) : (compare p q == .eq) = (p == q) := by
  rw [Bool.eq_iff_iff, beq_iff_eq, compare_eq_iff, beq_iff]

/-- Paths in strict order are different paths. -/
theorem beq_eq_false_of_lt {p q : Path} (h : compare p q = .lt) : (p == q) = false := by
  rw [← compare_beq_eq, h]
  rfl

instance : EquivBEq Path where
  rfl := beq_iff.2 rfl
  symm h := beq_iff.2 (beq_iff.1 h).symm
  trans h₁ h₂ := beq_iff.2 ((beq_iff.1 h₁).trans (beq_iff.1 h₂))

end Path

end TemplateAtlas
