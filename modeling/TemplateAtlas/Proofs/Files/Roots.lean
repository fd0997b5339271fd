import TemplateAtlas.Proofs.Path.Directory

/-!
# Roots of repositories

The directories above an address are the addresses of the locations above it, nearest first. So the
root of a repository at or above a location is the longest location on the way to it in which a
repository begins, or the location itself if there is none (`FileTree.RootOf`,
`FileTree.rootAbove_address`).
-/

namespace TemplateAtlas

namespace Path

/-- Looking for a marked directory at or above an address, far enough up, finds the nearest one. -/
theorem find?_go_address (marked : Path → Bool) {place : Location} (h : IsPlace place) {n : Nat}
    (hn : place.length ≤ n) :
    (∃ top, top <+: place ∧ marked (address top) = true ∧
        (∀ other, other <+: place → top.length < other.length → marked (address other) = false) ∧
        (ancestors.go n (address place)).find? marked = some (address top)) ∨
      ((∀ other, other <+: place → marked (address other) = false) ∧
        (ancestors.go n (address place)).find? marked = none) := by
  induction place using List.reverseRecOn generalizing n with
  | nil =>
    have hgo : ancestors.go n (address []) = [address []] := by
      cases n with
      | zero => rfl
      | succ n => rw [ancestors.go, parent?_address_nil]
    rw [hgo, List.find?_singleton]
    cases hmarked : marked (address []) with
    | true => exact .inl ⟨[], List.prefix_rfl, hmarked, by simp, rfl⟩
    | false => exact .inr ⟨by simpa using hmarked, rfl⟩
  | append_singleton place name ih =>
    obtain ⟨n, rfl⟩ : ∃ k, n = k + 1 := ⟨n - 1, by simp at hn; omega⟩
    rw [ancestors.go, parent?_address_append h, List.find?_cons]
    cases hmarked : marked (address (place ++ [name])) with
    | true =>
      refine .inl ⟨place ++ [name], List.prefix_rfl, hmarked, fun other hother hlonger => ?_, rfl⟩
      exact absurd hother.length_le (by omega)
    | false =>
      rcases ih (fun n hn => h n (by simp [hn])) (by simpa using hn) with
        ⟨top, htop, htopMarked, hnearest, hfind⟩ | ⟨hnone, hfind⟩
      · refine .inl ⟨top, htop.trans (List.prefix_append _ _), htopMarked,
          fun other hother hlonger => ?_, hfind⟩
        rcases List.prefix_concat_iff.1 hother with rfl | hother
        · exact hmarked
        · exact hnearest other hother hlonger
      · refine .inr ⟨fun other hother => ?_, hfind⟩
        rcases List.prefix_concat_iff.1 hother with rfl | hother
        · exact hmarked
        · exact hnone other hother

end Path

namespace FileTree

/-- The root of the repository of what lies in a directory, both given by their locations. -/
inductive RootOf (tree : FileTree) (place : Location) : Location → Prop where
  /-- The nearest location, at or above that of the directory, in which a repository begins. -/
  | marked {root : Location} : root <+: place → tree.isRepositoryRoot (.address root) = true →
    (∀ other, other <+: place → root.length < other.length →
      tree.isRepositoryRoot (.address other) = false) →
      RootOf tree place root
  /-- The directory itself, if a repository begins nowhere on the way to it. -/
  | own : (∀ other, other <+: place → tree.isRepositoryRoot (.address other) = false) →
      RootOf tree place place

variable {tree : FileTree} {place root : Location}

theorem RootOf.isPrefix (h : tree.RootOf place root) : root <+: place := by
  cases h with
  | marked hprefix => exact hprefix
  | own => exact List.prefix_rfl

/-- A directory has one root. -/
theorem RootOf.unique {root' : Location} (h : tree.RootOf place root)
    (h' : tree.RootOf place root') : root = root' := by
  cases h with
  | marked hprefix hmarked hnearest =>
    cases h' with
    | marked hprefix' hmarked' hnearest' =>
      have hle : ¬root.length < root'.length := fun hlt => by
        rw [hnearest _ hprefix' hlt] at hmarked'
        cases hmarked'
      have hge : ¬root'.length < root.length := fun hlt => by
        rw [hnearest' _ hprefix hlt] at hmarked
        cases hmarked
      exact (List.prefix_of_prefix_length_le hprefix hprefix' (by omega)).eq_of_length (by omega)
    | own hnone =>
      rw [hnone _ hprefix] at hmarked
      cases hmarked
  | own hnone =>
    cases h' with
    | marked hprefix' hmarked' =>
      rw [hnone _ hprefix'] at hmarked'
      cases hmarked'
    | own => rfl

/-- The root above an address is found at the root of the directory. -/
theorem exists_rootOf (tree : FileTree) (h : IsPlace place) :
    ∃ root, tree.RootOf place root ∧ tree.rootAbove (.address place) = .address root := by
  have hlevels : place.length ≤ (Path.address place).components.length := by
    simp [Path.components_address h]
  rcases Path.find?_go_address tree.isRepositoryRoot h hlevels with
    ⟨root, hprefix, hmarked, hnearest, hfind⟩ | ⟨hnone, hfind⟩
  · exact ⟨root, .marked hprefix hmarked hnearest, by rw [rootAbove, Path.ancestors, hfind,
      Option.getD_some]⟩
  · exact ⟨place, .own hnone, by rw [rootAbove, Path.ancestors, hfind, Option.getD_none]⟩

theorem rootAbove_address (h : IsPlace place) (hroot : tree.RootOf place root) :
    tree.rootAbove (.address place) = .address root := by
  obtain ⟨root', hroot', habove⟩ := tree.exists_rootOf h
  rw [habove, hroot.unique hroot']

end FileTree

end TemplateAtlas
