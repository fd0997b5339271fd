import Mathlib.Data.List.Induction
import TemplateAtlas.Files.Roots
import TemplateAtlas.Proofs.Path.Normal

/-!
# Addresses

An address is an absolute path in normal form. Addresses and the locations of files stand for each
other: the address of a location names it step by step, and an absolute path has for its normal form
the address of the location that its steps lead to (`normalize_of_isAbsolute`).
-/

namespace TemplateAtlas

open TemplateAtlas.Text

/-- Where a step leads from a location. -/
def Component.move (place : Location) : Component → Location
  | .root => []
  | .current => place
  | .parent => place.dropLast
  | .name text => place ++ [text]

/-- A location that can be named. -/
def IsPlace (place : Location) : Prop :=
  ∀ name ∈ place, IsName name

instance (place : Location) : Decidable (IsPlace place) :=
  inferInstanceAs (Decidable (∀ name ∈ place, IsName name))

theorem IsPlace.append {place : Location} {name : RawText} (h : IsPlace place)
    (hname : IsName name) : IsPlace (place ++ [name]) := by
  simpa [IsPlace, or_imp, forall_and] using ⟨h, hname⟩

theorem IsPlace.dropLast {place : Location} (h : IsPlace place) : IsPlace place.dropLast :=
  fun name hmem => h name (List.dropLast_subset place hmem)

namespace Path

/-- The path that names a location. -/
def address (place : Location) : Path :=
  ofSteps (.root :: place.map .name)

/-- The location that the steps of an absolute path lead to. -/
def place (p : Path) : Location :=
  p.components.foldl Component.move []

/-- A path that names a location. -/
def IsAddress (p : Path) : Prop :=
  ∃ place, IsPlace place ∧ p = address place

/-! ### Addresses and locations -/

theorem isInner_of_isPlace {place : Location} (h : IsPlace place) :
    ∀ c ∈ place.map Component.name, c.IsInner := by
  intro c hc
  obtain ⟨name, hmem, rfl⟩ := List.mem_map.1 hc
  exact h name hmem

theorem components_address {place : Location} (h : IsPlace place) :
    (address place).components = .root :: place.map .name :=
  components_ofSteps_root (isInner_of_isPlace h)

theorem normalStack_of_isPlace {place : Location} (h : IsPlace place) :
    NormalStack ((place.map Component.name).reverse ++ [.root]) := by
  induction place using List.reverseRecOn with
  | nil => exact .root
  | append_singleton place name ih =>
    rw [List.map_append, List.map_singleton, List.reverse_append]
    exact .name (h name (by simp)) (ih fun n hn => h n (by simp [hn]))

theorem isNormal_address {place : Location} (h : IsPlace place) : (address place).IsNormal := by
  have := isNormal_ofSteps (normalStack_of_isPlace h)
  rwa [List.reverse_append, List.reverse_reverse] at this

/-- Steps of names alone lead to the location with these names. -/
theorem foldl_move_map_name (base place : Location) :
    (place.map Component.name).foldl Component.move base = base ++ place := by
  induction place generalizing base with
  | nil => simp
  | cons name place ih =>
    rw [List.map_cons, List.foldl_cons, ih, Component.move, List.append_assoc]; rfl

@[simp] theorem place_address {place : Location} (h : IsPlace place) :
    (address place).place = place := by
  rw [Path.place, components_address h, List.foldl_cons, foldl_move_map_name]
  rfl

theorem address_inj {a b : Location} (ha : IsPlace a) (hb : IsPlace b) (h : address a = address b) :
    a = b := by
  rw [← place_address ha, h, place_address hb]

/-- Resolving the dots of steps after the root leads where the steps lead. -/
theorem foldl_pushStep_of_isInner {steps : List Component} (h : ∀ c ∈ steps, c.IsInner)
    (base : Location) :
    steps.foldl pushStep ((base.map Component.name).reverse ++ [.root]) =
      ((steps.foldl Component.move base).map Component.name).reverse ++ [.root] := by
  induction steps generalizing base with
  | nil => rfl
  | cons c steps ih =>
    have hrest : ∀ d ∈ steps, d.IsInner := fun d hd => h d (by simp [hd])
    rw [List.foldl_cons, List.foldl_cons, ← ih hrest]
    congr 1
    cases c with
    | root => exact (h .root (by simp)).elim
    | current => exact (h .current (by simp)).elim
    | name text => simp [pushStep, Component.move]
    | parent =>
      cases base using List.reverseRecOn with
      | nil => rfl
      | append_singleton base name => simp [pushStep, Component.move]

/-- An absolute path opens with the root, and its other steps may stand inside a path. -/
theorem isAbsolute_iff {p : Path} :
    p.isAbsolute = true ↔ ∃ inner, p.components = .root :: inner ∧ ∀ c ∈ inner, c.IsInner := by
  obtain ⟨opening, hp, habsolute, -⟩ := p.components_eq_append
  rw [habsolute, hp]
  constructor
  · rintro rfl
    exact ⟨_, rfl, fun c hc => isInner_of_mem hc⟩
  · rintro ⟨inner', heq, -⟩
    cases opening with
    | some c => rw [(List.cons.inj heq).1]
    | none =>
      -- without an opening the root would stand inside
      have hroot : Component.root ∈ p.segments.filterMap innerStep? := by
        rw [show p.segments.filterMap innerStep? = .root :: inner' from heq]
        simp
      exact (isInner_of_mem hroot).elim

/-- The normal form of an absolute path is the address of the location that its steps lead to. -/
theorem normalize_of_isAbsolute {p : Path} (h : p.isAbsolute = true) :
    p.normalize = address p.place := by
  obtain ⟨inner, hp, hinner⟩ := isAbsolute_iff.1 h
  have := foldl_pushStep_of_isInner hinner []
  rw [normalize, normalSteps, Path.place, hp, List.foldl_cons, List.foldl_cons, address]
  rw [show pushStep [] .root = (([] : Location).map Component.name).reverse ++ [.root] from rfl,
    this, List.reverse_append, List.reverse_reverse]
  rfl

theorem isPlace_foldl_move {steps : List Component} (h : ∀ c ∈ steps, c.IsInner) {base : Location}
    (hbase : IsPlace base) : IsPlace (steps.foldl Component.move base) := by
  induction steps generalizing base with
  | nil => exact hbase
  | cons c steps ih =>
    refine ih (fun d hd => h d (by simp [hd])) ?_
    cases c with
    | root => exact (h .root (by simp)).elim
    | current => exact hbase
    | parent => exact hbase.dropLast
    | name text => exact hbase.append (h (.name text) (by simp))

theorem isPlace_place {p : Path} (h : p.isAbsolute = true) : IsPlace p.place := by
  obtain ⟨inner, hp, hinner⟩ := isAbsolute_iff.1 h
  rw [Path.place, hp, List.foldl_cons]
  exact isPlace_foldl_move hinner (by simp [Component.move, IsPlace])

theorem isAbsolute_address {place : Location} (h : IsPlace place) :
    (address place).isAbsolute = true :=
  isAbsolute_iff.2 ⟨_, components_address h, isInner_of_isPlace h⟩

theorem isAddress_address {place : Location} (h : IsPlace place) : (address place).IsAddress :=
  ⟨place, h, rfl⟩

/-- Addresses are the absolute paths in normal form. -/
theorem isAddress_iff {p : Path} : p.IsAddress ↔ p.isAbsolute = true ∧ p.IsNormal := by
  constructor
  · rintro ⟨place, h, rfl⟩
    exact ⟨isAbsolute_address h, isNormal_address h⟩
  · rintro ⟨habsolute, hnormal⟩
    exact ⟨p.place, isPlace_place habsolute, by rw [← normalize_of_isAbsolute habsolute, hnormal]⟩

theorem isAddress_normalize {p : Path} (h : p.isAbsolute = true) : p.normalize.IsAddress :=
  normalize_of_isAbsolute h ▸ isAddress_address (isPlace_place h)

theorem IsAddress.isNormal {p : Path} (h : p.IsAddress) : p.IsNormal :=
  (isAddress_iff.1 h).2

/-- Addresses of one location are the same. -/
theorem IsAddress.place_inj {p q : Path} (hp : p.IsAddress) (hq : q.IsAddress) :
    p.place = q.place ↔ p = q := by
  obtain ⟨a, ha, rfl⟩ := hp
  obtain ⟨b, hb, rfl⟩ := hq
  rw [place_address ha, place_address hb]
  exact ⟨congrArg address, address_inj ha hb⟩

end Path

end TemplateAtlas
