import Mathlib.Logic.Relation
import TemplateAtlas.Proofs.Path.Directory

/-!
# Detours

The normal form of a path keeps the names that the steps lead to, and double dots only where a
relative path leaves the directory that it is read in (`Path.components_normalize_eq`). It is built
up one step after the other on a stack, so what is read in a directory depends on the directory by
its stack alone (`Path.stack_join`), and a detour, a dot or a name that two dots take back at once,
leaves every stack as it is (`Path.Detour.foldl_pushStep`). This makes the normal form the same for
all spellings of a path with any number of detours (`Path.normalize_of_detours`).
-/

namespace TemplateAtlas

open Relation TemplateAtlas.Text
open RawText (dot)

namespace Path

/-! ### Stacks -/

/-- The steps of the normal form of a path, the last one first. -/
def stack (p : Path) : List Component :=
  p.components.foldl pushStep []

/-- The steps that a path states after a root or an opening dot. -/
def innerSteps (p : Path) : List Component :=
  p.segments.filterMap innerStep?

theorem isInner_of_mem_innerSteps {p : Path} : ∀ c ∈ p.innerSteps, c.IsInner :=
  fun _ hc => isInner_of_mem hc

theorem innerSteps_of_isName {name : RawText} (h : IsName name) :
    innerSteps ⟨name⟩ = [.name name] := by
  have hsegments : segments ⟨name⟩ = [name.bytes] := splitOn_of_notMem h.2.1
  have hstep : innerStep? name.bytes = some (.name name) := @innerStep?_text (.name name) h
  rw [innerSteps, hsegments, List.filterMap_cons_some hstep, List.filterMap_nil]

theorem normalize_eq_ofSteps (p : Path) : p.normalize = ofSteps p.stack.reverse := rfl

/-- The steps of a path are piled up on the root for an absolute path, and on nothing for a relative
one. -/
theorem stack_eq (p : Path) :
    p.stack = p.innerSteps.foldl pushStep (if p.isAbsolute then [.root] else []) := by
  obtain ⟨opening, hp, habsolute, hopening⟩ := p.components_eq_append
  have hrelative : opening ≠ some .root → p.isAbsolute = false := fun h =>
    Bool.eq_false_iff.2 (mt habsolute.1 h)
  rw [stack, hp, List.foldl_append, innerSteps]
  congr 1
  cases opening with
  | none => simp [hrelative]
  | some c =>
    rcases hopening c rfl with rfl | rfl
    · rw [habsolute.2 rfl]
      rfl
    · simp [hrelative, pushStep]

/-- Two paths have the same normal form, if their steps make the same stack. -/
theorem normalize_eq_iff {p q : Path} : p.normalize = q.normalize ↔ p.stack = q.stack := by
  constructor
  · intro h
    have := congrArg components h
    rwa [components_normalize, components_normalize, normalSteps, normalSteps, List.reverse_inj]
      at this
  · intro h
    rw [normalize_eq_ofSteps, h, normalize_eq_ofSteps]

@[simp] theorem stack_normalize (p : Path) : p.normalize.stack = p.stack :=
  normalize_eq_iff.1 p.normalize_normalize

/-- What is read in a directory is piled up on the stack of the directory. -/
theorem stack_join (p : Path) {q : Path} (h : q.isAbsolute = false) :
    (p.join q).stack = q.innerSteps.foldl pushStep p.stack := by
  by_cases hp : p.text = ""
  · have hjoin : p.join q = q := by simp [join, h, hp]
    have hstack : p.stack = [] := by rw [stack, components_eq_nil_iff.2 hp, List.foldl_nil]
    rw [hjoin, hstack, stack_eq, h]
    rfl
  · rw [stack, components_join hp h, List.foldl_append]
    rfl

/-- What is read in a directory has the same normal form as what is read in the normal form of the
directory. -/
theorem normalize_join (p q : Path) : (p.normalize.join q).normalize = (p.join q).normalize := by
  cases h : q.isAbsolute with
  | true => simp [join, h]
  | false => rw [normalize_eq_iff, stack_join _ h, stack_join _ h, stack_normalize]

theorem normalize_join_congr {p p' : Path} (h : p.normalize = p'.normalize) (q : Path) :
    (p.join q).normalize = (p'.join q).normalize := by
  rw [← normalize_join, h, normalize_join]

/-- What is read in an absolute directory leads from where the directory is. -/
theorem place_join {p q : Path} (hp : p.isAbsolute = true) (hq : q.isAbsolute = false) :
    (p.join q).place = q.innerSteps.foldl Component.move p.place := by
  have hne : p.text ≠ "" := by
    intro hp'
    rw [isAbsolute, hp'] at hp
    cases hp
  rw [place, components_join hne hq, List.foldl_append]
  rfl

theorem normalize_join_of_isAbsolute {p q : Path} (hp : p.isAbsolute = true)
    (hq : q.isAbsolute = false) :
    (p.join q).normalize = address (q.innerSteps.foldl Component.move p.place) := by
  rw [normalize_of_isAbsolute (isAbsolute_join hp q), place_join hp hq]

/-- Absolute paths have the same normal form, if they lead to the same place. -/
theorem normalize_eq_iff_place_eq {p q : Path} (hp : p.isAbsolute = true)
    (hq : q.isAbsolute = true) : p.normalize = q.normalize ↔ p.place = q.place := by
  rw [normalize_of_isAbsolute hp, normalize_of_isAbsolute hq]
  exact ⟨address_inj (isPlace_place hp) (isPlace_place hq), congrArg address⟩

/-! ### The shape of normal forms -/

theorem isInner_foldl_pushStep {steps base : List Component} (h : ∀ c ∈ steps, c.IsInner)
    (hbase : ∀ c ∈ base, c.IsInner) : ∀ c ∈ steps.foldl pushStep base, c.IsInner := by
  induction steps generalizing base with
  | nil => exact hbase
  | cons c steps ih =>
    rw [List.forall_mem_cons] at h
    refine ih h.2 ?_
    cases c with
    | root => exact h.1.elim
    | current => exact hbase
    | name text => exact List.forall_mem_cons.2 ⟨h.1, hbase⟩
    | parent =>
      cases base with
      | nil => exact List.forall_mem_singleton.2 h.1
      | cons d base =>
        rw [List.forall_mem_cons] at hbase
        cases d with
        | root => exact hbase.1.elim
        | current => exact hbase.1.elim
        | parent => exact List.forall_mem_cons.2 ⟨h.1, List.forall_mem_cons.2 hbase⟩
        | name text => exact hbase.2

@[simp] theorem isAbsolute_normalize (p : Path) : p.normalize.isAbsolute = p.isAbsolute := by
  cases h : p.isAbsolute with
  | true => exact (isAddress_iff.1 (isAddress_normalize h)).1
  | false =>
    rw [normalize_eq_ofSteps]
    refine isAbsolute_ofSteps_of_isInner fun c hc => ?_
    rw [stack_eq, h] at hc
    exact isInner_foldl_pushStep isInner_of_mem_innerSteps (by simp) c (List.mem_reverse.1 hc)

/-- Steps without a root that stand for themselves are double dots and then names. -/
theorem NormalStack.exists_eq_append {stack : List Component} (h : NormalStack stack)
    (hinner : ∀ c ∈ stack, c.IsInner) :
    ∃ n place, IsPlace place ∧ stack.reverse = List.replicate n .parent ++ place.map .name := by
  induction h with
  | nil => exact ⟨0, [], by simp [IsPlace], rfl⟩
  | root => exact (hinner .root (by simp)).elim
  | @parent stack hall =>
    refine ⟨stack.length + 1, [], by simp [IsPlace], ?_⟩
    rw [List.reverse_cons, List.eq_replicate_of_mem hall, List.reverse_replicate,
      List.length_replicate, ← List.replicate_succ']
    simp
  | @name text stack hname _ ih =>
    obtain ⟨n, place, hplace, heq⟩ := ih fun c hc => hinner c (List.mem_cons_of_mem _ hc)
    refine ⟨n, place ++ [text], hplace.append hname, ?_⟩
    rw [List.reverse_cons, heq, List.append_assoc, List.map_append, List.map_singleton]

/-- The steps of a normal form: the root of an absolute path, or some double dots of a relative one,
and then names. -/
theorem components_normalize_eq (p : Path) :
    ∃ n place, IsPlace place ∧ p.normalize.components =
      (if p.isAbsolute then [.root] else List.replicate n .parent) ++ place.map .name := by
  cases h : p.isAbsolute with
  | true =>
    have hplace := isPlace_place h
    exact ⟨0, p.place, hplace, by rw [normalize_of_isAbsolute h, components_address hplace]; rfl⟩
  | false =>
    have hinner : ∀ c ∈ p.stack, c.IsInner := by
      rw [stack_eq, h]
      exact isInner_foldl_pushStep isInner_of_mem_innerSteps (by simp)
    obtain ⟨n, place, hplace, heq⟩ := (normalStack_components p).exists_eq_append hinner
    exact ⟨n, place, hplace, by rw [components_normalize, normalSteps, heq]; rfl⟩

/-! ### Detours -/

/-- Segments that lead nowhere. -/
inductive Detour : List (List UInt8) → Prop where
  /-- A dot. -/
  | still : Detour [[dot]]
  /-- A name, and two dots that take it back. -/
  | back {name : RawText} : IsName name → Detour [name.bytes, [dot, dot]]

/-- A detour leaves every stack as it is. -/
theorem Detour.foldl_pushStep {detour : List (List UInt8)} (h : Detour detour)
    (base : List Component) : (detour.filterMap innerStep?).foldl pushStep base = base := by
  cases h with
  | still => rfl
  | @back name hname =>
    have hsteps : [name.bytes, [dot, dot]].filterMap innerStep? = [.name name, .parent] :=
      @filterMap_innerStep?_text [.name name, .parent] (by simpa [Component.IsInner] using hname)
    rw [hsteps]
    rfl

/-- What stands between the slashes of a path. -/
def parts (p : Path) : List (List UInt8) :=
  p.segments.filter (!·.isEmpty)

theorem filterMap_parts (p : Path) : p.parts.filterMap innerStep? = p.innerSteps := by
  rw [parts, innerSteps, List.filterMap_filter]
  refine List.filterMap_congr fun segment _ => ?_
  cases segment <;> rfl

/-- Is the second path the first with a detour in front of its parts, behind them or between two of
them? An absolute path stays absolute, and a relative one relative. -/
def AddsDetour (p q : Path) : Prop :=
  ∃ front detour back, Detour detour ∧ p.parts = front ++ back ∧ q.parts = front ++ detour ++ back ∧
    q.isAbsolute = p.isAbsolute

theorem AddsDetour.stack_eq {p q : Path} (h : p.AddsDetour q) : q.stack = p.stack := by
  obtain ⟨front, detour, back, hdetour, hp, hq, habsolute⟩ := h
  rw [Path.stack_eq, Path.stack_eq, ← filterMap_parts, ← filterMap_parts, hp, hq, habsolute]
  simp only [List.filterMap_append, List.foldl_append, hdetour.foldl_pushStep]

/-- Detours do not change the normal form. -/
theorem normalize_of_detours {p q : Path} (h : ReflTransGen AddsDetour p q) :
    q.normalize = p.normalize := by
  induction h with
  | refl => rfl
  | tail _ hstep ih => rw [normalize_eq_iff.2 hstep.stack_eq, ih]

/-- The normal form of a path is the text of a root or of double dots, for an absolute or a relative
path, and of names. It is absolute when the path is and its own normal form, what is read in it has
the normal form of what is read in the path, and no detours in the path change it. -/
theorem normalize_is_canonical (p : Path) :
    (∃ n place, IsPlace place ∧
      p.normalize.components = (if p.isAbsolute then [.root] else List.replicate n .parent) ++
        place.map .name ∧
      p.normalize = ofSteps p.normalize.components) ∧
      p.normalize.isAbsolute = p.isAbsolute ∧
      p.normalize.normalize = p.normalize ∧
      (∀ q : Path, (p.normalize.join q).normalize = (p.join q).normalize) ∧
      ∀ q, ReflTransGen AddsDetour p q → q.normalize = p.normalize := by
  obtain ⟨n, place, hplace, hcomponents⟩ := p.components_normalize_eq
  have htext : p.normalize = ofSteps p.normalize.components := by
    rw [components_normalize]
    rfl
  exact ⟨⟨n, place, hplace, hcomponents, htext⟩, p.isAbsolute_normalize, p.normalize_normalize,
    p.normalize_join,
    fun _ => normalize_of_detours⟩

/-- A path on which two detours were made. -/
theorem normalize_of_two_detours :
    ReflTransGen AddsDetour ⟨"/w/ci.yml"⟩ ⟨"/w/./lib/../ci.yml"⟩ ∧
      (⟨"/w/./lib/../ci.yml"⟩ : Path).normalize = (⟨"/w/ci.yml"⟩ : Path).normalize := by
  have hdot : AddsDetour ⟨"/w/ci.yml"⟩ ⟨"/w/./ci.yml"⟩ :=
    ⟨[("w" : RawText).bytes], [[dot]], [("ci.yml" : RawText).bytes],
      .still, by decide, by decide, by decide⟩
  have hback : AddsDetour ⟨"/w/./ci.yml"⟩ ⟨"/w/./lib/../ci.yml"⟩ :=
    ⟨[("w" : RawText).bytes, [dot]], _, [("ci.yml" : RawText).bytes],
      @Detour.back "lib" (by decide), by decide, by decide, by decide⟩
  have hdetours := (ReflTransGen.single hdot).tail hback
  exact ⟨hdetours, (normalize_is_canonical ⟨"/w/ci.yml"⟩).2.2.2.2 _ hdetours⟩

end Path

end TemplateAtlas
