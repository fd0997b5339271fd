import Mathlib.Data.List.Induction
import TemplateAtlas.Files.Roots
import TemplateAtlas.Proofs.Path.Normal
import TemplateAtlas.Proofs.Path.Order

/-!
# Spellings

A path can be spelled in many ways that state the same steps. The steps of its directory
(`components_directory`) and of a path that is read in it (`components_join`) follow from its own
steps, however it is spelled. Two spellings share the segments that say something (`telling_congr`),
and the spelling in normal form has no others (`IsNormal.segments_eq`).
-/

namespace TemplateAtlas

open TemplateAtlas.Text
open RawText (slash dot)

namespace Path

/-! ### Segments -/

theorem innerStep?_ne_root (segment : List UInt8) : innerStep? segment ≠ some .root := by
  unfold innerStep?
  split
  · simp
  · split <;> simp

/-- A first segment that is not empty states the same step, whatever follows it. -/
theorem openingOf_of_ne_nil {first : List UInt8} (hfirst : first ≠ []) (body : List (List UInt8)) :
    ∃ c, openingOf first body = some c ∧ c ≠ .root ∧ ∀ body', openingOf first body' = some c := by
  have hopening : ∀ body, openingOf first body = if first =
      [dot] then some .current else innerStep? first := by
    intro body
    simp [openingOf, hfirst]
  by_cases hdot : first = [dot]
  · exact ⟨.current, by rw [hopening, if_pos hdot], by simp,
      fun body' => by rw [hopening, if_pos hdot]⟩
  · cases hstep : innerStep? first with
    | none =>
      rw [innerStep?_eq_none_iff] at hstep
      simp [isTrivial, hfirst, hdot] at hstep
    | some c =>
      refine ⟨c, by simp [hopening, hdot, hstep], ?_, fun body' => by simp [hopening, hdot, hstep]⟩
      rintro rfl
      exact innerStep?_ne_root first hstep

/-- Segments that say nothing state no steps. -/
theorem filterMap_dropEndWhile (segments : List (List UInt8)) :
    (dropEndWhile isTrivial segments).filterMap innerStep? = segments.filterMap innerStep? := by
  induction segments using List.reverseRecOn with
  | nil => rfl
  | append_singleton segments segment ih =>
    by_cases htrivial : isTrivial segment = true
    · have hdrop : dropEndWhile isTrivial (segments ++ [segment]) =
          dropEndWhile isTrivial segments := by
        simp [dropEndWhile, htrivial]
      rw [hdrop, ih, List.filterMap_append,
        List.filterMap_cons_none (innerStep?_eq_none_iff.2 htrivial)]
      simp
    · rw [dropEndWhile_of_getLast (by simp) (Bool.eq_false_iff.2 htrivial)]

theorem dropEndWhile_eq_nil {segments : List (List UInt8)}
    (h : dropEndWhile isTrivial segments = []) : segments.filterMap innerStep? = [] := by
  rw [← filterMap_dropEndWhile, h]
  rfl

/-- The first of several segments states a step, and so does the only one of a text that is not
empty. -/
theorem openingOf_ne_none {p : Path} {first : List UInt8} {body : List (List UInt8)}
    (hp : p.text ≠ "") (h : p.segments = first :: body) : openingOf first body ≠ none := by
  by_cases hfirst : first = []
  · cases htext : p.text.bytes with
    | nil => exact absurd (RawText.ext htext) hp
    | cons c cs =>
      cases body with
      | cons segment body => simp [openingOf, hfirst]
      | nil =>
        rw [segments, htext, splitOn] at h
        split at h
        · exact absurd (List.cons.inj h).2 (splitOn_ne_nil slash cs)
        · obtain ⟨piece, pieces, hsplit⟩ := List.exists_cons_of_ne_nil (splitOn_ne_nil slash cs)
          rw [hsplit, hfirst] at h
          cases h
  · obtain ⟨c, hc, -⟩ := openingOf_of_ne_nil hfirst body
    simp [hc]

/-- Only the empty text states nothing. -/
theorem components_eq_nil_iff {p : Path} : p.components = [] ↔ p.text = "" := by
  constructor
  · intro h
    by_contra hp
    obtain ⟨first, body, hsegments⟩ := p.exists_segments
    have hopening := openingOf_ne_none hp hsegments
    rw [components, hsegments, stepsOf_cons] at h
    cases hstep : openingOf first body with
    | none => exact hopening hstep
    | some c => simp [hstep] at h
  · intro h
    simp [components, segments, h, splitOn, stepsOf]

/-! ### Directories -/

theorem components_ofSegments {first : List UInt8} {body : List (List UInt8)}
    (h : ∀ segment ∈ first :: body, slash ∉ segment) :
    (ofSegments first body).components =
      (if first.isEmpty then some .root else openingOf first body).toList ++
        body.filterMap innerStep? := by
  by_cases hempty : first = [] ∧ body = []
  · obtain ⟨rfl, rfl⟩ := hempty
    rfl
  · have htext : (ofSegments first body).text.bytes = [slash].intercalate (first :: body) := by
      have : (first.isEmpty && body.isEmpty) = false := by
        simpa using hempty
      rw [ofSegments, this]
      simp
    rw [components, segments, htext, splitOn_intercalate (by simp) h, stepsOf_cons]
    split
    next hfirst =>
      have hbody : body.isEmpty = false := by
        simp only [List.isEmpty_iff] at hfirst
        simpa [hfirst] using hempty
      simp [openingOf, hfirst, hbody]
    · rfl

theorem parent?_of_trivial {p : Path} {first : List UInt8} {body : List (List UInt8)}
    (h : p.segments = first :: body) (hkept : dropEndWhile isTrivial body = []) :
    p.parent? = if first.isEmpty then none else some ⟨""⟩ := by
  rw [parent?, h]
  simp [hkept]

theorem parent?_of_kept {p : Path} {first last : List UInt8} {body front : List (List UInt8)}
    (h : p.segments = first :: body) (hkept : dropEndWhile isTrivial body = front ++ [last]) :
    p.parent? = some (ofSegments first (dropEndWhile isTrivial front)) := by
  rw [parent?, h]
  simp only [hkept]
  cases hfront : front ++ [last] with
  | nil => simp at hfront
  | cons a kept => simp only [← hfront, List.dropLast_concat]

/-- The steps of the path without its last segment that says something are those of the path without
the last one. -/
theorem components_of_kept {p : Path} {first last : List UInt8} {body front : List (List UInt8)}
    (h : p.segments = first :: body) (hkept : dropEndWhile isTrivial body = front ++ [last]) :
    ∃ c, c ≠ .root ∧ p.components =
      (ofSegments first (dropEndWhile isTrivial front)).components ++ [c] := by
  have hlast : isTrivial last = false := getLast_dropEndWhile hkept
  obtain ⟨c, hc⟩ : ∃ c, innerStep? last = some c := by
    rw [← Option.isSome_iff_exists, Option.isSome_iff_ne_none, ne_eq, innerStep?_eq_none_iff, hlast]
    simp
  have hbody : body.filterMap innerStep? = front.filterMap innerStep? ++ [c] := by
    rw [← filterMap_dropEndWhile, hkept]
    simp [hc]
  have hopening :
      (if first.isEmpty then some .root else openingOf first (dropEndWhile isTrivial front)) =
      openingOf first body := by
    by_cases hfirst : first = []
    · cases body with
      | nil => simp [dropEndWhile] at hkept
      | cons segment body => simp [openingOf, hfirst]
    · obtain ⟨d, hd, -, hall⟩ := openingOf_of_ne_nil hfirst body
      simp [hfirst, hd, hall]
  have hslash : ∀ segment ∈ first :: dropEndWhile isTrivial front, slash ∉ segment := by
    intro segment hmem
    have hbody : segment = first ∨ segment ∈ body := by
      rcases List.mem_cons.1 hmem with rfl | hmem
      · exact .inl rfl
      · refine .inr (mem_of_mem_dropEndWhile (p := isTrivial) ?_)
        rw [hkept]
        simp [mem_of_mem_dropEndWhile hmem]
    exact slash_notMem_segments (h ▸ List.mem_cons.2 hbody)
  refine ⟨c, ?_, ?_⟩
  · rintro rfl
    exact innerStep?_ne_root last hc
  · rw [components_ofSegments hslash, filterMap_dropEndWhile, hopening, List.append_assoc, ← hbody,
      components, h, stepsOf_cons]

/-- The steps of a file's directory are those of the file without the last one. -/
theorem components_directory (p : Path) :
    p.directory.components =
      if p.components = [] ∨ p.components = [.root] then [.root] else p.components.dropLast := by
  obtain ⟨first, body, hsegments⟩ := p.exists_segments
  rcases List.eq_nil_or_concat' (dropEndWhile isTrivial body) with hkept | ⟨front, last, hkept⟩
  · have hroot : (⟨"/"⟩ : Path).components = [.root] := rfl
    have hempty : (⟨""⟩ : Path).components = [] := rfl
    have hcomponents : p.components = (openingOf first body).toList := by
      rw [components, hsegments, stepsOf_cons, dropEndWhile_eq_nil hkept, List.append_nil]
    rw [directory, parent?_of_trivial hsegments hkept, hcomponents]
    by_cases hfirst : first = []
    · cases body <;> simp [openingOf, hfirst, hroot]
    · obtain ⟨c, hc, hne, -⟩ := openingOf_of_ne_nil hfirst body
      simp [hfirst, hc, hne, hempty]
  · obtain ⟨c, hne, hcomponents⟩ := components_of_kept hsegments hkept
    rw [directory, parent?_of_kept hsegments hkept, Option.getD_some, hcomponents,
      List.dropLast_concat, if_neg]
    rintro (hnil | hsingle)
    · simp at hnil
    · have hlast := congrArg List.getLast? hsingle
      simp [hne] at hlast

/-! ### Paths in directories -/

/-- The segments of a path that is read in a directory come after those of the directory. -/
theorem exists_segments_join {p q : Path} (hp : p.text ≠ "") (hq : q.isAbsolute = false) :
    ∃ base, (p.segments = base ∨ p.segments = base ++ [[]]) ∧ (p.join q).segments =
      base ++ q.segments := by
  have hne : p.text.isEmpty = false := by simpa using hp
  unfold join segments
  rw [if_neg (by simp [hq]), hne, Bool.false_or]
  by_cases hslash : p.text.bytes.getLast? = some slash
  · obtain ⟨front, hfront⟩ := List.getLast?_eq_some_iff.1 hslash
    refine ⟨splitOn slash front, .inr ?_, ?_⟩
    · rw [hfront, splitOn_append_sep]
      rfl
    · simp [hfront, splitOn_append_sep]
  · refine ⟨splitOn slash p.text.bytes, .inl rfl, ?_⟩
    simp [hslash, splitOn_append_sep]

/-- The steps of a path that is read in a directory follow those of the directory. -/
theorem components_join {p q : Path} (hp : p.text ≠ "") (hq : q.isAbsolute = false) :
    (p.join q).components = p.components ++ q.segments.filterMap innerStep? := by
  obtain ⟨base, hbase, hjoin⟩ := exists_segments_join hp hq
  obtain ⟨first, body, hsegments⟩ := p.exists_segments
  have hopening := openingOf_ne_none hp hsegments
  obtain ⟨body', hbase, hsteps⟩ : ∃ body', base = first :: body' ∧
      body'.filterMap innerStep? = body.filterMap innerStep? := by
    rcases hbase with heq | heq
    · exact ⟨body, by rw [← heq, hsegments], rfl⟩
    · rw [hsegments] at heq
      cases base with
      | nil =>
        obtain ⟨rfl, rfl⟩ := List.cons.inj heq
        exact absurd rfl hopening
      | cons first' body' =>
        obtain ⟨rfl, rfl⟩ := List.cons.inj heq
        exact ⟨body', rfl, by simp [innerStep?, isTrivial]⟩
  have hnext : openingOf first (body' ++ q.segments) = openingOf first body := by
    by_cases hfirst : first = []
    · obtain ⟨first', rest, hq⟩ := q.exists_segments
      cases body with
      | nil => simp [openingOf, hfirst] at hopening
      | cons segment body => simp [openingOf, hfirst, hq]
    · obtain ⟨c, hc, -, hall⟩ := openingOf_of_ne_nil hfirst body
      rw [hall, hc]
  rw [components, hjoin, hbase, List.cons_append, stepsOf_cons, hnext, List.filterMap_append,
    hsteps, components, hsegments, stepsOf_cons, List.append_assoc]

/-- Two spellings of a directory give two spellings of a path that is read in it. -/
theorem components_join_congr {p p' : Path} (h : p.components = p'.components) (q : Path) :
    (p.join q).components = (p'.join q).components := by
  cases hq : q.isAbsolute with
  | true => simp [join, hq]
  | false =>
    by_cases hp : p.text = ""
    · have hp' : p'.text = "" := by
        rw [← components_eq_nil_iff, ← h, components_eq_nil_iff, hp]
      rw [join, join, hp, hp']
    · have hp' : p'.text ≠ "" := by
        intro hp'
        rw [← components_eq_nil_iff, ← h, components_eq_nil_iff] at hp'
        exact hp hp'
      rw [components_join hp hq, components_join hp' hq, h]

/-- Two spellings of a directory give the same normal form of a path that is read in it. -/
theorem normalize_child_congr {p p' : Path} (h : p.components = p'.components) (name : RawText) :
    (p.child name).normalize = (p'.child name).normalize := by
  rw [normalize, normalize, child, child, components_join_congr h]

/-- Two spellings of a file give two spellings of its directory. -/
theorem components_directory_congr {p p' : Path} (h : p.components = p'.components) :
    p.directory.components = p'.directory.components := by
  rw [components_directory, components_directory, h]

/-! ### What a spelling says -/

/-- The segments of a path that say something. -/
def telling (p : Path) : List (List UInt8) :=
  p.segments.filter (!isTrivial ·)

/-- The steps inside a path are stated by the segments that say something. -/
theorem map_text_filterMap (p : Path) :
    (p.segments.filterMap innerStep?).map (fun c => c.text.bytes) = p.telling := by
  have hall : ∀ segments : List (List UInt8), (∀ segment ∈ segments, slash ∉ segment) →
      (segments.filterMap innerStep?).map (fun c => c.text.bytes) =
        segments.filter (!isTrivial ·) := by
    intro segments hslash
    induction segments with
    | nil => rfl
    | cons segment segments ih =>
      have ih := ih fun s hs => hslash s (by simp [hs])
      cases hstep : innerStep? segment with
      | none =>
        have htrivial := innerStep?_eq_none_iff.1 hstep
        rw [List.filterMap_cons_none hstep, ih, List.filter_cons_of_neg (by simp [htrivial])]
      | some c =>
        have htrivial : isTrivial segment = false := by
          rw [← Bool.not_eq_true, ← innerStep?_eq_none_iff, hstep]
          simp
        rw [List.filterMap_cons_some hstep, List.map_cons, ih,
          List.filter_cons_of_pos (by simp [htrivial]),
          (innerStep?_eq_some (hslash segment (by simp)) hstep).2]
  exact hall _ fun segment hmem => slash_notMem_segments hmem

/-- Steps that may stand inside are told apart from an opening in front of them. -/
theorem opening_unique {o₁ o₂ : Option Component} {l₁ l₂ : List Component}
    (ho₁ : ∀ c ∈ o₁, c = .root ∨ c = .current) (ho₂ : ∀ c ∈ o₂, c = .root ∨ c = .current)
    (hl₁ : ∀ c ∈ l₁, c.IsInner) (hl₂ : ∀ c ∈ l₂, c.IsInner)
    (h : o₁.toList ++ l₁ = o₂.toList ++ l₂) : o₁ = o₂ ∧ l₁ = l₂ := by
  have hopening : ∀ {c : Component}, c = .root ∨ c = .current → ¬c.IsInner := by
    rintro _ (rfl | rfl) <;> exact id
  cases o₁ with
  | none =>
    cases o₂ with
    | none => exact ⟨rfl, h⟩
    | some c =>
      have hmem : c ∈ l₁ := by
        rw [show l₁ = c :: l₂ from h]
        simp
      exact absurd (hl₁ c hmem) (hopening (ho₂ c rfl))
  | some c =>
    cases o₂ with
    | none =>
      have hmem : c ∈ l₂ := by
        rw [show l₂ = c :: l₁ from h.symm]
        simp
      exact absurd (hl₂ c hmem) (hopening (ho₁ c rfl))
    | some d =>
      obtain ⟨rfl, hrest⟩ := List.cons.inj h
      exact ⟨rfl, hrest⟩

/-- Two spellings of a path say the same, and both are absolute or neither is. -/
theorem telling_congr {p q : Path} (h : p.components = q.components) :
    p.telling = q.telling ∧ p.isAbsolute = q.isAbsolute := by
  obtain ⟨o₁, h₁, habs₁, ho₁⟩ := p.components_eq_append
  obtain ⟨o₂, h₂, habs₂, ho₂⟩ := q.components_eq_append
  rw [h₁, h₂] at h
  obtain ⟨rfl, hrest⟩ :=
    opening_unique ho₁ ho₂ (fun c hc => isInner_of_mem hc) (fun c hc => isInner_of_mem hc) h
  constructor
  · rw [← map_text_filterMap, ← map_text_filterMap, hrest]
  · rw [Bool.eq_iff_iff, habs₁, habs₂]

/-! ### Normal forms -/

theorem filter_isTrivial_text {steps : List Component} (h : ∀ c ∈ steps, c.IsInner) :
    (steps.map fun c => c.text.bytes).filter (!isTrivial ·) = steps.map fun c => c.text.bytes := by
  refine List.filter_eq_self.2 fun segment hmem => ?_
  obtain ⟨c, hc, rfl⟩ := List.mem_map.1 hmem
  simp [(text_of_isInner (h c hc)).2]

theorem telling_ofSteps_root {inner : List Component} (h : ∀ c ∈ inner, c.IsInner) :
    (ofSteps (.root :: inner)).telling = inner.map fun c => c.text.bytes := by
  rw [telling, segments_ofSteps_root h, List.filter_cons_of_neg (by simp [isTrivial])]
  split
  next hinner =>
    obtain rfl := List.isEmpty_iff.1 hinner
    rfl
  next => exact filter_isTrivial_text h

theorem telling_ofSteps_of_isInner {steps : List Component} (h : ∀ c ∈ steps, c.IsInner) :
    (ofSteps steps).telling = steps.map fun c => c.text.bytes := by
  rw [telling, segments_ofSteps_of_isInner h]
  split
  next hsteps =>
    obtain rfl := List.isEmpty_iff.1 hsteps
    rfl
  next => exact filter_isTrivial_text h

theorem isAbsolute_ofSteps_of_isInner {steps : List Component} (h : ∀ c ∈ steps, c.IsInner) :
    (ofSteps steps).isAbsolute = false := by
  cases steps with
  | nil => rfl
  | cons c steps =>
    have hsegments := segments_ofSteps_of_isInner h
    have hc := (text_of_isInner (h c (by simp))).2
    rw [isAbsolute, decide_eq_false_iff_not, head?_eq_sep_iff hsegments]
    rintro ⟨hempty, -⟩
    have hempty : c.text.bytes = [] := hempty
    rw [hempty] at hc
    cases hc

/-- A path in normal form is the segments that say something, after a slash if it is absolute. -/
theorem IsNormal.bytes_text {p : Path} (h : p.IsNormal) :
    p.text.bytes = (if p.isAbsolute then [slash] else []) ++ [slash].intercalate p.telling := by
  obtain ⟨stack, hstack, rfl⟩ := h.exists_stack
  rcases hstack.cases_reverse with ⟨inner, heq, hinner⟩ | hinner
  · have htext := bytes_ofSteps_root inner
    have habsolute : (ofSteps (.root :: inner)).isAbsolute = true := by
      rw [isAbsolute, htext]
      rfl
    rw [heq, telling_ofSteps_root hinner, habsolute, htext]
    rfl
  · rw [telling_ofSteps_of_isInner hinner, isAbsolute_ofSteps_of_isInner hinner,
      bytes_ofSteps_of_isInner hinner]
    rfl

theorem IsNormal.segments_eq {p : Path} (h : p.IsNormal) (hne : p.telling ≠ []) :
    p.segments = (if p.isAbsolute then [[]] else []) ++ p.telling := by
  have hcut : splitOn slash ([slash].intercalate p.telling) = p.telling :=
    splitOn_intercalate hne fun segment hmem => slash_notMem_segments (List.mem_of_mem_filter hmem)
  rw [segments, h.bytes_text]
  split
  · rw [List.singleton_append, ← List.nil_append (slash :: _), splitOn_append_sep, hcut]
    rfl
  · rw [List.nil_append, hcut]
    rfl

end Path

end TemplateAtlas
