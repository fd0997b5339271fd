import TemplateAtlas.Proofs.Files.Write
import TemplateAtlas.Proofs.Path.Spelling

/-!
# Spellings of files

A path in normal form is the shortest of its spellings and takes the fewest steps. So it leads to
the file that any other spelling leads to (`fileAt?_of_isNormal`).
-/

namespace TemplateAtlas

open TemplateAtlas.Text
open RawText (slash dot)

namespace FileTree

variable {tree : FileTree} {p q : Path} {place : Location}

/-! ### Steps -/

/-- The steps that say something lead where all steps lead. -/
theorem foldlM_step_filter {steps : List (List UInt8)} {base : Location}
    (h : steps.foldlM tree.step base = .ok place) :
    (steps.filter (· ≠ [dot])).foldlM tree.step base = .ok place := by
  induction steps generalizing base with
  | nil => exact h
  | cons step steps ih =>
    rw [List.foldlM_cons] at h
    cases hstep : tree.step base step with
    | error e =>
      rw [hstep] at h
      cases h
    | ok next =>
      rw [hstep] at h
      by_cases hdot : step = [dot]
      · have hnext : next = base := by
          rw [(step_eq_ok hstep).1, moveSegment, if_pos hdot]
        rw [List.filter_cons_of_neg (by simp [hdot])]
        exact hnext ▸ ih h
      · rw [List.filter_cons_of_pos (by simp [hdot]), List.foldlM_cons, hstep]
        exact ih h

theorem filter_stepsOf (p : Path) : (stepsOf p.text.bytes).filter (· ≠ [dot]) = p.telling := by
  have hlast : (if p.text.bytes.getLast? = some slash then [[dot]] else []).filter (· ≠ [dot]) =
      ([] : List (List UInt8)) := by
    split <;> rfl
  rw [stepsOf, List.filter_append, hlast, List.append_nil, List.filter_filter,
    Path.telling, Path.segments]
  refine List.filter_congr fun segment _ => ?_
  rw [Path.isTrivial, Bool.not_or, Bool.and_comm]
  simp

/-- A path that can be followed leads to where the segments that say something lead. -/
theorem foldlM_telling (h : tree.locate p = .ok place) :
    p.telling.foldlM tree.step (tree.start p.text.bytes) = .ok place := by
  simp only [locate] at h
  cases hcheck : checkText p.text.bytes with
  | error e =>
    rw [hcheck] at h
    cases h
  | ok =>
    rw [hcheck] at h
    have hfollowed : (stepsOf p.text.bytes).foldlM tree.step (tree.start p.text.bytes) =
        .ok place := h
    rw [← filter_stepsOf]
    exact foldlM_step_filter hfollowed

theorem isTrivial_of_mem_telling {segment : List UInt8} (h : segment ∈ p.telling) :
    Path.isTrivial segment = false := by
  simpa using (List.mem_filter.1 h).2

theorem stepsOf_of_isNormal (h : q.IsNormal) (hne : q.telling ≠ []) :
    stepsOf q.text.bytes = q.telling := by
  have hsegments := h.segments_eq hne
  have hlast : q.text.bytes.getLast? ≠ some slash := by
    intro hslash
    obtain ⟨front, hfront⟩ := List.getLast?_eq_some_iff.1 hslash
    obtain ⟨init, last, htelling⟩ := (List.eq_nil_or_concat' q.telling).resolve_left hne
    have hends : splitOn slash front ++ [[]] = (if q.isAbsolute then [[]] else []) ++
        init ++ [last] := by
      rw [List.append_assoc, ← htelling, ← hsegments, Path.segments, hfront, splitOn_append_sep]
      rfl
    have hempty : last = [] := by
      have := congrArg List.getLast? hends
      simpa using this.symm
    have hmem : last ∈ q.telling := by simp [htelling]
    have htrivial := isTrivial_of_mem_telling hmem
    rw [hempty] at htrivial
    cases htrivial
  have hlead : (if q.isAbsolute then [[]] else []).filter (!·.isEmpty) =
      ([] : List (List UInt8)) := by
    split <;> rfl
  have htelling : q.telling.filter (!·.isEmpty) = q.telling := by
    refine List.filter_eq_self.2 fun segment hmem => ?_
    have := isTrivial_of_mem_telling hmem
    simp only [Path.isTrivial, Bool.or_eq_false_iff] at this
    simp [this.1]
  rw [stepsOf, if_neg hlast, List.append_nil, ← Path.segments, hsegments, List.filter_append,
    hlead, htelling]
  rfl

/-- The spelling in normal form holds no byte but slashes that another spelling does not hold. -/
theorem mem_of_mem_isNormal (hq : q.IsNormal) (hpq : p.components = q.components) {c : UInt8}
    (hslash : c ≠ slash) (h : c ∈ q.text.bytes) : c ∈ p.text.bytes := by
  obtain ⟨htelling, -⟩ := Path.telling_congr hpq
  rw [hq.bytes_text, List.mem_append] at h
  rcases h with h | h
  · split at h
    · exact absurd (List.mem_singleton.1 h) hslash
    · cases h
  · rcases mem_of_mem_intercalate h with h | ⟨piece, hpiece, h⟩
    · exact absurd h hslash
    · rw [← htelling] at hpiece
      exact mem_of_mem_splitOn (List.mem_of_mem_filter hpiece) h

/-- No spelling is shorter than the one in normal form. -/
theorem length_isNormal_le (hq : q.IsNormal) (hne : q.telling ≠ [])
    (hpq : p.components = q.components) : q.text.bytes.length ≤ p.text.bytes.length := by
  obtain ⟨htelling, habsolute⟩ := Path.telling_congr hpq
  obtain ⟨segment, rest, hcons⟩ := List.exists_cons_of_ne_nil hne
  have hbytes := spanBytes_splitOn p.text.bytes
  have hspan := length_intercalate segment rest
  rw [← hcons] at hspan
  rw [hq.bytes_text, List.length_append, ← habsolute]
  cases hp : p.isAbsolute with
  | false =>
    have hfewer : spanBytes p.telling ≤ spanBytes p.segments :=
      spanBytes_le_of_sublist List.filter_sublist
    have hnone : (if false = true then [slash] else []).length = 0 := rfl
    rw [htelling, Path.segments] at hfewer
    omega
  | true =>
    -- the slash in front is paid for by the empty segment that it cuts off
    obtain ⟨first, body, hsegments⟩ := p.exists_segments
    obtain ⟨rfl, -⟩ := (head?_eq_sep_iff hsegments).1 (by simpa [Path.isAbsolute] using hp)
    have hbody : p.telling = body.filter (!Path.isTrivial ·) := by
      rw [Path.telling, hsegments]
      rfl
    have hfewer : spanBytes p.telling ≤ spanBytes body :=
      hbody ▸ spanBytes_le_of_sublist List.filter_sublist
    have hslash : (if true = true then [slash] else []).length = 1 := rfl
    rw [Path.segments] at hsegments
    rw [hsegments] at hbytes
    simp only [spanBytes, List.length_nil] at hbytes
    rw [htelling] at hfewer
    omega

/-- A spelling in normal form is a text that is followed, if some spelling is. -/
theorem checkText_of_isNormal (hq : q.IsNormal) (hne : q.telling ≠ [])
    (hpq : p.components = q.components) (h : checkText p.text.bytes = .ok ()) :
    checkText q.text.bytes = .ok () := by
  obtain ⟨hzero, -, hlong⟩ := checkText_eq_ok_iff.1 h
  refine checkText_eq_ok_iff.2 ⟨?_, ?_, ?_⟩
  · intro hmem
    exact hzero (mem_of_mem_isNormal hq hpq (by decide) hmem)
  · intro hnil
    refine hne ?_
    rw [Path.telling, Path.segments, hnil]
    rfl
  · exact Nat.lt_of_le_of_lt (length_isNormal_le hq hne hpq) hlong

theorem start_congr (tree : FileTree) (h : p.isAbsolute = q.isAbsolute) :
    tree.start p.text.bytes = tree.start q.text.bytes := by
  simp only [Path.isAbsolute, decide_eq_decide] at h
  simp only [start, h]

/-- A spelling in normal form that says something leads where any other spelling leads. -/
theorem locate_of_isNormal (hq : q.IsNormal) (hne : q.telling ≠ [])
    (hpq : p.components = q.components) (h : tree.locate p = .ok place) :
    tree.locate q = .ok place := by
  obtain ⟨htelling, habsolute⟩ := Path.telling_congr hpq
  have hfollowed := foldlM_telling h
  have hcheck : checkText q.text.bytes = .ok () := by
    refine checkText_of_isNormal hq hne hpq ?_
    simp only [locate] at h
    cases hcheck : checkText p.text.bytes with
    | error e =>
      rw [hcheck] at h
      cases h
    | ok => rfl
  rw [htelling, start_congr tree habsolute, ← stepsOf_of_isNormal hq hne] at hfollowed
  simp only [locate, hcheck]
  exact hfollowed

/-- A path in normal form that says nothing is no spelling of a file. -/
theorem telling_ne_nil (hq : q.IsNormal) (hpq : p.components = q.components) {v : FileVersion}
    (h : tree.fileAt? p = some v) : q.telling ≠ [] := by
  intro hnil
  obtain ⟨htelling, habsolute⟩ := Path.telling_congr hpq
  obtain ⟨place, hlocate, hnode⟩ := fileAt?_eq_some_iff.1 h
  have htext := hq.bytes_text
  rw [hnil] at htelling htext
  cases hp : p.isAbsolute with
  | true =>
    have hstart : tree.start p.text.bytes = [] := by
      rw [start, if_pos (by simpa [Path.isAbsolute] using hp)]
    have hplace := foldlM_telling hlocate
    rw [htelling, hstart] at hplace
    cases hplace
    cases hnode
  | false =>
    rw [← habsolute, hp] at htext
    have hempty : q.text = "" := RawText.ext htext
    rw [← Path.components_eq_nil_iff, ← hpq, Path.components_eq_nil_iff] at hempty
    simp only [locate, hempty] at hlocate
    cases hlocate

/-- A spelling in normal form leads to the file that any other spelling leads to. -/
theorem fileAt?_of_isNormal (hq : q.IsNormal) (hpq : p.components = q.components) {v : FileVersion}
    (h : tree.fileAt? p = some v) : tree.fileAt? q = some v := by
  obtain ⟨place, hlocate, hnode⟩ := fileAt?_eq_some_iff.1 h
  exact fileAt?_eq_some_iff.2 ⟨place,
    locate_of_isNormal hq (telling_ne_nil hq hpq h) hpq hlocate, hnode⟩

end FileTree

end TemplateAtlas
