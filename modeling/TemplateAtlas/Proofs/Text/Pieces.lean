import Mathlib.Data.List.Basic
import TemplateAtlas.Text.Blank
import TemplateAtlas.Text.Pieces

/-!
# Pieces and what they were cut from

Cutting at a separator undoes joining with it, as long as no piece holds the separator. Replacing a
character touches each of its occurrences once, so the two replacements that give the endings of
lines their normal form do what one pass over the text would do (`normalizeEndings_cons`).
-/

namespace TemplateAtlas.Text

section Split

variable {α : Type u} [DecidableEq α] {sep : α}

theorem splitOn_ne_nil (sep : α) (cs : List α) : splitOn sep cs ≠ [] := by
  cases cs with
  | nil => simp [splitOn]
  | cons c cs =>
    rw [splitOn]
    split
    · simp
    · intro h
      exact splitOn_ne_nil sep cs (List.modifyHead_eq_nil_iff.1 h)

/-- No piece holds the separator. -/
theorem sep_notMem_of_mem_splitOn {cs piece : List α} (h : piece ∈ splitOn sep cs) :
    sep ∉ piece := by
  induction cs generalizing piece with
  | nil =>
    rw [splitOn, List.mem_singleton] at h
    simp [h]
  | cons c cs ih =>
    rw [splitOn] at h
    split at h
    · rcases List.mem_cons.1 h with rfl | h
      · simp
      · exact ih h
    next hc =>
      obtain ⟨first, rest, hsplit⟩ := List.exists_cons_of_ne_nil (splitOn_ne_nil sep cs)
      rw [hsplit, List.modifyHead_cons] at h
      rcases List.mem_cons.1 h with rfl | h
      · have : sep ∉ first := ih (by simp [hsplit])
        simp [this, Ne.symm hc]
      · exact ih (by simp [hsplit, h])

/-- The pieces are cut from the text. -/
theorem mem_of_mem_splitOn {cs piece : List α} {c : α} (h : piece ∈ splitOn sep cs)
    (hc : c ∈ piece) : c ∈ cs := by
  induction cs generalizing piece with
  | nil => simp_all [splitOn]
  | cons d cs ih =>
    rw [splitOn] at h
    split at h
    · rcases List.mem_cons.1 h with rfl | h
      · simp at hc
      · exact List.mem_cons_of_mem _ (ih h hc)
    · obtain ⟨first, rest, hsplit⟩ := List.exists_cons_of_ne_nil (splitOn_ne_nil sep cs)
      rw [hsplit, List.modifyHead_cons] at h
      rcases List.mem_cons.1 h with rfl | h
      · rcases List.mem_cons.1 hc with rfl | hc
        · simp
        · exact List.mem_cons_of_mem _ (ih (by simp [hsplit]) hc)
      · exact List.mem_cons_of_mem _ (ih (by simp [hsplit, h]) hc)

/-- A text opens with the separator, if its first piece is empty and not the only one. -/
theorem head?_eq_sep_iff {cs first : List α} {rest : List (List α)}
    (h : splitOn sep cs = first :: rest) : cs.head? = some sep ↔ first = [] ∧ rest ≠ [] := by
  cases cs with
  | nil =>
    obtain ⟨rfl, rfl⟩ := List.cons.inj h
    simp
  | cons c cs =>
    rw [splitOn] at h
    split at h
    next hc =>
      obtain ⟨rfl, rfl⟩ := List.cons.inj h
      simp [hc, splitOn_ne_nil]
    next hc =>
      obtain ⟨piece, pieces, hsplit⟩ := List.exists_cons_of_ne_nil (splitOn_ne_nil sep cs)
      rw [hsplit, List.modifyHead_cons] at h
      obtain ⟨rfl, rfl⟩ := List.cons.inj h
      simp [hc]

theorem splitOn_of_notMem {cs : List α} (h : sep ∉ cs) : splitOn sep cs = [cs] := by
  induction cs with
  | nil => rfl
  | cons c cs ih =>
    simp only [List.mem_cons, not_or] at h
    rw [splitOn, if_neg (Ne.symm h.1), ih h.2]
    rfl

/-- A separator in between cuts the text. -/
theorem splitOn_append_sep (cs rest : List α) :
    splitOn sep (cs ++ sep :: rest) = splitOn sep cs ++ splitOn sep rest := by
  induction cs with
  | nil => simp [splitOn]
  | cons c cs ih =>
    rw [List.cons_append, splitOn, splitOn, ih]
    split
    · rfl
    · obtain ⟨first, body, hsplit⟩ := List.exists_cons_of_ne_nil (splitOn_ne_nil sep cs)
      rw [hsplit]
      rfl

/-- What stands in front of a text, without the separator, is in front of its first piece. -/
theorem splitOn_append_of_notMem {front : List α} (h : sep ∉ front) (cs : List α) :
    splitOn sep (front ++ cs) = (splitOn sep cs).modifyHead (front ++ ·) := by
  induction front with
  | nil =>
    rw [List.nil_append]
    exact (congrFun List.modifyHead_id (splitOn sep cs)).symm
  | cons c front ih =>
    rw [List.mem_cons, not_or] at h
    rw [List.cons_append, splitOn, if_neg (Ne.symm h.1), ih h.2, List.modifyHead_modifyHead]
    rfl

theorem splitOn_append_cons {cs : List α} (h : sep ∉ cs) (rest : List α) :
    splitOn sep (cs ++ sep :: rest) = cs :: splitOn sep rest := by
  rw [splitOn_append_sep, splitOn_of_notMem h, List.singleton_append]

/-- A text that joins pieces is cut between them, and where they hold the separator. -/
theorem splitOn_intercalate_eq_flatMap {pieces : List (List α)} (hne : pieces ≠ []) :
    splitOn sep ([sep].intercalate pieces) = pieces.flatMap (splitOn sep) := by
  induction pieces with
  | nil => exact absurd rfl hne
  | cons piece pieces ih =>
    cases pieces with
    | nil => simp
    | cons next pieces =>
      rw [List.intercalate_cons_cons, List.append_assoc, List.singleton_append, splitOn_append_sep,
        ih (List.cons_ne_nil next pieces)]
      rfl

theorem flatMap_splitOn {pieces : List (List α)} (h : ∀ piece ∈ pieces, sep ∉ piece) :
    pieces.flatMap (splitOn sep) = pieces := by
  rw [List.flatMap_congr fun piece hpiece => splitOn_of_notMem (h piece hpiece),
    List.flatMap_singleton']

/-- Cutting undoes joining. -/
theorem splitOn_intercalate {pieces : List (List α)} (hne : pieces ≠ [])
    (h : ∀ piece ∈ pieces, sep ∉ piece) : splitOn sep ([sep].intercalate pieces) = pieces := by
  rw [splitOn_intercalate_eq_flatMap hne, flatMap_splitOn h]

theorem length_splitOn (sep : α) (cs : List α) : (splitOn sep cs).length = cs.count sep + 1 := by
  induction cs with
  | nil => rfl
  | cons c cs ih =>
    rw [splitOn]
    split
    next hc => rw [List.length_cons, ih, hc, List.count_cons_self]
    next hc => rw [List.length_modifyHead, ih, List.count_cons_of_ne hc]

theorem length_flatMap_splitOn (sep : α) (pieces : List (List α)) :
    (pieces.flatMap (splitOn sep)).length = pieces.length + pieces.flatten.count sep := by
  induction pieces with
  | nil => rfl
  | cons piece pieces ih =>
    rw [List.flatMap_cons, List.length_append, ih, length_splitOn, List.length_cons,
      List.flatten_cons, List.count_append]
    omega

/-- Cutting makes more pieces, if one of them holds the separator. -/
theorem length_flatMap_splitOn_eq_iff {pieces : List (List α)} :
    (pieces.flatMap (splitOn sep)).length = pieces.length ↔ ∀ piece ∈ pieces, sep ∉ piece := by
  rw [length_flatMap_splitOn, Nat.add_eq_left, List.count_eq_zero, List.mem_flatten]
  exact ⟨fun h piece hpiece hsep => h ⟨piece, hpiece, hsep⟩, fun h ⟨piece, hpiece, hsep⟩ =>
    h piece hpiece hsep⟩

end Split

section First

variable {sep : Char} {cs before after : List Char}

/-- The first separator is the one with none in front of it. -/
theorem splitFirst?_eq_some_iff :
    splitFirst? sep cs = some (before, after) ↔ cs = before ++ sep :: after ∧ sep ∉ before := by
  constructor
  · intro h
    fun_induction splitFirst? sep cs generalizing before with
    | case1 => cases h
    | case2 =>
      cases h
      exact ⟨rfl, List.not_mem_nil⟩
    | case3 c cs hc ih =>
      obtain ⟨⟨front, back⟩, hsplit, heq⟩ := Option.map_eq_some_iff.1 h
      cases heq
      obtain ⟨rfl, hfront⟩ := ih hsplit
      exact ⟨rfl, List.not_mem_cons_of_ne_of_not_mem (Ne.symm hc) hfront⟩
  · rintro ⟨rfl, hbefore⟩
    induction before with
    | nil => rw [List.nil_append, splitFirst?, if_pos rfl]
    | cons c before ih =>
      rw [List.mem_cons, not_or] at hbefore
      rw [List.cons_append, splitFirst?, if_neg (Ne.symm hbefore.1), ih hbefore.2]
      rfl

end First

section Last

variable {sep : Char} {cs before after : List Char}

theorem splitLast?_eq_none_iff : splitLast? sep cs = none ↔ sep ∉ cs := by
  induction cs with
  | nil => simp [splitLast?]
  | cons c cs ih =>
    rw [splitLast?, List.mem_cons, not_or, ← ih]
    cases splitLast? sep cs with
    | none => simp [eq_comm]
    | some parts => simp

/-- The last separator is the one with none behind it. -/
theorem splitLast?_eq_some_iff :
    splitLast? sep cs = some (before, after) ↔ cs = before ++ sep :: after ∧ sep ∉ after := by
  constructor
  · intro h
    fun_induction splitLast? sep cs generalizing before with
    | case1 => cases h
    | case2 c cs front back hrest ih =>
      cases h
      obtain ⟨rfl, hafter⟩ := ih hrest
      exact ⟨rfl, hafter⟩
    | case3 cs hrest ih =>
      cases h
      exact ⟨rfl, splitLast?_eq_none_iff.1 hrest⟩
    | case4 => cases h
  · rintro ⟨rfl, hafter⟩
    induction before with
    | nil => rw [List.nil_append, splitLast?, splitLast?_eq_none_iff.2 hafter, if_pos rfl]
    | cons c before ih => rw [List.cons_append, splitLast?, ih]

/-- What stands in front of a text is in front of its last separator. -/
theorem splitLast?_append_left (h : splitLast? sep cs = some (before, after)) (ds : List Char) :
    splitLast? sep (ds ++ cs) = some (ds ++ before, after) := by
  obtain ⟨rfl, hafter⟩ := splitLast?_eq_some_iff.1 h
  exact splitLast?_eq_some_iff.2 ⟨(List.append_assoc ..).symm, hafter⟩

/-- What stands behind a text, without the separator, is behind its last separator. -/
theorem splitLast?_append_right (h : splitLast? sep cs = some (before, after)) {ds : List Char}
    (hds : sep ∉ ds) : splitLast? sep (cs ++ ds) = some (before, after ++ ds) := by
  obtain ⟨rfl, hafter⟩ := splitLast?_eq_some_iff.1 h
  refine splitLast?_eq_some_iff.2 ⟨by simp, ?_⟩
  simp [hafter, hds]

/-- What follows the last separator is the last piece. -/
theorem getLast?_splitOn (sep : Char) (cs : List Char) :
    (splitOn sep cs).getLast? = some (afterLast sep cs) := by
  rw [afterLast]
  cases h : splitLast? sep cs with
  | none => rw [splitOn_of_notMem (splitLast?_eq_none_iff.1 h), List.getLast?_singleton]
  | some parts =>
    obtain ⟨front, back⟩ := parts
    obtain ⟨rfl, hback⟩ := splitLast?_eq_some_iff.1 h
    rw [splitOn_append_sep, splitOn_of_notMem hback, List.getLast?_concat]

end Last

theorem dropPrefix?_eq_some_iff {start cs rest : List Char} :
    dropPrefix? start cs = some rest ↔ cs = start ++ rest := by
  rw [dropPrefix?]
  constructor
  · intro h
    split at h
    next hprefix =>
      obtain ⟨tail, rfl⟩ := List.isPrefixOf_iff_prefix.1 hprefix
      rw [List.drop_left] at h
      rw [Option.some.inj h]
    next => cases h
  · rintro rfl
    rw [if_pos (List.isPrefixOf_iff_prefix.2 (List.prefix_append start rest)), List.drop_left]

theorem occursIn_iff_isInfix {part cs : List Char} : occursIn part cs = true ↔ part <:+: cs := by
  induction cs with
  | nil => rw [occursIn, List.isEmpty_iff, List.infix_nil]
  | cons c cs ih =>
    rw [occursIn, Bool.or_eq_true, List.isPrefixOf_iff_prefix, ih, List.infix_cons_iff]

theorem occursIn_eq_false {part cs : List Char} {c : Char} (hpart : c ∈ part) (h : c ∉ cs) :
    occursIn part cs = false :=
  Bool.eq_false_iff.2 fun hoccurs => h ((occursIn_iff_isInfix.1 hoccurs).subset hpart)

section Replace

variable {part new cs : List Char}

theorem replaceAll_go (part new : List Char) (skip : Nat) (cs : List Char) :
    replaceAll.go part new skip cs = replaceAll part new (cs.drop skip) := by
  induction cs generalizing skip with
  | nil => cases skip <;> rfl
  | cons c cs ih =>
    cases skip with
    | zero => rfl
    | succ skip => exact ih skip

/-- A part at the front is replaced, and the search goes on behind it. -/
theorem replaceAll_append (hne : part ≠ []) (cs : List Char) :
    replaceAll part new (part ++ cs) = new ++ replaceAll part new cs := by
  obtain ⟨c, rest, rfl⟩ := List.exists_cons_of_ne_nil hne
  have hprefix : (c :: rest).isPrefixOf (c :: (rest ++ cs)) = true :=
    List.isPrefixOf_iff_prefix.2 (List.prefix_append (c :: rest) cs)
  rw [List.cons_append, replaceAll, replaceAll.go, if_pos hprefix, replaceAll_go, List.length_cons,
    Nat.add_sub_cancel, List.drop_left, replaceAll]

theorem replaceAll_cons {c : Char} (h : ¬part <+: c :: cs) :
    replaceAll part new (c :: cs) = c :: replaceAll part new cs := by
  rw [replaceAll, replaceAll.go, if_neg fun hprefix => h (List.isPrefixOf_iff_prefix.1 hprefix)]

/-- A part that opens with another character is not found at the front. -/
theorem replaceAll_cons_of_ne {first c : Char} (hc : c ≠ first) (rest new cs : List Char) :
    replaceAll (first :: rest) new (c :: cs) = c :: replaceAll (first :: rest) new cs :=
  replaceAll_cons fun hprefix => hc (List.cons_prefix_cons.1 hprefix).1.symm

theorem replaceAll_of_notMem {first : Char} (h : first ∉ cs) (rest new : List Char) :
    replaceAll (first :: rest) new cs = cs := by
  induction cs with
  | nil => rfl
  | cons c cs ih =>
    rw [List.mem_cons, not_or] at h
    rw [replaceAll_cons_of_ne (Ne.symm h.1), ih h.2]

/-- A part of one character is replaced wherever this character is. -/
theorem replaceAll_singleton (d : Char) (new cs : List Char) :
    replaceAll [d] new cs = cs.flatMap fun c => if c = d then new else [c] := by
  induction cs with
  | nil => rfl
  | cons c cs ih =>
    rw [List.flatMap_cons, ← ih]
    by_cases hc : c = d
    · rw [if_pos hc, hc]
      exact replaceAll_append (List.cons_ne_nil d []) cs
    · rw [if_neg hc, replaceAll_cons_of_ne hc, List.singleton_append]

end Replace

/-! ### The endings of lines -/

section Endings

variable {cs rest : List Char} {c : Char}

theorem normalizeEndings_eq_replaceAll (cs : List Char) :
    normalizeEndings cs = replaceAll ['\r'] ['\n'] (replaceAll ['\r', '\n'] ['\n'] cs) := by
  rw [normalizeEndings]
  split
  · rfl
  next h =>
    have hno : '\r' ∉ cs := by simpa using h
    rw [replaceAll_of_notMem hno, replaceAll_of_notMem hno]

/-- One pass does what the two replacements do: a carriage return becomes a line feed and takes a
line feed behind it along, and any other character stays. -/
theorem normalizeEndings_cons (c : Char) (cs : List Char) :
    normalizeEndings (c :: cs) =
      if c = '\r' then '\n' :: normalizeEndings (if cs.head? = some '\n' then cs.tail else cs)
      else c :: normalizeEndings cs := by
  simp only [normalizeEndings_eq_replaceAll]
  by_cases hc : c = '\r'
  · subst hc
    rw [if_pos rfl]
    by_cases hfeed : cs.head? = some '\n'
    · obtain ⟨rest, rfl⟩ := List.head?_eq_some_iff.1 hfeed
      have hpair : '\r' :: '\n' :: rest = ['\r', '\n'] ++ rest := rfl
      rw [if_pos hfeed, List.tail_cons, hpair, replaceAll_append (by decide), List.singleton_append,
        replaceAll_cons_of_ne (by decide)]
    · have hpair : ¬['\r', '\n'] <+: '\r' :: cs := by
        rintro ⟨rest, hrest⟩
        exact hfeed (by rw [← (List.cons.inj hrest).2]; rfl)
      rw [if_neg hfeed, replaceAll_cons hpair]
      exact replaceAll_append (by decide) _
  · rw [if_neg hc, replaceAll_cons_of_ne hc, replaceAll_cons_of_ne hc]

theorem normalizeEndings_cons_of_ne (hc : c ≠ '\r') (rest : List Char) :
    normalizeEndings (c :: rest) = c :: normalizeEndings rest := by
  rw [normalizeEndings_cons, if_neg hc]

/-- A carriage return is an ending of its own, if no line feed follows. -/
theorem normalizeEndings_carriage (h : rest.head? ≠ some '\n') :
    normalizeEndings ('\r' :: rest) = '\n' :: normalizeEndings rest := by
  rw [normalizeEndings_cons, if_pos rfl, if_neg h]

theorem normalizeEndings_carriageFeed (rest : List Char) :
    normalizeEndings ('\r' :: '\n' :: rest) = '\n' :: normalizeEndings rest := by
  rw [normalizeEndings_cons, if_pos rfl, if_pos List.head?_cons, List.tail_cons]

theorem normalizeEndings_of_notMem (h : '\r' ∉ cs) : normalizeEndings cs = cs := by
  rw [normalizeEndings_eq_replaceAll, replaceAll_of_notMem h, replaceAll_of_notMem h]

theorem normalizeEndings_append (h : '\r' ∉ cs) (rest : List Char) :
    normalizeEndings (cs ++ rest) = cs ++ normalizeEndings rest := by
  induction cs with
  | nil => rfl
  | cons c cs ih =>
    rw [List.mem_cons, not_or] at h
    rw [List.cons_append, normalizeEndings_cons_of_ne (Ne.symm h.1), ih h.2, List.cons_append]

theorem carriage_notMem_normalizeEndings (cs : List Char) : '\r' ∉ normalizeEndings cs := by
  rw [normalizeEndings_eq_replaceAll, replaceAll_singleton, List.mem_flatMap]
  rintro ⟨c, -, hc⟩
  split at hc
  · cases List.mem_singleton.1 hc
  next hne => exact hne (List.mem_singleton.1 hc).symm

end Endings

theorem dropEndWhile_of_getLast {α : Type u} {p : α → Bool} {cs : List α} {c : α}
    (h : cs.getLast? = some c) (hc : p c = false) : dropEndWhile p cs = cs := by
  obtain ⟨front, rfl⟩ := List.getLast?_eq_some_iff.1 h
  simp [dropEndWhile, hc]

theorem mem_of_mem_dropEndWhile {α : Type u} {p : α → Bool} {cs : List α} {c : α}
    (h : c ∈ dropEndWhile p cs) : c ∈ cs := by
  unfold dropEndWhile at h
  simpa using (List.dropWhile_sublist p).subset (List.mem_reverse.1 h)

theorem getLast_dropEndWhile {α : Type u} {p : α → Bool} {cs front : List α} {c : α}
    (h : dropEndWhile p cs = front ++ [c]) : p c = false := by
  unfold dropEndWhile at h
  have hreverse : cs.reverse.dropWhile p = c :: front.reverse := by
    rw [← List.reverse_reverse (cs.reverse.dropWhile p), h]
    simp
  have hne : cs.reverse.dropWhile p ≠ [] := by simp [hreverse]
  have := List.head_dropWhile_not p hne
  simpa [hreverse] using this

theorem isDigit_of_mem_toString {n : Nat} {c : Char} (h : c ∈ (toString n).toList) :
    c.isDigit = true := by
  rw [show toString n = n.repr from rfl, Nat.toList_repr] at h
  exact Nat.isDigit_of_mem_toDigits (by decide) (by decide) h

end TemplateAtlas.Text
