import TemplateAtlas.Proofs.SortedMap
import TemplateAtlas.Proofs.Template.Written
import TemplateAtlas.Template.Usage

/-!
# Which parameters a line uses

A name is found in a line only where it is written with one of the two patterns
(`mentions_of_mem_usagesOfLine`). The converse is not so: occurrences do not overlap, so one can
swallow another. But an expression of its own is found, whatever stands around it
(`mem_usagesOfLine_of_expresses`): an occurrence that begins before its name ends before it
(`mem_occurrences_append`). With a dot it holds no blank, and in brackets it would have to take the
braces of the expression for a part of its name, behind which comes a quote but no bracket.
-/

namespace TemplateAtlas.Template

open Std TemplateAtlas.Text

variable {name cs front rest after line : List Char} {c : Char}

/-! ### The patterns -/

/-- A name that can be used with a dot. -/
def IsParameterName (name : List Char) : Prop :=
  ∃ c rest, name = c :: rest ∧ isNameStart c = true ∧ ∀ d ∈ rest, isNamePart d = true

theorem isAsciiWord_of_isNameStart (h : isNameStart c = true) : isAsciiWord c = true := by
  simp only [isNameStart, isAsciiWord, Char.isAlphanum, Bool.or_eq_true] at h ⊢
  tauto

theorem isNamePart_iff : isNamePart c = true ↔ isAsciiWord c = true ∨ c = '-' := by
  simp [isNamePart, isAsciiWord]

theorem IsParameterName.isNamePart (h : IsParameterName name) :
    ∀ c ∈ name, isNamePart c = true := by
  obtain ⟨c, rest, rfl, hc, hrest⟩ := h
  exact List.forall_mem_cons.2 ⟨isNamePart_iff.2 (.inl (isAsciiWord_of_isNameStart hc)), hrest⟩

theorem exists_of_dotUsage? (h : dotUsage? cs = some name) :
    IsParameterName name ∧ ∃ after, cs = "parameters.".toList ++ (name ++ after) := by
  unfold dotUsage? at h
  split at h
  next c rest hdrop =>
    split at h
    next hc =>
      obtain rfl := Option.some.inj h
      refine ⟨⟨c, _, rfl, hc, fun d hd => List.mem_takeWhile_imp hd⟩,
        rest.dropWhile Template.isNamePart, ?_⟩
      rw [dropPrefix?_eq_some_iff.1 hdrop, List.cons_append, List.takeWhile_append_dropWhile]
    next => cases h
  next => cases h

/-- With a dot a name reaches as far as its characters do. -/
theorem dotUsage?_append (hname : IsParameterName name) (hc : isNamePart c = false)
    (after : List Char) : dotUsage? ("parameters.".toList ++ (name ++ c :: after)) = some name := by
  obtain ⟨d, rest, rfl, hd, hrest⟩ := hname
  have hdrop : dropPrefix? "parameters.".toList
      ("parameters.".toList ++ (d :: rest ++ c :: after)) =
      some (d :: (rest ++ c :: after)) := dropPrefix?_eq_some_iff.2 rfl
  rw [dotUsage?, hdrop]
  dsimp only
  rw [if_pos hd, List.takeWhile_append_of_pos hrest, List.takeWhile_cons_of_neg (by simp [hc]),
    List.append_nil]

/-- A character of a name in brackets. -/
def isIndexPart (c : Char) : Bool :=
  !isQuote c && c != ']'

/-- A name in brackets: it stands in quotes, between blanks, and holds neither quotes nor a closing
bracket. -/
structure Indexed (name after cs : List Char) : Prop where
  /-- There is a name. -/
  ne : name ≠ []
  /-- All of it can stand in brackets. -/
  parts : ∀ c ∈ name, isIndexPart c = true
  /-- It stands in quotes and in brackets. -/
  between : ∃ bs q q' bs', (∀ b ∈ bs, isBlank b = true) ∧ (∀ b ∈ bs', isBlank b = true) ∧
    isQuote q = true ∧
    isQuote q' = true ∧ cs = "parameters[".toList ++
      (bs ++ q :: (name ++ q' :: (bs' ++ ']' :: after)))

theorem exists_eq_trimStart (cs : List Char) :
    ∃ bs, (∀ b ∈ bs, isBlank b = true) ∧ cs = bs ++ trimStart cs :=
  ⟨cs.takeWhile isBlank, fun _ hb => List.mem_takeWhile_imp hb,
    List.takeWhile_append_dropWhile.symm⟩

theorem isBlank_of_isQuote (h : isQuote c = true) : isBlank c = false := by
  rcases Bool.or_eq_true_iff.1 h with h | h <;> obtain rfl := of_decide_eq_true h <;> decide

theorem isIndexPart_of_isQuote (h : isQuote c = true) : isIndexPart c = false := by
  rw [isIndexPart, h]
  rfl

theorem isIndexPart_of_isNamePart (h : isNamePart c = true) : isIndexPart c = true := by
  have hne : ∀ d, isNamePart d = false → c ≠ d := by
    rintro d hd rfl
    rw [h] at hd
    cases hd
  simp [isIndexPart, isQuote, hne '\x27' (by decide), hne '\x22' (by decide), hne ']' (by decide)]

theorem indexed_of_indexUsage? (h : indexUsage? cs = some (name, after)) :
    Indexed name after cs := by
  unfold indexUsage? at h
  rw [show (fun c : Char => !isQuote c && c != ']') = isIndexPart from rfl] at h
  split at h
  next q rest htrim =>
    obtain ⟨opened, hopened, htrim⟩ := Option.map_eq_some_iff.1 htrim
    obtain ⟨bs, hbs, hsplit⟩ := exists_eq_trimStart opened
    dsimp only at h
    split at h
    next hq =>
      obtain ⟨hq, hne⟩ := Bool.and_eq_true_iff.1 hq
      split at h
      next q' closed hclosed =>
        split at h
        next hq' =>
          obtain ⟨after', hafter, heq⟩ := Option.map_eq_some_iff.1 h
          obtain ⟨rfl, rfl⟩ := Prod.mk.inj heq
          obtain ⟨bs', hbs', hsplit'⟩ := exists_eq_trimStart closed
          have hrest : rest.takeWhile isIndexPart ++ q' :: closed = rest :=
            hclosed ▸ List.prefix_iff_eq_append.1 (List.takeWhile_prefix _)
          rw [dropPrefix?_eq_some_iff.1 hafter] at hsplit'
          refine ⟨by simpa using hne, fun c hc => List.mem_takeWhile_imp hc, bs, q, q',
            bs', hbs, hbs',
            hq, hq', ?_⟩
          have hname : rest = rest.takeWhile isIndexPart ++ q' :: (bs' ++ ']' :: after') :=
            hrest.symm.trans (by rw [hsplit']; rfl)
          calc cs = "parameters[".toList ++ (bs ++ q :: rest) := by
                rw [dropPrefix?_eq_some_iff.1 hopened, hsplit, htrim]
            _ = _ := congrArg (fun rest => "parameters[".toList ++ (bs ++ q :: rest)) hname
        next => cases h
      next => cases h
    next => cases h
  next => cases h

theorem indexUsage?_of_indexed (h : Indexed name after cs) :
    indexUsage? cs = some (name, after) := by
  obtain ⟨hne, hparts, bs, q, q', bs', hbs, hbs', hq, hq', rfl⟩ := h
  have hopened := dropPrefix?_eq_some_iff.2
    (rfl : "parameters[".toList ++ (bs ++ q :: (name ++ q' :: (bs' ++ ']' :: after))) =
      "parameters[".toList ++ _)
  have hname : (name ++ q' :: (bs' ++ ']' :: after)).takeWhile isIndexPart = name := by
    rw [List.takeWhile_append_of_pos hparts,
      List.takeWhile_cons_of_neg (by simp [isIndexPart_of_isQuote hq']), List.append_nil]
  have hclosed : dropPrefix? [']'] (trimStart (bs' ++ ']' :: after)) = some after := by
    rw [trimStart_append_cons hbs' (by decide)]
    exact dropPrefix?_eq_some_iff.2 rfl
  unfold indexUsage?
  rw [show (fun c : Char => !isQuote c && c != ']') = isIndexPart from rfl, hopened,
    Option.map_some, trimStart_append_cons hbs (isBlank_of_isQuote hq)]
  dsimp only
  rw [hname, if_pos (by simp [hq, hne]), List.drop_left]
  dsimp only
  rw [if_pos hq', hclosed, Option.map_some]

/-! ### Where names are found -/

/-- A name is found where it is written. -/
theorem exists_of_mem_occurrences {here? : List Char → Option (List Char × Nat)} {skip : Nat}
    {inWord : Bool} (h : name ∈ occurrences here? skip inWord cs) :
    ∃ rest length, rest <:+ cs ∧ here? rest = some (name, length) := by
  induction cs generalizing skip inWord with
  | nil => cases h
  | cons c cs ih =>
    have hlater : ∀ {skip inWord}, name ∈ occurrences here? skip inWord cs →
        ∃ rest length, rest <:+ c :: cs ∧ here? rest = some (name, length) := by
      intro skip inWord hmem
      obtain ⟨rest, length, hsuffix, hhere⟩ := ih hmem
      exact ⟨rest, length, hsuffix.trans (List.suffix_cons c cs), hhere⟩
    cases skip with
    | succ k => exact hlater h
    | zero =>
      unfold occurrences at h
      dsimp only at h
      split at h
      next found length hfound =>
        rcases List.mem_cons.1 h with rfl | h
        · cases inWord with
          | true => cases hfound
          | false => exact ⟨c :: cs, length, List.suffix_rfl, hfound⟩
        · exact hlater h
      next => exact hlater h

section Scan

variable {here? : List Char → Option (List Char × Nat)} {skip n : Nat}

/-- A name that is written where a text begins is found in it. -/
theorem mem_occurrences_self {l : Nat} (hne : cs ≠ []) (h : here? cs = some (name, l)) :
    name ∈ occurrences here? 0 false cs := by
  obtain ⟨c, cs, rfl⟩ := List.exists_cons_of_ne_nil hne
  unfold occurrences
  simp [h]

/-- A name that is found in a text, however much of it is skipped up to a bound, is found behind one
more character, if no occurrence from there skips more. -/
theorem mem_occurrences_cons
    (hends : ∀ found length, here? (c :: cs) = some (found, length) → length ≤ n + 1)
    (h : ∀ skip ≤ n, name ∈ occurrences here? skip (isWord c) cs) (hskip : skip ≤ n + 1)
    (inWord : Bool) : name ∈ occurrences here? skip inWord (c :: cs) := by
  cases skip with
  | succ k => exact h k (by omega)
  | zero =>
    unfold occurrences
    dsimp only
    split
    next found length hfound =>
      refine List.mem_cons_of_mem _ (h (length - 1) ?_)
      cases inWord with
      | true => cases hfound
      | false =>
        have := hends found length hfound
        omega
    next => exact h 0 (by omega)

/-- A name that is found in a text is found behind another text that ends outside a word, if no
occurrence reaches from there over its end. -/
theorem mem_occurrences_append (hc : isWord c = false)
    (hends : ∀ part, part ≠ [] → part <:+ front ++ [c] → ∀ found length, here? (part ++ rest) =
      some (found, length) → length ≤ part.length)
    (h : name ∈ occurrences here? 0 false rest) (hskip : skip ≤ (front ++ [c]).length)
    (inWord : Bool) : name ∈ occurrences here? skip inWord (front ++ [c] ++ rest) := by
  induction front generalizing skip inWord with
  | nil =>
    refine mem_occurrences_cons (n := 0) (hends [c] (by simp) List.suffix_rfl)
      (fun skip hskip => ?_) hskip inWord
    obtain rfl := Nat.le_zero.1 hskip
    rwa [hc]
  | cons d front ih =>
    have hlater : ∀ skip ≤ (front ++ [c]).length,
        name ∈ occurrences here? skip (isWord d) (front ++ [c] ++ rest) :=
      fun skip hskip =>
        ih (fun part hne hpart => hends part hne (hpart.trans (List.suffix_cons d _))) hskip _
    exact mem_occurrences_cons (hends (d :: (front ++ [c])) (by simp) List.suffix_rfl)
      hlater hskip inWord

end Scan

/-- A name that is used with a dot is written so. -/
theorem isInfix_of_mem_dotUsages (h : name ∈ dotUsages line) :
    "parameters.".toList ++ name <:+: line := by
  obtain ⟨rest, length, hrest, hfound⟩ := exists_of_mem_occurrences h
  obtain ⟨found, husage, heq⟩ := Option.map_eq_some_iff.1 hfound
  obtain ⟨rfl, -⟩ := Prod.mk.inj heq
  obtain ⟨-, after, rfl⟩ := exists_of_dotUsage? husage
  exact List.IsInfix.trans ⟨[], after, by simp⟩ hrest.isInfix

/-- A name that is used in brackets is written so. -/
theorem isInfix_of_mem_indexUsages (h : name ∈ indexUsages line) :
    ∃ bs q q', (∀ b ∈ bs, isBlank b = true) ∧ isQuote q = true ∧ isQuote q' = true ∧
      "parameters[".toList ++ bs ++ [q] ++ name ++ [q'] <:+: line := by
  obtain ⟨rest, length, hrest, hfound⟩ := exists_of_mem_occurrences h
  obtain ⟨⟨found, after⟩, husage, heq⟩ := Option.map_eq_some_iff.1 hfound
  obtain ⟨rfl, -⟩ := Prod.mk.inj heq
  obtain ⟨-, -, bs, q, q', bs', hbs, -, hq, hq', rfl⟩ := indexed_of_indexUsage? husage
  refine ⟨bs, q, q', hbs, hq, hq', List.IsInfix.trans ⟨[], bs' ++ ']' :: after, ?_⟩ hrest.isInfix⟩
  simp

/-! ### Expressions of their own -/

/-- A text that lacks a character and opens another text opens what stands before that character. -/
theorem isPrefix_of_notMem {part : List Char} (h : part <+: front ++ c :: rest) (hc : c ∉ part) :
    part <+: front := by
  have hfront : front ++ [c] <+: front ++ c :: rest := ⟨rest, by simp⟩
  rcases List.prefix_or_prefix_of_prefix h hfront with h | h
  · rcases List.prefix_concat_iff.1 h with rfl | h
    · exact absurd (by simp) hc
    · exact h
  · exact absurd (h.subset (by simp)) hc

/-- Where the first character without a property stands is settled. -/
theorem append_cons_inj_of_forall {p : Char → Bool} {a a' b b' : List Char} {c c' : Char}
    (ha : ∀ d ∈ a, p d = true) (ha' : ∀ d ∈ a', p d = true) (hc : p c = false) (hc' : p c' = false)
    (h : a ++ c :: b = a' ++ c' :: b') : a = a' ∧ c = c' ∧ b = b' := by
  have htake := congrArg (List.takeWhile p) h
  rw [List.takeWhile_append_of_pos ha, List.takeWhile_append_of_pos ha',
    List.takeWhile_cons_of_neg (by simp [hc]), List.takeWhile_cons_of_neg (by simp [hc']),
    List.append_nil, List.append_nil] at htake
  subst htake
  obtain ⟨rfl, rfl⟩ := List.cons.inj (List.append_cancel_left h)
  exact ⟨rfl, rfl, rfl⟩

theorem isQuote_ne (h : isQuote c = true) {d : Char} (hd : isQuote d = false) : d ≠ c := by
  rintro rfl
  rw [h] at hd
  cases hd

/-- An occurrence with a dot holds no blank. -/
theorem length_le_of_dotUsage? (h : dotUsage? (front ++ ' ' :: rest) = some name) :
    ("parameters.".toList ++ name).length ≤ front.length := by
  obtain ⟨hname, after, hcs⟩ := exists_of_dotUsage? h
  have hopens : "parameters.".toList ++ name <+: front ++ ' ' :: rest := ⟨after, by simp [hcs]⟩
  refine (isPrefix_of_notMem hopens fun hmem => ?_).length_le
  rcases List.mem_append.1 hmem with hmem | hmem
  · revert hmem
    decide
  · exact absurd (hname.isNamePart _ hmem) (by decide)

/-- What opens an occurrence in brackets is not the end of a name in brackets, if behind its quote
stands a character that closes nothing. -/
theorem opening_ne_closing {bs : List Char} {d q : Char} (hblank : isBlank d = false)
    (hbracket : d ≠ ']') (hname : ∀ c ∈ name, isIndexPart c = true) (hq : isQuote q = true)
    (hbs : ∀ b ∈ bs, isBlank b = true) :
    "parameters[".toList ++ '\x27' :: d :: rest ≠ name ++ q :: (bs ++ ']' :: after) := by
  intro heq
  have hopening : ∀ c ∈ "parameters[".toList, isIndexPart c = true := List.all_eq_true.1 (by decide)
  obtain ⟨-, -, hclosed⟩ :=
    append_cons_inj_of_forall hopening hname (by decide) (isIndexPart_of_isQuote hq) heq
  cases bs with
  | nil => exact hbracket (List.cons.inj hclosed).1
  | cons b bs =>
    rw [(List.cons.inj hclosed).1, hbs b (by simp)] at hblank
    cases hblank

/-- An occurrence in brackets that begins before a brace and a blank ends before them, if what
stands behind them opens an occurrence with a quote and a character that closes nothing. -/
theorem Indexed.length_le {d : Char}
    (h : Indexed name after (front ++ '\x7b' :: ' ' ::
      ("parameters[".toList ++ '\x27' :: d :: rest)))
    (hblank : isBlank d = false) (hbracket : d ≠ ']') :
    ("parameters[".toList ++ '\x27' :: d :: rest).length ≤ after.length := by
  obtain ⟨-, hparts, bs, q, q', bs', hbs, hbs', hq, hq', hcs⟩ := h
  have hbrace : ∀ {bs : List Char}, (∀ b ∈ bs, isBlank b = true) → '\x7b' ∉ bs := fun hbs hmem =>
    absurd (hbs _ hmem) (by decide)
  -- what opens the occurrence holds no brace
  have hopened : front ++ '\x7b' :: ' ' :: ("parameters[".toList ++ '\x27' :: d :: rest) =
      "parameters[".toList ++ bs ++ [q] ++ (name ++ q' :: (bs' ++ ']' :: after)) := by
    rw [hcs, List.append_assoc, List.append_assoc, List.singleton_append]
  have hopening : '\x7b' ∉ "parameters[".toList ++ bs ++ [q] := by
    simp only [List.mem_append, List.mem_singleton, not_or]
    exact ⟨⟨by decide, hbrace hbs⟩, isQuote_ne hq (by decide)⟩
  obtain ⟨inner, rfl⟩ := isPrefix_of_notMem ⟨_, hopened.symm⟩ hopening
  rw [List.append_assoc, List.append_cancel_left_eq] at hopened
  rcases List.append_eq_append_iff.1 hopened with ⟨tail, rfl, htail⟩ | ⟨tail, rfl, htail⟩
  · -- the brace stands in the name, which would have to end at the quote of the expression
    have htailParts : ∀ c ∈ tail, isIndexPart c = true :=
      fun c hc => hparts c (List.mem_append_right _ hc)
    match tail, htail, htailParts with
    | [], htail, _ => exact absurd (List.cons.inj htail).1 (isQuote_ne hq' (by decide))
    | [_], htail, _ =>
      exact absurd (List.cons.inj (List.cons.inj htail).2).1 (isQuote_ne hq' (by decide))
    | _ :: _ :: tail, htail, htailParts =>
      refine absurd (List.cons.inj (List.cons.inj htail).2).2
        (opening_ne_closing hblank hbracket (fun c hc => htailParts c ?_) hq' hbs')
      simp [hc]
  · -- the brace stands behind the name, and what closes the occurrence holds none
    have hclosing : '\x7b' ∉ q' :: bs' ++ [']'] := by
      simp only [List.mem_cons, List.mem_append, List.not_mem_nil, or_false, not_or]
      exact ⟨⟨isQuote_ne hq' (by decide), hbrace hbs'⟩, by decide⟩
    have hclosed : q' :: bs' ++ [']'] ++ after =
        tail ++ '\x7b' :: ' ' :: ("parameters[".toList ++ '\x27' :: d :: rest) := by
      rw [← htail, List.cons_append, List.cons_append, List.append_assoc, List.singleton_append]
    obtain ⟨between, rfl⟩ := isPrefix_of_notMem ⟨after, hclosed⟩ hclosing
    have hlength := congrArg List.length hclosed
    simp only [List.length_append, List.length_cons] at hlength ⊢
    omega

/-- An occurrence in brackets that begins before the brace and the blank of an expression ends
before its name. -/
theorem length_le_of_indexUsage? {part : List Char} {d : Char} (hne : part ≠ [])
    (hpart : part <:+ front ++ ['\x7b'] ++ [' '])
    (h : indexUsage? (part ++ ("parameters[".toList ++ '\x27' :: d :: rest)) = some (name, after))
    (hd : isAsciiWord d = true) :
    ("parameters[".toList ++ '\x27' :: d :: rest).length ≤ after.length := by
  have hindexed := indexed_of_indexUsage? h
  rcases List.suffix_concat_iff.1 hpart with rfl | ⟨part, rfl, hopens⟩
  · exact absurd rfl hne
  rcases List.suffix_concat_iff.1 hopens with rfl | ⟨part, rfl, -⟩
  · -- nothing that begins with the blank is an occurrence
    obtain ⟨-, -, bs, q, q', bs', -, -, -, -, hcs⟩ := hindexed
    exact absurd (congrArg List.head? hcs) (by simp)
  · rw [List.append_assoc, List.append_assoc] at hindexed
    exact hindexed.length_le (not_blank_of_isAsciiWord hd) (ne_of_isAsciiWord hd (by decide))

theorem isWord_space : isWord ' ' = false := by
  decide

/-- An expression with a dot uses its name, whatever stands around it. -/
theorem mem_dotUsages_of_isInfix (hname : IsParameterName name)
    (h : "$\x7b\x7b parameters.".toList ++ name ++ " \x7d\x7d".toList <:+: line) :
    name ∈ dotUsages line := by
  obtain ⟨front, behind, rfl⟩ := h
  have hline : front ++ ("$\x7b\x7b parameters.".toList ++ name ++ " \x7d\x7d".toList) ++ behind =
      front ++ "$\x7b\x7b".toList ++ [' '] ++
        ("parameters.".toList ++ (name ++ ' ' :: ("\x7d\x7d".toList ++ behind))) := by
    simp
  rw [hline]
  refine mem_occurrences_append isWord_space (fun part hne hpart found length hfound => ?_) ?_
    (Nat.zero_le _) _
  · obtain ⟨found', husage, heq⟩ := Option.map_eq_some_iff.1 hfound
    obtain ⟨rfl, rfl⟩ := Prod.mk.inj heq
    obtain rfl | ⟨part, rfl, -⟩ := List.suffix_concat_iff.1 hpart
    · exact absurd rfl hne
    · rw [List.append_assoc, List.singleton_append] at husage
      have hlength := length_le_of_dotUsage? husage
      rw [List.length_append] at hlength ⊢
      exact hlength.trans (Nat.le_add_right _ _)
  · refine mem_occurrences_self (l := "parameters.".length + name.length) (by simp) ?_
    rw [dotUsage?_append hname (by decide), Option.map_some]

/-- An expression with brackets uses its name, whatever stands around it. -/
theorem mem_indexUsages_of_isInfix (hname : IsParameterName name)
    (h : "$\x7b\x7b parameters[\x27".toList ++ name ++ "\x27] \x7d\x7d".toList <:+: line) :
    name ∈ indexUsages line := by
  obtain ⟨front, behind, rfl⟩ := h
  have hparts : ∀ c ∈ name, isIndexPart c = true :=
    fun c hc => isIndexPart_of_isNamePart (hname.isNamePart c hc)
  obtain ⟨d, tail, rfl, hd, -⟩ := hname
  have hline : front ++
      ("$\x7b\x7b parameters[\x27".toList ++ (d :: tail) ++ "\x27] \x7d\x7d".toList) ++ behind =
      front ++ "$\x7b".toList ++ ['\x7b'] ++ [' '] ++
        ("parameters[".toList ++ '\x27' :: d ::
          (tail ++ '\x27' :: ']' :: (" \x7d\x7d".toList ++ behind))) := by
    simp
  rw [hline]
  refine mem_occurrences_append isWord_space (fun part hne hpart found length hfound => ?_) ?_
    (Nat.zero_le _) _
  · obtain ⟨⟨found', after⟩, husage, heq⟩ := Option.map_eq_some_iff.1 hfound
    obtain ⟨rfl, rfl⟩ := Prod.mk.inj heq
    have hlength := length_le_of_indexUsage? hne hpart husage (isAsciiWord_of_isNameStart hd)
    rw [List.length_append]
    omega
  · have hindexed : Indexed (d :: tail) (" \x7d\x7d".toList ++ behind)
        ("parameters[".toList ++ '\x27' :: d ::
        (tail ++ '\x27' :: ']' :: (" \x7d\x7d".toList ++ behind))) :=
      ⟨by simp, hparts, [], '\x27', '\x27', [], by simp, by simp, by decide, by decide, rfl⟩
    exact mem_occurrences_self (by simp) (congrArg (Option.map _) (indexUsage?_of_indexed hindexed))

/-! ### Lines and files -/

/-- The text holds an expression of its own that uses the name, with a dot or in brackets. -/
def Expresses (name cs : List Char) : Prop :=
  "$\x7b\x7b parameters.".toList ++ name ++ " \x7d\x7d".toList <:+: cs ∨
    "$\x7b\x7b parameters[\x27".toList ++ name ++ "\x27] \x7d\x7d".toList <:+: cs

/-- Somewhere in the text the name is written behind a dot, perhaps as the beginning of a longer
one, or behind an opening bracket in quotes. -/
def Mentions (name cs : List Char) : Prop :=
  "parameters.".toList ++ name <:+: cs ∨
    ∃ bs q q', (∀ b ∈ bs, isBlank b = true) ∧ isQuote q = true ∧ isQuote q' = true ∧
      "parameters[".toList ++ bs ++ [q] ++ name ++ [q'] <:+: cs

theorem mem_usagesOfLine_of_expresses (hname : IsParameterName name)
    (h : Expresses name (stripComment line)) : name ∈ usagesOfLine line := by
  rcases h with h | h
  · exact List.mem_append_left _ (mem_dotUsages_of_isInfix hname h)
  · exact List.mem_append_right _ (mem_indexUsages_of_isInfix hname h)

theorem mentions_of_mem_usagesOfLine (h : name ∈ usagesOfLine line) :
    Mentions name (stripComment line) := by
  rcases List.mem_append.1 h with h | h
  · exact .inl (isInfix_of_mem_dotUsages h)
  · exact .inr (isInfix_of_mem_indexUsages h)

/-- The names that a file uses are those that its lines use. -/
theorem contains_usages_iff {text name : String} : SortedMap.contains (usages text) name = true ↔
    ∃ line ∈ linesOf text, name.toList ∈ usagesOfLine line := by
  rw [usages, SortedSet.contains_ofList]
  simp only [List.mem_map, List.mem_flatMap, Std.compare_eq_iff_eq]
  constructor
  · rintro ⟨_, ⟨found, ⟨line, hline, hfound⟩, rfl⟩, rfl⟩
    exact ⟨line, hline, by rwa [String.toList_ofList]⟩
  · rintro ⟨line, hline, hname⟩
    exact ⟨name, ⟨name.toList, ⟨line, hline, hname⟩, String.ofList_toList⟩, rfl⟩

end TemplateAtlas.Template
