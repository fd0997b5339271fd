import Mathlib.Algebra.GroupWithZero.Nat
import TemplateAtlas.Proofs.Template.Comment
import TemplateAtlas.Text.Word

/-!
# Lines as they are written

Text in single quotes with its own single quotes doubled reads as that text, whatever else it holds
(`unquote_quoted`), and no scan of a line finds a comment in it. A line of spaces, a key and such a
text reads as an entry (`ofContent?_quoted`).
-/

namespace TemplateAtlas.Template

open TemplateAtlas.Text

/-! ### Quotes -/

/-- The text with each single quote doubled. -/
def doubled : List Char → List Char
  | [] => []
  | c :: cs => if c = '\x27' then '\x27' :: '\x27' :: doubled cs else c :: doubled cs

/-- The text in single quotes. -/
def quoted (cs : List Char) : List Char :=
  '\x27' :: doubled cs ++ ['\x27']

theorem undouble_doubled (cs : List Char) : undouble (doubled cs) = cs := by
  induction cs with
  | nil => rfl
  | cons c cs ih =>
    by_cases h : c = '\x27'
    · rw [doubled, if_pos h, undouble, ih, h]
    · rw [doubled, if_neg h, undouble, ih]
      exact fun _ hc _ => h hc

theorem mem_of_mem_doubled {c : Char} {cs : List Char} (h : c ∈ doubled cs) : c ∈ cs := by
  induction cs with
  | nil => exact h
  | cons d cs ih =>
    rw [doubled] at h
    split at h
    next hd =>
      rcases List.mem_cons.1 h with rfl | h
      · simp [hd]
      · rcases List.mem_cons.1 h with rfl | h
        · simp [hd]
        · exact List.mem_cons_of_mem _ (ih h)
    next =>
      rcases List.mem_cons.1 h with rfl | h
      · simp
      · exact List.mem_cons_of_mem _ (ih h)

theorem getLast?_quoted (cs : List Char) : (quoted cs).getLast? = some '\x27' := by
  rw [quoted, List.getLast?_concat]

theorem trim_quoted (cs : List Char) : trim (quoted cs) = quoted cs :=
  trim_of_ends (forall_mem_of_eq_some (c := '\x27') rfl (by decide))
    (forall_mem_of_eq_some (getLast?_quoted cs) (by decide))

/-- The text between the quotes is the text that was quoted. -/
theorem unquote_quoted (cs : List Char) : unquote (quoted cs) = cs := by
  have hlast : (doubled cs ++ ['\x27']).getLast? = some '\x27' := List.getLast?_concat
  rw [unquote, trim_quoted, quoted, List.cons_append]
  simp [undouble_doubled]

theorem unquote_cons_space (cs : List Char) : unquote (' ' :: cs) = unquote cs := by
  have htrim : trim (' ' :: cs) = trim cs := rfl
  rw [unquote, unquote, htrim]

/-! ### Scans of what is written -/

section Scans

variable {q : Quoting} {afterBlank : Bool} {cs ds : List Char}

/-- Does the text hold neither `#` nor quotes? -/
def isPlain (cs : List Char) : Bool :=
  cs.all fun c => c != '#' && c != '\x27' && c != '\x22'

theorem isPlain_append (cs ds : List Char) : isPlain (cs ++ ds) = (isPlain cs && isPlain ds) :=
  List.all_append

theorem notMem_of_isPlain (h : isPlain cs = true) : '#' ∉ cs := fun hmem => by
  have := List.all_eq_true.1 h _ hmem
  revert this
  decide

/-- Without `#` there is no comment. -/
theorem cutComment_of_notMem (h : '#' ∉ cs) : cutComment q afterBlank cs = cs := by
  induction cs generalizing q afterBlank with
  | nil => rfl
  | cons c cs ih =>
    simp only [List.mem_cons, not_or] at h
    rw [cutComment, ih h.2]
    simp [Ne.symm h.1]

/-- Without quotes none is opened or closed. -/
theorem Quoting.after_of_isPlain (h : isPlain cs = true) : q.after cs = q := by
  induction cs with
  | nil => rfl
  | cons c cs ih =>
    rw [isPlain, List.all_cons, Bool.and_eq_true] at h
    have hc : (c ≠ '#' ∧ c ≠ '\x27') ∧ c ≠ '\x22' := by simpa using h.1
    have hstep : q.after (c :: cs) = (q.step c).after cs := rfl
    have hsame : q.step c = q := by simp [step, hc.1.2, hc.2]
    rw [hstep, hsame, ih h.2]

/-- Inside single quotes nothing but a single quote counts, and these come in pairs. -/
theorem scan_doubled (afterBlank : Bool) (cs : List Char) :
    cutComment ⟨true, false⟩ afterBlank (doubled cs) = doubled cs ∧
      (⟨true, false⟩ : Quoting).after (doubled cs) = ⟨true, false⟩ := by
  induction cs generalizing afterBlank with
  | nil => exact ⟨rfl, rfl⟩
  | cons c cs ih =>
    by_cases h : c = '\x27'
    · have htwice : ((⟨true, false⟩ : Quoting).step '\x27').step '\x27' = ⟨true, false⟩ := by decide
      rw [doubled, if_pos h]
      refine ⟨?_, ?_⟩
      · simp [cutComment, htwice, (ih _).1]
      · rw [Quoting.after, List.foldl_cons, List.foldl_cons, htwice]
        exact (ih false).2
    · have hsame : (⟨true, false⟩ : Quoting).step c = ⟨true, false⟩ := by simp [Quoting.step, h]
      rw [doubled, if_neg h]
      refine ⟨?_, ?_⟩
      · simp [cutComment, hsame, (ih _).1, Quoting.isOpen]
      · rw [Quoting.after, List.foldl_cons, hsame]
        exact (ih false).2

theorem Quoting.after_append (q : Quoting) (cs ds : List Char) :
    q.after (cs ++ ds) = (q.after cs).after ds :=
  List.foldl_append

/-- A scan that begins outside quotes meets no comment in the text and is outside quotes again
behind it. -/
structure IsQuiet (cs : List Char) : Prop where
  /-- There is no comment, whether or not a blank stands before the text. -/
  cut : ∀ afterBlank, cutComment {} afterBlank cs = cs
  /-- All quotes are closed. -/
  closed : ({} : Quoting).after cs = {}

theorem IsQuiet.append (hcs : IsQuiet cs) (hds : IsQuiet ds) : IsQuiet (cs ++ ds) where
  cut afterBlank := by rw [cutComment_append, if_pos (hcs.cut afterBlank), hcs.closed, hds.cut]
  closed := by rw [Quoting.after_append, hcs.closed, hds.closed]

theorem isQuiet_of_isPlain (h : isPlain cs = true) : IsQuiet cs :=
  ⟨fun _ => cutComment_of_notMem (notMem_of_isPlain h), Quoting.after_of_isPlain h⟩

theorem isQuiet_colon : IsQuiet [':', ' '] :=
  isQuiet_of_isPlain (by decide)

/-- Text in single quotes is quiet, whatever it holds. -/
theorem isQuiet_quoted (cs : List Char) : IsQuiet (quoted cs) := by
  have hopen : ({} : Quoting).step '\x27' = ⟨true, false⟩ := by decide
  obtain ⟨hcut, hafter⟩ := scan_doubled false cs
  have hclose : cutComment ⟨true, false⟩ (endsInBlank false (doubled cs)) ['\x27'] = ['\x27'] := by
    simp [cutComment]
  refine ⟨fun afterBlank => ?_, ?_⟩
  · rw [quoted, List.cons_append, cutComment, hopen, show isBlank '\x27' = false by decide,
      cutComment_append, if_pos hcut, hafter, hclose]
    simp
  · have hstart : ({} : Quoting).after ('\x27' :: doubled cs) = ⟨true, false⟩ := hafter
    rw [quoted, Quoting.after_append, hstart]
    decide

/-- A quiet line whose last character is not blank stays. -/
theorem IsQuiet.stripComment_eq (h : IsQuiet cs) (hlast : ∀ c ∈ cs.getLast?, isBlank c = false) :
    stripComment cs = cs := by
  rw [stripComment, h.cut]
  cases hd : cs.getLast? with
  | none =>
    rw [List.getLast?_eq_none_iff.1 hd]
    rfl
  | some d => exact dropEndWhile_of_getLast hd (hlast d hd)

theorem getLast?_append_quoted (cs value : List Char) :
    (cs ++ quoted value).getLast? = some '\x27' := by
  rw [List.getLast?_append, getLast?_quoted, Option.some_or]

/-- What is written before text in quotes and the text itself stay. -/
theorem stripComment_quoted (h : isPlain cs = true) (value : List Char) :
    stripComment (cs ++ quoted value) = cs ++ quoted value :=
  ((isQuiet_of_isPlain h).append (isQuiet_quoted value)).stripComment_eq
    (forall_mem_of_eq_some (getLast?_append_quoted cs value) (by decide))

/-- A line without `#` whose last character is not blank stays. -/
theorem stripComment_of_notMem (hhash : '#' ∉ cs) (hlast : ∀ c ∈ cs.getLast?, isBlank c = false) :
    stripComment cs = cs := by
  rw [stripComment, cutComment_of_notMem hhash]
  cases hd : cs.getLast? with
  | none =>
    rw [List.getLast?_eq_none_iff.1 hd]
    rfl
  | some d => exact dropEndWhile_of_getLast hd (hlast d hd)

end Scans

/-! ### Indentation -/

/-- So many spaces. -/
def spaces (n : Nat) : List Char :=
  List.replicate n ' '

section Indentation

variable {content : List Char}

theorem eq_space_of_mem_spaces {n : Nat} {c : Char} (h : c ∈ spaces n) : c = ' ' :=
  List.eq_of_mem_replicate h

theorem indentOf_spaces_append (n : Nat) (h : ∀ c ∈ content.head?, isIndent c = false) :
    indentOf (spaces n ++ content) = n := by
  have hstop : content.takeWhile isIndent = [] := by
    cases content with
    | nil => rfl
    | cons c cs => simp [h c rfl]
  have hspaces : ∀ c ∈ spaces n, isIndent c = true :=
    fun c hc => by rw [eq_space_of_mem_spaces hc]; decide
  rw [indentOf, List.takeWhile_append_of_pos hspaces, hstop, List.append_nil, spaces,
    List.length_replicate]

theorem dropWhile_spaces_append (n : Nat) (h : ∀ c ∈ content.head?, isIndent c = false) :
    (spaces n ++ content).dropWhile isIndent = content := by
  have hspaces : ∀ c ∈ spaces n, isIndent c = true :=
    fun c hc => by rw [eq_space_of_mem_spaces hc]; decide
  rw [List.dropWhile_append_of_pos hspaces]
  cases content with
  | nil => rfl
  | cons c cs => rw [List.dropWhile_cons_of_neg (by simp [h c rfl])]

theorem trimStart_spaces_append (n : Nat) (h : ∀ c ∈ content.head?, isBlank c = false) :
    trimStart (spaces n ++ content) = content := by
  have hspaces : ∀ c ∈ spaces n, isBlank c = true :=
    fun c hc => by rw [eq_space_of_mem_spaces hc]; decide
  rw [trimStart, List.dropWhile_append_of_pos hspaces]
  cases content with
  | nil => rfl
  | cons c cs => rw [List.dropWhile_cons_of_neg (by simp [h c rfl])]

end Indentation

/-! ### Entries -/

/-- A key of ASCII letters, digits and underscores that opens with no digit. -/
def isIdentifier (key : List Char) : Bool :=
  key.head?.any (fun c => c.isAlpha || c = '_') && key.all isAsciiWord

section Entries

variable {key : List Char} {c : Char}

theorem ne_nil_of_isIdentifier (h : isIdentifier key = true) : key ≠ [] := by
  rintro rfl
  cases h

theorem isAsciiWord_of_isIdentifier (h : isIdentifier key = true) :
    ∀ c ∈ key, isAsciiWord c = true := by
  rw [isIdentifier, Bool.and_eq_true] at h
  exact List.all_eq_true.1 h.2

theorem not_blank_of_isAsciiWord (h : isAsciiWord c = true) : isBlank c = false := by
  have hclasses : isAsciiWord c =
      ((((0x41 ≤ c.val ∧ c.val ≤ 0x5a) || (0x61 ≤ c.val && c.val ≤ 0x7a)) ||
      (0x30 ≤ c.val && c.val ≤ 0x39)) || c = '_') := rfl
  have hrange : (0x30 ≤ c.toNat ∧ c.toNat ≤ 0x39) ∨ (0x41 ≤ c.toNat ∧ c.toNat ≤ 0x5a) ∨
      (0x61 ≤ c.toNat ∧ c.toNat ≤ 0x7a) ∨ c.toNat = 0x5f := by
    simp only [hclasses, Bool.or_eq_true, Bool.and_eq_true, decide_eq_true_eq,
      UInt32.le_iff_toNat_le] at h
    rcases h with ((h | h) | h) | rfl
    · exact .inr (.inl h)
    · exact .inr (.inr (.inl h))
    · exact .inl h
    · exact .inr (.inr (.inr rfl))
  simp only [isBlank, Bool.or_eq_false_iff, Bool.and_eq_false_iff, decide_eq_false_iff_not]
  omega

theorem not_indent_of_isAsciiWord (h : isAsciiWord c = true) : isIndent c = false := by
  refine Bool.eq_false_iff.2 fun hindent => ?_
  have := isBlank_of_isIndent hindent
  rw [not_blank_of_isAsciiWord h] at this
  cases this

theorem ne_of_isAsciiWord (h : isAsciiWord c = true) {d : Char} (hd : isAsciiWord d = false) :
    c ≠ d := by
  rintro rfl
  rw [h] at hd
  cases hd

/-- The first colon after a word separates it from the rest. -/
theorem splitAtColon_of_word (hword : ∀ c ∈ key, isAsciiWord c = true) {rest : List Char}
    (hrest : rest.head?.all isIndent = true) :
    splitAtColon {} (key ++ ':' :: rest) = some (key, rest) := by
  induction key with
  | nil => simp [splitAtColon, hrest, Quoting.isOpen]
  | cons c cs ih =>
    have hc : isAsciiWord c = true := hword c (by simp)
    have hcolon : c ≠ ':' := ne_of_isAsciiWord hc (by decide)
    have hsingle : c ≠ '\x27' := ne_of_isAsciiWord hc (by decide)
    have hdouble : c ≠ '\x22' := ne_of_isAsciiWord hc (by decide)
    have hstep : ({} : Quoting).step c = {} := by simp [Quoting.step, hsingle, hdouble]
    rw [List.cons_append, splitAtColon, hstep, ih fun d hd => hword d (by simp [hd])]
    simp [hcolon]

variable (hne : key ≠ []) (hword : ∀ c ∈ key, isAsciiWord c = true)
include hne hword

theorem unquote_of_word : unquote key = key := by
  have htrim : trim key = key := by
    refine trim_of_ends (fun c hc => ?_) fun c hc => ?_
    · exact not_blank_of_isAsciiWord (hword c (List.mem_of_head? hc))
    · exact not_blank_of_isAsciiWord (hword c (List.mem_of_getLast? hc))
  obtain ⟨c, cs, rfl⟩ := List.exists_cons_of_ne_nil hne
  have hsingle : c ≠ '\x27' := ne_of_isAsciiWord (hword c (by simp)) (by decide)
  have hdouble : c ≠ '\x22' := ne_of_isAsciiWord (hword c (by simp)) (by decide)
  rw [unquote, htrim]
  simp [hsingle, hdouble]

theorem isKey_of_word : isKey key = true := by
  have hspace : ' ' ∉ key := fun h => by
    have := hword _ h
    revert this
    decide
  obtain ⟨c, cs, rfl⟩ := List.exists_cons_of_ne_nil hne
  have hdash : c ≠ '-' := ne_of_isAsciiWord (hword c (by simp)) (by decide)
  simp only [isKey, List.isEmpty_cons, List.head?_cons, List.contains_eq_mem, hspace]
  simp [hdash]

/-- A word, a colon and what follows it after a space are an entry. -/
theorem ofContent?_of_word {rest : List Char} (hrest : rest.head?.all isIndent = true)
    (hlast : ∀ c ∈ (':' :: rest).getLast?, isBlank c = false) :
    Entry.ofContent? (key ++ ':' :: rest) = some ⟨key, trim rest⟩ := by
  have htrim : trim (key ++ ':' :: rest) = key ++ ':' :: rest := by
    refine trim_of_ends (fun c hc => ?_) fun c hc => hlast c ?_
    · obtain ⟨d, ds, rfl⟩ := List.exists_cons_of_ne_nil hne
      obtain rfl : d = c := Option.some.inj hc
      exact not_blank_of_isAsciiWord (hword d (by simp))
    · have hsame : (key ++ ':' :: rest).getLast? = (':' :: rest).getLast? := by
        rw [List.getLast?_append, List.getLast?_cons, Option.some_or]
      rwa [hsame] at hc
  rw [Entry.ofContent?, htrim, splitAtColon_of_word hword hrest]
  simp only [unquote_of_word hne hword, isKey_of_word hne hword, if_true]

/-- A key with a value between no blanks is an entry. -/
theorem ofContent?_of_trim {value : List Char} (hvalue : value ≠ []) (htrim : trim value = value) :
    Entry.ofContent? (key ++ ':' :: ' ' :: value) = some ⟨key, value⟩ := by
  have hspace : trim (' ' :: value) = trim value := rfl
  obtain ⟨c, hc⟩ : ∃ c, value.getLast? = some c := ⟨_, List.getLast?_eq_getLast_of_ne_nil hvalue⟩
  have hlast : (':' :: ' ' :: value).getLast? = some c := by
    rw [List.getLast?_cons, List.getLast?_cons, hc]
    rfl
  rw [ofContent?_of_word hne hword (by rfl)
    (forall_mem_of_eq_some hlast ((ends_of_trim htrim).2 c hc)), hspace, htrim]

/-- A key with a quoted value is an entry. -/
theorem ofContent?_quoted (value : List Char) :
    Entry.ofContent? (key ++ ':' :: ' ' :: quoted value) = some ⟨key, quoted value⟩ :=
  ofContent?_of_trim hne hword (by simp [quoted]) (trim_quoted value)

/-- A key without a value is an entry. -/
theorem ofContent?_bare : Entry.ofContent? (key ++ [':']) = some ⟨key, []⟩ :=
  ofContent?_of_word hne hword (by rfl) (forall_mem_of_eq_some (c := ':') rfl (by decide))

end Entries

/-- No colon stands outside the quotes of a text in single quotes. -/
theorem splitAtColon_doubled (value : List Char) :
    splitAtColon ⟨true, false⟩ (doubled value ++ ['\x27']) = none := by
  induction value with
  | nil => decide
  | cons c value ih =>
    by_cases h : c = '\x27'
    · have htwice : ((⟨true, false⟩ : Quoting).step '\x27').step '\x27' = ⟨true, false⟩ := by decide
      rw [doubled, if_pos h, List.cons_append, List.cons_append, splitAtColon,
        splitAtColon, htwice, ih]
      simp
    · have hsame : (⟨true, false⟩ : Quoting).step c = ⟨true, false⟩ := by simp [Quoting.step, h]
      rw [doubled, if_neg h, List.cons_append, splitAtColon, hsame, ih]
      simp [Quoting.isOpen]

/-- A text in single quotes is no entry. -/
theorem ofContent?_quoted_eq_none (value : List Char) : Entry.ofContent? (quoted value) = none := by
  have hopen : ({} : Quoting).step '\x27' = ⟨true, false⟩ := by decide
  rw [Entry.ofContent?, trim_quoted, quoted, List.cons_append, splitAtColon, hopen,
    splitAtColon_doubled]
  rfl

/-! ### Lines -/

/-- The line has no comment, and its content stands in the given column. -/
structure StandsAt (column : Nat) (content line : List Char) : Prop where
  /-- The line has neither a comment nor blanks at its end. -/
  text : stripComment line = line
  /-- It is indented up to the column. -/
  indent : indentOf line = column
  /-- The content follows. -/
  shown : line.dropWhile isIndent = content
  /-- There is some content. -/
  stated : content ≠ []

section Lines

variable {column : Nat} {content line cs : List Char}

theorem StandsAt.isIgnorable_eq (h : StandsAt column content line) : isIgnorable line = false := by
  refine Bool.eq_false_iff.2 fun hnone => h.stated ?_
  rw [isIgnorable_iff, h.text] at hnone
  rw [← h.shown, hnone]
  rfl

theorem isPlain_spaces (n : Nat) : isPlain (spaces n) = true :=
  List.all_eq_true.2 fun c hc => by rw [eq_space_of_mem_spaces hc]; decide

theorem isPlain_of_word (h : ∀ c ∈ cs, isAsciiWord c = true) : isPlain cs = true := by
  refine List.all_eq_true.2 fun c hc => ?_
  have hhash : c ≠ '#' := ne_of_isAsciiWord (h c hc) (by decide)
  have hsingle : c ≠ '\x27' := ne_of_isAsciiWord (h c hc) (by decide)
  have hdouble : c ≠ '\x22' := ne_of_isAsciiWord (h c hc) (by decide)
  simp [hhash, hsingle, hdouble]

/-- Quiet text between no blanks stands where it is written. -/
theorem standsAt_of_isQuiet (column : Nat) (h : IsQuiet cs) (hne : cs ≠ [])
    (hfirst : ∀ c ∈ cs.head?, isIndent c = false) (hlast : ∀ c ∈ cs.getLast?, isBlank c = false) :
    StandsAt column cs (spaces column ++ cs) := by
  refine ⟨?_, indentOf_spaces_append column hfirst, dropWhile_spaces_append column hfirst, hne⟩
  refine ((isQuiet_of_isPlain (isPlain_spaces column)).append h).stripComment_eq fun c hc => ?_
  obtain ⟨d, hd⟩ : ∃ d, cs.getLast? = some d := ⟨_, List.getLast?_eq_getLast_of_ne_nil hne⟩
  rw [List.getLast?_append, hd] at hc
  exact hlast c (by rwa [hd])

/-- Plain text with quoted text behind it stands where it is written. -/
theorem standsAt_quoted (column : Nat) (h : isPlain cs = true)
    (hfirst : ∀ c ∈ cs.head?, isIndent c = false) (value : List Char) :
    StandsAt column (cs ++ quoted value) (spaces column ++ (cs ++ quoted value)) := by
  have hhead : ∀ c ∈ (cs ++ quoted value).head?, isIndent c = false := by
    cases cs with
    | nil => exact forall_mem_of_eq_some (c := '\x27') rfl (by decide)
    | cons d cs => exact hfirst
  exact standsAt_of_isQuiet column ((isQuiet_of_isPlain h).append (isQuiet_quoted value))
    (by simp [quoted]) hhead
    (forall_mem_of_eq_some (getLast?_append_quoted cs value) (by decide))

/-- Plain text stands where it is written. -/
theorem standsAt_plain (column : Nat) (h : isPlain cs = true) (hne : cs ≠ [])
    (hfirst : ∀ c ∈ cs.head?, isIndent c = false) (hlast : ∀ c ∈ cs.getLast?, isBlank c = false) :
    StandsAt column cs (spaces column ++ cs) :=
  standsAt_of_isQuiet column (isQuiet_of_isPlain h) hne hfirst hlast

end Lines

/-- The content behind a dash and a space stands two columns further. -/
theorem afterDash_of_first {c : Char} (h : isBlank c = false) (cs : List Char) :
    afterDash ('-' :: ' ' :: c :: cs) = (c :: cs, 2) := by
  have htrim : trimStart (' ' :: c :: cs) = c :: cs := by
    rw [trimStart, List.dropWhile_cons_of_pos (by decide), List.dropWhile_cons_of_neg (by simp [h])]
  have hdash : '-'.utf8Size = 1 := by decide
  have hspace : ' '.utf8Size = 1 := by decide
  rw [afterDash, List.tail_cons, htrim]
  simp only [byteLength, hdash, hspace, Prod.mk.injEq, true_and]
  omega

/-! ### Texts -/

/-- A text without line breaks. -/
def IsOneLine (cs : List Char) : Prop :=
  '\n' ∉ cs ∧ '\r' ∉ cs

instance (cs : List Char) : Decidable (IsOneLine cs) :=
  inferInstanceAs (Decidable (_ ∧ _))

/-- A string without line breaks. -/
abbrev LineText :=
  { text : String // IsOneLine text.toList }

/-- What is written one below the other, with the numbers of the lines on which it begins: `height`
counts the lines of each, and the first begins on the line `first`. -/
def placed {α : Type u} (height : α → Nat) (first : Nat) : List α → List (Nat × α)
  | [] => []
  | a :: as => (first, a) :: placed height (first + height a) as

theorem placed_append {α : Type u} (height : α → Nat) (first : Nat) (as bs : List α) :
    placed height first (as ++ bs) =
      placed height first as ++ placed height (first + (as.map height).sum) bs := by
  induction as generalizing first with
  | nil => rfl
  | cons a as ih => simp [placed, ih, Nat.add_assoc]

theorem placed_map {α : Type u} {β : Type v} (height : β → Nat) (f : α → β) (first : Nat)
    (as : List α) :
    placed height first (as.map f) = (placed (fun a => height (f a)) first as).map fun p =>
      (p.1, f p.2) := by
  induction as generalizing first with
  | nil => rfl
  | cons a as ih => simp [placed, ih]

theorem map_snd_placed {α : Type u} (height : α → Nat) (first : Nat) (as : List α) :
    (placed height first as).map (·.2) = as := by
  induction as generalizing first with
  | nil => rfl
  | cons a as ih => rw [placed, List.map_cons, ih]

/-- What stands in the place of something begins where that begins. -/
theorem placed_flatMap {α : Type u} {β : Type v} (height : β → Nat) (f : α → List β) (first : Nat)
    (as : List α) :
    placed height first (as.flatMap f) =
      (placed (fun a => ((f a).map height).sum) first as).flatMap fun p =>
        placed height p.1 (f p.2) := by
  induction as generalizing first with
  | nil => rfl
  | cons a as ih => rw [List.flatMap_cons, placed_append, ih, placed, List.flatMap_cons]

/-- The text of some lines. The last line is ended like the others or not. -/
def textOf (lines : List (List Char)) (ended : Bool) : String :=
  String.ofList (joinLines lines ++ if ended then ['\n'] else [])

section Texts

variable {lines : List (List Char)}

theorem mem_joinLines {c : Char} (h : c ∈ joinLines lines) :
    c = '\n' ∨ ∃ line ∈ lines, c ∈ line := by
  induction lines with
  | nil => simp [joinLines] at h
  | cons line lines ih =>
    cases lines with
    | nil => exact .inr ⟨line, by simp, by simpa [joinLines] using h⟩
    | cons next lines =>
      rw [joinLines, List.intercalate_cons_cons, List.append_assoc, List.mem_append,
        List.mem_append] at h
      rcases h with h | h | h
      · exact .inr ⟨line, by simp, h⟩
      · exact .inl (List.mem_singleton.1 h)
      · rcases ih h with heq | ⟨other, hother, hc⟩
        · exact .inl heq
        · exact .inr ⟨other, List.mem_cons_of_mem _ hother, hc⟩

/-- Nothing is read of a text but its lines and some that are empty. -/
theorem exists_linesOf_textOf (h : ∀ line ∈ lines, IsOneLine line) (ended : Bool) :
    ∃ rest, (∀ line ∈ rest, line = []) ∧ linesOf (textOf lines ended) = lines ++ rest := by
  have hreturn : '\r' ∉ joinLines lines ++ if ended then ['\n'] else [] := by
    intro hmem
    rcases List.mem_append.1 hmem with hmem | hmem
    · rcases mem_joinLines hmem with heq | ⟨line, hline, hin⟩
      · cases heq
      · exact (h line hline).2 hin
    · cases ended <;> simp at hmem
  rw [linesOf, textOf, String.toList_ofList, normalizeEndings_of_notMem hreturn]
  by_cases hne : lines = []
  · subst hne
    cases ended
    · exact ⟨[[]], by simp, rfl⟩
    · exact ⟨[[], []], by simp, rfl⟩
  · have hlines : splitOn '\n' (joinLines lines) = lines :=
      splitOn_intercalate hne fun line hline => (h line hline).1
    cases ended
    · refine ⟨[], by simp, ?_⟩
      simpa using hlines
    · refine ⟨[[]], by simp, ?_⟩
      simp only [if_true]
      rw [splitOn_append_sep, hlines]
      rfl

theorem isOneLine_append {ds : List Char} : IsOneLine (cs ++ ds) ↔ IsOneLine cs ∧ IsOneLine ds := by
  simp only [IsOneLine, List.mem_append, not_or]
  exact and_and_and_comm

theorem isOneLine_spaces (n : Nat) : IsOneLine (spaces n) :=
  ⟨fun h => absurd (eq_space_of_mem_spaces h) (by decide),
    fun h => absurd (eq_space_of_mem_spaces h) (by decide)⟩

theorem isOneLine_of_word (h : ∀ c ∈ cs, isAsciiWord c = true) : IsOneLine cs :=
  ⟨fun hmem => absurd (h _ hmem) (by decide), fun hmem => absurd (h _ hmem) (by decide)⟩

theorem isOneLine_quoted (h : IsOneLine cs) : IsOneLine (quoted cs) := by
  have hquoted : ∀ c ∈ quoted cs, c = '\x27' ∨ c ∈ cs := by
    intro c hc
    rw [quoted, List.cons_append, List.mem_cons, List.mem_append, List.mem_singleton] at hc
    rcases hc with hc | hc | hc
    · exact .inl hc
    · exact .inr (mem_of_mem_doubled hc)
    · exact .inl hc
  refine ⟨fun hmem => ?_, fun hmem => ?_⟩
  · exact h.1 ((hquoted _ hmem).resolve_left (by decide))
  · exact h.2 ((hquoted _ hmem).resolve_left (by decide))

end Texts

end TemplateAtlas.Template
