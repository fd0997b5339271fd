import TemplateAtlas.Proofs.Template.CallSites
import TemplateAtlas.Proofs.Template.Edit

/-!
# Lines that open a call

Two scans look for the key `template`. The one that collects references takes any blanks around the
key and any text behind its colon; the one that collects arguments reads the line as it reads every
entry. A line that makes a reference is cut into its parts (`exists_keyLine`). The arguments below
it are read, if it opens plainly: with spaces and tabs in front, and with a space or a tab behind
the colon. Otherwise none are (`reads_arguments_of_reference`).
-/

namespace TemplateAtlas.Template

open TemplateAtlas.Text

/-! ### The parts of a line -/

/-- A line that gives the key `template` a value, in its parts. -/
structure KeyLine where
  /-- The blanks in front. -/
  lead : List Char
  /-- The dash with the blanks behind it, if there is one. -/
  dash : List Char
  /-- The blanks between the key and its colon. -/
  gap : List Char
  /-- What stands behind the colon. -/
  value : List Char
  /-- There are blanks in front. -/
  lead_blank : ∀ c ∈ lead, isBlank c = true
  /-- A dash has blanks behind it. -/
  dash_eq : dash = [] ∨ ∃ bs, dash = '-' :: bs ∧ ∀ b ∈ bs, isBlank b = true
  /-- There are blanks between the key and its colon. -/
  gap_blank : ∀ c ∈ gap, isBlank c = true

namespace KeyLine

/-- The line from the key on. -/
def tail (k : KeyLine) : List Char :=
  "template".toList ++ (k.gap ++ ':' :: k.value)

/-- The line. -/
def text (k : KeyLine) : List Char :=
  k.lead ++ (k.dash ++ k.tail)

end KeyLine

theorem takeWhile_append_trimStart (cs : List Char) : cs.takeWhile isBlank ++ trimStart cs = cs :=
  List.takeWhile_append_dropWhile

theorem isBlank_of_mem_takeWhile {cs : List Char} : ∀ c ∈ cs.takeWhile isBlank, isBlank c = true :=
  fun _ hc => List.mem_takeWhile_imp hc

/-- What is left behind a dash, and what was dropped. -/
theorem exists_dash (cs : List Char) :
    ∃ dash, cs = dash ++ dropDash cs ∧
      (dash = [] ∨ ∃ bs, dash = '-' :: bs ∧ ∀ b ∈ bs, isBlank b = true) := by
  unfold dropDash
  split
  next c cs =>
    split
    next hc =>
      refine ⟨'-' :: c :: cs.takeWhile isBlank, ?_, .inr ⟨_, rfl, ?_⟩⟩
      · rw [List.cons_append, List.cons_append, takeWhile_append_trimStart]
      · exact List.forall_mem_cons.2 ⟨hc, isBlank_of_mem_takeWhile⟩
    next => exact ⟨[], rfl, .inl rfl⟩
  next => exact ⟨[], rfl, .inl rfl⟩

/-- A line that gives the key `template` a value has these parts. -/
theorem exists_keyLine {line value : List Char} (h : templateValue? line = some value) :
    ∃ k : KeyLine, k.text = line ∧ k.value = value ∧ dropDash (trimStart line) = k.tail := by
  unfold templateValue? at h
  obtain ⟨dash, hdash, hdash_eq⟩ := exists_dash (trimStart line)
  cases hkey : dropPrefix? "template".toList (dropDash (trimStart line)) with
  | none =>
    rw [hkey] at h
    cases h
  | some rest =>
    rw [hkey] at h
    have hrest : rest.takeWhile isBlank ++ ':' :: value = rest := by
      have hcolon : trimStart rest = ':' :: value := dropPrefix?_eq_some_iff.1 h
      rw [← hcolon, takeWhile_append_trimStart]
    let k : KeyLine :=
      ⟨line.takeWhile isBlank, dash, rest.takeWhile isBlank, value, isBlank_of_mem_takeWhile,
      hdash_eq, isBlank_of_mem_takeWhile⟩
    have htail : dropDash (trimStart line) = k.tail :=
      (dropPrefix?_eq_some_iff.1 hkey).trans (congrArg _ hrest.symm)
    refine ⟨k, ?_, rfl, htail⟩
    calc line.takeWhile isBlank ++ (dash ++ k.tail)
      _ = line.takeWhile isBlank ++ trimStart line := by rw [← htail, ← hdash]
      _ = line := takeWhile_append_trimStart line

/-! ### The key as an entry -/

/-- Before the first colon the scan only keeps track of quotes. -/
theorem splitAtColon_append {q : Quoting} {cs : List Char}
    (h : ∀ c ∈ cs, c ≠ ':' ∧ c ≠ '\x27' ∧ c ≠ '\x22') (rest : List Char) :
    splitAtColon q (cs ++ rest) = (splitAtColon q rest).map fun p => (cs ++ p.1, p.2) := by
  induction cs with
  | nil => simp
  | cons c cs ih =>
    obtain ⟨hcolon, hsingle, hdouble⟩ := h c (by simp)
    have hstep : q.step c = q := by simp [Quoting.step, hsingle, hdouble]
    rw [List.cons_append, splitAtColon, hstep, ih fun d hd => h d (by simp [hd])]
    simp [hcolon, Function.comp_def]

namespace KeyLine

theorem key_plain (k : KeyLine) :
    ∀ c ∈ "template".toList ++ k.gap, c ≠ ':' ∧ c ≠ '\x27' ∧ c ≠ '\x22' := by
  intro c hc
  rcases List.mem_append.1 hc with hc | hc
  · have hletters : "template".toList.all (fun d => d ≠ ':' ∧ d ≠ '\x27' ∧ d ≠ '\x22') = true := by
      decide
    exact of_decide_eq_true (List.all_eq_true.1 hletters c hc)
  · have hblank := k.gap_blank c hc
    refine ⟨?_, ?_, ?_⟩ <;>
    · rintro rfl
      revert hblank
      decide

theorem unquote_key (k : KeyLine) : unquote ("template".toList ++ k.gap) = "template".toList := by
  have htrim : trim ("template".toList ++ k.gap) = "template".toList := by
    have hstart : trimStart ("template".toList ++ k.gap) = "template".toList ++ k.gap :=
      @trimStart_append_cons [] (by simp) 't' (by decide) _
    rw [trim, hstart, trimEnd_append _ k.gap_blank]
    rfl
  rw [unquote, htrim]
  rfl

/-- A key that goes on behind the colon is another key. -/
theorem unquote_key_ne (k : KeyLine) (more : List Char) :
    unquote ("template".toList ++ k.gap ++ ':' :: more) ≠ "template".toList := by
  have hstart : trimStart ("template".toList ++ k.gap ++ ':' :: more) =
      "template".toList ++ k.gap ++ ':' :: more :=
    @trimStart_append_cons [] (by simp) 't' (by decide) _
  have htrim : trim ("template".toList ++ k.gap ++ ':' :: more) =
      "template".toList ++ k.gap ++ ':' :: trimEnd more := by
    rw [trim, hstart, trimEnd_append_cons _ (by decide)]
  have hunquote : unquote ("template".toList ++ k.gap ++ ':' :: more) =
      "template".toList ++ k.gap ++ ':' :: trimEnd more := by
    rw [unquote, htrim]
    rfl
  intro heq
  have hmem : ':' ∈ "template".toList := by
    rw [← heq, hunquote]
    simp
  exact absurd hmem (by decide)

theorem tail_eq (k : KeyLine) : k.tail = "template".toList ++ k.gap ++ ':' :: k.value :=
  (List.append_assoc _ _ _).symm

/-- From the key on, the line is an entry of this key exactly if a space, a tab or nothing follows
the colon. -/
theorem hasKey_tail (k : KeyLine) (hvalue : trimEnd k.value = k.value) :
    hasKey "template".toList k.tail = k.value.head?.all isIndent := by
  have htrim : trim k.tail = "template".toList ++ k.gap ++ ':' :: k.value := by
    have hstart : trimStart k.tail = k.tail := @trimStart_append_cons [] (by simp) 't' (by decide) _
    rw [trim, hstart, tail_eq, trimEnd_append_cons _ (by decide), hvalue]
  rw [hasKey, Entry.ofContent?, htrim, splitAtColon_append k.key_plain, splitAtColon]
  by_cases hnext : k.value.head?.all isIndent = true
  · simp only [hnext, Quoting.isOpen, Bool.or_self, Bool.not_false, decide_true, Bool.and_self,
      if_true, Option.map_some, List.append_nil, k.unquote_key]
    rfl
  · rw [Bool.eq_false_iff.2 hnext]
    simp only [Bool.and_false, Bool.false_eq_true, if_false]
    cases splitAtColon (({} : Quoting).step ':') k.value with
    | none => rfl
    | some parts =>
      simp only [Option.map_some]
      split
      next e he =>
        split at he
        · cases he
          exact decide_eq_false (k.unquote_key_ne parts.1)
        · cases he
      next => rfl

end KeyLine

/-! ### The column of the key -/

/-- The column in which the key of such a line stands. -/
def keyColumn (line : List Char) : Nat :=
  byteLength (stripComment line) - byteLength (dropDash (trimStart (stripComment line)))

/-- Does the line open plainly: spaces and tabs in front, and a space or a tab behind the colon of
the key? -/
def opensPlainly (line : List Char) : Bool :=
  ((stripComment line).takeWhile isBlank).all isIndent &&
    (templateValue? (stripComment line)).any (·.head?.all isIndent)

namespace KeyLine

variable {k : KeyLine} {line : List Char}

theorem takeWhile_isIndent_of_head {cs : List Char} (h : ∀ c ∈ cs.head?, isIndent c = false) :
    cs.takeWhile isIndent = [] ∧ cs.dropWhile isIndent = cs := by
  cases cs with
  | nil => exact ⟨rfl, rfl⟩
  | cons c cs =>
    have hc : isIndent c = false := h c rfl
    exact ⟨List.takeWhile_cons_of_neg (by simp [hc]), List.dropWhile_cons_of_neg (by simp [hc])⟩

theorem tail_cons (k : KeyLine) : k.tail = 't' :: ("emplate".toList ++ (k.gap ++ ':' :: k.value)) :=
  rfl

/-- Behind the blanks in front something else follows. -/
theorem exists_head (k : KeyLine) : ∃ c cs, k.dash ++ k.tail = c :: cs ∧ isBlank c = false := by
  rcases k.dash_eq with hdash | ⟨bs, hdash, -⟩
  · have hcons : k.dash ++ k.tail = 't' :: ("emplate".toList ++ (k.gap ++ ':' :: k.value)) := by
      rw [hdash]
      exact k.tail_cons
    have hkey : isBlank 't' = false := by decide
    exact ⟨_, _, hcons, hkey⟩
  · have hcons : k.dash ++ k.tail = '-' :: (bs ++ k.tail) := by
      rw [hdash]
      exact List.cons_append
    have hkey : isBlank '-' = false := by decide
    exact ⟨_, _, hcons, hkey⟩

theorem takeWhile_isBlank_text (k : KeyLine) : k.text.takeWhile isBlank = k.lead := by
  obtain ⟨c, cs, hcons, hc⟩ := k.exists_head
  rw [text, hcons, List.takeWhile_append_of_pos k.lead_blank,
    List.takeWhile_cons_of_neg (by simp [hc]), List.append_nil]

/-- The blanks behind the value are cut off with the comment. -/
theorem trimEnd_value (h : stripComment line = k.text) : trimEnd k.value = k.value := by
  have htext : k.text = (k.lead ++ (k.dash ++ ("template".toList ++ k.gap))) ++ ':' :: k.value := by
    rw [text, tail_eq, List.append_assoc k.lead, List.append_assoc k.dash]
  have hcut : trimEnd k.text = k.text := by
    rw [← h]
    exact trimEnd_trimEnd _
  have hcolon : isBlank ':' = false := by decide
  rw [htext, trimEnd_append_cons _ hcolon] at hcut
  have hcons : ':' :: trimEnd k.value = ':' :: k.value := List.append_cancel_left hcut
  exact (List.cons.inj hcons).2

theorem opensPlainly_eq (h : stripComment line = k.text)
    (hvalue : templateValue? (stripComment line) = some k.value) :
    opensPlainly line = (k.lead.all isIndent && k.value.head?.all isIndent) := by
  rw [opensPlainly, hvalue, h, k.takeWhile_isBlank_text, Option.any_some]

theorem keyColumn_eq (h : stripComment line = k.text)
    (htail : dropDash (trimStart (stripComment line)) = k.tail) :
    keyColumn line = byteLength k.lead + byteLength k.dash := by
  rw [keyColumn, htail, h, text, byteLength_append, byteLength_append]
  omega

/-- A key behind a dash that stands behind spaces and tabs, or behind spaces and tabs alone. -/
theorem callSiteColumn?_of_indent (h : stripComment line = k.text)
    (hlead : ∀ c ∈ k.lead, isIndent c = true) :
    callSiteColumn? line =
      if k.value.head?.all isIndent then some (byteLength k.lead + byteLength k.dash)
        else none := by
  obtain ⟨c, cs, hcons, hc⟩ := k.exists_head
  have hindent : isIndent c = false := Bool.eq_false_iff.2 fun hno => by
    rw [isBlank_of_isIndent hno] at hc
    cases hc
  have hskip := @takeWhile_isIndent_of_head (k.dash ++ k.tail) (by simp [hcons, hindent])
  have hcolumn : indentOf k.text = byteLength k.lead := by
    rw [indentOf, text, List.takeWhile_append_of_pos hlead, hskip.1, List.append_nil,
      byteLength_of_indent hlead]
  have hcontent : k.text.dropWhile isIndent = k.dash ++ k.tail := by
    rw [text, List.dropWhile_append_of_pos hlead, hskip.2]
  have hkey : hasKey "template".toList k.tail = k.value.head?.all isIndent :=
    k.hasKey_tail (trimEnd_value h)
  rw [callSiteColumn?, stripComment_dropReturns, h]
  simp only [hcolumn, hcontent]
  rcases k.dash_eq with hdash | ⟨bs, hdash, hbs⟩
  · have hhead : (k.dash ++ k.tail).head? ≠ some '-' := by
      rw [hdash, List.nil_append, tail_cons]
      simp
    rw [if_neg hhead]
    simp only [hdash, List.nil_append, hkey, byteLength, Nat.add_zero]
  · have hhead : (k.dash ++ k.tail).head? = some '-' := by
      rw [hdash]
      rfl
    have hafter : afterDash (k.dash ++ k.tail) = (k.tail, byteLength k.dash) := by
      have hrest : trimStart (k.dash ++ k.tail).tail = k.tail := by
        rw [hdash]
        exact trimStart_append_cons hbs (c := 't') (by decide) _
      rw [afterDash, hrest, byteLength_append, Nat.add_sub_cancel]
    rw [if_pos hhead]
    simp only [hafter, hkey]

/-- Behind another blank no dash is seen, and the key is taken to stand further left than it
does. -/
theorem lt_of_callSiteColumn? (h : stripComment line = k.text)
    (hlead : ¬∀ c ∈ k.lead, isIndent c = true) {column : Nat}
    (hcolumn : callSiteColumn? line = some column) :
    column < byteLength k.lead + byteLength k.dash := by
  have hparts := List.takeWhile_append_dropWhile (p := isIndent) (l := k.lead)
  have hindent : ∀ c ∈ k.lead.takeWhile isIndent, isIndent c = true :=
    fun c hc => List.mem_takeWhile_imp hc
  obtain ⟨b, bs, hrest⟩ : ∃ b bs, k.lead.dropWhile isIndent = b :: bs :=
    List.exists_cons_of_ne_nil fun hnil => hlead (List.dropWhile_eq_nil_iff.1 hnil)
  have hb : isIndent b = false := by
    have hne : k.lead.dropWhile isIndent ≠ [] := by simp [hrest]
    simpa [hrest] using List.head_dropWhile_not isIndent hne
  have hblank : ∀ c ∈ b :: bs, isBlank c = true := fun c hc =>
    k.lead_blank c (hparts ▸ List.mem_append_right _ (hrest ▸ hc))
  have hskip := @takeWhile_isIndent_of_head (b :: bs ++ (k.dash ++ k.tail)) (by simp [hb])
  have htext : k.text = k.lead.takeWhile isIndent ++ (b :: bs ++ (k.dash ++ k.tail)) := by
    rw [text, ← hrest, ← List.append_assoc (k.lead.takeWhile isIndent), hparts]
  have hfirst : indentOf k.text = byteLength (k.lead.takeWhile isIndent) := by
    rw [indentOf, htext, List.takeWhile_append_of_pos hindent, hskip.1, List.append_nil,
      byteLength_of_indent hindent]
  have hcontent : k.text.dropWhile isIndent = b :: bs ++ (k.dash ++ k.tail) := by
    rw [htext, List.dropWhile_append_of_pos hindent, hskip.2]
  have hhead : (b :: bs ++ (k.dash ++ k.tail)).head? ≠ some '-' := by
    rintro hdash
    obtain rfl : b = '-' := Option.some.inj hdash
    have := hblank '-' (by simp)
    revert this
    decide
  have hbytes : byteLength (k.lead.takeWhile isIndent) < byteLength k.lead := by
    have hpos := b.utf8Size_pos
    conv_rhs => rw [← hparts, hrest, byteLength_append, byteLength]
    omega
  rw [callSiteColumn?, stripComment_dropReturns, h] at hcolumn
  simp only [hfirst, hcontent, if_neg hhead] at hcolumn
  split at hcolumn
  · cases hcolumn
    omega
  · cases hcolumn

end KeyLine

/-! ### Call sites that go on -/

/-- Under the line that opens a call the key `parameters` stands in the column of its key, and under
that an entry for an identifier stands deeper. -/
structure Continues (header parametersLine argumentLine name : List Char) : Prop where
  /-- The key `parameters` stands in the column of the key `template`. -/
  parameters : StandsAt (keyColumn header) "parameters:".toList (stripComment parametersLine)
  /-- A value for the name stands deeper. -/
  argument : ∃ indent value, keyColumn header < indent ∧ value.head?.all isIndent = true ∧
    StandsAt indent (name ++ ':' :: value) (stripComment argumentLine)
  /-- The name is an identifier. -/
  isIdentifier : isIdentifier name = true

section Sites

variable {header parametersLine argumentLine name : List Char}

/-- A reference comes from the line of its number. -/
theorem referenceOfLine?_of_mem {text : String} {r : TemplateReference} (h : r ∈ references text)
    {line : List Char} {rest : List (List Char)}
    (hlines : (linesOf text).drop r.line = line :: rest) :
    referenceOfLine? line r.line = some r := by
  obtain ⟨⟨other, number⟩, hmem, hother⟩ := List.mem_filterMap.1 h
  have hreads : referenceOfLine? other number = some r := hother
  obtain rfl : number = r.line := by
    rw [referenceOfLine?] at hreads
    split at hreads
    next => cases hreads
    next value _ =>
      by_cases hempty : (unquote value).isEmpty = true
      · rw [if_pos hempty] at hreads
        cases hreads
      · rw [if_neg hempty] at hreads
        exact congrArg TemplateReference.line (Option.some.inj hreads)
  have hfirst : (linesOf text)[r.line]? = some line := by
    rw [← List.head?_drop, hlines]
    rfl
  have hat : (linesOf text)[r.line]? = some other := List.mk_mem_zipIdx_iff_getElem?.1 hmem
  rwa [Option.some.inj (hfirst.symm.trans hat)]

/-- The line of a reference gives the key a value. -/
theorem exists_templateValue {line : List Char} {number : Nat} {r : TemplateReference}
    (h : referenceOfLine? line number = some r) :
    ∃ value, templateValue? (stripComment line) = some value := by
  unfold referenceOfLine? at h
  split at h
  · cases h
  next value hvalue => exact ⟨value, hvalue⟩

/-- Where something stands in a line without its comment, it does not end in a blank. -/
theorem getLast?_of_standsAt {column : Nat} {front content line : List Char} {c : Char}
    (h : StandsAt column (front ++ c :: content) (stripComment line)) :
    ∀ d ∈ (c :: content).getLast?, isBlank d = false := by
  intro d hd
  have hline := List.takeWhile_append_dropWhile (p := isIndent) (l := stripComment line)
  have hlast : (stripComment line).getLast? = some d := by
    rw [← hline, h.shown, List.getLast?_append, List.getLast?_append, Option.mem_def.1 hd,
      Option.some_or, Option.some_or]
  exact getLast?_trimEnd _ d hlast

/-- Lines are read without their comments. -/
theorem argumentsFrom_congr (column : Nat) (state : CallSiteState) (first : Nat)
    {lines lines' : List (List Char)} (h : lines'.map stripComment = lines.map stripComment) :
    argumentsFrom column state (lines'.zipIdx first) =
      argumentsFrom column state (lines.zipIdx first) := by
  rw [argumentsFrom_eq, argumentsFrom_eq, carryingFrom_congr first h]

/-- The scan below a call that goes on first passes the argument, if it starts in the column of the
key. -/
theorem Continues.argumentsFrom_eq_cons (h : Continues header parametersLine argumentLine name)
    (state : CallSiteState) (first : Nat) (after : List (List Char)) :
    ∃ p rest, argumentsFrom (keyColumn header) state
      ((parametersLine :: argumentLine :: after).zipIdx first) = p :: rest ∧
      p.name = String.ofList name := by
  obtain ⟨indent, value, hindent, hvalue, hargument⟩ := h.argument
  have hword : ∀ c ∈ name, isAsciiWord c = true := by
    have := h.isIdentifier
    rw [Template.isIdentifier, Bool.and_eq_true] at this
    exact List.all_eq_true.1 this.2
  have hne : name ≠ [] := by
    rintro rfl
    cases h.isIdentifier
  have hdash : (name ++ ':' :: value).head? ≠ some '-' := by
    obtain ⟨c, cs, rfl⟩ := List.exists_cons_of_ne_nil hne
    exact fun heq => ne_of_isAsciiWord (hword c (by simp)) (by decide) (Option.some.inj heq)
  have hentry : Entry.ofContent? (name ++ ':' :: value) = some ⟨name, trim value⟩ :=
    ofContent?_of_word hne hword hvalue (getLast?_of_standsAt hargument)
  have hkey : Entry.ofContent? "parameters:".toList = some ⟨"parameters".toList, []⟩ :=
    @ofContent?_bare "parameters".toList (by decide) (List.all_eq_true.1 (by decide))
  have hcomments : (parametersLine :: argumentLine :: after).map stripComment =
      (stripComment parametersLine :: stripComment argumentLine :: after).map stripComment := by
    simp only [List.map_cons, stripComment_stripComment]
  rw [argumentsFrom_congr _ _ _ hcomments, List.zipIdx_cons, List.zipIdx_cons,
    argumentsFrom_opens h.parameters (by decide) hkey,
    argumentsFrom_passes hargument hindent (.inl rfl) hdash hentry]
  exact ⟨_, _, rfl, rfl⟩

/-- A scan that starts further left takes none of these lines for the key `parameters`, and passes
them over. -/
theorem Continues.argumentsFrom_of_lt (h : Continues header parametersLine argumentLine name)
    {column : Nat} (hcolumn : column < keyColumn header) (first : Nat) (after : List (List Char)) :
    argumentsFrom column .outside ((parametersLine :: argumentLine :: after).zipIdx first) =
      argumentsFrom column .outside (after.zipIdx (first + 1 + 1)) := by
  obtain ⟨indent, value, hindent, -, hargument⟩ := h.argument
  have hparameters : Skips column .outside (stripComment parametersLine) :=
    ⟨_, _, h.parameters, hcolumn, .inr (by simp)⟩
  have hskips : Skips column .outside (stripComment argumentLine) :=
    ⟨_, _, hargument, by omega, .inr (by simp)⟩
  have hcomments : (parametersLine :: argumentLine :: after).map stripComment =
      (stripComment parametersLine :: stripComment argumentLine :: after).map stripComment := by
    simp only [List.map_cons, stripComment_stripComment]
  rw [argumentsFrom_congr _ _ _ hcomments, List.zipIdx_cons, List.zipIdx_cons,
    argumentsFrom_skips hparameters (by simp), argumentsFrom_skips hskips (by simp)]

theorem argumentsAt_of_drop_eq {lines : List (List Char)} {n : Nat} {line : List Char}
    {rest : List (List Char)} (h : lines.drop n = line :: rest) :
    argumentsAt lines n =
      match callSiteColumn? line with
      | none => []
      | some column => argumentsFrom column .outside (rest.zipIdx (n + 1)) := by
  have hline : lines[n]? = some line := by
    rw [← List.head?_drop, h]
    rfl
  have hrest : lines.drop (n + 1) = rest := by
    rw [← List.drop_drop, h, List.drop_one, List.tail_cons]
  rw [argumentsAt_eq, hline, hrest, Option.bind_some]
  cases callSiteColumn? line with
  | none => rfl
  | some column => exact (argumentsFrom_eq column .outside (n + 1) rest).symm

/-- Where the column of a call site stands: it is the column of the key exactly if the line opens
plainly. Otherwise there is none, or one further left. -/
theorem callSiteColumn?_of_reference {line : List Char} {number : Nat} {r : TemplateReference}
    (h : referenceOfLine? line number = some r) :
    (opensPlainly line = true → callSiteColumn? line = some (keyColumn line)) ∧
      (opensPlainly line = false → ∀ column, callSiteColumn? line = some column →
        column < keyColumn line) := by
  obtain ⟨value, hvalue⟩ := exists_templateValue h
  obtain ⟨k, htext, rfl, htail⟩ := exists_keyLine hvalue
  rw [k.opensPlainly_eq htext.symm hvalue, k.keyColumn_eq htext.symm htail, Bool.and_eq_true,
    List.all_eq_true]
  refine ⟨fun ⟨hlead, hnext⟩ => ?_, fun hno column hcolumn => ?_⟩
  · rw [k.callSiteColumn?_of_indent htext.symm hlead, if_pos hnext]
  · by_cases hlead : ∀ c ∈ k.lead, isIndent c = true
    · have hnext : k.value.head?.all isIndent = false := by
        rw [List.all_eq_true.2 hlead, Bool.true_and] at hno
        exact hno
      rw [k.callSiteColumn?_of_indent htext.symm hlead, hnext] at hcolumn
      cases hcolumn
    · exact k.lt_of_callSiteColumn? htext.symm hlead hcolumn

/-- At a line that makes a reference, with the key `parameters` in the column of its key and an
argument below it, the argument is passed, if the line opens plainly. If it does not, nothing is
passed by these lines. -/
theorem reads_arguments_of_reference (text : String) {r : TemplateReference}
    (hr : r ∈ references text) {after : List (List Char)}
    (hlines : (linesOf text).drop r.line = header :: parametersLine :: argumentLine :: after)
    (h : Continues header parametersLine argumentLine name) :
    (opensPlainly header = true →
      (passedParameters (linesOf text) r.line).contains (String.ofList name) = true) ∧
      (opensPlainly header = false → (∀ line ∈ after, isIgnorable line = true) →
        (passedParameters (linesOf text) r.line).isEmpty = true) := by
  obtain ⟨hplain, hother⟩ := callSiteColumn?_of_reference (referenceOfLine?_of_mem hr hlines)
  have hat := argumentsAt_of_drop_eq hlines
  refine ⟨fun hopens => ?_, fun hopens hafter => ?_⟩
  · obtain ⟨p, rest, hcons, hname⟩ := h.argumentsFrom_eq_cons .outside (r.line + 1) after
    rw [hplain hopens] at hat
    rw [passedParameters, hat]
    have hsame : compare (String.ofList name) p.name = .eq := Std.compare_eq_iff_eq.2 hname.symm
    simp only [hcons, List.map_cons, SortedMap.contains, SortedMap.find?_ofListFirst, hsame,
      beq_self_eq_true, List.find?_cons_of_pos, Option.map_some, Option.isSome_some]
  · have hnone : argumentsAt (linesOf text) r.line = [] := by
      rw [hat]
      cases hcolumn : callSiteColumn? header with
      | none => rfl
      | some column => 
        exact (h.argumentsFrom_of_lt (hother hopens column hcolumn) _ _).trans
          (argumentsFrom_of_ignorable hafter _)
    rw [passedParameters, hnone]
    rfl

end Sites

/-- An argument is passed below a line with a space behind the colon, and not below the same line
without it. -/
theorem reads_arguments_of_two_references :
    (passedParameters (linesOf "- template: b.yml\n  parameters:\n    x: 1") 0).contains "x" =
      true ∧
      (passedParameters (linesOf "- template:b.yml\n  parameters:\n    x: 1") 0).isEmpty =
        true := by
  have hcontinues : ∀ header, keyColumn header = 2 →
      Continues header "  parameters:".toList "    x: 1".toList "x".toList := by
    intro header hcolumn
    refine ⟨?_, ⟨4, " 1".toList, ?_, by decide, ?_⟩, by decide⟩
    · rw [hcolumn]
      exact ⟨by decide, by decide, by decide, by decide⟩
    · rw [hcolumn]
      decide
    · exact ⟨by decide, by decide, by decide, by decide⟩
  have hspace : (⟨"b.yml", 0⟩ : TemplateReference) ∈
      references "- template: b.yml\n  parameters:\n    x: 1" := by
    decide +kernel
  have hnone : (⟨"b.yml", 0⟩ : TemplateReference) ∈
      references "- template:b.yml\n  parameters:\n    x: 1" := by
    decide +kernel
  have hlines : (linesOf "- template: b.yml\n  parameters:\n    x: 1").drop 0 =
      "- template: b.yml".toList :: "  parameters:".toList :: "    x: 1".toList :: [] := by
    decide +kernel
  have hlines' : (linesOf "- template:b.yml\n  parameters:\n    x: 1").drop 0 =
      "- template:b.yml".toList :: "  parameters:".toList :: "    x: 1".toList :: [] := by
    decide +kernel
  exact ⟨(reads_arguments_of_reference _ hspace hlines (hcontinues _ (by decide))).1 (by decide),
    (reads_arguments_of_reference _ hnone hlines' (hcontinues _ (by decide))).2
      (by decide) (by simp)⟩

end TemplateAtlas.Template
