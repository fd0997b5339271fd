import TemplateAtlas.Proofs.SortedMap
import TemplateAtlas.Proofs.Template.Renumber
import TemplateAtlas.Proofs.Template.Written

/-!
# Call sites that are written and read

A call site is written as a reference and, under the key `parameters`, the arguments it passes, with
all strings in single quotes:

    - template: 'reference'
      parameters:
        name: 'value'

Whatever the strings hold, reading gives back the references with their lines, and at each call site
exactly its own arguments (`reads_back_calls`). The proof takes the lines one by one: each stands
where it is written (`standsAt_quoted`), its content is read as an entry (`ofContent?_quoted`), and
a call ends where the dash of the next one stands left of its key.
-/

namespace TemplateAtlas.Template

open TemplateAtlas.Text

/-! ### Calls and how they are written -/

/-- An argument that can be written on a line. -/
structure Argument where
  /-- The name of the parameter. -/
  name : String
  /-- The value that is passed. -/
  value : String
  /-- The name is an identifier. -/
  isIdentifier : isIdentifier name.toList = true
  /-- The name is not the key that opens a call. -/
  name_ne : name ≠ "template"
  /-- The value has no line breaks. -/
  oneLine : IsOneLine value.toList

/-- A call that can be written in lines. -/
structure Call where
  /-- The template that is called. -/
  reference : String
  /-- What is passed to it. -/
  arguments : List Argument
  /-- There is a template. -/
  reference_ne : reference ≠ ""
  /-- The reference has no line breaks. -/
  oneLine : IsOneLine reference.toList

/-- The line that passes an argument, with the name in the given column. -/
def Argument.line (column : Nat) (a : Argument) : List Char :=
  spaces column ++ (a.name.toList ++ [':', ' '] ++ quoted a.value.toList)

namespace Call

/-- The line that opens the call, with its dash in the given column. -/
def header (column : Nat) (call : Call) : List Char :=
  spaces column ++ ("- template: ".toList ++ quoted call.reference.toList)

/-- The lines under the one that opens the call. -/
def argumentLines (column : Nat) (call : Call) : List (List Char) :=
  if call.arguments.isEmpty then []
  else (spaces (column + 2) ++ "parameters:".toList) ::
    call.arguments.map (Argument.line (column + 4))

/-- The lines of the call. -/
def lines (column : Nat) (call : Call) : List (List Char) :=
  call.header column :: call.argumentLines column

/-- The number of its lines. -/
def height (column : Nat) (call : Call) : Nat :=
  (call.lines column).length

end Call

/-! ### The lines of a call -/

section Lines

variable (column : Nat)

theorem Argument.name_ne_nil (a : Argument) : a.name.toList ≠ [] :=
  ne_nil_of_isIdentifier a.isIdentifier

theorem Argument.isAsciiWord_of_mem (a : Argument) : ∀ c ∈ a.name.toList, isAsciiWord c = true :=
  isAsciiWord_of_isIdentifier a.isIdentifier

theorem Argument.exists_name_eq (a : Argument) :
    ∃ c cs, a.name.toList = c :: cs ∧ isAsciiWord c = true := by
  obtain ⟨c, cs, heq⟩ := List.exists_cons_of_ne_nil a.name_ne_nil
  exact ⟨c, cs, heq, a.isAsciiWord_of_mem c (by simp [heq])⟩

theorem Argument.isPlain_head (a : Argument) : isPlain (a.name.toList ++ [':', ' ']) = true := by
  rw [isPlain_append, isPlain_of_word a.isAsciiWord_of_mem]
  decide

theorem Argument.standsAt (a : Argument) :
    StandsAt column (a.name.toList ++ [':', ' '] ++ quoted a.value.toList) (a.line column) := by
  obtain ⟨c, cs, heq, hc⟩ := a.exists_name_eq
  exact standsAt_quoted column a.isPlain_head
    (forall_mem_of_eq_some (by rw [heq]; rfl) (not_indent_of_isAsciiWord hc)) _

theorem Argument.entry (a : Argument) :
    Entry.ofContent? (a.name.toList ++ [':', ' '] ++ quoted a.value.toList) =
      some ⟨a.name.toList, quoted a.value.toList⟩ := by
  rw [List.append_assoc]
  exact ofContent?_quoted a.name_ne_nil a.isAsciiWord_of_mem _

theorem Call.standsAt_header (call : Call) :
    StandsAt column ("- template: ".toList ++ quoted call.reference.toList) (call.header column) :=
  standsAt_quoted column (by decide) (forall_mem_of_eq_some (c := '-') rfl (by decide)) _

theorem standsAt_parameters :
    StandsAt column "parameters:".toList (spaces column ++ "parameters:".toList) :=
  standsAt_plain column (by decide) (by decide) (forall_mem_of_eq_some (c := 'p') rfl (by decide))
    (forall_mem_of_eq_some (c := ':') rfl (by decide))

theorem Argument.isOneLine_line (a : Argument) : IsOneLine (a.line column) := by
  rw [Argument.line, isOneLine_append, isOneLine_append, isOneLine_append]
  exact ⟨isOneLine_spaces _, ⟨isOneLine_of_word a.isAsciiWord_of_mem, by decide⟩,
    isOneLine_quoted a.oneLine⟩

theorem Call.isOneLine (call : Call) : ∀ line ∈ call.lines column, IsOneLine line := by
  have hheader : IsOneLine (call.header column) := by
    rw [header, isOneLine_append, isOneLine_append]
    exact ⟨isOneLine_spaces _, by decide, isOneLine_quoted call.oneLine⟩
  have hparameters : IsOneLine (spaces (column + 2) ++ "parameters:".toList) :=
    isOneLine_append.2 ⟨isOneLine_spaces _, by decide⟩
  rw [lines, argumentLines, List.forall_mem_cons]
  refine ⟨hheader, ?_⟩
  split
  · simp
  · rw [List.forall_mem_cons, List.forall_mem_map]
    exact ⟨hparameters, fun a _ => a.isOneLine_line (column + 4)⟩

end Lines

/-! ### References -/

section References

variable (column : Nat)

/-- The line that refers to a template, with the reference in single quotes, behind a dash or
not. -/
def referenceLine (dashed : Bool) (reference : String) : List Char :=
  spaces column ++ ((if dashed then "- template: " else "template: ").toList ++
    quoted reference.toList)

theorem referenceOfLine?_referenceLine (dashed : Bool) {reference : String} (h : reference ≠ "")
    (number : Nat) :
    referenceOfLine? (referenceLine column dashed reference) number = some ⟨reference, number⟩ := by
  have hline : stripComment (referenceLine column dashed reference) =
      referenceLine column dashed reference ∧
      templateValue? (referenceLine column dashed reference) =
        some (' ' :: quoted reference.toList) := by
    rw [templateValue?, referenceLine]
    cases dashed
    · refine ⟨(standsAt_quoted column (by decide)
        (forall_mem_of_eq_some (c := 't') rfl (by decide)) _).text, ?_⟩
      rw [trimStart_spaces_append column (forall_mem_of_eq_some (c := 't') rfl (by decide))]
      rfl
    · refine ⟨(standsAt_quoted column (by decide)
        (forall_mem_of_eq_some (c := '-') rfl (by decide)) _).text, ?_⟩
      rw [trimStart_spaces_append column (forall_mem_of_eq_some (c := '-') rfl (by decide))]
      rfl
  have hne : reference.toList.isEmpty = false := by
    simpa using h
  rw [referenceOfLine?, hline.1, hline.2]
  simp only [unquote_cons_space, unquote_quoted, hne, String.ofList_toList]
  rfl

/-- The line that opens a call refers to the template. -/
theorem Call.reference_of_header (call : Call) (number : Nat) :
    referenceOfLine? (call.header column) number = some ⟨call.reference, number⟩ :=
  referenceOfLine?_referenceLine column true call.reference_ne number

/-- A word with a colon behind it is the key `template` or gives it no value, also if it opens like
the key. -/
theorem templateValue?_of_word {line key rest : List Char}
    (hline : dropDash (trimStart line) = key ++ ':' :: rest)
    (hword : ∀ c ∈ key, isAsciiWord c = true) (hne : key ≠ "template".toList) :
    templateValue? line = none := by
  rw [templateValue?, hline]
  cases hkey : dropPrefix? "template".toList (key ++ ':' :: rest) with
  | none => rfl
  | some behind =>
    rcases List.append_eq_append_iff.1 (dropPrefix?_eq_some_iff.1 hkey) with ⟨more, hmore, hrest⟩
        | ⟨more, hmore, hrest⟩
    · -- the colon behind the word is no part of the key
      cases more with
      | nil => exact absurd (by simpa using hmore.symm) hne
      | cons c more =>
        obtain rfl : ':' = c := (List.cons.inj hrest).1
        have hmem : ':' ∈ "template".toList := by simp [hmore]
        exact absurd hmem (by decide)
    · -- the word goes on behind the key
      cases more with
      | nil => exact absurd (by simpa using hmore) hne
      | cons c more =>
        have hc : isAsciiWord c = true := hword c (by simp [hmore])
        have hcolon : c ≠ ':' := ne_of_isAsciiWord hc (by decide)
        have htrim : trimStart behind = behind := by
          rw [hrest, List.cons_append, trimStart,
            List.dropWhile_cons_of_neg (by simp [not_blank_of_isAsciiWord hc])]
        have hnone : dropPrefix? [':'] behind = none := by
          rw [hrest]
          simp [dropPrefix?, Ne.symm hcolon]
        simp only [htrim, hnone]

/-- An argument makes no reference, as its name is not the key. -/
theorem Argument.no_reference (a : Argument) (number : Nat) :
    referenceOfLine? (a.line column) number = none := by
  have hline : dropDash (trimStart (a.line column)) = a.name.toList ++ ':' :: ' ' ::
      quoted a.value.toList := by
    obtain ⟨c, cs, hname, hc⟩ := a.exists_name_eq
    have hdash : c ≠ '-' := ne_of_isAsciiWord hc (by decide)
    rw [Argument.line, hname,
      trimStart_spaces_append column (by simp [not_blank_of_isAsciiWord hc]), dropDash]
    · simp
    · simp [hdash]
  have hother : a.name.toList ≠ "template".toList := fun heq => a.name_ne (String.toList_inj.1 heq)
  rw [referenceOfLine?, (a.standsAt column).text,
    templateValue?_of_word hline a.isAsciiWord_of_mem hother]

/-- No other line of a call refers to anything. -/
theorem Call.no_reference (call : Call) (number : Nat) :
    ∀ line ∈ call.argumentLines column, referenceOfLine? line number = none := by
  have hparameters : referenceOfLine? (spaces (column + 2) ++ "parameters:".toList) number =
      none := by
    have hvalue : templateValue? (spaces (column + 2) ++ "parameters:".toList) = none := by
      rw [templateValue?, trimStart_spaces_append _
        (forall_mem_of_eq_some (c := 'p') rfl (by decide))]
      rfl
    rw [referenceOfLine?, (standsAt_parameters _).text, hvalue]
  rw [argumentLines]
  split
  · simp
  · rw [List.forall_mem_cons, List.forall_mem_map]
    exact ⟨hparameters, fun a _ => a.no_reference (column + 4) number⟩

end References

/-! ### Arguments -/

section Scan

variable {column indent number : Nat} {state : CallSiteState} {content line : List Char}
  {rest : List (List Char × Nat)}

/-- A line left of the key ends the call. -/
theorem argumentsFrom_left (h : StandsAt indent content line) (hindent : indent < column) :
    argumentsFrom column state ((line, number) :: rest) = [] := by
  rw [argumentsFrom]
  simp [h.isIgnorable_eq, h.text, h.indent, hindent]

/-- The key `parameters` in the column of the key opens the arguments. -/
theorem argumentsFrom_opens (h : StandsAt column content line) (hdash : content.head? ≠ some '-')
    (hentry : Entry.ofContent? content = some ⟨"parameters".toList, []⟩) :
    argumentsFrom column state ((line, number) :: rest) = argumentsFrom column .opened rest := by
  rw [argumentsFrom]
  simp [h.isIgnorable_eq, h.text, h.indent, h.shown, hdash, hentry]

/-- The key `parameters` with a map in braces passes the entries of the map. -/
theorem argumentsFrom_flow (h : StandsAt column content line) (hdash : content.head? ≠ some '-')
    {value : List Char} (hentry : Entry.ofContent? content = some ⟨"parameters".toList, value⟩)
    (hvalue : value.head? = some '\x7b') :
    argumentsFrom column state ((line, number) :: rest) =
      (flowEntries value).map (fun e => ⟨String.ofList e.key, String.ofList e.value, number⟩) ++
        argumentsFrom column .outside rest := by
  rw [argumentsFrom]
  simp [h.isIgnorable_eq, h.text, h.indent, h.shown, hdash, hentry, hvalue]

/-- An entry in the column of the entries passes an argument. -/
theorem argumentsFrom_passes (h : StandsAt indent content line) (hindent : column < indent)
    (hstate : state = .opened ∨ state = .inside indent) (hdash : content.head? ≠ some '-')
    {e : Entry} (hentry : Entry.ofContent? content = some e) :
    argumentsFrom column state ((line, number) :: rest) =
      .ofEntry e number :: argumentsFrom column (.inside indent) rest := by
  have hleft : ¬indent < column := by omega
  have hsame : indent ≠ column := by omega
  rw [argumentsFrom]
  rcases hstate with rfl | rfl <;>
    simp [h.isIgnorable_eq, h.text, h.indent, h.shown, hleft, hsame,
      argumentsFrom.argumentOf, hdash, hentry]

/-- Entries in one column are passed one by one, each on its line, and the scan goes on behind the
last of them. -/
theorem argumentsFrom_entries_append {α : Type} {content line : α → List Char} {entry : α → Entry}
    (hstands : ∀ a, StandsAt indent (content a) (line a))
    (hdash : ∀ a, (content a).head? ≠ some '-')
    (hentry : ∀ a, Entry.ofContent? (content a) = some (entry a)) (hindent : column < indent)
    (as : List α) (after : List (List Char)) (hstate : state = .opened ∨ state = .inside indent)
    (first : Nat) :
    argumentsFrom column state ((as.map line ++ after).zipIdx first) =
      ((as.zipIdx first).map fun p => .ofEntry (entry p.1) p.2) ++
        argumentsFrom column (if as.isEmpty then state else .inside indent)
          (after.zipIdx (first + as.length)) := by
  induction as generalizing state first with
  | nil => rfl
  | cons a as ih =>
    have hlength : first + (a :: as).length = first + 1 + as.length := by
      rw [List.length_cons]
      omega
    rw [List.map_cons, List.cons_append, List.zipIdx_cons,
      argumentsFrom_passes (hstands a) hindent hstate (hdash a) (hentry a), ih (.inr rfl), hlength]
    simp [List.zipIdx_cons]

/-- Lines that carry nothing pass nothing. -/
theorem argumentsFrom_of_ignorable {lines : List (List Char)}
    (h : ∀ line ∈ lines, isIgnorable line = true) (first : Nat) :
    argumentsFrom column state (lines.zipIdx first) = [] := by
  rw [argumentsFrom_eq, carryingFrom_of_ignorable h]
  rfl

end Scan

section Arguments

variable (column : Nat)

/-- Nothing that follows a call passes an argument to it. -/
theorem argumentsFrom_calls (calls : List Call) {rest : List (List Char)}
    (hrest : ∀ line ∈ rest, line = []) (state : CallSiteState) (first : Nat) :
    argumentsFrom (column + 2) state ((calls.flatMap (Call.lines column) ++ rest).zipIdx first) =
      [] := by
  cases calls with
  | nil =>
    exact argumentsFrom_of_ignorable (fun line hline => by rw [hrest line hline]; decide) first
  | cons call calls => exact argumentsFrom_left (call.standsAt_header column) (by omega)

/-- The arguments are passed one by one, each on its line, and the scan goes on behind the last of
them. -/
theorem argumentsFrom_arguments_append (arguments : List Argument) (rest : List (List Char))
    {state : CallSiteState} (hstate : state = .opened ∨ state = .inside (column + 4))
    (first : Nat) :
    argumentsFrom (column + 2) state
      ((arguments.map (Argument.line (column + 4)) ++ rest).zipIdx first) =
      ((arguments.zipIdx first).map fun p => ⟨p.1.name, p.1.value, p.2⟩) ++
        argumentsFrom (column + 2) (if arguments.isEmpty then state else .inside (column + 4))
          (rest.zipIdx (first + arguments.length)) := by
  have hdash : ∀ a : Argument, (a.name.toList ++ [':', ' '] ++ quoted a.value.toList).head? ≠
      some '-' := by
    intro a
    obtain ⟨c, cs, hname, hc⟩ := a.exists_name_eq
    rw [hname]
    exact fun heq => ne_of_isAsciiWord hc (by decide) (Option.some.inj heq)
  have hpassed : ∀ p : Argument × Nat,
      PassedParameter.ofEntry ⟨p.1.name.toList, quoted p.1.value.toList⟩ p.2 =
        ⟨p.1.name, p.1.value, p.2⟩ := by
    intro p
    rw [PassedParameter.ofEntry, unquote_quoted, String.ofList_toList, String.ofList_toList]
  rw [argumentsFrom_entries_append (Argument.standsAt (column + 4)) hdash Argument.entry
    (by omega) arguments rest hstate]
  simp only [hpassed]

/-- The key of a call stands behind the dash. -/
theorem Call.callSiteColumn?_header (call : Call) :
    callSiteColumn? (call.header column) = some (column + 2) := by
  have hstands := call.standsAt_header column
  have hkey : hasKey "template".toList ("template: ".toList ++ quoted call.reference.toList) =
      true := by
    have hentry : Entry.ofContent? ("template: ".toList ++ quoted call.reference.toList) =
        some ⟨"template".toList, quoted call.reference.toList⟩ :=
      @ofContent?_quoted "template".toList (by decide) (List.all_eq_true.1 (by decide)) _
    rw [hasKey, hentry]
    rfl
  have hdash : afterDash ("- template: ".toList ++ quoted call.reference.toList) =
      ("template: ".toList ++ quoted call.reference.toList, 2) :=
    afterDash_of_first (by decide) _
  have hhead : ("- template: ".toList ++ quoted call.reference.toList).head? = some '-' := rfl
  rw [callSiteColumn?, stripComment_dropReturns, hstands.text]
  simp only [hstands.indent, hstands.shown, hhead, hdash, hkey, if_true]

/-- Where the scan of a call stands behind its last line. -/
def Call.lastState (call : Call) : CallSiteState :=
  if call.arguments.isEmpty then .outside else .inside (column + 4)

/-- The arguments at a call are its own, and what the scan finds behind it. -/
theorem Call.argumentsAt_append (call : Call) (before after : List (List Char)) :
    argumentsAt (before ++ (call.lines column ++ after)) before.length =
      ((call.arguments.zipIdx (before.length + 2)).map fun p => ⟨p.1.name, p.1.value, p.2⟩) ++
        argumentsFrom (column + 2) (call.lastState column)
          (after.zipIdx (before.length + call.height column)) := by
  have hdrop : (before ++ (call.lines column ++ after)).zipIdx.drop before.length =
      (call.lines column ++ after).zipIdx before.length := by
    rw [List.zipIdx_append, List.drop_left' (by simp), Nat.zero_add]
  rw [argumentsAt, hdrop, height, lines, List.cons_append, List.zipIdx_cons, lastState]
  simp only [call.callSiteColumn?_header]
  rw [argumentLines]
  split
  next hnone =>
    rw [List.isEmpty_iff.1 hnone]
    rfl
  next hsome =>
    have hheight : before.length +
        (call.header column :: (spaces (column + 2) ++ "parameters:".toList) ::
        call.arguments.map (Argument.line (column + 4))).length =
          before.length + 2 + call.arguments.length := by
      rw [List.length_cons, List.length_cons, List.length_map]
      omega
    rw [List.cons_append, List.zipIdx_cons,
      argumentsFrom_opens (standsAt_parameters (column + 2)) (by decide) (by decide),
      argumentsFrom_arguments_append column call.arguments after (.inl rfl), if_neg hsome, hheight]

/-- The arguments at a call are its own, if the scan finds nothing behind it. -/
theorem Call.argumentsAt_eq (call : Call) (before : List (List Char)) {after : List (List Char)}
    (hafter : ∀ state first, argumentsFrom (column + 2) state (after.zipIdx first) = []) :
    argumentsAt (before ++ (call.lines column ++ after)) before.length =
      (call.arguments.zipIdx (before.length + 2)).map fun p => ⟨p.1.name, p.1.value, p.2⟩ := by
  rw [call.argumentsAt_append, hafter, List.append_nil]

end Arguments

/-! ### All calls of a text -/

section Texts

variable (column : Nat)

/-- Lines that refer to nothing make no references. -/
theorem filterMap_references_of_forall {lines : List (List Char)}
    (h : ∀ line ∈ lines, ∀ number, referenceOfLine? line number = none) (first : Nat) :
    ((lines.zipIdx first).filterMap fun (line, number) => referenceOfLine? line number) = [] :=
  List.filterMap_eq_nil_iff.2 fun p hp => h p.1 (List.fst_mem_of_mem_zipIdx hp) p.2

/-- Only the first line of a call makes a reference. -/
theorem Call.filterMap_references (call : Call) (first : Nat) :
    (((call.lines column).zipIdx first).filterMap fun (line, number) =>
      referenceOfLine? line number) =
      [⟨call.reference, first⟩] := by
  rw [lines, List.zipIdx_cons, List.filterMap_cons]
  simp only [call.reference_of_header]
  rw [filterMap_references_of_forall fun line hline number =>
    call.no_reference column number line hline]

/-- Where each of the things that are written makes one reference, their lines make these. -/
theorem filterMap_references_flatMap {α : Type} {lines : α → List (List Char)}
    {reference : α → String}
    (h : ∀ a first, (((lines a).zipIdx first).filterMap fun (line, number) =>
      referenceOfLine? line number) = [⟨reference a, first⟩])
    (as : List α) {rest : List (List Char)} (hrest : ∀ line ∈ rest, line = []) (first : Nat) :
    (((as.flatMap lines ++ rest).zipIdx first).filterMap fun (line, number) =>
      referenceOfLine? line number) =
      (placed (fun a => (lines a).length) first as).map fun p => ⟨reference p.2, p.1⟩ := by
  induction as generalizing first with
  | nil =>
    refine filterMap_references_of_forall (fun line hline number => ?_) first
    rw [hrest line hline]
    rfl
  | cons a as ih =>
    rw [List.flatMap_cons, List.append_assoc, List.zipIdx_append, List.filterMap_append, ih, h,
      placed, List.map_cons]
    rfl

/-- The references among the lines of calls are those of the calls. -/
theorem filterMap_references_calls (calls : List Call) {rest : List (List Char)}
    (hrest : ∀ line ∈ rest, line = []) (first : Nat) :
    (((calls.flatMap (Call.lines column) ++ rest).zipIdx first).filterMap fun (line, number) =>
        referenceOfLine? line number) =
      (placed (Call.height column) first calls).map fun p => ⟨p.2.reference, p.1⟩ :=
  filterMap_references_flatMap (Call.filterMap_references column) calls hrest first

/-- What is placed on a line stands behind as many lines, with what is written after it behind
it. -/
theorem exists_of_mem_placed {α : Type} {lines : α → List (List Char)} {as : List α}
    {first number : Nat} {a : α} (h : (number, a) ∈ placed (fun a => (lines a).length) first as) :
    ∃ (before : List (List Char)) (after : List α),
      as.flatMap lines = before ++ (lines a ++ after.flatMap lines) ∧
        number = first + before.length := by
  induction as generalizing first with
  | nil => cases h
  | cons head as ih =>
    rcases List.mem_cons.1 h with heq | hmem
    · obtain ⟨rfl, rfl⟩ := Prod.mk.inj heq
      exact ⟨[], as, rfl, rfl⟩
    · obtain ⟨before, after, hlines, hnumber⟩ := ih hmem
      refine ⟨lines head ++ before, after, ?_, ?_⟩
      · rw [List.flatMap_cons, hlines, List.append_assoc]
      · rw [hnumber, List.length_append, Nat.add_assoc]

/-- A call that is placed on a line stands behind as many lines, with other calls behind it. -/
theorem Call.exists_of_mem_placed {calls : List Call} {first number : Nat} {call : Call}
    (h : (number, call) ∈ placed (height column) first calls) :
    ∃ (before : List (List Char)) (after : List Call),
      calls.flatMap (lines column) = before ++ (call.lines column ++ after.flatMap (lines column)) ∧
      number = first + before.length :=
  Template.exists_of_mem_placed h

/-- Whatever the strings of the calls hold, their text reads as the references with the lines that
open the calls, and at each of these lines as the arguments of the call that stands there. Of a
repeated name the first argument counts. -/
theorem reads_back_calls (calls : List Call) (ended : Bool) :
    let text := textOf (calls.flatMap (Call.lines column)) ended
    let sites := placed (Call.height column) 0 calls
    references text = sites.map (fun p => ⟨p.2.reference, p.1⟩) ∧
      ∀ p ∈ sites, ∀ name, (passedParameters (linesOf text) p.1).find? name =
        ((p.2.arguments.zipIdx (p.1 + 2)).find? (·.1.name == name)).map fun q =>
          ⟨q.1.name, q.1.value, q.2⟩ := by
  intro text sites
  have honeLine : ∀ line ∈ calls.flatMap (Call.lines column), IsOneLine line := by
    intro line hline
    obtain ⟨call, -, hmem⟩ := List.mem_flatMap.1 hline
    exact call.isOneLine column line hmem
  obtain ⟨rest, hrest, hlines⟩ := exists_linesOf_textOf honeLine ended
  refine ⟨?_, ?_⟩
  · rw [references, referencesIn, hlines]
    exact filterMap_references_calls column calls hrest 0
  · rintro ⟨number, call⟩ hp name
    obtain ⟨before, after, hcalls, hnumber⟩ := Call.exists_of_mem_placed column hp
    rw [Nat.zero_add] at hnumber
    have harguments : argumentsAt (linesOf text) number =
        (call.arguments.zipIdx (number + 2)).map fun q => ⟨q.1.name, q.1.value, q.2⟩ := by
      rw [hlines, hcalls, hnumber, List.append_assoc, List.append_assoc]
      exact call.argumentsAt_eq column before (argumentsFrom_calls column after hrest)
    have hcompare : ∀ other : String, (compare name other == .eq) = (other == name) :=
      fun other => by
      rw [Bool.eq_iff_iff, beq_iff_eq, beq_iff_eq, Std.compare_eq_iff_eq]
      exact eq_comm
    rw [passedParameters, harguments, SortedMap.find?_ofListFirst]
    simp only [List.find?_map, Option.map_map, Function.comp_def, hcompare]

end Texts

end TemplateAtlas.Template
