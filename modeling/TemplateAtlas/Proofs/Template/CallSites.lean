import TemplateAtlas.Proofs.Template.Calls
import TemplateAtlas.Proofs.Template.Declarations

/-!
# Call sites in any columns

A text may hold calls in columns of their own, one after the other. A scan for the arguments of one
of them runs through the calls behind it: one that stands left of the key or in its column ends the
scan, and of one that stands deeper no line is in the column of the arguments, except that of the
dash (`argumentsFrom_writtenCalls`). So each call has its own arguments and no others
(`argumentsAt_callText`), and a text of calls declares nothing (`parameters_callText`).
-/

namespace TemplateAtlas.Template

open TemplateAtlas.Text

/-! ### Calls in columns of their own -/

/-- A call with the column in which its dash stands. -/
structure WrittenCall where
  /-- The column. -/
  column : Nat
  /-- The call. -/
  call : Call

/-- The lines of the call. -/
def WrittenCall.lines (w : WrittenCall) : List (List Char) :=
  w.call.lines w.column

/-- The text of calls, one after the other. -/
def callText (calls : List WrittenCall) (ended : Bool) : String :=
  textOf (calls.flatMap WrittenCall.lines) ended

/-- The calls with the numbers of the lines that open them. -/
def callSites (calls : List WrittenCall) : List (Nat × WrittenCall) :=
  placed (fun w => w.lines.length) 0 calls

/-! ### Lines that are passed over -/

section Skips

variable {column : Nat} {state : CallSiteState}

/-- A line that is deeper than the key and passes nothing: it opens an item, or it is not in the
column of the arguments. -/
structure Skips (column : Nat) (state : CallSiteState) (line : List Char) : Prop where
  /-- The line stands somewhere deeper, and there it is passed over. -/
  stands : ∃ indent content, StandsAt indent content line ∧ column < indent ∧
    (content.head? = some '-' ∨ state ≠ .inside indent)

/-- A line that is passed over leaves the scan where it stands. -/
theorem argumentsFrom_skips {line : List Char} (h : Skips column state line)
    (hstate : state ≠ .opened) (number : Nat) (rest : List (List Char × Nat)) :
    argumentsFrom column state ((line, number) :: rest) = argumentsFrom column state rest := by
  obtain ⟨indent, content, hstands, hdeeper, hno⟩ := h.stands
  have hleft : ¬indent < column := by omega
  have hsame : indent ≠ column := by omega
  rw [argumentsFrom]
  cases state with
  | outside => simp [hstands.isIgnorable_eq, hstands.text, hstands.indent, hleft, hsame]
  | opened => exact absurd rfl hstate
  | inside entryColumn =>
    have hnone : argumentsFrom.argumentOf entryColumn content number indent = none := by
      have hcolumn : content.head? = some '-' ∨ indent ≠ entryColumn := by
        refine hno.imp_right fun hne heq => hne ?_
        rw [heq]
      rw [argumentsFrom.argumentOf, if_pos]
      rcases hcolumn with hdash | hne <;> simp [*]
    simp [hstands.isIgnorable_eq, hstands.text, hstands.indent, hstands.shown, hleft, hsame, hnone]

theorem argumentsFrom_skips_append {lines : List (List Char)}
    (h : ∀ line ∈ lines, Skips column state line) (hstate : state ≠ .opened)
    (rest : List (List Char)) (first : Nat) :
    argumentsFrom column state ((lines ++ rest).zipIdx first) =
      argumentsFrom column state (rest.zipIdx (first + lines.length)) := by
  induction lines generalizing first with
  | nil => rfl
  | cons line lines ih =>
    rw [List.cons_append, List.zipIdx_cons, argumentsFrom_skips (h line (by simp)) hstate,
      ih fun other hother => h other (by simp [hother]), List.length_cons, Nat.add_assoc,
      Nat.add_comm 1]

/-- A call that stands deeper than the key of another one passes nothing to it. -/
theorem WrittenCall.skips {w : WrittenCall} (hcolumn : column + 2 < w.column)
    (hstate : state = .outside ∨ state = .inside (column + 4)) :
    ∀ line ∈ w.lines, Skips (column + 2) state line := by
  have hother : ∀ n, n ≠ column + 4 → state ≠ .inside n := by
    rintro n hn rfl
    rcases hstate with h | h
    · cases h
    · exact hn (CallSiteState.inside.inj h)
  have hheader : Skips (column + 2) state (w.call.header w.column) :=
    ⟨_, _, w.call.standsAt_header w.column, hcolumn, .inl rfl⟩
  have hparameters : Skips (column + 2) state (spaces (w.column + 2) ++ "parameters:".toList) :=
    ⟨_, _, standsAt_parameters _, by omega, .inr (hother _ (by omega))⟩
  have hargument : ∀ a : Argument, Skips (column + 2) state (a.line (w.column + 4)) := fun a =>
    ⟨_, _, a.standsAt _, by omega, .inr (hother _ (by omega))⟩
  rw [lines, Call.lines, Call.argumentLines, List.forall_mem_cons]
  refine ⟨hheader, ?_⟩
  split
  · simp
  · rw [List.forall_mem_cons, List.forall_mem_map]
    exact ⟨hparameters, fun a _ => hargument a⟩

/-- A dash in the column of the key ends the call. -/
theorem argumentsFrom_dash {content line : List Char} (h : StandsAt column content line)
    (hdash : content.head? = some '-') (number : Nat) (rest : List (List Char × Nat)) :
    argumentsFrom column state ((line, number) :: rest) = [] := by
  rw [argumentsFrom]
  simp [h.isIgnorable_eq, h.text, h.indent, h.shown, hdash]

/-- A call that stands in the column of the key of another one, or left of it, ends that call. -/
theorem WrittenCall.argumentsFrom_eq_nil {w : WrittenCall} (hcolumn : w.column ≤ column + 2)
    (rest : List (List Char)) (first : Nat) :
    argumentsFrom (column + 2) state ((w.lines ++ rest).zipIdx first) = [] := by
  have hstands := w.call.standsAt_header w.column
  rw [lines, Call.lines, List.cons_append, List.zipIdx_cons]
  rcases Nat.lt_or_eq_of_le hcolumn with hleft | hsame
  · exact argumentsFrom_left hstands hleft
  · rw [hsame] at hstands ⊢
    exact argumentsFrom_dash hstands rfl first _

/-- The calls behind a call pass nothing to it, whatever their columns are. -/
theorem argumentsFrom_writtenCalls (calls : List WrittenCall) {rest : List (List Char)}
    (hrest : ∀ line ∈ rest, line = []) (hstate : state = .outside ∨ state = .inside (column + 4))
    (first : Nat) :
    argumentsFrom (column + 2) state ((calls.flatMap WrittenCall.lines ++ rest).zipIdx first) =
      [] := by
  have hopened : state ≠ .opened := by rcases hstate with rfl | rfl <;> simp
  induction calls generalizing first with
  | nil =>
    exact argumentsFrom_of_ignorable (fun line hline => by rw [hrest line hline]; decide) first
  | cons w calls ih =>
    rw [List.flatMap_cons, List.append_assoc]
    rcases Nat.lt_or_ge (column + 2) w.column with hdeeper | hcolumn
    · rw [argumentsFrom_skips_append (w.skips hdeeper hstate) hopened, ih]
    · exact w.argumentsFrom_eq_nil hcolumn _ first

end Skips

/-! ### Texts of calls -/

section Texts

variable (calls : List WrittenCall) (ended : Bool)

theorem exists_linesOf_callText :
    ∃ rest, (∀ line ∈ rest, line = []) ∧
      linesOf (callText calls ended) = calls.flatMap WrittenCall.lines ++ rest := by
  refine exists_linesOf_textOf (fun line hline => ?_) ended
  obtain ⟨w, -, hmem⟩ := List.mem_flatMap.1 hline
  exact w.call.isOneLine w.column line hmem

/-- A text of calls refers to their templates. -/
theorem references_callText :
    references (callText calls ended) = (callSites calls).map fun p =>
      ⟨p.2.call.reference, p.1⟩ := by
  obtain ⟨rest, hrest, hlines⟩ := exists_linesOf_callText calls ended
  rw [references, referencesIn, hlines]
  exact filterMap_references_flatMap
    (fun w first => w.call.filterMap_references w.column first) calls hrest 0

/-- Each call of a text has its own arguments, and no others. -/
theorem argumentsAt_callText {site : Nat × WrittenCall} (h : site ∈ callSites calls) :
    argumentsAt (linesOf (callText calls ended)) site.1 =
      (site.2.call.arguments.zipIdx (site.1 + 2)).map fun q => ⟨q.1.name, q.1.value, q.2⟩ := by
  obtain ⟨number, w⟩ := site
  obtain ⟨rest, hrest, hlines⟩ := exists_linesOf_callText calls ended
  obtain ⟨before, after, hcalls, hnumber⟩ := exists_of_mem_placed h
  rw [Nat.zero_add] at hnumber
  have hstate : w.call.lastState w.column = .outside ∨ w.call.lastState w.column =
      .inside (w.column + 4) := by
    unfold Call.lastState
    split
    · exact .inl rfl
    · exact .inr rfl
  rw [hlines, hcalls, hnumber, List.append_assoc, List.append_assoc]
  exact (w.call.argumentsAt_append w.column before _).trans
    (by rw [argumentsFrom_writtenCalls after hrest hstate, List.append_nil])

/-- The line that opens a call states no key, since its key stands behind a dash. -/
theorem Call.not_hasKey_header (call : Call) (key : List Char) :
    hasKey key ("- template: ".toList ++ quoted call.reference.toList) = false := by
  have htrim : trim ("- template: ".toList ++ quoted call.reference.toList) =
      "- template: ".toList ++ quoted call.reference.toList := by
    refine trim_of_ends (forall_mem_of_eq_some (c := '-') rfl (by decide)) ?_
    refine forall_mem_of_eq_some (c := '\x27') ?_ (by decide)
    rw [List.getLast?_append, getLast?_quoted, Option.some_or]
  have hsplit : splitAtColon {} ("- template: ".toList ++ quoted call.reference.toList) =
      some ("- template".toList, ' ' :: quoted call.reference.toList) := rfl
  have hkey : isKey (unquote "- template".toList) = false := by decide
  rw [hasKey, Entry.ofContent?, htrim, hsplit]
  simp only [hkey, Bool.false_eq_true, if_false]

/-- No line of a call states a key in the first column. -/
theorem WrittenCall.not_isTopLevel (w : WrittenCall) (key : List Char) (number : Nat) :
    ∀ line ∈ w.lines, BlockLine.isTopLevel key ⟨number, stripComment line⟩ = false := by
  have hdeeper : ∀ {n content line}, StandsAt (n + 1) content line →
      BlockLine.isTopLevel key ⟨number, stripComment line⟩ = false := by
    intro n content line h
    simp [BlockLine.isTopLevel, BlockLine.indent, h.text, h.indent]
  have hheader : BlockLine.isTopLevel key ⟨number, stripComment (w.call.header w.column)⟩ =
      false := by
    have hstands := w.call.standsAt_header w.column
    rw [BlockLine.isTopLevel, BlockLine.content, hstands.text, hstands.shown,
      w.call.not_hasKey_header, Bool.and_false]
  rw [lines, Call.lines, Call.argumentLines, List.forall_mem_cons]
  refine ⟨hheader, ?_⟩
  split
  · simp
  · rw [List.forall_mem_cons, List.forall_mem_map]
    exact ⟨hdeeper (standsAt_parameters _), fun a _ => hdeeper (a.standsAt _)⟩

/-- Without the key there is no block. -/
theorem topLevelBlock_eq_nil {key : List Char} {ls : List BlockLine}
    (h : ∀ l ∈ ls, l.isTopLevel key = false) : topLevelBlock key ls = [] := by
  have hnone : ls.dropWhile (!·.isTopLevel key) = [] := by
    rw [List.dropWhile_eq_nil_iff]
    exact fun l hl => by simp [h l hl]
  rw [topLevelBlock, linesAfter, hnone]
  rfl

theorem exists_of_mem_carryingFrom {l : BlockLine} {first : Nat} {lines : List (List Char)}
    (h : l ∈ carryingFrom first lines) :
    ∃ line ∈ lines, isIgnorable line = false ∧ l = ⟨l.number, stripComment line⟩ := by
  induction lines generalizing first with
  | nil => cases h
  | cons line lines ih =>
    have hlater : l ∈ carryingFrom (first + 1) lines →
        ∃ other ∈ line :: lines, isIgnorable other = false ∧
          l = ⟨l.number, stripComment other⟩ := by
      intro hl
      obtain ⟨other, hmem, hother⟩ := ih hl
      exact ⟨other, List.mem_cons_of_mem _ hmem, hother⟩
    rw [carryingFrom_cons] at h
    split at h
    · exact hlater h
    next hcarries =>
      rcases List.mem_cons.1 h with rfl | hl
      · exact ⟨line, List.mem_cons_self, by simpa using hcarries, rfl⟩
      · exact hlater hl

/-- A text of calls declares no parameters. -/
theorem parameters_callText : parameters (callText calls ended) = [] := by
  obtain ⟨rest, hrest, hlines⟩ := exists_linesOf_callText calls ended
  have hblock : topLevelBlock "parameters".toList (BlockLine.ofText (callText calls ended)) =
      [] := by
    refine topLevelBlock_eq_nil fun l hl => ?_
    rw [BlockLine.ofText, carryingLines_eq, hlines] at hl
    obtain ⟨line, hmem, hcarries, hl⟩ := exists_of_mem_carryingFrom hl
    rcases List.mem_append.1 hmem with hline | hline
    · obtain ⟨w, -, hline⟩ := List.mem_flatMap.1 hline
      rw [hl]
      exact w.not_isTopLevel _ l.number line hline
    · rw [hrest line hline] at hcarries
      cases hcarries
  rw [parameters, parametersIn, hblock]
  rfl

end Texts

end TemplateAtlas.Template
