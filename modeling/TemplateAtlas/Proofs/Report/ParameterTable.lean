import TemplateAtlas.CommandLine.Session
import TemplateAtlas.Proofs.Drawing.Table
import TemplateAtlas.Proofs.Template.Origin

/-!
# The table of parameters

The cells that show a declared parameter are one line of text each, except that a default made of
several lines keeps its line breaks. By the shape of tables in general, the table of the parameters
of a file is rectangular exactly when no default has a line break (`parameterTable_isTable_iff`).
-/

namespace TemplateAtlas.CommandLine.Session

open TemplateAtlas.Text TemplateAtlas.Template

/-- The lines of a printed text, each of which has ended. -/
def printedLines (text : String) : List (List Char) :=
  (splitOn '\n' text.toList).dropLast

theorem printedLines_append_newline (text : String) :
    printedLines (text ++ "\n") = splitOn '\n' text.toList := by
  rw [printedLines, String.toList_append]
  change (splitOn '\n' (text.toList ++ '\n' :: [])).dropLast = _
  rw [splitOn_append_sep, splitOn, List.dropLast_concat]

theorem newline_notMem_number (n : Nat) : '\n' ∉ (toString n).toList :=
  fun h => absurd (isDigit_of_mem_toString h) (by decide)

/-- A table has its shape exactly when no cell that is shown has a line break, whatever the headers
are and however many cells the rows have. So the table of the parameters of a text has it exactly
when no default has a line break: names and types have none. -/
theorem parameterTable_isTable_iff (headers : List String) (rows : List (List String))
    (text : String) :
    (Table.IsTable headers.length rows.length (splitOn '\n' (Table.render headers rows).toList) ↔
      ∀ row ∈ headers :: rows, ∀ cell ∈ row.take headers.length, '\n' ∉ cell.toList) ∧
    (Table.IsTable 5 (parameters text).length (printedLines (parameterTable (parameters text))) ↔
      ∀ d ∈ parameters text, ∀ value ∈ d.default?, '\n' ∉ value.toList) := by
  refine ⟨Table.isTable_render_iff headers rows, ?_⟩
  rw [parameterTable, tableText, printedLines_append_newline]
  have htable := Table.isTable_render_iff ["Name", "Type", "Default", "Required", "Line"]
    ((parameters text).map fun d =>
      [d.name, d.type, d.default?.getD "", if d.required then "yes" else "no",
        toString (shownLine d.line)])
  rw [List.length_map] at htable
  refine htable.trans ?_
  rw [List.forall_mem_cons, List.forall_mem_map, and_iff_right (by decide)]
  refine forall₂_congr fun d hd => ?_
  obtain ⟨hname, htype⟩ := oneLine_of_mem_parameters hd
  have hrequired : '\n' ∉ (if d.required then "yes" else "no").toList := by
    cases d.required <;> decide
  have hcells : (∀ cell ∈ [d.name, d.type, d.default?.getD "", if d.required then "yes" else "no",
      toString (shownLine d.line)], '\n' ∉ cell.toList) ↔ '\n' ∉ (d.default?.getD "").toList := by
    simp only [List.forall_mem_cons, hname, htype, hrequired, newline_notMem_number,
      not_false_eq_true, true_and, List.not_mem_nil, false_implies, implies_true, and_true]
  refine hcells.trans ?_
  cases d.default? <;> simp

/-- The row of a default made of two lines takes two lines. -/
example :
    parameterTable
      (parameters "parameters:\n- name: tags\n  type: object\n  default:\n    a: 1\n    b: 2\n") =
      "+------+--------+-----------+----------+------+\n" ++
      "| Name | Type   | Default   | Required | Line |\n" ++
      "+------+--------+-----------+----------+------+\n" ++
      "| tags | object | a: 1\nb: 2 | no       | 2    |\n" ++
      "+------+--------+-----------+----------+------+\n" := by
  decide +kernel

end TemplateAtlas.CommandLine.Session
