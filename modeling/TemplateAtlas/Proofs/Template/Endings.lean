import TemplateAtlas.Proofs.Template.Written
import TemplateAtlas.Template.Parameter
import TemplateAtlas.Template.Reference
import TemplateAtlas.Template.Repository
import TemplateAtlas.Template.Usage

/-!
# Line endings

A line ends with a line feed, with a carriage return, or with both, and every line of a text may end
in its own way. The normal form ends them all with line feeds (`normalizeEndings_endedText`), as
long as no two endings can be taken for one: a carriage return with nothing but a line feed behind
it is one ending and not two. What is extracted from a text follows from its lines alone, so it does
not depend on how they end.
-/

namespace TemplateAtlas.Template

open TemplateAtlas.Text

/-! ### How lines end -/

/-- How a line ends. -/
inductive LineEnding where
  /-- With a line feed. -/
  | feed
  /-- With a carriage return and a line feed. -/
  | carriageFeed
  /-- With a carriage return. -/
  | carriage
  deriving DecidableEq

/-- The characters that end the line. -/
def LineEnding.text : LineEnding → List Char
  | feed => ['\n']
  | carriageFeed => ['\r', '\n']
  | carriage => ['\r']

/-- A line and how it ends. -/
structure EndedLine where
  /-- The line. -/
  text : List Char
  /-- How it ends. -/
  ending : LineEnding
  /-- The line itself has no line breaks. -/
  oneLine : IsOneLine text

namespace EndedLine

/-- The line with its ending. -/
def written (l : EndedLine) : List Char :=
  l.text ++ l.ending.text

/-- A line and the next one have two endings: a carriage return at the end of the line and a line
feed that is all of the next one would be read as one. -/
def Apart (l next : EndedLine) : Prop :=
  ¬(l.ending = .carriage ∧ next.text = [] ∧ next.ending = .feed)

instance (l next : EndedLine) : Decidable (l.Apart next) :=
  inferInstanceAs (Decidable ¬_)

end EndedLine

/-- The text of some lines, each with its own ending, and of a last line without one. -/
def endedText (lines : List EndedLine) (last : List Char) : List Char :=
  lines.flatMap EndedLine.written ++ last

/-! ### Reading the lines -/

section Reading

variable {last : List Char}

/-- A text that begins with a line feed begins with an empty line that ends so. -/
theorem head?_endedText {lines : List EndedLine} (hlast : IsOneLine last)
    (h : (endedText lines last).head? = some '\n') :
    ∃ l ∈ lines.head?, l.text = [] ∧ l.ending = .feed := by
  cases lines with
  | nil => exact absurd (List.mem_of_head? h) hlast.1
  | cons l lines =>
    refine ⟨l, rfl, ?_⟩
    rw [endedText, List.flatMap_cons, EndedLine.written, List.append_assoc, List.append_assoc] at h
    cases htext : l.text with
    | nil =>
      cases hending : l.ending with
      | feed => exact ⟨rfl, rfl⟩
      | carriageFeed => simp [htext, hending, LineEnding.text] at h
      | carriage => simp [htext, hending, LineEnding.text] at h
    | cons c cs =>
      rw [htext] at h
      obtain rfl : c = '\n' := Option.some.inj h
      exact absurd (by rw [htext]; exact List.mem_cons_self) l.oneLine.1

/-- Whichever way the lines end, the normal form ends them with line feeds. -/
theorem normalizeEndings_endedText {lines : List EndedLine} (hapart : lines.IsChain EndedLine.Apart)
    (hlast : IsOneLine last) :
    normalizeEndings (endedText lines last) = joinLines (lines.map EndedLine.text ++ [last]) := by
  induction lines with
  | nil =>
    rw [List.map_nil, List.nil_append, joinLines, List.intercalate_singleton]
    exact normalizeEndings_of_notMem hlast.2
  | cons l lines ih =>
    have htail : endedText (l :: lines) last =
        l.text ++ (l.ending.text ++ endedText lines last) := by
      simp [endedText, EndedLine.written]
    have hending : normalizeEndings (l.ending.text ++ endedText lines last) =
        '\n' :: normalizeEndings (endedText lines last) := by
      cases hl : l.ending with
      | feed => exact normalizeEndings_cons_of_ne (by decide) _
      | carriageFeed => exact normalizeEndings_carriageFeed _
      | carriage =>
        refine normalizeEndings_carriage fun hhead => ?_
        obtain ⟨next, hnext, hempty, hfeed⟩ := head?_endedText hlast hhead
        obtain ⟨others, rfl⟩ := List.head?_eq_some_iff.1 hnext
        exact (List.isChain_cons_cons.1 hapart).1 ⟨hl, hempty, hfeed⟩
    have hjoin : joinLines (l.text :: (lines.map EndedLine.text ++ [last])) =
        l.text ++ '\n' :: joinLines (lines.map EndedLine.text ++ [last]) := by
      obtain ⟨first, others, hcons⟩ :=
        List.exists_cons_of_ne_nil (l := lines.map EndedLine.text ++ [last]) (by simp)
      rw [hcons, joinLines, List.intercalate_cons_cons, List.append_assoc]
      rfl
    rw [htail, normalizeEndings_append l.oneLine.2, hending, ih hapart.of_cons, List.map_cons,
      List.cons_append, hjoin]

end Reading

/-! ### What follows from the lines -/

section Lines

variable {a b : String} (h : linesOf a = linesOf b)
include h

theorem parameters_of_linesOf : parameters a = parameters b := by
  rw [parameters, parameters, BlockLine.ofText, BlockLine.ofText, h]

theorem repositoryAliases_of_linesOf : repositoryAliases a = repositoryAliases b := by
  rw [repositoryAliases, repositoryAliases, BlockLine.ofText, BlockLine.ofText, h]

theorem references_of_linesOf : references a = references b := by
  rw [references, references, h]

theorem usages_of_linesOf : usages a = usages b := by
  rw [usages, usages, h]

theorem isPipelineRoot_of_linesOf : isPipelineRoot a = isPipelineRoot b := by
  rw [isPipelineRoot, isPipelineRoot, BlockLine.ofText, BlockLine.ofText, h]

end Lines

end TemplateAtlas.Template
