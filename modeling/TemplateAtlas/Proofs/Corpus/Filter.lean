import TemplateAtlas.Proofs.Corpus.Ignore
import TemplateAtlas.Proofs.Files.Write

/-!
# The filter for single paths and the corpus

What a notification says of a file is used if the filter `accepts` the path, and a build uses the
files that the walk finds. For a file at or below the root both look at the same names, but ignore
files are read by the walk alone. `mem_files_iff_accepts` says exactly where the two part, however
ignore files are read: at a path that is accepted and hidden. `accepts_and_not_mem_files` is such a
path under the rules of ignore files, and where there are no ignore files, there is none
(`accepts_iff_mem_files_of_lacksIgnoreFiles`).
-/

namespace TemplateAtlas

namespace CorpusOptions

variable {options : CorpusOptions} {reader : IgnoreReader} {tree : FileTree} {root p : Path}

/-- The corpus holds a file, if the filter accepts its path and no ignore file that counts hides
it. -/
theorem mem_files_iff_of_isFile (h : tree.WellFormed) (hroot : root.IsAddress) (hp : p.IsAddress)
    (hfile : tree.isFile p = true) :
    p ∈ options.files reader tree root ↔
      options.accepts root p = true ∧
        (options.respectIgnore && reader.hides tree root.place p.place) = false := by
  obtain ⟨top, htop, rfl⟩ := hroot
  obtain ⟨place, hplace, rfl⟩ := hp
  obtain ⟨v, hv⟩ := Option.isSome_iff_exists.1 hfile
  obtain ⟨hfollow, hnode⟩ := (FileTree.fileAt?_address_eq_some_iff h hplace).1 hv
  rw [Path.place_address htop, Path.place_address hplace, mem_files_iff_of_hides h htop]
  constructor
  · rintro ⟨-, q, w, heq, hq, haccepts, hhides⟩
    obtain rfl := Path.address_inj hplace (h.isPlace_of_eq_some hq) heq
    exact ⟨haccepts, hhides⟩
  · rintro ⟨haccepts, hhides⟩
    obtain ⟨names, rfl⟩ := ((accepts_address_iff htop hplace).1 haccepts).1
    exact ⟨hfollow.of_append, _, v, rfl, hnode, haccepts, hhides⟩

/-- However ignore files are read: a file belongs to the corpus exactly if the filter accepts its
path and no ignore file that counts hides it. So the filter accepts all files of the corpus, and the
two agree on a file unless it is accepted and hidden. -/
theorem mem_files_iff_accepts (h : tree.WellFormed) (hroot : root.IsAddress) (hp : p.IsAddress)
    (hfile : tree.isFile p = true) :
    (p ∈ options.files reader tree root ↔
      options.accepts root p = true ∧
        (options.respectIgnore && reader.hides tree root.place p.place) = false) ∧
    ((options.accepts root p = true ↔ p ∈ options.files reader tree root) ↔
      ¬(options.accepts root p = true ∧ options.respectIgnore = true ∧
        reader.hides tree root.place p.place = true)) := by
  have hmem := @mem_files_iff_of_isFile options reader tree root p h hroot hp hfile
  refine ⟨hmem, ?_⟩
  rw [hmem, ← Bool.and_eq_true, ← Bool.not_eq_true]
  tauto

/-- A project with an ignore file that hides what is generated. -/
def generatedProject : FileTree :=
  ((({} : FileTree).makeDirectories ["main", "generated"]).put
    ["main", ".gitignore"] "generated/\n".toUTF8 none).put
    ["main", "generated", "out.yml"] "steps: []\n".toUTF8 none

theorem wellFormed_generatedProject : generatedProject.WellFormed := by
  decide +kernel

/-- With the default options the filter accepts the generated file, and the corpus does not hold
it. -/
theorem accepts_and_not_mem_files :
    let root := Path.address ["main"]
    let p := Path.address ["main", "generated", "out.yml"]
    generatedProject.isFile p = true ∧ ({} : CorpusOptions).accepts root p = true ∧
      p ∉ ({} : CorpusOptions).files .ofRules generatedProject root := by
  intro root p
  have hfile : generatedProject.isFile p = true := by decide +kernel
  have haccepts : ({} : CorpusOptions).accepts root p = true := by decide +kernel
  have hhides : IgnoreReader.ofRules.hides generatedProject root.place p.place = true := by
    decide +kernel
  have hp : p.IsAddress := Path.isAddress_address (by decide)
  have hroot : root.IsAddress := Path.isAddress_address (by decide)
  refine ⟨hfile, haccepts, fun hmem => ?_⟩
  have hnot := ((mem_files_iff_accepts wellFormed_generatedProject hroot hp hfile).1.1 hmem).2
  rw [hhides] at hnot
  cases hnot

/-- Where no directory above a file holds an ignore file, the filter and the corpus agree on the
file. -/
theorem accepts_iff_mem_files_of_lacksIgnoreFiles (hreader : reader.Lawful) (h : tree.WellFormed)
    (hroot : root.IsAddress) (hp : p.IsAddress) (hfile : tree.isFile p = true)
    (hnone : tree.LacksIgnoreFiles p.place) :
    options.accepts root p = true ↔ p ∈ options.files reader tree root := by
  rw [mem_files_iff_of_isFile h hroot hp hfile, iff_self_and]
  obtain ⟨top, htop, rfl⟩ := hroot
  obtain ⟨place, hplace, rfl⟩ := hp
  intro haccepts
  rw [Path.place_address hplace] at hnone ⊢
  rw [Path.place_address htop,
    hreader.hides_eq_false ((accepts_address_iff htop hplace).1 haccepts).1 hnone, Bool.and_false]

end CorpusOptions

end TemplateAtlas
