import TemplateAtlas.Files.Tree

/-!
# The text cache

Texts of files that were read, each with the stamp of its version. A text is served again as long as
the file carries the stamp; otherwise the file is read anew. A leading byte order mark is not part
of the text. What cannot be read is not kept, and neither is a text whose stamp moves while it is
read.
-/

namespace TemplateAtlas

/-- A text that was read, and the stamp of the version that held it. -/
structure KeptText where
  /-- The text. -/
  text : String
  /-- The stamp of the version. -/
  stamp : Stamp
  deriving DecidableEq, Repr

/-- The text without a leading byte order mark. -/
def dropMark (text : String) : String :=
  match text.toList with
  | c :: cs => if c = '\ufeff' then String.ofList cs else text
  | [] => text

/-- The text that a version gives to its readers. -/
def FileVersion.body? (v : FileVersion) : Option String :=
  v.text?.map dropMark

/-- The texts that are kept, and how often a file was read for its content. -/
structure Cache where
  /-- The kept texts. -/
  kept : SortedMap Path KeptText := .empty
  /-- How often a file was read. -/
  reads : Nat := 0
  deriving Inhabited

namespace Cache

/-- The cache without the text of a path. -/
def invalidate (cache : Cache) (p : Path) : Cache :=
  { cache with kept := cache.kept.erase p }

/-- The cache without texts. -/
def invalidateAll (cache : Cache) : Cache :=
  { cache with kept := .empty }

/-- The kept text that still belongs to the version. -/
def fresh? (cache : Cache) (p : Path) (v : FileVersion) : Option String :=
  match cache.kept.find? p with
  | some kept => if kept.stamp = v.stamp then some kept.text else none
  | none => none

/-- The text that a path shows and the cache after reading it, while others write: the stamp is
looked up in the tree `before`, the bytes are read in the tree `during`, and the stamp is looked up
once more in the tree `after`. A text is kept if the stamp did not move. -/
def readAmid (cache : Cache) (before during after : FileTree) (p : Path) : Option String × Cache :=
  match before.fileAt? p with
  | none => (none, cache.invalidate p)
  | some v =>
    match cache.fresh? p v with
    | some text => (some text, cache)
    | none =>
      let cache := { cache with reads := cache.reads + 1 }
      match (during.fileAt? p).bind FileVersion.body? with
      | none => (none, cache.invalidate p)
      | some text =>
        if (after.fileAt? p).map (·.stamp) = some v.stamp then
          (some text, { cache with kept := cache.kept.insert p ⟨text, v.stamp⟩ })
        else (some text, cache.invalidate p)

/-- The text of the file that a path leads to, and the cache after reading it, while nobody
writes. -/
def read (cache : Cache) (tree : FileTree) (p : Path) : Option String × Cache :=
  cache.readAmid tree tree tree p

end Cache

end TemplateAtlas
