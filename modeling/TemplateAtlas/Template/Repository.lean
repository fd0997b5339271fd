import TemplateAtlas.SortedMap
import TemplateAtlas.Template.Block

/-!
# Declared repositories

The block `resources` / `repositories` gives other repositories an alias. A reference through an
alias is looked up in the checkout that carries the last segment of the repository's name.
-/

namespace TemplateAtlas.Template

open TemplateAtlas.Text

/-- The short names of repositories by their aliases. -/
abbrev AliasTable :=
  SortedMap String String

/-- The alias that always means the repository of the file itself. -/
def selfAlias : String :=
  "self"

/-- Does the line open the list of repositories? -/
def BlockLine.opensRepositories (l : BlockLine) : Bool :=
  Entry.ofContent? l.content == some ⟨"repositories".toList, []⟩

/-- The block that lists the repositories. -/
def repositoryBlock (lines : List BlockLine) : List BlockLine :=
  match (topLevelBlock "resources".toList lines).dropWhile (!·.opensRepositories) with
  | [] => []
  | header :: rest => rest.takeWhile (·.isUnder header.indent)

/-- The last segment of a repository's name. -/
def shortName (name : List Char) : List Char :=
  trim (afterLast '/' name)

/-- The alias and short name that an item declares, if it declares both and neither is empty. -/
def repositoryOfItem? (item : Item) : Option (String × String) :=
  if !item.dashed then none
  else
    match fieldValue? "repository".toList item.fields, fieldValue? "name".toList item.fields with
    | some aliasName, some name =>
      if aliasName.isEmpty || (shortName name).isEmpty then none
      else some (String.ofList aliasName, String.ofList (shortName name))
    | _, _ => none

/-- The repositories that a file declares; of two with one alias the later counts. -/
def repositoryAliases (text : String) : AliasTable :=
  .ofList ((itemsOf (repositoryBlock (BlockLine.ofText text))).filterMap repositoryOfItem?)

end TemplateAtlas.Template
