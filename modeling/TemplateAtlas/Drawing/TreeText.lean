import TemplateAtlas.Graph.Tree

/-!
# Trees as text

One line for each node of a tree, with connectors in front that show the nesting. Paths are shown
below a root.
-/

namespace TemplateAtlas

/-- A line's number as it is shown: counted from one, in a word of 64 bits. -/
def shownLine (line : Nat) : Nat :=
  (line + 1) % UInt64.size

/-- The name of a node: its path, or the reference. -/
def NodeKey.shownBelow (key : NodeKey) (root : Path) : String :=
  match key with
  | .file path => path.shownBelow root
  | .missing path => path.shownBelow root
  | .unknownAlias _ raw => raw

namespace TreeText

/-- The line of a node without its connectors. -/
def label (info : TreeInfo) (root : Path) : String :=
  info.key.shownBelow root ++ " [" ++ info.kind.shortName ++ "]" ++
    (match info.line? with
      | some line => " :" ++ toString (shownLine line)
      | none => "") ++
    (if 0 < info.parameterCount then
      " (" ++ toString info.parameterCount ++ " params, " ++
        toString info.requiredCount ++ " required)"
      else "") ++
    (if info.cycle then " (cycle)" else "")

/-- The connector in front of a node. -/
def connector (last : Bool) : String :=
  if last then "└── " else "├── "

/-- What stands under the connector of a node, in front of the nodes below it. -/
def continuation (last : Bool) : String :=
  if last then "    " else "│   "

mutual

/-- The lines of a tree under a parent. `lead` stands in front of the connectors. -/
def lines (root : Path) (lead : String) (last : Bool) : Tree → List String
  | .node info children =>
    (lead ++ connector last ++ label info root) ::
      linesOfAll root (lead ++ continuation last) children

/-- The lines of the trees under a common parent. -/
def linesOfAll (root : Path) (lead : String) : List Tree → List String
  | [] => []
  | t :: ts => lines root lead ts.isEmpty t ++ linesOfAll root lead ts

end

/-- The tree as text. -/
def render (t : Tree) (root : Path) : String :=
  String.join ((label t.info root :: linesOfAll root "" t.children).map (· ++ "\n"))

end TreeText

end TemplateAtlas
