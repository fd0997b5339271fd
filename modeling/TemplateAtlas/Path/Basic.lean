import TemplateAtlas.Path.RawText
import TemplateAtlas.Text.Blank

/-!
# Paths

A path is kept as it was written, in bytes, and compared by what it says: its components. Repeated
and trailing slashes and inner dots say nothing, so `a//b/./c/` and `a/b/c` are one path with two
spellings. The order of paths is the lexicographic order of their components.
-/

namespace TemplateAtlas

open TemplateAtlas.Text
open RawText (slash dot)

/-- A step of a path. -/
inductive Component where
  /-- The slash that opens an absolute path. -/
  | root
  /-- The dot that opens a relative path. -/
  | current
  /-- Two dots. -/
  | parent
  /-- A name. -/
  | name (text : RawText)
  deriving DecidableEq, Repr

namespace Component

/-- The text of a step. -/
def text : Component → RawText
  | root => "/"
  | current => "."
  | parent => ".."
  | name text => text

/-- Steps compare as these lists of numbers: root, dot, two dots, and then names by their bytes. -/
def rank : Component → List Nat
  | root => [0]
  | current => [1]
  | parent => [2]
  | name text => 3 :: text.bytes.map UInt8.toNat

end Component

/-- A path as written. -/
structure Path where
  /-- The text. -/
  text : RawText
  deriving Repr, Inhabited

namespace Path

/-- Segments that say nothing inside a path. -/
def isTrivial (segment : List UInt8) : Bool :=
  segment.isEmpty || segment = [dot]

/-- The step that a segment inside a path states. -/
def innerStep? (segment : List UInt8) : Option Component :=
  if isTrivial segment then none
  else if segment = [dot, dot] then some .parent
  else some (.name ⟨segment⟩)

/-- The steps stated by the segments between the slashes. The first segment is empty for an absolute
path, and a dot counts only there. -/
def stepsOf : List (List UInt8) → List Component
  | [] => []
  | first :: body =>
    let opening :=
      if first.isEmpty then (if body.isEmpty then none else some Component.root)
      else if first = [dot] then some .current
      else innerStep? first
    opening.toList ++ body.filterMap innerStep?

/-- The segments of the text between the slashes. -/
def segments (p : Path) : List (List UInt8) :=
  splitOn slash p.text.bytes

/-- The steps of a path. -/
def components (p : Path) : List Component :=
  stepsOf p.segments

/-- Paths with the same components are the same path. -/
instance : BEq Path :=
  ⟨fun p q => p.components == q.components⟩

/-- Lists of steps compare as their ranks. -/
def rank (p : Path) : List (List Nat) :=
  p.components.map Component.rank

/-- Paths are ordered step by step. -/
instance : Ord Path :=
  ⟨fun p q => compare p.rank q.rank⟩

instance : Std.TransOrd Path where
  eq_swap := fun {p q} => by
    show compare p.rank q.rank = (compare q.rank p.rank).swap
    exact Std.OrientedCmp.eq_swap
  isLE_trans := fun {p q r} hpq hqr => by
    have hpq : (compare p.rank q.rank).isLE := hpq
    have hqr : (compare q.rank r.rank).isLE := hqr
    show (compare p.rank r.rank).isLE
    exact Std.TransCmp.isLE_trans hpq hqr

/-- Does the path begin at the root? -/
def isAbsolute (p : Path) : Bool :=
  p.text.bytes.head? = some slash

/-- The path that `q` means when it is read in the directory `p`. -/
def join (p q : Path) : Path :=
  if q.isAbsolute then q
  else if p.text.isEmpty || p.text.bytes.getLast? = some slash then ⟨p.text ++ q.text⟩
  else ⟨p.text ++ ⟨[slash]⟩ ++ q.text⟩

/-- The path of a name in the directory `p`. -/
def child (p : Path) (name : RawText) : Path :=
  p.join ⟨name⟩

/-- The text of a path with these segments. -/
def ofSegments (first : List UInt8) (body : List (List UInt8)) : Path :=
  ⟨⟨if first.isEmpty && body.isEmpty then [slash] else [slash].intercalate (first :: body)⟩⟩

/-- The path without its last step. The root and the empty path have none. -/
def parent? (p : Path) : Option Path :=
  match p.segments with
  | [] => none
  | first :: body =>
    match dropEndWhile isTrivial body with
    | [] => if first.isEmpty then none else some ⟨""⟩
    | last :: kept => some (ofSegments first (dropEndWhile isTrivial (last :: kept).dropLast))

/-- The path and the directories above it, nearest first. -/
def ancestors (p : Path) : List Path :=
  go p.components.length p
where
  /-- At most `n` directories above. -/
  go : Nat → Path → List Path
    | 0, p => [p]
    | n + 1, p =>
      match p.parent? with
      | none => [p]
      | some q => p :: go n q

/-- The name of the last step, if that is a name. -/
def fileName? (p : Path) : Option RawText :=
  match p.components.getLast? with
  | some (.name text) => some text
  | _ => none

/-- The part of a file's name after its last dot. A dot that opens the name does not count. -/
def extensionOfName? (name : RawText) : Option RawText :=
  match splitLast? dot name.bytes with
  | some (_ :: _, after) => some ⟨after⟩
  | _ => none

/-- The extension of the last step. -/
def extension? (p : Path) : Option RawText :=
  p.fileName?.bind extensionOfName?

/-- Does the path lie at or below `top`? -/
def startsWith (p top : Path) : Bool :=
  top.components.isPrefixOf p.components

/-- The segments after `n` further steps. -/
def segmentsAfter : Nat → List (List UInt8) → List (List UInt8)
  | 0, body => body.dropWhile isTrivial
  | n + 1, body => segmentsAfter n (body.dropWhile isTrivial).tail

/-- The spelling of the path below `top`. -/
def stripPrefix? (p top : Path) : Option Path :=
  if !p.startsWith top then none
  else
    match p.segments with
    | [] => some p
    | first :: body =>
      let body' := dropEndWhile isTrivial body
      match top.components.length with
      | 0 => if p.text.isEmpty then some p else some (ofSegments first body')
      | n + 1 => some ⟨⟨[slash].intercalate (segmentsAfter n body')⟩⟩

/-- The steps of the path below `top`. -/
def stepsBelow? (p top : Path) : Option (List Component) :=
  if p.startsWith top then some (p.components.drop top.components.length) else none

/-- The path as it is shown. -/
def shown (p : Path) : String :=
  p.text.shown

/-- The path as it is shown below `top`: relative if it lies there, otherwise as written. -/
def shownBelow (p top : Path) : String :=
  ((p.stripPrefix? top).getD p).shown

end Path

end TemplateAtlas
