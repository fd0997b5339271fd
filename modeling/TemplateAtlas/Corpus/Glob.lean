import TemplateAtlas.Path.RawText

/-!
# Globs

Patterns for paths. In a glob, `?` stands for one byte, `*` for any bytes of one name, `[...]` for
one byte of a set, and braces with commas for a choice; `**` between slashes stands for any
directories. A backslash takes the meaning from the next character.
-/

namespace TemplateAtlas

open RawText (slash dot)

/-- A part of a glob. -/
inductive GlobPart where
  /-- A character as it is. -/
  | literal (c : Char)
  /-- One byte that is no slash. -/
  | anyByte
  /-- Any number of bytes that are no slashes. -/
  | anyBytes
  /-- Any directories at the start of the path, none included. -/
  | anyAbove
  /-- A slash and anything after it. -/
  | anyBelow
  /-- A slash, or any directories between two slashes. -/
  | anyBetween
  /-- One byte in one of the ranges, or in none of them. -/
  | oneOf (negated : Bool) (ranges : List (Char × Char))
  /-- One of several sequences. -/
  | choice (branches : List (List GlobPart))
  deriving Repr, Inhabited

/-- A glob as the sequence of its parts. -/
abbrev Glob :=
  List GlobPart

namespace Glob

/-! ### Reading -/

/-- The ranges read so far in a set, the last one first, and whether a dash has opened the second
end of the last one. -/
structure SetReading where
  /-- The ranges. -/
  ranges : List (Char × Char) := []
  /-- Has a dash been read after the last range? -/
  dashed : Bool := false
  deriving Repr

/-- One more character of a set. A range whose ends are in the wrong order is refused. -/
def SetReading.push (r : SetReading) (c : Char) : Option SetReading :=
  match r.ranges, r.dashed with
  | (low, _) :: rest, true => if c < low then none else some ⟨(low, c) :: rest, false⟩
  | ranges, _ =>
    if c = '-' && !ranges.isEmpty then some ⟨ranges, true⟩ else some ⟨(c, c) :: ranges, false⟩

/-- The ranges of a set that ends here. A dash at the end stands for itself. -/
def SetReading.finish (r : SetReading) : List (Char × Char) :=
  (if r.dashed then ('-', '-') :: r.ranges else r.ranges).reverse

/-- What the rest of a glob after an opening bracket says. -/
inductive SetOutcome where
  /-- A set that takes this many characters, the closing bracket included. -/
  | closed (ranges : List (Char × Char)) (length : Nat)
  /-- No bracket closes the set. -/
  | unclosed
  /-- A range is in the wrong order. -/
  | refused
  deriving Repr

/-- The ranges of a set. A closing bracket right at its start stands for itself. -/
def readSet (r : SetReading) (length : Nat) : List Char → SetOutcome
  | [] => .unclosed
  | c :: cs =>
    if c = ']' && !r.ranges.isEmpty then .closed r.finish (length + 1)
    else
      match r.push c with
      | none => .refused
      | some r => readSet r (length + 1) cs

/-- The set after an opening bracket: `!` or `^` opens the set of all other bytes. -/
def readBracket (cs : List Char) : Bool × SetOutcome :=
  match cs with
  | '!' :: rest => (true, readSet {} 1 rest)
  | '^' :: rest => (true, readSet {} 1 rest)
  | rest => (false, readSet {} 0 rest)

/-- A sequence with the finished branches before it, each list with its last member first. -/
structure Branch where
  /-- The parts of the sequence. -/
  parts : List GlobPart := []
  /-- The branches before it in the same choice. -/
  before : List (List GlobPart) := []
  deriving Inhabited

/-- The branch with one more part. -/
def Branch.push (b : Branch) (part : GlobPart) : Branch :=
  { b with parts := part :: b.parts }

/-- The choice that ends with the branch. -/
def Branch.toChoice (b : Branch) : GlobPart :=
  .choice (b.parts.reverse :: b.before).reverse

/-- How `**` reads on, given the branch before it, the character before it, whether it stands in a
choice and what follows: the branch after it, and what is left to read. -/
def readDoubleStar (b : Branch) (previous : Option Char) (inChoice : Bool) (rest : List Char) :
    Branch × List Char :=
  let plain := ((b.push .anyBytes).push .anyBytes, rest)
  match b.parts with
  | [] =>
    match rest with
    | [] => (b.push .anyAbove, [])
    | '/' :: rest => (b.push .anyAbove, rest)
    | _ => plain
  | last :: earlier =>
    if previous != some '/' && !(inChoice && (previous = some ',' || previous = some '\x7b')) then
      plain
    else
      let close (part : GlobPart) (rest : List Char) : Branch × List Char :=
        match last with
        | .anyAbove => (b, rest)
        | .anyBelow => (b, rest)
        | _ => ({ b with parts := part :: earlier }, rest)
      match rest with
      | [] => close .anyBelow []
      | '/' :: rest => close .anyBetween rest
      | c :: _ => if inChoice && (c = ',' || c = '\x7d') then close .anyBelow rest else plain

/-- What is left to read after `**` is no longer than before. -/
theorem length_readDoubleStar (b : Branch) (previous : Option Char) (inChoice : Bool)
    (rest : List Char) : (readDoubleStar b previous inChoice rest).2.length ≤ rest.length := by
  unfold readDoubleStar
  repeat' (first | split | simp_all)

/-- The character before what is left to read after `**`. -/
def afterDoubleStar (before after : List Char) : Char :=
  if after.length < before.length then '/' else '*'

/-- The glob that the characters state, after a branch inside the given ones. After a bracket that
nothing closes, brackets stand for themselves. -/
def read (bracketsPlain : Bool) (previous : Option Char) (b : Branch) (outer : List Branch) :
    List Char → Option Glob
  | [] => if outer.isEmpty then some b.parts.reverse else none
  | '?' :: cs => read bracketsPlain (some '?') (b.push .anyByte) outer cs
  | '*' :: '*' :: cs =>
    have := length_readDoubleStar b previous (!outer.isEmpty) cs
    read bracketsPlain (some (afterDoubleStar cs (readDoubleStar b previous (!outer.isEmpty) cs).2))
      (readDoubleStar b previous (!outer.isEmpty) cs).1 outer
      (readDoubleStar b previous (!outer.isEmpty) cs).2
  | '*' :: cs => read bracketsPlain (some '*') (b.push .anyBytes) outer cs
  | '[' :: cs =>
    if bracketsPlain then read true (some '[') (b.push (.literal '[')) outer cs
    else
      match readBracket cs with
      | (negated, .closed ranges length) =>
        read false (some ']') (b.push (.oneOf negated ranges)) outer (cs.drop length)
      | (_, .unclosed) => read true (some '[') (b.push (.literal '[')) outer cs
      | (_, .refused) => none
  | '\x7b' :: cs => read bracketsPlain (some '\x7b') {} (b :: outer) cs
  | '\x7d' :: cs =>
    match outer with
    | [] => none
    | enclosing :: outer => read bracketsPlain (some '\x7d') (enclosing.push b.toChoice) outer cs
  | ',' :: cs =>
    if outer.isEmpty then read bracketsPlain (some ',') (b.push (.literal ',')) outer cs
    else read bracketsPlain (some ',') ⟨[], b.parts.reverse :: b.before⟩ outer cs
  | '\\' :: c :: cs => read bracketsPlain (some c) (b.push (.literal c)) outer cs
  | ['\\'] => none
  | c :: cs => read bracketsPlain (some c) (b.push (.literal c)) outer cs
termination_by cs => cs.length
decreasing_by all_goals simp_wf <;> omega

/-- The glob that a pattern states. Braces must match, and a backslash must not be the last
character. -/
def ofPattern? (pattern : List Char) : Option Glob :=
  read false none {} [] pattern

/-! ### Matching

Matching goes part by part. The positions of a path are the places before its bytes and the one
after the last. After some parts, the marks tell at which positions those parts can end. -/

/-- The marks after one byte that satisfies `p`. -/
def shift (p : UInt8 → Bool) (path : List UInt8) (marks : List Bool) : List Bool :=
  false :: List.zipWith (fun byte mark => mark && p byte) path marks

/-- The marks after any number of bytes that satisfy `p`; `carried` tells whether such bytes end
here. -/
def spread (p : UInt8 → Bool) (carried : Bool) : List UInt8 → List Bool → List Bool
  | byte :: path, mark :: marks =>
    (mark || carried) :: spread p ((mark || carried) && p byte) path marks
  | [], mark :: _ => [mark || carried]
  | _, [] => []

/-- The marks of either. -/
def either (a b : List Bool) : List Bool :=
  List.zipWith (· || ·) a b

/-- The marks after a slash. -/
def afterSlash (path : List UInt8) (marks : List Bool) : List Bool :=
  shift (· = slash) path marks

/-- The marks after anything. -/
def afterAnything (path : List UInt8) (marks : List Bool) : List Bool :=
  spread (fun _ => true) false path marks

/-- The bytes of a character. -/
def bytesOf (c : Char) : List UInt8 :=
  String.utf8EncodeChar c

/-- The ranges of bytes that a range of characters makes: its ends are spelled out in bytes, and the
range runs from the last byte of the lower end to the first of the upper. -/
def byteRanges (range : Char × Char) : List (UInt8 × UInt8) :=
  let low := bytesOf range.1
  let high := bytesOf range.2
  if range.1 = range.2 then low.map fun b => (b, b)
  else
    (low.dropLast.map fun b => (b, b)) ++ [(low.getLastD 0, high.headD 0)] ++
      (high.tail.map fun b => (b, b))

/-- Is the byte in one of the ranges? -/
def inRanges (ranges : List (Char × Char)) (byte : UInt8) : Bool :=
  (ranges.flatMap byteRanges).any fun (low, high) => low ≤ byte && byte ≤ high

mutual

/-- Does the part say nothing? A choice does whose branches all say nothing. -/
def saysNothing : GlobPart → Bool
  | .choice branches => allSayNothing branches
  | _ => false

/-- Do the parts of a sequence say nothing? -/
def partsSayNothing : List GlobPart → Bool
  | [] => true
  | part :: parts => saysNothing part && partsSayNothing parts

/-- Do several sequences say nothing? -/
def allSayNothing : List (List GlobPart) → Bool
  | [] => true
  | branch :: branches => partsSayNothing branch && allSayNothing branches

end

mutual

/-- The marks after a part. -/
def afterPart (path : List UInt8) : GlobPart → List Bool → List Bool
  | .literal c, marks => (bytesOf c).foldl (fun marks byte => shift (· = byte) path marks) marks
  | .anyByte, marks => shift (· != slash) path marks
  | .anyBytes, marks => spread (· != slash) false path marks
  | .anyAbove, marks => either marks (afterSlash path (afterAnything path marks))
  | .anyBelow, marks => afterAnything path (afterSlash path marks)
  | .anyBetween, marks =>
    either (afterSlash path marks) (afterSlash path (afterAnything path (afterSlash path marks)))
  | .oneOf negated ranges, marks => shift (fun byte => inRanges ranges byte != negated) path marks
  | .choice branches, marks =>
    if allSayNothing branches then marks else afterBranches path branches marks

/-- The marks after a sequence of parts. -/
def afterParts (path : List UInt8) : List GlobPart → List Bool → List Bool
  | [], marks => marks
  | part :: parts, marks => afterParts path parts (afterPart path part marks)

/-- The marks after one of several sequences. A sequence that says nothing is no branch of its
choice. -/
def afterBranches (path : List UInt8) : List (List GlobPart) → List Bool → List Bool
  | [], marks => marks.map fun _ => false
  | branch :: branches, marks =>
    if partsSayNothing branch then afterBranches path branches marks
    else either (afterParts path branch marks) (afterBranches path branches marks)

end

/-- Is the part a character as it is? -/
def isLiteral : GlobPart → Bool
  | .literal _ => true
  | _ => false

/-- Is the part this character as it is? -/
def isCharacter (c : Char) : GlobPart → Bool
  | .literal d => d == c
  | _ => false

/-- Is the glob `**` alone? -/
def isEverything : Glob → Bool
  | [.anyAbove] => true
  | _ => false

/-- May the glob match a path that ends with a dot? Such a path has no name to look at, so a glob
that ends with a dot itself must be a text as it is, or one with a slash in it after the directories
at its start. -/
def allowsFinalDot (glob : Glob) : Bool :=
  if !glob.getLast?.any (isCharacter '.') then true
  else if glob.all isLiteral then true
  else
    match glob with
    | .anyAbove :: rest => rest.all isLiteral && rest.any (isCharacter '/')
    | _ => false

/-- Does the glob match the path? `**` alone matches every path. -/
def accepts (glob : Glob) (path : RawText) : Bool :=
  if glob.isEverything then true
  else if path.bytes.getLast? = some dot && !allowsFinalDot glob then false
  else (afterParts path.bytes glob (true :: path.bytes.map fun _ => false)).getLastD false

/-! ### Nesting -/

/-- The nesting of a sequence of pieces with these nestings. -/
def sequenceNesting (pieces : List Nat) : Nat :=
  (if 2 ≤ pieces.length then 1 else 0) + pieces.foldl max 0

mutual

/-- The nestings of the pieces that a part is made of. -/
def pieceNestings : GlobPart → List Nat
  | .literal c => (bytesOf c).map fun _ => 0
  | .anyByte => [1]
  | .anyBytes => [2]
  | .anyAbove => [4]
  | .anyBelow => [0, 1]
  | .anyBetween => [4]
  | .oneOf _ ranges => [if 2 ≤ (ranges.flatMap byteRanges).length then 2 else 1]
  | .choice branches =>
    match branchNestings branches with
    | [] => []
    | nestings => [1 + sequenceNesting nestings]

/-- The nestings of the pieces of a sequence of parts. -/
def partNestings : List GlobPart → List Nat
  | [] => []
  | part :: parts => pieceNestings part ++ partNestings parts

/-- The nestings of the branches that say something. -/
def branchNestings : List (List GlobPart) → List Nat
  | [] => []
  | branch :: branches =>
    match partNestings branch with
    | [] => branchNestings branches
    | pieces => sequenceNesting pieces :: branchNestings branches

end

/-- The nesting of a glob: how many sequences, choices, repetitions and sets enclose one another in
it. -/
def nesting (glob : Glob) : Nat :=
  1 + (partNestings glob).foldl max 0

/-- The greatest nesting that can be handled. -/
def nestingLimit : Nat := 250

end Glob

end TemplateAtlas
