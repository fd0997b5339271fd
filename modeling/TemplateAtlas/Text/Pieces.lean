/-!
# Cutting texts into pieces

Splitting a text at every occurrence of a character, looking for a text inside another, putting
another in its place, and the ways in which files end their lines.
-/

namespace TemplateAtlas.Text

/-- The pieces between the occurrences of `sep`; a text without it is one piece. -/
def splitOn [DecidableEq α] (sep : α) : List α → List (List α)
  | [] => [[]]
  | c :: cs => if c = sep then [] :: splitOn sep cs else (splitOn sep cs).modifyHead (c :: ·)

/-- The parts before and after the first `sep`. -/
def splitFirst? (sep : Char) : List Char → Option (List Char × List Char)
  | [] => none
  | c :: cs => if c = sep then some ([], cs) else (splitFirst? sep cs).map fun (a, b) => (c :: a, b)

/-- The parts before and after the last `sep`. -/
def splitLast? [DecidableEq α] (sep : α) : List α → Option (List α × List α)
  | [] => none
  | c :: cs =>
    match splitLast? sep cs with
    | some (a, b) => some (c :: a, b)
    | none => if c = sep then some ([], cs) else none

/-- What follows the last `sep`, or the whole text without one. -/
def afterLast (sep : Char) (cs : List Char) : List Char :=
  match splitLast? sep cs with
  | some (_, b) => b
  | none => cs

/-- What follows the opening `start`, if the text opens with it. -/
def dropPrefix? (start : List Char) (cs : List Char) : Option (List Char) :=
  if start.isPrefixOf cs then some (cs.drop start.length) else none

/-- Does `part` occur in the text? -/
def occursIn (part : List Char) : List Char → Bool
  | [] => part.isEmpty
  | c :: cs => part.isPrefixOf (c :: cs) || occursIn part cs

/-- The text with `new` in the place of every `part`, which is not empty. The parts are found one
after another from the left. -/
def replaceAll (part new : List Char) : List Char → List Char :=
  go 0
where
  /-- The first characters, `skip` of them, belong to a part that has been replaced. -/
  go : Nat → List Char → List Char
    | _, [] => []
    | skip + 1, _ :: cs => go skip cs
    | 0, c :: cs =>
      if part.isPrefixOf (c :: cs) then new ++ go (part.length - 1) cs else c :: go 0 cs

/-- A carriage return with a following line feed becomes a line feed, and then every other carriage
return does. -/
def normalizeEndings (cs : List Char) : List Char :=
  if cs.contains '\r' then replaceAll ['\r'] ['\n'] (replaceAll ['\r', '\n'] ['\n'] cs) else cs

/-- The lines of a file's text, whichever way they end. -/
def linesOf (text : String) : List (List Char) :=
  splitOn '\n' (normalizeEndings text.toList)

/-- The lines as one text, each but the last ended by a line feed. -/
def joinLines (lines : List (List Char)) : List Char :=
  ['\n'].intercalate lines

end TemplateAtlas.Text
