/-!
# Blanks

White space in the sense of the Unicode property `White_Space`, and cutting it off the ends of a
text. The text of a line is handled as a list of characters throughout the library.
-/

namespace TemplateAtlas.Text

/-- The 25 characters of white space. -/
def isBlank (c : Char) : Bool :=
  let n := c.toNat
  (0x09 ≤ n && n ≤ 0x0d) || n = 0x20 || n = 0x85 || n = 0xa0 || n = 0x1680 ||
    (0x2000 ≤ n && n ≤ 0x200a) || n = 0x2028 || n = 0x2029 || n = 0x202f || n = 0x205f || n = 0x3000

/-- Characters that may indent a line: the space and the tab. -/
def isIndent (c : Char) : Bool :=
  c = ' ' || c = '\t'

/-- The text without the longest ending whose characters satisfy `p`. -/
def dropEndWhile (p : α → Bool) (cs : List α) : List α :=
  (cs.reverse.dropWhile p).reverse

/-- The text without leading blanks. -/
def trimStart (cs : List Char) : List Char :=
  cs.dropWhile isBlank

/-- The text without trailing blanks. -/
def trimEnd (cs : List Char) : List Char :=
  dropEndWhile isBlank cs

/-- The text without leading and trailing blanks. -/
def trim (cs : List Char) : List Char :=
  trimEnd (trimStart cs)

/-- The number of bytes that the text takes in UTF-8; columns are counted in these. -/
def byteLength : List Char → Nat
  | [] => 0
  | c :: cs => c.utf8Size + byteLength cs

end TemplateAtlas.Text
