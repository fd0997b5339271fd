import TemplateAtlas.Toml.Text

/-!
# Numbers, dates and times of TOML

Integers fit a word of 64 bits with a sign. Floats, dates and times are checked and kept as written.
-/

namespace TemplateAtlas.Toml

/-- Digits with single underscores between them, after a first digit. The underscores are
dropped. -/
def readDigits (isDigit : Char → Bool) : List Char → List Char × List Char
  | [] => ([], [])
  | '_' :: c :: cs =>
    if isDigit c then
      let (digits, rest) := readDigits isDigit cs
      (c :: digits, rest)
    else ([], '_' :: c :: cs)
  | c :: cs =>
    if isDigit c then
      let (digits, rest) := readDigits isDigit cs
      (c :: digits, rest)
    else ([], c :: cs)

/-- One or more digits with single underscores between them. -/
def readNumeral (isDigit : Char → Bool) (cs : List Char) : Except Fault (List Char × List Char) :=
  if cs.head?.any isDigit then .ok (readDigits isDigit cs) else refuse cs

/-- The sign of a number, if it has one: is it a minus? -/
def readSign : List Char → Option Bool × List Char
  | '+' :: cs => (some false, cs)
  | '-' :: cs => (some true, cs)
  | cs => (none, cs)

/-- The integer with a sign and a size, if it fits a word of 64 bits. -/
def integerOf (negative : Bool) (size : Nat) : Except Fault Value :=
  let n : Int := if negative then -size else size
  if -0x8000000000000000 ≤ n && n < 0x8000000000000000 then .ok (.integer n)
    else .error (.outOfRange (toString n))

/-- An integer in a base other than ten. -/
def readBased (base : Nat) (isDigit : Char → Bool) (cs : List Char) :
    Except Fault (Value × List Char) := do
  let (digits, rest) ← readNumeral isDigit cs
  return (← integerOf false (numberOf base digits), rest)

/-- A digit of base two. -/
def isBinary (c : Char) : Bool :=
  c = '0' || c = '1'

/-- A digit of base eight. -/
def isOctal (c : Char) : Bool :=
  '0' ≤ c && c ≤ '7'

/-- A digit of base sixteen. -/
def isHexadecimal (c : Char) : Bool :=
  (hexValue? c).isSome

/-- The digits before the point. A zero stands alone. -/
def readWhole (cs : List Char) : Except Fault (List Char × List Char) :=
  match cs with
  | '0' :: rest => .ok (['0'], rest)
  | cs => readNumeral Char.isDigit cs

/-- The digits after the point, if there is one. -/
def readFraction (cs : List Char) : Except Fault (Option (List Char) × List Char) :=
  match cs with
  | '.' :: rest => (readNumeral Char.isDigit rest).map fun (digits, rest) => (some digits, rest)
  | cs => .ok (none, cs)

/-- The exponent, if there is one. -/
def readExponent (cs : List Char) : Except Fault (Option Int × List Char) :=
  match cs with
  | c :: rest =>
    if c = 'e' || c = 'E' then do
      let (sign, rest) := readSign rest
      let (digits, rest) ← readNumeral Char.isDigit rest
      let size : Int := numberOf 10 digits
      return (some (if sign = some true then -size else size), rest)
    else .ok (none, cs)
  | [] => .ok (none, [])

/-- Is the number `digits` times a power of ten too large for a double? From the middle between the
greatest double and the next power of two on, numbers round to infinity. -/
def overflows (digits : List Char) (exponent : Int) : Bool :=
  let digits := digits.dropWhile (· = '0')
  let order : Int := digits.length + exponent
  if digits.isEmpty || order ≤ 308 then false
  else if 310 < order then true
  else
    let limit := Nat.pow 2 1024 - Nat.pow 2 970
    let size := numberOf 10 digits
    let scale := Nat.pow 10 exponent.natAbs
    if exponent < 0 then limit * scale ≤ size else limit ≤ size * scale

/-- Infinity, or no number at all. -/
def readSpecial? (cs : List Char) : Option (List Char × List Char) :=
  match cs with
  | 'i' :: 'n' :: 'f' :: rest => some (['i', 'n', 'f'], rest)
  | 'n' :: 'a' :: 'n' :: rest => some (['n', 'a', 'n'], rest)
  | _ => none

/-- The characters between a text and what is left of it. -/
def between (cs rest : List Char) : String :=
  String.ofList (cs.take (cs.length - rest.length))

/-- A number in base ten: an integer, unless it has a fraction or an exponent. -/
def readDecimal : Reader Value := fun cs => do
  let (sign, body) := readSign cs
  let (whole, rest) ← readWhole body
  let (fraction?, rest) ← readFraction rest
  let (exponent?, rest) ← readExponent rest
  match fraction?, exponent? with
  | none, none => return (← integerOf (sign = some true) (numberOf 10 whole), rest)
  | _, _ =>
    let fraction := fraction?.getD []
    if sign != some true && overflows (whole ++ fraction) (exponent?.getD 0 - fraction.length) then
      .error (.outOfRange (between cs rest))
    else return (.float (between cs rest), rest)

/-- A number. -/
def readNumber : Reader Value := fun cs =>
  match cs with
  | '0' :: 'x' :: rest => readBased 16 isHexadecimal rest
  | '0' :: 'o' :: rest => readBased 8 isOctal rest
  | '0' :: 'b' :: rest => readBased 2 isBinary rest
  | cs =>
    match readSpecial? (readSign cs).2 with
    | some (_, rest) => .ok (.float (between cs rest), rest)
    | none => readDecimal cs

/-! ### Dates and times -/

/-- Exactly `n` digits, as a number in a range. -/
def readField (n low high : Nat) (cs : List Char) : Except Fault (Nat × List Char) :=
  let digits := cs.take n
  if digits.length = n && digits.all Char.isDigit then
    let value := numberOf 10 digits
    if low ≤ value && value ≤ high then .ok (value, cs.drop n)
    else .error (.outOfRange (String.ofList digits))
  else refuse cs

/-- A certain character. -/
def readMark (mark : Char) (cs : List Char) : Except Fault (List Char) :=
  match cs with
  | c :: rest => if c = mark then .ok rest else refuse cs
  | [] => refuse []

/-- The number of days of a month. -/
def daysOf (year month : Nat) : Nat :=
  if month = 2 then (if year % 4 = 0 && (year % 100 ≠ 0 || year % 400 = 0) then 29 else 28)
  else if month = 4 || month = 6 || month = 9 || month = 11 then 30
  else 31

/-- The text after a date. -/
def skipDate (cs : List Char) : Except Fault (List Char) := do
  let (year, rest) ← readField 4 0 9999 cs
  let (month, rest) ← readField 2 1 12 (← readMark '-' rest)
  let (_, rest) ← readField 2 1 (daysOf year month) (← readMark '-' rest)
  return rest

/-- The text after a time. A minute may have a leap second. -/
def skipTime (cs : List Char) : Except Fault (List Char) := do
  let (_, rest) ← readField 2 0 23 cs
  let (_, rest) ← readField 2 0 59 (← readMark ':' rest)
  let (_, rest) ← readField 2 0 60 (← readMark ':' rest)
  match rest with
  | '.' :: digits =>
    if digits.head?.any Char.isDigit then return digits.dropWhile Char.isDigit else refuse digits
  | rest => return rest

/-- The text after the distance from universal time, if one is given. -/
def skipOffset (cs : List Char) : Except Fault (List Char) :=
  match cs with
  | c :: rest =>
    if c = 'Z' || c = 'z' then .ok rest
    else if c = '+' || c = '-' then do
      let (_, rest) ← readField 2 0 23 rest
      let (_, rest) ← readField 2 0 59 (← readMark ':' rest)
      return rest
    else .ok cs
  | [] => .ok []

/-- Do `n` digits and then the mark open the text? -/
def opensWith (n : Nat) (mark : Char) (cs : List Char) : Bool :=
  (cs.take n).length = n && (cs.take n).all Char.isDigit && (cs.drop n).head? = some mark

/-- The text after a date, with the time that may follow it. -/
def skipDateTime (cs : List Char) : Except Fault (List Char) := do
  let rest ← skipDate cs
  match rest with
  | c :: time =>
    if (c = 'T' || c = 't' || c = ' ') && opensWith 2 ':' time then skipOffset (← skipTime time)
      else return rest
  | [] => return []

/-- A date, a time or both, if the text opens like one. -/
def readMoment? (cs : List Char) : Option (Except Fault (Value × List Char)) :=
  if opensWith 4 '-' cs then
    some ((skipDateTime cs).map fun rest => (.moment (between cs rest), rest))
  else if opensWith 2 ':' cs then
    some ((skipTime cs).map fun rest => (.moment (between cs rest), rest))
  else none

end TemplateAtlas.Toml
