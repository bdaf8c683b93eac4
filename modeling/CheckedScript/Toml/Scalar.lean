import CheckedScript.Toml

/-!
Scalars that are written without quotes: booleans, numbers, dates and times. Of floats and dates
only the shape is kept.
-/

namespace CheckedScript.Toml

/-- Digits, with single underscores between them. -/
def isDigitRun (isDigit : Char → Bool) : List Char → Bool
  | [] => false
  | [c] => isDigit c
  | c :: '_' :: cs => isDigit c && isDigitRun isDigit cs
  | c :: cs => isDigit c && isDigitRun isDigit cs

def isHexDigit (c : Char) : Bool :=
  c.isDigit || ('a' ≤ c && c ≤ 'f') || ('A' ≤ c && c ≤ 'F')

/-- The value of a hexadecimal digit. -/
def digitValue (c : Char) : Nat :=
  if c.isDigit then c.toNat - '0'.toNat
  else if 'a' ≤ c then c.toNat - 'a'.toNat + 10
  else c.toNat - 'A'.toNat + 10

/-- The number that digits write; underscores do not count. -/
def ofDigits (base : Nat) (cs : List Char) : Nat :=
  cs.foldl (fun n c => if c = '_' then n else base * n + digitValue c) 0

/-- A number without leading zeros. -/
def isDecimal (cs : List Char) : Bool :=
  cs = ['0'] || (cs.head? ≠ some '0' && isDigitRun Char.isDigit cs)

/-- Takes a sign off. -/
def unsigned : List Char → List Char
  | '+' :: cs => cs
  | '-' :: cs => cs
  | cs => cs

/-- One more than the largest integer, which is a signed number of 64 bits. -/
def integerLimit : Nat := 0x8000000000000000

def toInteger (negative : Bool) (n : Nat) : Option Value :=
  if negative then if n ≤ integerLimit then some (.integer (-Int.ofNat n)) else none
  else if n < integerLimit then some (.integer (Int.ofNat n)) else none

def readInteger (cs : List Char) : Option Value :=
  match cs with
  | '0' :: 'x' :: ds =>
    if isDigitRun isHexDigit ds then toInteger false (ofDigits 16 ds) else none
  | '0' :: 'o' :: ds =>
    if isDigitRun (fun c => '0' ≤ c && c ≤ '7') ds then toInteger false (ofDigits 8 ds) else none
  | '0' :: 'b' :: ds =>
    if isDigitRun (fun c => c = '0' || c = '1') ds then toInteger false (ofDigits 2 ds) else none
  | cs =>
    let ds := unsigned cs
    if isDecimal ds then toInteger (cs.head? = some '-') (ofDigits 10 ds) else none

/-- What may follow `e` in a float. -/
def isExponent (cs : List Char) : Bool := isDigitRun Char.isDigit (unsigned cs)

def isFloat (cs : List Char) : Bool :=
  let cs := unsigned cs
  let isE := fun c => c = 'e' || c = 'E'
  if cs = "inf".toList || cs = "nan".toList then true
  else
    let whole := cs.takeWhile fun c => c ≠ '.' && !isE c
    isDecimal whole && match cs.drop whole.length with
      | [] => false
      | '.' :: ds =>
        let fraction := ds.takeWhile fun c => !isE c
        isDigitRun Char.isDigit fraction &&
          (fraction.length = ds.length || isExponent (ds.drop (fraction.length + 1)))
      | _ :: ds => isExponent ds

/-- The number written by exactly two digits. -/
def twoDigits (a b : Char) : Option Nat :=
  if a.isDigit && b.isDigit then some (10 * digitValue a + digitValue b) else none

def isWithin (low high : Nat) (n : Option Nat) : Bool := n.any fun n => low ≤ n && n ≤ high

def daysIn (year month : Nat) : Nat :=
  if month = 2 then
    if year % 4 = 0 && (year % 100 ≠ 0 || year % 400 = 0) then 29 else 28
  else if month = 4 || month = 6 || month = 9 || month = 11 then 30
  else 31

def isDate : List Char → Bool
  | [a, b, c, d, '-', e, f, '-', g, h] =>
    match twoDigits a b, twoDigits c d, twoDigits e f with
    | some century, some year, some month =>
      1 ≤ month && month ≤ 12
        && isWithin 1 (daysIn (100 * century + year) month) (twoDigits g h)
    | _, _, _ => false
  | _ => false

def isTime : List Char → Bool
  | a :: b :: ':' :: c :: d :: ':' :: e :: f :: fraction =>
    isWithin 0 23 (twoDigits a b) && isWithin 0 59 (twoDigits c d) && isWithin 0 60 (twoDigits e f)
      && match fraction with
        | [] => true
        | '.' :: ds => !ds.isEmpty && ds.all Char.isDigit
        | _ => false
  | _ => false

def isOffset : List Char → Bool
  | ['Z'] => true
  | ['z'] => true
  | [sign, a, b, ':', c, d] =>
    (sign = '+' || sign = '-') && isWithin 0 23 (twoDigits a b) && isWithin 0 59 (twoDigits c d)
  | _ => false

/-- A date, a time of day, or both with an optional offset behind. -/
def isDatetime (cs : List Char) : Bool :=
  isDate cs || isTime cs ||
    (isDate (cs.take 10) && (match cs.drop 10 with
      | mark :: rest =>
        let time := rest.takeWhile fun c => c.isDigit || c = ':' || c = '.'
        (mark = 'T' || mark = 't' || mark = ' ') && isTime
          -- an offset's digits follow its sign and stay outside `time`
          time && (time.length = rest.length || isOffset (rest.drop time.length))
      | [] => false))

/-- The value of an unquoted scalar. -/
def readScalar (cs : List Char) : Option Value :=
  if cs = "true".toList then some (.boolean true)
  else if cs = "false".toList then some (.boolean false)
  else if isDatetime cs then some .datetime
  else if isFloat cs then some .float
  else readInteger cs

end CheckedScript.Toml
