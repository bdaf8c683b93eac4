import CheckedScript.Toml.Reader

/-!
Writing TOML strings and arrays. A string takes the first of the notations that holds it without
escapes, and a basic one with escapes if there is none.
-/

namespace CheckedScript.Toml

/-- A control character other than the tab and the line feed. -/
def isControl (c : Char) : Bool := (c.toNat < 32 && c ≠ '\t' && c ≠ '\n') || c.toNat = 127

/-- The length of the longest run of `c`; `current` is the length of the run at hand. -/
def longestRun (c : Char) (current : Nat) : List Char → Nat
  | [] => current
  | d :: ds =>
    if d = c then longestRun c (current + 1) ds else max current (longestRun c 0 ds)

def hexDigits (n : Nat) : List Char :=
  (Nat.toDigits 16 n).map Char.toUpper

/-- The escape of a control character without a letter of its own. -/
def unicodeEscape (c : Char) : List Char :=
  let digits := hexDigits c.toNat
  '\\' :: 'u' :: (List.replicate (4 - digits.length) '0' ++ digits)

/-- The text of a basic string. Up to `quotes` quotes in a row are written as they are, and line
feeds if `long` says so; `run` counts the quotes written last. -/
def escapeBasic (long : Bool) (quotes : Nat) (run : Nat) : List Char → List Char
  | [] => []
  | c :: cs =>
    if c = '"' then
      if run < quotes then '"' :: escapeBasic long quotes (run + 1) cs
      else '\\' :: '"' :: escapeBasic long quotes 0 cs
    else
      let written :=
        if c = '\x08' then ['\\', 'b']
        else if c = '\t' then ['\\', 't']
        else if c = '\n' then if long then ['\n'] else ['\\', 'n']
        else if c = '\x0c' then ['\\', 'f']
        else if c = '\r' then ['\\', 'r']
        else if c = '\\' then ['\\', '\\']
        else if isControl c then unicodeEscape c
        else [c]
      written ++ escapeBasic long quotes 0 cs

/-- The text of a string value. -/
def writeString (s : String) : String :=
  let cs := s.toList
  let controls := cs.any isControl
  let lineFeed := cs.contains '\n'
  let backslash := cs.contains '\\'
  let doubles := longestRun '"' 0 cs
  let singles := longestRun '\x27' 0 cs
  let basic := "\"" ++ String.ofList (escapeBasic false 0 0 cs) ++ "\""
  let first := if lineFeed then "\n" else ""
  let longBasic := "\"\"\"" ++ first ++ String.ofList (escapeBasic true 2 0 cs) ++ "\"\"\""
  if !controls && !backslash && doubles = 0 && !lineFeed then basic
  else if !controls && singles = 0 && !lineFeed then "\x27" ++ s ++ "\x27"
  else if !controls && !backslash && doubles ≤ 2 then longBasic
  else if !controls && singles ≤ 2 then "\x27\x27\x27" ++ first ++ s ++ "\x27\x27\x27"
  else if lineFeed then longBasic
  else basic

/-- The text of an array of strings: up to one on the line, more on lines of their own. -/
def writeStrings : List String → String
  | [] => "[]"
  | [s] => "[" ++ writeString s ++ "]"
  | ss => "[\n" ++ String.join (ss.map fun s => "    " ++ writeString s ++ ",\n") ++ "]"

def writeBool (b : Bool) : String := if b then "true" else "false"

end CheckedScript.Toml
