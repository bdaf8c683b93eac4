/-!
JSON values with ordered fields, and their indented text.
-/

namespace CheckedScript

inductive Json
  | null
  | string (text : String)
  | number (n : Nat)
  | array (values : List Json)
  | object (fields : List (String × Json))
deriving Repr

namespace Json

/-- The escape of a control character without a letter of its own. -/
def unicodeEscape (c : Char) : String :=
  let digits := Nat.toDigits 16 c.toNat
  "\\u" ++ String.ofList (List.replicate (4 - digits.length) '0' ++ digits)

def escapeChar (c : Char) : String :=
  if c = '"' then "\\\""
  else if c = '\\' then "\\\\"
  else if c = '\n' then "\\n"
  else if c = '\r' then "\\r"
  else if c = '\t' then "\\t"
  else if c = '\x08' then "\\b"
  else if c = '\x0c' then "\\f"
  else if c.toNat < 32 then unicodeEscape c
  else String.singleton c

def quote (text : String) : String := "\"" ++ String.join (text.toList.map escapeChar) ++ "\""

/-- The start of a line at the given depth. -/
def newLine (depth : Nat) : String := "\n" ++ String.join (List.replicate depth "  ")

/-- Items between brackets, each on a line of its own. -/
def bracketed (opener closer : String) (depth : Nat) (items : List String) : String :=
  if items.isEmpty then opener ++ closer
  else opener ++ String.intercalate "," (items.map (newLine (depth + 1) ++ ·)) ++ newLine depth
    ++ closer

mutual

/-- The text of a value whose first line stands at the given depth. -/
def pretty (depth : Nat) : Json → String
  | null => "null"
  | string text => quote text
  | number n => toString n
  | array values => bracketed "[" "]" depth (prettyItems (depth + 1) values)
  | object fields => bracketed "\x7b" "\x7d" depth (prettyFields (depth + 1) fields)

def prettyItems (depth : Nat) : List Json → List String
  | [] => []
  | value :: values => value.pretty depth :: prettyItems depth values

def prettyFields (depth : Nat) : List (String × Json) → List String
  | [] => []
  | (name, value) :: fields =>
    (quote name ++ ": " ++ value.pretty depth) :: prettyFields depth fields

end

end Json

end CheckedScript
