import CheckedScript.Toml.Scalar

/-!
Reading TOML documents. A document that breaks a rule of the format is not read at all, and which
rule that is is not said.
-/

namespace CheckedScript.Toml

/-- Reads a part of a text and leaves the rest, unless the text breaks a rule. -/
abbrev Reader := StateT (List Char) Option

/-- Line ends as single line feeds. -/
def unifyLines : List Char → List Char
  | '\r' :: '\n' :: cs => '\n' :: unifyLines cs
  | c :: cs => c :: unifyLines cs
  | [] => []

def isBlank (c : Char) : Bool := c = ' ' || c = '\t'

/-- Characters that comments and strings may hold: all but line ends and controls. -/
def isText (c : Char) : Bool := c = '\t' || (32 ≤ c.toNat && c.toNat ≠ 127)

/-- Skips blanks, line ends and comments. -/
def skipLayout (inComment : Bool) : List Char → Option (List Char)
  | [] => some []
  | c :: cs =>
    if c = '\n' then skipLayout false cs
    else if inComment then if isText c then skipLayout true cs else none
    else if isBlank c then skipLayout false cs
    else if c = '#' then skipLayout true cs
    else some (c :: cs)

/-- Ends a line: blanks and a comment may still come. -/
def endLine (inComment : Bool) : List Char → Option (List Char)
  | [] => some []
  | c :: cs =>
    if c = '\n' then some cs
    else if inComment then if isText c then endLine true cs else none
    else if isBlank c then endLine false cs
    else if c = '#' then endLine true cs
    else none

/-- The character with the code that hexadecimal digits write. -/
def charOfHex (digits : List Char) : Option Char :=
  let n := ofDigits 16 digits
  if digits.all isHexDigit && n.isValidChar then some (Char.ofNat n) else none

/-- The character that a backslash before `c` stands for. -/
def escaped? : Char → Option Char
  | 'b' => some '\x08'
  | 't' => some '\t'
  | 'n' => some '\n'
  | 'f' => some '\x0c'
  | 'r' => some '\r'
  | '"' => some '"'
  | '\\' => some '\\'
  | _ => none

/-- Reads the escape behind a backslash, and says how many characters write it. -/
def readEscape : List Char → Option (Char × Nat)
  | 'u' :: cs => if cs.length < 4 then none else (charOfHex (cs.take 4)).map (·, 5)
  | 'U' :: cs => if cs.length < 8 then none else (charOfHex (cs.take 8)).map (·, 9)
  | c :: _ => (escaped? c).map (·, 1)
  | [] => none

/-- Reads a basic string behind its quote. -/
def readBasic : List Char → Option (List Char × List Char)
  | [] => none
  | c :: cs =>
    if c = '"' then some ([], cs)
    else if c = '\\' then
      match readEscape cs with
      | some (d, n) => (readBasic (cs.drop n)).map fun (text, rest) => (d :: text, rest)
      | none => none
    else if isText c then (readBasic cs).map fun (text, rest) => (c :: text, rest)
    else none
termination_by cs => cs.length
decreasing_by all_goals (simp only [List.length_drop, List.length_cons]; omega)

/-- Reads a literal string behind its quote. -/
def readLiteral : List Char → Option (List Char × List Char)
  | [] => none
  | c :: cs =>
    if c = '\x27' then some ([], cs)
    else if isText c then (readLiteral cs).map fun (text, rest) => (c :: text, rest)
    else none

/-- How many of the quotes at the front of a text end a multi-line string, and how many before
these belong to it: a closing triple may follow up to two quotes. -/
def closing? (quote : Char) (cs : List Char) : Option Nat :=
  let n := (cs.takeWhile (· = quote)).length
  if n < 3 then none else some (min n 5 - 3)

/-- Skips the blanks and line ends behind a backslash that ends its line. -/
def continueLine? (cs : List Char) : Option (List Char) :=
  match cs.dropWhile isBlank with
  | '\n' :: rest => some (rest.dropWhile fun c => isBlank c || c = '\n')
  | _ => none

theorem length_continueLine {cs rest : List Char} (h : continueLine? cs = some rest) :
    rest.length ≤ cs.length := by
  unfold continueLine? at h
  have outer := (List.dropWhile_sublist isBlank (l := cs)).length_le
  split at h
  · rename_i tail heq
    have inner := (List.dropWhile_sublist (fun c => isBlank c || c = '\n') (l := tail)).length_le
    cases h
    rw [heq] at outer
    simp only [List.length_cons] at outer
    omega
  · cases h

/-- Reads a multi-line basic string behind its quotes. -/
def readLongBasic : List Char → Option (List Char × List Char)
  | [] => none
  | c :: cs =>
    match closing? '"' (c :: cs) with
    | some n => some (List.replicate n '"', (c :: cs).drop (n + 3))
    | none =>
      if c = '\\' then
        match _h : continueLine? cs with
        | some rest => readLongBasic rest
        | none =>
          match readEscape cs with
          | some (d, n) => (readLongBasic (cs.drop n)).map fun (text, rest) => (d :: text, rest)
          | none => none
      else if isText c || c = '\n' then
        (readLongBasic cs).map fun (text, rest) => (c :: text, rest)
      else none
termination_by cs => cs.length
decreasing_by
  · have := length_continueLine _h
    simp only [List.length_cons]; omega
  all_goals (simp only [List.length_drop, List.length_cons]; omega)

/-- Reads a multi-line literal string behind its quotes. -/
def readLongLiteral : List Char → Option (List Char × List Char)
  | [] => none
  | c :: cs =>
    match closing? '\x27' (c :: cs) with
    | some n => some (List.replicate n '\x27', (c :: cs).drop (n + 3))
    | none =>
      if isText c || c = '\n' then
        (readLongLiteral cs).map fun (text, rest) => (c :: text, rest)
      else none

/-- A line feed right behind the opening quotes is dropped. -/
def dropFirstLineEnd : List Char → List Char
  | '\n' :: cs => cs
  | cs => cs

/-- Reads a string of one of the four kinds, from its first quote on. -/
def readString : Reader String := fun cs =>
  let text := fun (result : Option (List Char × List Char)) =>
    result.map fun (text, rest) => (String.ofList text, rest)
  match cs with
  | '"' :: '"' :: '"' :: cs => text (readLongBasic (dropFirstLineEnd cs))
  | '\x27' :: '\x27' :: '\x27' :: cs => text (readLongLiteral (dropFirstLineEnd cs))
  | '"' :: cs => text (readBasic cs)
  | '\x27' :: cs => text (readLiteral cs)
  | _ => none

def isBareKey (c : Char) : Bool := c.isAlphanum || c = '_' || c = '-'

/-- Reads one part of a key. -/
def readKeyPart : Reader String := fun cs =>
  match cs with
  | '"' :: cs => (readBasic cs).map fun (text, rest) => (String.ofList text, rest)
  | '\x27' :: cs => (readLiteral cs).map fun (text, rest) => (String.ofList text, rest)
  | cs =>
    let key := cs.takeWhile isBareKey
    if key.isEmpty then none else some (String.ofList key, cs.drop key.length)

def skipBlanks : Reader Unit := modify (·.dropWhile isBlank)

/-- Takes the character `c`. -/
def expect (c : Char) : Reader Unit := fun cs =>
  match cs with
  | d :: rest => if c = d then some ((), rest) else none
  | [] => none

def peek : Reader (Option Char) := do return (← get).head?

/-- The deepest nesting of arrays, inline tables and dotted keys. -/
def maxNesting : Nat := 80

/-- Reads the parts of a dotted key; at most `parts` of them. -/
def readKeyParts : Nat → Reader (List String)
  | 0 => failure
  | parts + 1 => do
    skipBlanks
    let first ← readKeyPart
    skipBlanks
    if (← peek) = some '.' then
      expect '.'
      let rest ← readKeyParts parts
      return first :: rest
    else return [first]

def readKey : Reader (List String) := readKeyParts (maxNesting - 1)

/-- Reads the elements of an array up to its bracket; at most `count` of them. -/
def readElements (element : Reader Value) : Nat → Reader (List Value)
  | 0 => failure
  | count + 1 => do
    set (← skipLayout false (← get))
    if (← peek) = some ']' then
      expect ']'
      return []
    let first ← element
    set (← skipLayout false (← get))
    if (← peek) = some ',' then
      expect ','
      let rest ← readElements element count
      return first :: rest
    else
      expect ']'
      return [first]

/-- Reads `key = value` with the reader for values. -/
def readPair (element : Reader Value) : Reader (List String × Value) := do
  let path ← readKey
  expect '='
  skipBlanks
  let value ← element
  skipBlanks
  return (path, value)

/-- Reads the pairs of an inline table up to its brace; at most `count` of them. -/
def readPairs (element : Reader Value) (entries : Entries) : Nat → Reader Entries
  | 0 => failure
  | count + 1 => do
    let (path, value) ← readPair element
    let entries ← insertKey path.dropLast (path.getLast?.getD "") value .inline entries
    if (← peek) = some ',' then
      expect ','
      readPairs element entries count
    else
      expect '\x7d'
      return entries

/-- Characters of unquoted scalars. -/
def isScalarChar (c : Char) : Bool :=
  c.isAlphanum || c = '+' || c = '-' || c = '_' || c = '.' || c = ':'

/-- Reads an unquoted scalar. A time of day may follow a date behind one blank. -/
def readBare : Reader Value := fun cs =>
  let word := cs.takeWhile isScalarChar
  let rest := cs.drop word.length
  match rest with
  | ' ' :: more =>
    let time := more.takeWhile isScalarChar
    let both := word ++ ' ' :: time
    if isDate word && isDatetime both then some (.datetime, more.drop time.length)
    else (readScalar word).map (·, rest)
  | _ => (readScalar word).map (·, rest)

/-- Reads a value inside of which arrays and inline tables nest less than `depth` deep. -/
def readValue : Nat → Reader Value
  | 0 => failure
  | depth + 1 => do
    let count := (← get).length
    match ← peek with
    | some '"' => return .string (← readString)
    | some '\x27' => return .string (← readString)
    | some '[' =>
      if depth = 0 then failure
      expect '['
      return .array (← readElements (readValue depth) count)
    | some '\x7b' =>
      if depth = 0 then failure
      expect '\x7b'
      skipBlanks
      if (← peek) = some '\x7d' then
        expect '\x7d'
        return .table .inline []
      return .table .inline (← readPairs (readValue depth) [] count)
    | _ => readBare

/-- A document while it is read: its entries, and the header that was opened last. -/
structure Document where
  header : List String := []
  entries : Entries := []

/-- Reads one expression: a header, or a key with its value. -/
def readExpression (document : Document) : Reader Document := do
  match ← get with
  | '[' :: '[' :: rest =>
    set rest
    let path ← readKey
    expect ']'
    expect ']'
    let entries ← openElement path document.entries
    return { header := path, entries }
  | '[' :: rest =>
    set rest
    let path ← readKey
    expect ']'
    let entries ← openTable path document.entries
    return { header := path, entries }
  | _ =>
    let (path, value) ← readPair (readValue maxNesting)
    let entries ←
      insertBelow document.header path.dropLast (path.getLast?.getD "") value document.entries
    return { document with entries }

/-- Reads the expressions of a document, at most `count` of them. -/
def readDocument (document : Document) : Nat → Reader Document
  | 0 => return document
  | count + 1 => do
    set (← skipLayout false (← get))
    if (← get).isEmpty then return document
    let document ← readExpression document
    set (← endLine false (← get))
    readDocument document count

/-- The entries of the document that `text` writes. A leading byte order mark is skipped. -/
def ofText? (text : String) : Option Entries :=
  let cs := text.toList
  let cs := if cs.head? = some '\ufeff' then cs.tail else cs
  let cs := unifyLines cs
  if cs.contains '\r' then none
  else match (readDocument {} (cs.length + 1)).run cs with
    | some (document, []) => some document.entries
    | _ => none

end CheckedScript.Toml
