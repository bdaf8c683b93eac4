/-!
Command line arguments. Options may stand before or after the name of the subcommand if they
belong to both, and in any order; `--` ends them. An option that is given twice at one place, a
missing or empty value and whatever is not known are misuse. Arguments are texts, and nothing is
said of why a command line is misuse.
-/

namespace CheckedScript.CommandLine

/-- Options of every subcommand. -/
structure Common where
  /-- An overlay to merge after the user's own. -/
  config : Option String := none
  /-- How often verbosity is asked for, if at all. -/
  verbosity : Option Nat := none
deriving DecidableEq, Repr

/-- Options of a build. -/
structure BuildOptions where
  input : Option String := none
  output : Option String := none
  lenient : Bool := false
  noVerify : Bool := false
  dumpTokens : Bool := false
  dumpAst : Bool := false
deriving DecidableEq, Repr

/-- What is asked of the program. -/
inductive Request
  | version
  | help
  | dumpConfig (common : Common)
  | build (common : Common) (input : String) (options : BuildOptions)
deriving DecidableEq, Repr

/-- How an argument reads. -/
inductive Argument
  | escape
  | long (name : String) (value : Option String)
  | short (letters : List Char)
  | plain (text : String)
deriving DecidableEq, Repr

def Argument.ofText (text : String) : Argument :=
  match text.toList with
  | ['-', '-'] => escape
  | '-' :: '-' :: cs =>
    let name := cs.takeWhile (· ≠ '=')
    let value := if name.length < cs.length
      then some (String.ofList (cs.drop (name.length + 1))) else none
    long (String.ofList name) value
  | ['-'] => plain text
  | '-' :: cs => short cs
  | _ => plain text

/-- The value of an option: what is attached to it, or else the next argument if that is plain.
Values are paths and never empty. -/
def takeValue (attached : Option String) (rest : List String) : Option (String × List String) :=
  match attached, rest with
  | some value, rest => if value = "" then none else some (value, rest)
  | none, next :: rest =>
    match Argument.ofText next with
    | .plain value => if value = "" then none else some (value, rest)
    | _ => none
  | none, [] => none

/-- What has been read behind one subcommand, or before it. -/
structure Parsed where
  common : Common := {}
  build : BuildOptions := {}
  /-- Whether `--` has ended the options. -/
  escaped : Bool := false
deriving DecidableEq, Repr

namespace Parsed

def verbose (p : Parsed) : Parsed :=
  { p with common.verbosity := some (p.common.verbosity.getD 0 + 1) }

def setConfig (p : Parsed) (value : String) : Option Parsed :=
  if p.common.config.isSome then none else some { p with common.config := some value }

def setOutput (p : Parsed) (value : String) : Option Parsed :=
  if p.build.output.isSome then none else some { p with build.output := some value }

def setInput (p : Parsed) (value : String) : Option Parsed :=
  if p.build.input.isSome || value = "" then none else some { p with build.input := some value }

/-- Sets the build flag with the given name. -/
def setFlag (p : Parsed) (name : String) : Option Parsed :=
  let b := p.build
  match name with
  | "lenient" => if b.lenient then none else some { p with build.lenient := true }
  | "no-verify" => if b.noVerify then none else some { p with build.noVerify := true }
  | "dump-tokens" => if b.dumpTokens then none else some { p with build.dumpTokens := true }
  | "dump-ast" => if b.dumpAst then none else some { p with build.dumpAst := true }
  | _ => none

end Parsed

/-- The places where options stand; each knows its own. -/
inductive Place
  | top
  | build
  | dumpConfig
deriving DecidableEq, Repr

/-- How reading an option ends. -/
inductive Step
  /-- Options go on with the remaining arguments. -/
  | next (parsed : Parsed) (rest : List String)
  /-- The option asks for something of its own. -/
  | done (request : Request)
deriving Repr

/-- Reads a long option. -/
def readLong (place : Place) (p : Parsed) (name : String) (attached : Option String)
    (rest : List String) : Option Step :=
  if name = "config" then do
    let (value, rest) ← takeValue attached rest
    return .next (← p.setConfig value) rest
  else if name = "output" && place = .build then do
    let (value, rest) ← takeValue attached rest
    return .next (← p.setOutput value) rest
  else if attached.isSome then none
  else if name = "verbose" then some (.next p.verbose rest)
  else if name = "help" then some (.done .help)
  else if name = "version" && place = .top then some (.done .version)
  else if place = .build then (p.setFlag name).map (.next · rest)
  else none

/-- Reads a cluster of short options. A value may be attached to the last of them. -/
def readShort (place : Place) (p : Parsed) (rest : List String) : List Char → Option Step
  | [] => some (.next p rest)
  | 'v' :: letters => readShort place p.verbose rest letters
  | 'h' :: _ => some (.done .help)
  | c :: letters =>
    if c = 'V' && place = .top then some (.done .version)
    else if c = 'o' && place = .build then do
      let attached := match letters with
        | [] => none
        | '=' :: value => some (String.ofList value)
        | value => some (String.ofList value)
      let (value, rest) ← takeValue attached rest
      return .next (← p.setOutput value) rest
    else none

/-- Takes an argument as the input of a build. -/
def readInput (place : Place) (p : Parsed) (text : String) (rest : List String) : Option Step :=
  if place = .build then (p.setInput text).map (.next · rest) else none

/-- Reads one argument behind a subcommand. -/
def readArgument (place : Place) (p : Parsed) (text : String) (rest : List String) : Option Step :=
  if p.escaped then readInput place p text rest
  else match Argument.ofText text with
    | .escape => some (.next { p with escaped := true } rest)
    | .long name value => readLong place p name value rest
    | .short letters => readShort place p rest letters
    | .plain _ => readInput place p text rest

/-- Reads the arguments behind a subcommand; at most `count` of them. -/
def readBehind (place : Place) (p : Parsed) : Nat → List String → Option (Parsed ⊕ Request)
  | _, [] => some (.inl p)
  | 0, _ => none
  | count + 1, text :: rest =>
    match readArgument place p text rest with
    | some (.next p rest) => readBehind place p count rest
    | some (.done request) => some (.inr request)
    | none => none

/-- Options behind the subcommand win over those before it. -/
def Common.merge (before behind : Common) : Common where
  config := behind.config <|> before.config
  verbosity := behind.verbosity <|> before.verbosity

/-- Reads the arguments of the subcommand `name`. -/
def readSubcommand (before : Common) (name : String) (rest : List String) : Option Request :=
  match name with
  | "help" => some .help
  | "build" =>
    match readBehind .build {} rest.length rest with
    | some (.inl p) => p.build.input.map fun input => .build (before.merge p.common) input p.build
    | some (.inr request) => some request
    | none => none
  | "dump-config" =>
    match readBehind .dumpConfig {} rest.length rest with
    | some (.inl p) => some (.dumpConfig (before.merge p.common))
    | some (.inr request) => some request
    | none => none
  | _ => none

/-- Reads the arguments up to the subcommand; at most `count` of them. -/
def readTop (p : Parsed) : Nat → List String → Option Request
  | 0, _ => none
  | _, [] => none
  | count + 1, text :: rest =>
    let step := match Argument.ofText text with
      | .escape => none
      | .long name value => readLong .top p name value rest
      | .short letters => readShort .top p rest letters
      | .plain name => (readSubcommand p.common name rest).map .done
    match step with
    | some (.next p rest) => readTop p count rest
    | some (.done request) => some request
    | none => none

/-- The request that arguments make, unless they are misuse. -/
def Request.ofArguments (arguments : List String) : Option Request :=
  readTop {} arguments.length arguments

end CheckedScript.CommandLine
