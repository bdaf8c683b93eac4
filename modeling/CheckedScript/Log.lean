/-!
Log entries: what a run reports on its way, with a level and the part of the program that
reports it.

There is no clock here. `Entry.line` is the line of an entry without the time at which it was
reported; a `Format` with other lines, such as lines that start with a time, can stand wherever a
log is written.
-/

namespace CheckedScript.Log

inductive Level
  | error
  | warn
  | info
  | debug
  | trace
deriving DecidableEq, Repr

namespace Level

def name : Level → String
  | error => "ERROR"
  | warn => "WARN"
  | info => "INFO"
  | debug => "DEBUG"
  | trace => "TRACE"

/-- Levels count up from the gravest. -/
def rank : Level → Nat
  | error => 1
  | warn => 2
  | info => 3
  | debug => 4
  | trace => 5

/-- Whether a log kept at `limit` holds entries of this level. -/
def within (level limit : Level) : Bool := level.rank ≤ limit.rank

/-- The level that a number of verbosity flags asks for. -/
def ofVerbosity : Nat → Level
  | 0 => warn
  | 1 => info
  | 2 => debug
  | _ => trace

end Level

/-- The part of the program that reports. -/
inductive Origin
  | compiler
  | lexing
  | building
  | resolution
  | generation
  | logging
  | buildRecord
deriving DecidableEq, Repr

/-- The name of an origin in log lines. -/
def Origin.name : Origin → String
  | compiler => "blowk"
  | lexing => "blowk::parse::lex"
  | building => "blowk::ast::builder"
  | resolution => "blowk::resolve"
  | generation => "blowk::codegen"
  | logging => "blowk::logging"
  | buildRecord => "blowk::build"

structure Entry where
  level : Level
  origin : Origin
  message : String
deriving DecidableEq, Repr

/-- The line of an entry: the origin is named from the debug level on. -/
def Entry.line (entry : Entry) : String :=
  let origin :=
    if Level.debug.rank ≤ entry.level.rank then "(1) " ++ entry.origin.name ++ ": " else ""
  "[" ++ entry.level.name ++ "] " ++ origin ++ entry.message

/-- How entries are written down. The standard lines have no time. -/
structure Format where
  /-- The line of a build record in the build log. A run makes one record at most, so its time is
  part of the format. -/
  record : Entry → String := Entry.line
  /-- The line of an entry on the standard error stream, behind as many others as the number
  says. -/
  shown : Nat → Entry → String := fun _ => Entry.line

end CheckedScript.Log
