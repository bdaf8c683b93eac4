/-!
TOML values, and tables under construction: how a table came to be decides what may still be
added to it.
-/

namespace CheckedScript.Toml

/-- How a table came to be. -/
inductive Origin
  /-- By a header of its own, or as the whole document. -/
  | header
  /-- As a part of a longer header. -/
  | implied
  /-- As a part of a dotted key. -/
  | dotted
  /-- Between braces. -/
  | inline
deriving DecidableEq, Repr

inductive Value
  | string (text : String)
  | integer (n : Int)
  | float
  | boolean (b : Bool)
  | datetime
  | array (values : List Value)
  | table (origin : Origin) (entries : List (String × Value))
  /-- Tables that share a doubled header. -/
  | tables (elements : List Value)
deriving Repr

abbrev Entries := List (String × Value)

namespace Entries

def get? (entries : Entries) (key : String) : Option Value :=
  (entries.find? fun entry => entry.1 = key).map (·.2)

/-- Replaces the value of `key`, or adds it at the end. -/
def set (entries : Entries) (key : String) (value : Value) : Entries :=
  match entries with
  | [] => [(key, value)]
  | entry :: rest =>
    if entry.1 = key then (key, value) :: rest else entry :: set rest key value

end Entries

/-- Changes the table at `path` below the given one. Missing tables are made on the way; of
tables that share a header the last one is meant. A dotted path does not enter tables that have
a header of their own, and no path enters a value. -/
def alter (dotted : Bool) (change : Origin → Entries → Option Entries) :
    List String → Origin → Entries → Option Entries
  | [], origin, entries => change origin entries
  | key :: path, _, entries =>
    match entries.get? key with
    | none =>
      let origin := if dotted then Origin.dotted else Origin.implied
      (alter dotted change path origin []).map fun inner => entries.set key (.table origin inner)
    | some (.table origin inner) =>
      if origin = .inline || (dotted && origin = .header) then none
      else (alter dotted change path origin inner).map fun inner =>
        entries.set key (.table origin inner)
    | some (.tables elements) =>
      match elements.getLast? with
      | some (.table origin inner) =>
        (alter dotted change path origin inner).map fun inner =>
          entries.set key (.tables (elements.dropLast ++ [.table origin inner]))
      | _ => none
    | some _ => none

/-- Adds the value of a dotted key. The last table on the way must be one that dotted keys have
made, unless the key has a single part. -/
def insertKey (path : List String) (key : String) (value : Value) (origin : Origin)
    (entries : Entries) : Option Entries :=
  alter true (fun origin entries =>
    if (origin == .dotted) == path.isEmpty then none
    else match entries.get? key with
      | some _ => none
      | none => some (entries.set key value)) path origin entries

/-- Opens the table with the given header. It may have been implied by longer headers, but not
been opened before. -/
def openTable (path : List String) (entries : Entries) : Option Entries :=
  match path.getLast? with
  | none => none
  | some key =>
    alter false (fun _ entries =>
      match entries.get? key with
      | none => some (entries.set key (.table .header []))
      | some (.table .implied inner) => some (entries.set key (.table .header inner))
      | some _ => none) path.dropLast .header entries

/-- Opens one more of the tables that share the given doubled header. -/
def openElement (path : List String) (entries : Entries) : Option Entries :=
  match path.getLast? with
  | none => none
  | some key =>
    alter false (fun _ entries =>
      match entries.get? key with
      | none => some (entries.set key (.tables [.table .header []]))
      | some (.tables elements) =>
        some (entries.set key (.tables (elements ++ [.table .header []])))
      | some _ => none) path.dropLast .header entries

/-- Adds the value of a dotted key to the table that was opened last. -/
def insertBelow (header path : List String) (key : String) (value : Value) (entries : Entries) :
    Option Entries :=
  alter false (insertKey path key value) header .header entries

end CheckedScript.Toml
