namespace DeploymentBackup.Toml

/-!
# Tables of a TOML document

A document is a table. Its parts are written in any order, so each table remembers how it
came about: that decides what may still be added to it.

* `Value` — a value.
* `Table.insert?` — a value at a path of keys, below a table.
* `Table.open?`, `Table.append?` — the table of a header, and a new one in a list of tables.
-/

/-- How a table came about. -/
inductive Origin
  /-- By a header of its own. -/
  | header
  /-- By a header further down. -/
  | passed
  /-- By a path of keys in front of a value. -/
  | dotted
  /-- Between braces; nothing can be added. -/
  | inline
deriving DecidableEq, Repr

/-- A value of a document. -/
inductive Value
  | text (s : String)
  | integer (n : Int)
  | float
  | boolean (b : Bool)
  /-- A date or a time. -/
  | moment
  | list (items : List Value)
  | table (origin : Origin) (entries : List (String × Value))
  /-- Tables with headers of their own, the last one first. -/
  | tables (items : List (List (String × Value)))
deriving Repr

/-- The entries of a table, in the order of the document. -/
abbrev Table := List (String × Value)

namespace Table

/-- The table with another value for a key, or with one more entry. -/
def put (key : String) (value : Value) : Table → Table
  | [] => [(key, value)]
  | (k, v) :: rest => if k = key then (k, value) :: rest else (k, v) :: put key value rest

/-- Changes a table that is reached by a path of keys. The tables on the way are made, with
    the given origin; through a list of tables the way leads to the last one. -/
def change? (origin : Origin) (change : Table → Option Table) :
    List String → Table → Option Table
  | [], t => change t
  | key :: rest, t =>
    match t.lookup key with
    | none => (change? origin change rest []).map fun inner => t.put key (.table origin inner)
    | some (.table before inner) =>
      -- Keys in front of a value do not reach into a table with a header of its own.
      if before = .inline || (origin = .dotted && before = .header) then none
      else (change? origin change rest inner).map fun inner => t.put key (.table before inner)
    | some (.tables (last :: others)) =>
      if origin = .dotted then none
      else
        (change? origin change rest last).map fun last => t.put key (.tables (last :: others))
    | some _ => none

/-- Adds a value for a key that has none. -/
def add? (key : String) (value : Value) (t : Table) : Option Table :=
  if (t.lookup key).isSome then none else some (t.put key value)

/-- Adds a value at a path of keys. -/
def insert? (path : List String) (value : Value) (t : Table) : Option Table :=
  match path.getLast? with
  | some key => t.change? .dotted (add? key value) path.dropLast
  | none => none

/-- Opens the table of a header, which must not have been opened before. -/
def open? (path : List String) (t : Table) : Option Table :=
  match path.getLast? with
  | none => none
  | some key =>
    t.change? .passed (fun t =>
      match t.lookup key with
      | none => some (t.put key (.table .header []))
      | some (.table .passed inner) => some (t.put key (.table .header inner))
      | some _ => none) path.dropLast

/-- Adds a table to the list of tables of a header. -/
def append? (path : List String) (t : Table) : Option Table :=
  match path.getLast? with
  | none => none
  | some key =>
    t.change? .passed (fun t =>
      match t.lookup key with
      | none => some (t.put key (.tables [[]]))
      | some (.tables items) => some (t.put key (.tables ([] :: items)))
      | some _ => none) path.dropLast

/-- Adds a value below the table of a header that was opened last. -/
def insertBelow? (header path : List String) (value : Value) (t : Table) : Option Table :=
  t.change? .passed (insert? path value) header

end Table

end DeploymentBackup.Toml
