/-
TOML documents as values.

A document is a table. How a table came about decides what may still be added to it: `assign` adds a value under dotted
keys, `openHeader` a table under a header, and neither adds to a table that the other one made for itself, nor to one
between braces. No key is given twice. Truth values, floats, dates and times are told apart from text and whole numbers
but not from one another.
-/

namespace PartitionedScan

namespace Toml

/-- how a table came about -/
inductive TableKind where
  /-- by its own header -/
  | header
  /-- by a longer header -/
  | implied
  /-- by the dotted keys in front of a value -/
  | dotted
  /-- between braces -/
  | braced
  deriving DecidableEq, Repr

end Toml

/-- a TOML value -/
inductive Toml where
  | text (s : String)
  | integer (n : Int)
  /-- a truth value, a float, a date or a time -/
  | other
  | list (items : List Toml)
  | table (kind : Toml.TableKind) (entries : List (String × Toml))
  deriving Repr

namespace Toml

instance : Inhabited Toml := ⟨.other⟩

/-- the entries of a table, in the order in which they were written -/
abbrev Entries := List (String × Toml)

/-- stores a value in place of the one under its key -/
def put (key : String) (value : Toml) (entries : Entries) : Entries :=
  entries.map fun e => if e.1 = key then (key, value) else e

/-- adds a value under a key, in the table that dotted keys lead to -/
def assign (value : Toml) (key : String) : List String → Entries → Option Entries
  | [], entries => if (entries.lookup key).isSome then none else some (entries ++ [(key, value)])
  | first :: path, entries =>
    match entries.lookup first with
    | none => (assign value key path []).map fun inner => entries ++ [(first, .table .dotted inner)]
    | some (.table .dotted inner) =>
      (assign value key path inner).map fun inner => put first (.table .dotted inner) entries
    | some (.table .implied inner) =>
      if path.isEmpty then none
      else (assign value key path inner).map fun inner => put first (.table .implied inner) entries
    | some _ => none

/-- adds the table that a header names -/
def openHeader (key : String) : List String → Entries → Option Entries
  | [], entries =>
    match entries.lookup key with
    | none => some (entries ++ [(key, .table .header [])])
    | some (.table .implied inner) => some (put key (.table .header inner) entries)
    | some _ => none
  | first :: path, entries =>
    match entries.lookup first with
    | none => (openHeader key path []).map fun inner => entries ++ [(first, .table .implied inner)]
    | some (.table .braced _) => none
    | some (.table kind inner) => (openHeader key path inner).map fun inner => put first (.table kind inner) entries
    | some _ => none

/-- changes the table at the end of a path -/
def onTable (change : Entries → Option Entries) : List String → Entries → Option Entries
  | [], entries => change entries
  | first :: path, entries =>
    match entries.lookup first with
    | some (.table kind inner) => (onTable change path inner).map fun inner => put first (.table kind inner) entries
    | _ => none

end Toml

end PartitionedScan
