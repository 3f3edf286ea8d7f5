/-
TOML values, and tables as a document builds them up.

A table remembers how it came to be, because that decides what may still be
added to it: a header may fill in a table that longer headers implied, a dotted
key may go on in a table that dotted keys began, and an inline table is closed.
-/
namespace JsLisp
namespace Toml

inductive Origin
  | header
  | implied
  | dotted
  | inline
deriving DecidableEq

/-- A value.  Floats and dates keep their spelling. -/
inductive Value
  | string (text : String)
  | integer (n : Int)
  | float (literal : String)
  | boolean (b : Bool)
  | date (literal : String)
  | array (items : List Value)
  /-- The tables that double-bracket headers of one name open in turn. -/
  | tables (items : List Value)
  | table (origin : Origin) (entries : List (String × Value))

abbrev Entries := List (String × Value)

namespace Entries

/-- Change the value of a key that is present. -/
def replace (key : String) (value : Value) (entries : Entries) : Entries :=
  entries.map fun entry => if entry.1 == key then (key, value) else entry

/-- Define a dotted key.  It may not be defined yet, and the tables on its way
are new or began with dotted keys. -/
def define (value : Value) : List String → Entries → Option Entries
  | [], _ => none
  | [key], entries =>
    match entries.lookup key with
    | none => some (entries ++ [(key, value)])
    | some _ => none
  | key :: keys, entries =>
    match entries.lookup key with
    | none => (define value keys []).map fun inner => entries ++ [(key, .table .dotted inner)]
    | some (.table .dotted inner) =>
      (define value keys inner).map fun inner => entries.replace key (.table .dotted inner)
    | some _ => none

/-- Change the table that a header's keys lead to.  Missing tables are implied,
and a run of tables stands for its latest. -/
def update (change : Entries → Option Entries) : List String → Entries → Option Entries
  | [], entries => change entries
  | key :: keys, entries =>
    match entries.lookup key with
    | none => (update change keys []).map fun inner => entries ++ [(key, .table .implied inner)]
    | some (.table .inline _) => none
    | some (.table origin inner) =>
      (update change keys inner).map fun inner => entries.replace key (.table origin inner)
    | some (.tables items) =>
      match items.getLast? with
      | some (.table origin inner) =>
        (update change keys inner).map fun inner =>
          entries.replace key (.tables (items.dropLast ++ [.table origin inner]))
      | _ => none
    | some _ => none

/-- Open the table of a header. -/
def openTable (key : String) (entries : Entries) : Option Entries :=
  match entries.lookup key with
  | none => some (entries ++ [(key, .table .header [])])
  | some (.table .implied inner) => some (entries.replace key (.table .header inner))
  | some _ => none

/-- Open one more table of a double-bracket header. -/
def openNext (key : String) (entries : Entries) : Option Entries :=
  match entries.lookup key with
  | none => some (entries ++ [(key, .tables [.table .header []])])
  | some (.tables items) => some (entries.replace key (.tables (items ++ [.table .header []])))
  | some _ => none

end Entries
end Toml
end JsLisp
