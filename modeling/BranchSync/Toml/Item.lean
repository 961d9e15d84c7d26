import BranchSync.Toml.Number

/-!
# Items of a TOML document

What a key stands for. A table remembers how it came about, because that decides what may
still be added to it: a table with a header of its own is closed once its section ends, a
table that was only implied by a longer header may still get one, and a table made by a dotted
key may only grow by dotted keys. A table in braces is a finished value.
-/

namespace BranchSync.Toml

/-- How a table came about. -/
inductive Origin where
  /-- By a header of its own, or as the document itself. -/
  | header
  /-- As a part of a longer header. -/
  | implied
  /-- As a part of a dotted key. -/
  | dotted
  deriving DecidableEq, Repr

/-- What a key stands for. -/
inductive Item where
  | string (value : String)
  | integer (value : Int)
  | float (value : FloatText)
  | boolean (value : Bool)
  /-- A date or a time, as it was written. -/
  | dateTime (text : String)
  | array (items : List Item)
  /-- A table in braces. -/
  | braces (entries : List (String × Item))
  | table (origin : Origin) (entries : List (String × Item))
  /-- The tables of repeated double-bracket headers, in order. -/
  | tables (elements : List (List (String × Item)))

/-- Keys with what they stand for, in order of first mention. -/
abbrev Entries := List (String × Item)

namespace Entries

/-- What a key stands for. -/
def get? (key : String) : Entries → Option Item
  | [] => none
  | (k, item) :: rest => if k = key then some item else get? key rest

/-- Replace what a key stands for. -/
def replace (key : String) (item : Item) : Entries → Entries
  | [] => []
  | (k, old) :: rest => if k = key then (k, item) :: rest else (k, old) :: replace key item rest

/-- Add a key that is new. -/
def add? (key : String) (item : Item) (entries : Entries) : Option Entries :=
  match get? key entries with
  | none => some (entries ++ [(key, item)])
  | some _ => none

/-- Change the table that a path leads to, where `origin` says how the starting table came
about. Tables on the way are made as needed, with origin `made`. A path of dotted keys does not
enter a table that has a header, and a path through double-bracket tables enters the last one. -/
def alter (made : Origin) (change : Origin → Entries → Option Entries) :
    (path : List String) → Origin → Entries → Option Entries
  | [], origin, entries => change origin entries
  | key :: path, _, entries =>
    match get? key entries with
    | none => do
      let inner ← alter made change path made []
      pure (entries ++ [(key, .table made inner)])
    | some (.table origin inner) =>
      if made = .dotted ∧ origin = .header then none
      else do
        let inner ← alter made change path origin inner
        pure (replace key (.table origin inner) entries)
    | some (.tables elements) =>
      match elements.getLast? with
      | none => none
      | some last => do
        let last ← alter made change path .header last
        pure (replace key (.tables (elements.dropLast ++ [last])) entries)
    | some _ => none

/-- Assign to a key with its dotted path. A key without dots is added to the table at hand, one
with dots only to a table that dotted keys have made. -/
def assign? (path : List String) (key : String) (item : Item) (entries : Entries) :
    Option Entries :=
  alter .dotted
    (fun origin inner =>
      if origin = .dotted ∨ path = [] then add? key item inner else none)
    path .header entries

end Entries

/-- An assignment to a key with the dotted path before it. -/
structure Assignment where
  path : List String
  key : String
  item : Item

/-- Make all assignments in order; no key may be assigned twice. -/
def assignAll? : List Assignment → Entries → Option Entries
  | [], entries => some entries
  | a :: rest, entries => do
    let entries ← entries.assign? a.path a.key a.item
    assignAll? rest entries

/-- A section: its header and the assignments under it. -/
structure Section where
  path : List String
  key : String
  /-- Whether the header has double brackets. -/
  isElement : Bool
  assignments : List Assignment

/-- Add a section to the document. A header may come once and may name a table that was only
implied so far; a double-bracket header adds a table to those of the same header. -/
def Section.addTo? (s : Section) (document : Entries) : Option Entries :=
  Entries.alter .implied
    (fun _ entries =>
      match s.isElement, entries.get? s.key with
      | false, none => do
        let inner ← assignAll? s.assignments []
        pure (entries ++ [(s.key, .table .header inner)])
      | false, some (.table .implied inner) => do
        let inner ← assignAll? s.assignments inner
        pure (entries.replace s.key (.table .header inner))
      | true, none => do
        let inner ← assignAll? s.assignments []
        pure (entries ++ [(s.key, .tables [inner])])
      | true, some (.tables elements) => do
        let inner ← assignAll? s.assignments []
        pure (entries.replace s.key (.tables (elements ++ [inner])))
      | _, _ => none)
    s.path .header document

end BranchSync.Toml
