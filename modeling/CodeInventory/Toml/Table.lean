import CodeInventory.Json

set_option autoImplicit false

namespace CodeInventory.Toml

-- A table may be defined once: by a header, or by the dotted keys that lead through it. A header
-- may still define a table that earlier headers only passed through, and a value, an inline table
-- among them, is never extended.

inductive Origin where
  | header
  | passed
  | dotted
deriving DecidableEq, Repr

inductive Item where
  | value (value : Json)
  | table (origin : Origin) (entries : List (String × Item))
  | tables (elements : List (List (String × Item)))

abbrev Entries := List (String × Item)

mutual

def Item.toJson : Item → Json
  | .value value => value
  | .table _ entries => .object (entriesToJson entries)
  | .tables elements => .array (elementsToJson elements).reverse

def entriesToJson : List (String × Item) → List (String × Json)
  | [] => []
  | (key, item) :: rest => (key, item.toJson) :: entriesToJson rest

def elementsToJson : List (List (String × Item)) → List Json
  | [] => []
  | entries :: rest => .object (entriesToJson entries) :: elementsToJson rest

end

def alter? (key : String) (change : Option Item → Option Item) : Entries → Option Entries
  | [] => (change none).map fun item => [(key, item)]
  | (other, item) :: rest =>
      if other = key then (change (some item)).map fun changed => (other, changed) :: rest
      else (alter? key change rest).map fun changed => (other, item) :: changed

def enter? (change : Entries → Option Entries) : Option Item → Option Item
  | none => (change []).map (.table .passed)
  | some (.table origin entries) => (change entries).map (.table origin)
  | some (.tables (latest :: before)) =>
      (change latest).map fun changed => .tables (changed :: before)
  | _ => none

def within? (change : Entries → Option Entries) : List String → Entries → Option Entries
  | [], entries => change entries
  | key :: rest, entries => alter? key (enter? (within? change rest)) entries

def define? : Option Item → Option Item
  | none => some (.table .header [])
  | some (.table .passed entries) => some (.table .header entries)
  | _ => none

def addElement? : Option Item → Option Item
  | none => some (.tables [[]])
  | some (.tables elements) => some (.tables ([] :: elements))
  | _ => none

def atPath? (change : Option Item → Option Item) (path : List String) (entries : Entries) :
    Option Entries := do
  within? (alter? (← path.getLast?) change) path.dropLast entries

def openTable? (path : List String) (entries : Entries) : Option Entries :=
  atPath? define? path entries

def openElement? (path : List String) (entries : Entries) : Option Entries :=
  atPath? addElement? path entries

-- Sets a value under a dotted key. The table that takes the value must have been made by dotted
-- keys alone.
def assign? (value : Json) : List String → Entries → Option Entries
  | [], _ => none
  | [key], entries =>
      alter? key (fun item => if item.isNone then some (.value value) else none) entries
  | key :: rest, entries =>
      alter? key (fun item =>
        match item with
        | none => (assign? value rest []).map (.table .dotted)
        | some (.table .dotted inner) => (assign? value rest inner).map (.table .dotted)
        | some (.table .passed inner) =>
            if rest.length = 1 then none else (assign? value rest inner).map (.table .passed)
        | _ => none) entries

end CodeInventory.Toml
