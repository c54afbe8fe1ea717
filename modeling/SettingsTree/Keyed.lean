/-! # Entries under names, in insertion order

Objects, member indexes and keyword arguments are lists of named entries whose order is part of
their meaning. Writing to a name that is present replaces the value and keeps its position; a new
name goes to the end. Of several entries with one name the first is the one that is read.

Where another order is asked for, lists are sorted by repeated insertion. Elements that the order
does not separate keep their positions.
-/

namespace SettingsTree

abbrev Keyed (α : Type) := List (String × α)

namespace Keyed

variable {α β : Type}

def get? (name : String) : Keyed α → Option α
  | [] => none
  | entry :: rest => if entry.1 = name then some entry.2 else get? name rest

def has (name : String) (entries : Keyed α) : Bool := (get? name entries).isSome

def names (entries : Keyed α) : List String := entries.map Prod.fst

def insert (name : String) (value : α) : Keyed α → Keyed α
  | [] => [(name, value)]
  | entry :: rest =>
    if entry.1 = name then (name, value) :: rest else entry :: insert name value rest

/-- Drop every entry with this name. -/
def erase (name : String) (entries : Keyed α) : Keyed α := entries.filter (·.1 ≠ name)

/-- Write the entries of `more` one after the other. -/
def insertAll (entries more : Keyed α) : Keyed α :=
  more.foldl (fun done entry => insert entry.1 entry.2 done) entries

/-- Entries with every repetition resolved: first position, last value. -/
def ofList (entries : List (String × α)) : Keyed α := insertAll [] entries

def Distinct (entries : Keyed α) : Prop := (names entries).Nodup

end Keyed

section

variable {α : Type}

/-- Insert an element before the first one that it may precede. -/
def insertOn (le : α → α → Bool) (a : α) : List α → List α
  | [] => [a]
  | b :: rest => if le a b then a :: b :: rest else b :: insertOn le a rest

def sortOn (le : α → α → Bool) : List α → List α
  | [] => []
  | a :: rest => insertOn le a (sortOn le rest)

end

end SettingsTree
