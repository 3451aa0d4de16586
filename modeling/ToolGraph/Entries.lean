/-! Tables that keep their entries in the order in which the keys first came. -/
namespace ToolGraph

abbrev Entries (κ α : Type) := List (κ × α)

namespace Entries
variable {κ α β : Type} [BEq κ]

def get? (entries : Entries κ α) (key : κ) : Option α :=
  (entries.find? (·.1 == key)).map (·.2)

def has (entries : Entries κ α) (key : κ) : Bool :=
  entries.any (·.1 == key)

def put (entries : Entries κ α) (key : κ) (value : α) : Entries κ α :=
  match entries with
  | [] => [(key, value)]
  | (other, old) :: rest =>
    if other == key then (other, value) :: rest else (other, old) :: put rest key value

/-- Adds an entry unless the key has one. -/
def putNew (entries : Entries κ α) (key : κ) (value : α) : Entries κ α :=
  if entries.has key then entries else entries ++ [(key, value)]

def ofPairs (pairs : List (κ × α)) : Entries κ α :=
  pairs.foldl (fun entries pair => entries.put pair.1 pair.2) []

/-- Puts the entries of `other` on top. -/
def merge (entries other : Entries κ α) : Entries κ α :=
  other.foldl (fun entries pair => entries.put pair.1 pair.2) entries

def erase (entries : Entries κ α) (key : κ) : Entries κ α :=
  entries.filter (!·.1 == key)

def keys {κ α : Type} (entries : Entries κ α) : List κ := entries.map (·.1)

def values {κ α : Type} (entries : Entries κ α) : List α := entries.map (·.2)

def mapValues {κ : Type} (f : α → β) (entries : Entries κ α) : Entries κ β :=
  entries.map (fun entry => (entry.1, f entry.2))

end Entries
end ToolGraph
