/-!
Named entries in the order of their names, one for each name. The order is by code point, and the
last entry put under a name is the one that stays.
-/
namespace BlockPlay

abbrev Entries (α : Type) := List (String × α)

namespace Entries

variable {α β : Type}

def put (name : String) (value : α) : Entries α → Entries α
  | [] => [(name, value)]
  | (n, v) :: rest =>
    if name = n then (name, value) :: rest
    else if name < n then (name, value) :: (n, v) :: rest
    else (n, v) :: put name value rest

def get? (name : String) : Entries α → Option α
  | [] => none
  | (n, v) :: rest => if n = name then some v else get? name rest

def ofList (entries : List (String × α)) : Entries α :=
  entries.foldl (fun found (name, value) => put name value found) []

theorem get?_put (name other : String) (value : α) (entries : Entries α) :
    get? other (put name value entries) = if name = other then some value else get? other entries := by
  induction entries with
  | nil => simp [put, get?]
  | cons entry rest ih =>
    obtain ⟨n, v⟩ := entry
    grind [put, get?]

end Entries

def insertName (name : String) : List String → List String
  | [] => [name]
  | n :: rest =>
    if name = n then n :: rest
    else if name < n then name :: n :: rest
    else n :: insertName name rest

theorem mem_insertName {name other : String} {names : List String} :
    other ∈ insertName name names ↔ other = name ∨ other ∈ names := by
  induction names with
  | nil => simp [insertName]
  | cons n rest ih =>
    simp only [insertName]
    split
    · simp_all
    · split
      · simp
      · simp [ih]; grind

end BlockPlay
