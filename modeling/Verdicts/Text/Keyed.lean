/-
Values under text keys, kept in the order of the keys with no key twice. A key that is put again
takes the new value.
-/

namespace Verdicts

/-- Values by key, in ascending order of the keys' code points. -/
abbrev Keyed (α : Type) := List (String × α)

namespace Keyed

/-- Put `value` under `key`. -/
def put {α : Type} (key : String) (value : α) : Keyed α → Keyed α
  | [] => [(key, value)]
  | (k, v) :: rest =>
    if key < k then (key, value) :: (k, v) :: rest
    else if key = k then (key, value) :: rest
    else (k, v) :: put key value rest

/-- The value under `key`. -/
def get? {α : Type} (key : String) (entries : Keyed α) : Option α :=
  entries.lookup key

/-- Entries in the order they were put; of two under one key the later counts. -/
def ofList {α : Type} (entries : List (String × α)) : Keyed α :=
  entries.foldl (fun kept entry => put entry.1 entry.2 kept) []

end Keyed

end Verdicts
