/-!
Finite maps from names, as lists of entries in strictly ascending order of their keys. Keys are
ordered by code point, which is also the order of their UTF-8 bytes. `get?` is the view by which
every operation is described.
-/

namespace ViewEngine

abbrev Keyed (α : Type) := List (String × α)

namespace Keyed

variable {α : Type}

def get? : Keyed α → String → Option α
  | [], _ => none
  | (key, value) :: rest, wanted => if key = wanted then some value else get? rest wanted

def contains (entries : Keyed α) (key : String) : Bool :=
  (entries.get? key).isSome

def keys (entries : Keyed α) : List String :=
  entries.map Prod.fst

def values (entries : Keyed α) : List α :=
  entries.map Prod.snd

def insert (key : String) (value : α) : Keyed α → Keyed α
  | [] => [(key, value)]
  | (other, old) :: rest =>
    if key = other then (key, value) :: rest
    else if key < other then (key, value) :: (other, old) :: rest
    else (other, old) :: insert key value rest

def erase (key : String) : Keyed α → Keyed α
  | [] => []
  | (other, old) :: rest => if other = key then rest else (other, old) :: erase key rest

def ofList (entries : List (String × α)) : Keyed α :=
  entries.foldl (fun built (key, value) => insert key value built) []

theorem get?_insert_self (key : String) (value : α) (entries : Keyed α) :
    (insert key value entries).get? key = some value := by
  induction entries with
  | nil => simp [insert, get?]
  | cons entry rest induction =>
    unfold insert
    split
    · simp [get?]
    · split
      · simp [get?]
      · rename_i different _
        simp [get?, Ne.symm different, induction]

theorem get?_insert_of_ne {key other : String} (different : other ≠ key) (value : α)
    (entries : Keyed α) : (insert key value entries).get? other = entries.get? other := by
  induction entries with
  | nil => simp [insert, get?, Ne.symm different]
  | cons entry rest induction =>
    unfold insert
    split
    · rename_i same
      simp [get?, ← same, Ne.symm different]
    · split
      · simp [get?, Ne.symm different]
      · simp [get?, induction]

end Keyed

end ViewEngine
