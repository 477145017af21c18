namespace ViewEngine

abbrev Names := List String

namespace Names

def insert (name : String) : Names → Names
  | [] => [name]
  | other :: rest =>
    if name = other then other :: rest
    else if name < other then name :: other :: rest
    else other :: insert name rest

def ofList (names : List String) : Names :=
  names.foldl (fun set name => insert name set) []

theorem mem_insert {name other : String} {set : Names} :
    other ∈ insert name set ↔ other = name ∨ other ∈ set := by
  induction set with
  | nil => simp [insert]
  | cons first rest induction =>
    unfold insert
    split
    · rename_i same
      simp [same]
    · split
      · simp
      · simp only [List.mem_cons, induction]
        exact or_left_comm

end Names

end ViewEngine
