import ViewEngine.Proofs.Text.Joined
import ViewEngine.View.Path

namespace ViewEngine

def IsStep (property : String) : Prop :=
  property ≠ "" ∧ '.' ∉ property.toList

instance (property : String) : Decidable (IsStep property) :=
  inferInstanceAs (Decidable (_ ∧ _))

namespace Path

/-- The properties of a path; the path of the root row has none. -/
def properties (path : String) : List String :=
  if path.isEmpty then [] else Text.split '.' path

variable {path above other property name : String}

theorem properties_empty : properties "" = [] :=
  rfl

theorem split_plain (plain : '.' ∉ property.toList) : Text.split '.' property = [property] := by
  rw [Text.split, Text.splitCharacters_eq, List.splitOn_eq_singleton plain]
  simp

/-- One property further there is one property more. -/
theorem properties_child (above : String) (step : IsStep property) :
    properties (child above property) = properties above ++ [property] := by
  have filled : property.isEmpty = false := by
    simpa [String.isEmpty_iff] using step.1
  by_cases root : above.isEmpty = true
  · rw [child, if_pos root, properties, properties, if_pos root, filled]
    exact split_plain step.2
  · have further : (above ++ "." ++ property).isEmpty = false := by
      simp
    have cut : Text.split '.' (above ++ "." ++ property) = Text.split '.' above ++ Text.split '.' property := by
      have characters : (above ++ "." ++ property).toList = above.toList ++ '.' :: property.toList := by
        simp
      rw [Text.split, Text.split, Text.split, Text.splitCharacters_eq, Text.splitCharacters_eq,
        Text.splitCharacters_eq, characters, List.splitOn_append_cons_self, List.map_append]
    rw [child, if_neg root, properties, properties, if_neg root, further]
    exact cut.trans (congrArg _ (split_plain step.2))

theorem eq_of_properties (same : properties path = properties other) : path = other := by
  unfold properties at same
  split at same
  next root =>
    split at same
    next otherRoot => rw [String.isEmpty_iff.mp root, String.isEmpty_iff.mp otherRoot]
    next => exact absurd same.symm (Text.split_ne_nil '.' other)
  next =>
    split at same
    next => exact absurd same (Text.split_ne_nil '.' path)
    next =>
      rw [← Text.intercalate_split '.' path, ← Text.intercalate_split '.' other]
      exact congrArg _ same

theorem child_inj (step : IsStep property) (otherStep : IsStep name)
    (same : child above property = child other name) : above = other ∧ property = name := by
  have equal := congrArg properties same
  rw [properties_child above step, properties_child other otherStep] at equal
  obtain ⟨start, last⟩ := List.append_inj' equal rfl
  exact ⟨eq_of_properties start, List.singleton_inj.mp last⟩

theorem child_ne_empty (step : IsStep property) : child above property ≠ "" := by
  intro empty
  have steps := properties_child above step
  rw [empty, properties_empty] at steps
  simp at steps

end Path

end ViewEngine
