import ViewEngine.Proofs.Assembly.RootKey

namespace ViewEngine.Row

variable {p q above rest : List String} {property key : String} {row other : Row} {value : Value}
  {places : List (List String)}

theorem valueAt?_cons (below : rest ≠ []) (row : Row) (property : String) :
    row.valueAt? (property :: rest) = ((row.get? property).bind Value.asRow?).bind (valueAt? · rest) := by
  cases rest with
  | nil => contradiction
  | cons next more =>
      simp only [valueAt?]
      cases row.get? property with
      | none => rfl
      | some held => cases held <;> rfl

theorem valueAt?_append (nonempty : p ≠ []) (below : rest ≠ []) (row : Row) :
    row.valueAt? (p ++ rest) = ((row.valueAt? p).bind Value.asRow?).bind (valueAt? · rest) := by
  induction p generalizing row with
  | nil => contradiction
  | cons property more ih =>
      cases more with
      | nil => exact valueAt?_cons below row property
      | cons next others =>
          have inner : next :: others ≠ [] := List.cons_ne_nil _ _
          rw [List.cons_append, valueAt?_cons (List.append_ne_nil_of_left_ne_nil inner rest), valueAt?_cons inner]
          cases (row.get? property).bind Value.asRow? with
          | none => rfl
          | some fields => exact ih inner fields

theorem valueAt?_append_eq_some (nonempty : p ≠ []) (below : rest ≠ []) : row.valueAt? (p ++ rest) = some value ↔
    ∃ fields, row.valueAt? p = some (.row fields) ∧ Row.valueAt? fields rest = some value := by
  rw [valueAt?_append nonempty below]
  cases row.valueAt? p with
  | none => simp
  | some held => cases held <;> simp [Value.asRow?]

theorem valueAt?_cons_eq_some (below : rest ≠ []) : row.valueAt? (property :: rest) = some value ↔
    ∃ fields, row.get? property = some (.row fields) ∧ Row.valueAt? fields rest = some value :=
  valueAt?_append_eq_some (List.cons_ne_nil property []) below

theorem slot?_append (nonempty : p ≠ []) (below : rest ≠ []) (row : Row) :
    row.slot? (p ++ rest) = ((row.valueAt? p).bind Value.asRow?).bind (slot? · rest) := by
  induction p generalizing row with
  | nil => contradiction
  | cons property more ih =>
      cases more with
      | nil => simp [slot?, valueAt?, below]
      | cons next others =>
          have inner : next :: others ≠ [] := List.cons_ne_nil _ _
          rw [List.cons_append, slot?, if_neg (by simp), valueAt?_cons inner]
          cases (row.get? property).bind Value.asRow? with
          | none => rfl
          | some fields => exact ih inner fields

theorem valueAt?_nil (p : List String) : valueAt? ([] : Row) p = none := by
  cases p with
  | nil => rfl
  | cons property rest => cases rest <;> rfl

theorem place_cons (below : rest ≠ []) (row : Row) : place value (property :: rest) row =
    row.insert property (.row (place value rest (((row.get? property).bind Value.asRow?).getD []))) := by
  cases rest with
  | nil => contradiction
  | cons next more =>
      conv_lhs => unfold place
      cases row.get? property with
      | none => rfl
      | some held => cases held <;> rfl

theorem valueAt?_place_of_apart (apart : Apart p q) (row : Row) : (place value p row).valueAt? q = row.valueAt? q := by
  induction p generalizing q row with
  | nil => exact absurd List.nil_prefix apart.1
  | cons property rest ih =>
      cases q with
      | nil => exact absurd List.nil_prefix apart.2
      | cons name others =>
          by_cases same : name = property
          · subst same
            have inner : others ≠ [] := by
              rintro rfl
              exact apart.2 (List.cons_prefix_cons.mpr ⟨rfl, List.nil_prefix⟩)
            have below : rest ≠ [] := by
              rintro rfl
              exact apart.1 (List.cons_prefix_cons.mpr ⟨rfl, List.nil_prefix⟩)
            rw [valueAt?_cons inner, valueAt?_cons inner, place_cons below, Keyed.get?_insert_self]
            refine (ih apart.tail _).trans ?_
            cases (row.get? name).bind Value.asRow? with
            | none => exact valueAt?_nil others
            | some fields => rfl
          · have first : (place value (property :: rest) row).get? name = row.get? name :=
              get?_place_of_ne (by simpa using Ne.symm same) row
            cases others with
            | nil => exact first
            | cons next more =>
                rw [valueAt?_cons (List.cons_ne_nil _ _), valueAt?_cons (List.cons_ne_nil _ _), first]

theorem valueAt?_erase (different : p.head? ≠ some key) (row : Row) :
    Row.valueAt? (row.erase key) p = row.valueAt? p := by
  cases p with
  | nil => rfl
  | cons property rest =>
      have first : (row.erase key).get? property = row.get? property :=
        Keyed.get?_erase_of_ne fun same => different (congrArg some same)
      cases rest with
      | nil => exact first
      | cons next more => rw [valueAt?_cons (List.cons_ne_nil _ _), valueAt?_cons (List.cons_ne_nil _ _), first]

/-- A row has a value at a place, or else no row that could have it: the associated row there is null. -/
inductive Delivers (row : Row) (value : Value) (p : List String) : Prop
  | held (found : row.valueAt? p = some value) : Delivers row value p
  | collapsed {above rest : List String} (isNull : value = .null) (within : p = above ++ rest) (below : rest ≠ [])
      (none : row.valueAt? above = some .null) : Delivers row value p

section Collapsing

theorem isAllNull_of_get? (null : Value.allNullFields row = true) (found : row.get? key = some value) :
    value.isAllNull = true := by
  induction row with
  | nil => contradiction
  | cons field rest ih =>
      obtain ⟨property, held⟩ := field
      obtain ⟨first, others⟩ := Bool.and_eq_true_iff.mp null
      rw [Keyed.get?] at found
      split at found
      · cases found
        exact first
      · exact ih others found

theorem isAllNull_of_valueAt? (null : Value.allNullFields row = true) (found : row.valueAt? p = some value) :
    value.isAllNull = true := by
  induction p generalizing row with
  | nil => contradiction
  | cons property rest ih =>
      cases rest with
      | nil => exact isAllNull_of_get? null found
      | cons next more =>
          obtain ⟨fields, isHeld, found⟩ := (valueAt?_cons_eq_some (List.cons_ne_nil _ _)).mp found
          exact ih (isAllNull_of_get? null isHeld) found

theorem collapse_eq_null (null : value.collapse.isAllNull = true) : value.collapse = .null := by
  cases value with
  | row fields =>
      rw [Value.collapse] at null ⊢
      split at null
      next all => rw [if_pos all]
      next some => exact absurd null some
  | null => rfl
  | _ => contradiction

/-- Collapsing loses no value but together with a row that is null throughout. -/
theorem delivers_collapse (found : row.valueAt? p = some value) :
    Delivers (Value.collapseFields row) value.collapse p := by
  induction p generalizing row with
  | nil => contradiction
  | cons property rest ih =>
      cases rest with
      | nil =>
          have same := get?_collapseFields row property
          rw [show row.get? property = some value from found] at same
          exact .held same
      | cons next more =>
          have below : next :: more ≠ [] := List.cons_ne_nil _ _
          obtain ⟨fields, isHeld, found⟩ := (valueAt?_cons_eq_some below).mp found
          have same := get?_collapseFields row property
          rw [isHeld, Option.map_some, Value.collapse] at same
          split at same
          next all =>
            refine .collapsed ?_ (show property :: next :: more = [property] ++ next :: more from rfl) below same
            cases ih found with
            | held delivered => exact collapse_eq_null (isAllNull_of_valueAt? all delivered)
            | collapsed isNull => exact isNull
          next some =>
            cases ih found with
            | held delivered => exact .held ((valueAt?_cons_eq_some below).mpr ⟨_, same, delivered⟩)
            | @collapsed above rest isNull within inside none =>
                have within : property :: next :: more = (property :: above) ++ rest := congrArg _ within
                have nonempty : above ≠ [] := by
                  rintro rfl
                  contradiction
                exact .collapsed isNull within inside ((valueAt?_cons_eq_some nonempty).mpr ⟨_, same, none⟩)

end Collapsing

section Starting

theorem valueAt?_startCollection_null (outside : ¬ q <+: above) (row : Row) :
    (startCollection q row).valueAt? above = some .null ↔ row.valueAt? above = some .null := by
  by_cases through : above <+: q
  · obtain ⟨rest, rfl⟩ := through
    have below : rest ≠ [] := by
      rintro rfl
      exact outside (by rw [List.append_nil])
    rcases List.eq_nil_or_concat above with rfl | ⟨_, _, isAbove⟩
    · exact Iff.rfl
    have nonempty : above ≠ [] := by
      rw [isAbove]
      simp
    have isRow {row : Row} {held : Option Value} (stands : row.slot? (above ++ rest) = some held) :
        row.valueAt? above ≠ some .null := by
      intro null
      rw [slot?_append nonempty below, null] at stands
      contradiction
    cases before : row.slot? (above ++ rest) with
    | none => rw [startCollection_of_none before]
    | some held =>
        have after := slot?_startCollection (above ++ rest) row
        rw [before] at after
        exact iff_of_false (isRow after) (isRow before)
  · rw [valueAt?_eq, valueAt?_eq, slot?_startCollection_of_apart ⟨outside, through⟩]

theorem valueAt?_startAll_null (outside : ∀ q ∈ places, ¬ q <+: above) (row : Row) :
    (startAll places row).valueAt? above = some .null ↔ row.valueAt? above = some .null := by
  induction places generalizing row with
  | nil => exact Iff.rfl
  | cons q rest ih =>
      refine (ih (fun other later => outside other (List.mem_cons_of_mem _ later)) _).trans ?_
      exact valueAt?_startCollection_null (outside q (List.mem_cons_self ..)) row

/-- Rows that are the same but for some collections deliver the same values apart from these. -/
theorem Delivers.of_startAll (delivers : row.Delivers value p) (same : startAll places row = startAll places other)
    (apart : ∀ q ∈ places, Apart p q) : other.Delivers value p := by
  cases delivers with
  | held found =>
      refine .held ?_
      rw [valueAt?_eq] at found ⊢
      rwa [← slot?_startAll_of_apart apart, ← same, slot?_startAll_of_apart apart]
  | @collapsed above rest isNull within below none =>
      have outside : ∀ q ∈ places, ¬ q <+: above := fun q member starts =>
        (apart q member).2 (starts.trans (within ▸ List.prefix_append above rest))
      refine .collapsed isNull within below ?_
      rw [← valueAt?_startAll_null outside, ← same]
      exact (valueAt?_startAll_null outside row).mpr none

end Starting

end ViewEngine.Row

namespace ViewEngine

open Row

def ColumnBinding.IsApart (b : ColumnBinding) (columns : List ColumnBinding) : Prop :=
  ∀ c ∈ columns, c ≠ b → Apart (propertiesOf b.label) (propertiesOf c.label)

theorem Row.propertiesOf_ne_nil (path : String) : propertiesOf path ≠ [] :=
  Text.split_ne_nil '.' path

/-- A column has its value at its place, whatever is put at the places of the others. -/
theorem Row.valueAt?_ofColumns {columns : List ColumnBinding} {b : ColumnBinding} (member : b ∈ columns)
    (apart : b.IsApart columns) (result : Row) :
    (ofColumns columns result).valueAt? (propertiesOf b.label) = some (b.coerce (result.read b.label)) := by
  suffices ∀ row : Row, (b ∈ columns ∨ row.valueAt? (propertiesOf b.label) = some (b.coerce (result.read b.label))) →
      valueAt? (columns.foldl (fun row c => place (c.coerce ((result.get? c.label).getD .null))
        (propertiesOf c.label) row) row) (propertiesOf b.label) = some (b.coerce (result.read b.label)) from
    this [] (.inl member)
  clear member
  induction columns with
  | nil => exact fun row holds => holds.resolve_left List.not_mem_nil
  | cons c rest ih =>
      intro row holds
      refine ih (fun d later => apart d (List.mem_cons_of_mem _ later)) _ ?_
      by_cases own : c = b
      · subst own
        exact .inr (valueAt?_place _ (propertiesOf_ne_nil _) row)
      · dsimp only
        rw [valueAt?_place_of_apart (apart c (List.mem_cons_self ..) own).symm]
        exact holds.imp_left fun member => (List.mem_cons.mp member).resolve_left (Ne.symm own)

end ViewEngine
