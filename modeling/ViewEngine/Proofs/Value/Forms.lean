import ViewEngine.View.Compiled
import ViewEngine.View.Write

/-!
The forms in which the columns of a type hold values. A conversion yields a value of such a form, and leaves the
values of these forms as they are, so values that are converted when they are read are the same when they are
converted again to be bound or written as literals.
-/

namespace ViewEngine.ColumnType

section Forms

variable (value : Value)

def IsBooleanForm : Prop :=
  (∀ n, value ≠ .int n) ∧ ∀ s, value = .text s → Text.toLowerAscii s ∉ ["true", "1", "false", "0"]

def IsIntegralForm : Prop :=
  (∀ b, value ≠ .bool b) ∧ (∀ x, value = .float x → x.isIntegral = false) ∧
    ∀ s, value = .text s → Number.readInt64? (trimmed s) = none

def IsFractionalForm : Prop :=
  (∀ n, value ≠ .int n) ∧ ∀ s, value = .text s → Number.readDouble? (trimmed s) = none

def IsTextualForm : Prop :=
  (∀ b, value ≠ .bool b) ∧ (∀ n, value ≠ .int n) ∧ (∀ x, value ≠ .float x) ∧ ∀ t, value ≠ .timestamp t

def IsTemporalForm : Prop :=
  ∀ s, value = .text s → Timestamp.read? s = none

def Keeps : ColumnType → Value → Prop
  | .boolean => IsBooleanForm
  | .smallInt | .integer | .bigInt => IsIntegralForm
  | .decimal | .double => IsFractionalForm
  | .char | .varchar => IsTextualForm
  | .date | .timestamp => IsTemporalForm
  | .other => fun _ => True

end Forms

section Read

variable {α : Type} {ofRead : α → Value} {read : Option α} {s : String}

theorem read_eq_text_iff (distinct : ∀ a, ofRead a ≠ .text s) :
    (read.map ofRead).getD (.text s) = .text s ↔ read = none := by
  cases read with
  | none => simp
  | some a => simp [distinct a]

theorem read_cases (read : Option α) (ofRead : α → Value) (s : String) :
    read = none ∧ (read.map ofRead).getD (.text s) = .text s ∨
      ∃ a, (read.map ofRead).getD (.text s) = ofRead a := by
  cases read with
  | none => exact .inl ⟨rfl, rfl⟩
  | some a => exact .inr ⟨a, rfl⟩

end Read

section Conversions

theorem toBoolean_text (s : String) :
    Text.toLowerAscii s ∉ ["true", "1", "false", "0"] ∧ toBoolean (.text s) = .text s ∨
      Text.toLowerAscii s ∈ ["true", "1", "false", "0"] ∧ ∃ b, toBoolean (.text s) = .bool b := by
  unfold toBoolean
  simp only [Bool.or_eq_true, beq_iff_eq, List.mem_cons, List.not_mem_nil, or_false]
  split
  next isTrue => exact .inr ⟨isTrue.elim .inl fun one => .inr (.inl one), true, rfl⟩
  next notTrue =>
    split
    next isFalse => exact .inr ⟨.inr (.inr isFalse), false, rfl⟩
    next notFalse =>
      refine .inl ⟨?_, rfl⟩
      rw [not_or] at notTrue notFalse ⊢
      exact ⟨notTrue.1, not_or.mpr ⟨notTrue.2, not_or.mpr notFalse⟩⟩

variable (value : Value)

theorem isBooleanForm_toBoolean : IsBooleanForm (toBoolean value) := by
  cases value with
  | text s =>
      rcases toBoolean_text s with ⟨noWord, kept⟩ | ⟨-, b, found⟩
      · rw [kept]
        exact ⟨by simp, by rintro _ ⟨⟩; exact noWord⟩
      · simp [found, IsBooleanForm]
  | _ => simp [toBoolean, IsBooleanForm]

theorem toBoolean_eq_self_iff : toBoolean value = value ↔ IsBooleanForm value := by
  cases value with
  | text s =>
      rcases toBoolean_text s with ⟨noWord, kept⟩ | ⟨word, b, found⟩
      · exact iff_of_true kept ⟨by simp, by rintro _ ⟨⟩; exact noWord⟩
      · exact iff_of_false (by simp [found]) fun form => form.2 s rfl word
  | _ => simp [toBoolean, IsBooleanForm]

theorem isIntegralForm_toIntegral : IsIntegralForm (toIntegral value) := by
  cases value with
  | float x =>
      rw [toIntegral]
      split
      next => simp [IsIntegralForm]
      next fraction => simpa [IsIntegralForm] using fraction
  | text s =>
      rw [toIntegral]
      rcases read_cases (Number.readInt64? (trimmed s)) .int s with ⟨unread, kept⟩ | ⟨n, found⟩
      · simpa [kept, IsIntegralForm] using unread
      · simp [found, IsIntegralForm]
  | _ => simp [toIntegral, IsIntegralForm]

theorem toIntegral_eq_self_iff : toIntegral value = value ↔ IsIntegralForm value := by
  cases value with
  | float x => cases fraction : x.isIntegral <;> simp [toIntegral, IsIntegralForm, fraction]
  | text s =>
      rw [toIntegral, read_eq_text_iff (by simp)]
      simp [IsIntegralForm]
  | _ => simp [toIntegral, IsIntegralForm]

theorem isFractionalForm_toFractional : IsFractionalForm (toFractional value) := by
  cases value with
  | text s =>
      rw [toFractional]
      rcases read_cases (Number.readDouble? (trimmed s)) .float s with ⟨unread, kept⟩ | ⟨x, found⟩
      · simpa [kept, IsFractionalForm] using unread
      · simp [found, IsFractionalForm]
  | _ => simp [toFractional, IsFractionalForm]

theorem toFractional_eq_self_iff : toFractional value = value ↔ IsFractionalForm value := by
  cases value with
  | text s =>
      rw [toFractional, read_eq_text_iff (by simp)]
      simp [IsFractionalForm]
  | _ => simp [toFractional, IsFractionalForm]

theorem isTextualForm_toTextual : IsTextualForm (toTextual value) := by
  cases value <;> simp [toTextual, IsTextualForm]

theorem toTextual_eq_self_iff : toTextual value = value ↔ IsTextualForm value := by
  cases value <;> simp [toTextual, IsTextualForm]

theorem isTemporalForm_toTemporal : IsTemporalForm (toTemporal value) := by
  cases value with
  | text s =>
      rw [toTemporal]
      rcases read_cases (Timestamp.read? s) .timestamp s with ⟨unread, kept⟩ | ⟨t, found⟩
      · simpa [kept, IsTemporalForm] using unread
      · simp [found, IsTemporalForm]
  | _ => simp [toTemporal, IsTemporalForm]

theorem toTemporal_eq_self_iff : toTemporal value = value ↔ IsTemporalForm value := by
  cases value with
  | text s =>
      rw [toTemporal, read_eq_text_iff (by simp)]
      simp [IsTemporalForm]
  | _ => simp [toTemporal, IsTemporalForm]

end Conversions

variable (type : ColumnType) (value : Value)

theorem keeps_coerce : type.Keeps (type.coerce value) := by
  cases type with
  | boolean => exact isBooleanForm_toBoolean value
  | smallInt | integer | bigInt => exact isIntegralForm_toIntegral value
  | decimal | double => exact isFractionalForm_toFractional value
  | char | varchar => exact isTextualForm_toTextual value
  | date | timestamp => exact isTemporalForm_toTemporal value
  | other => exact True.intro

theorem coerce_eq_self_iff : type.coerce value = value ↔ type.Keeps value := by
  cases type with
  | boolean => exact toBoolean_eq_self_iff value
  | smallInt | integer | bigInt => exact toIntegral_eq_self_iff value
  | decimal | double => exact toFractional_eq_self_iff value
  | char | varchar => exact toTextual_eq_self_iff value
  | date | timestamp => exact toTemporal_eq_self_iff value
  | other => exact iff_of_true rfl True.intro

theorem coerce_coerce : type.coerce (type.coerce value) = type.coerce value :=
  (type.coerce_eq_self_iff _).mpr (type.keeps_coerce value)

theorem literal_coerce : type.literal (type.coerce value) = type.literal value := by
  rw [literal, coerce_coerce, literal]

end ViewEngine.ColumnType

namespace ViewEngine

theorem BoundParameter.of_coerce (name : String) (value : Value) (type : ColumnType) :
    of name (type.coerce value) type = of name value type := by
  rw [of, ColumnType.coerce_coerce, of]

theorem ColumnBinding.coerce_coerce (b : ColumnBinding) (value : Value) :
    b.coerce (b.coerce value) = b.coerce value := by
  unfold coerce
  split
  · exact ColumnType.coerce_coerce ..
  · rfl

/-- A conversion yields a value that its column holds as it is, and another conversion to the same type leaves that
value alone. So a value that was converted gives the literal and the bound parameter that it gives unconverted, and
a value that was read from a column of a view is the same when it is read again. -/
theorem coercion_settles (type : ColumnType) (value : Value) :
    type.coerce (type.coerce value) = type.coerce value ∧
      type.literal (type.coerce value) = type.literal value ∧
      (∀ name, BoundParameter.of name (type.coerce value) type = BoundParameter.of name value type) ∧
      (∀ b : ColumnBinding, b.coerce (b.coerce value) = b.coerce value) ∧
      ∀ v, (∃ source, type.coerce source = v) ↔ type.Keeps v := by
  refine ⟨type.coerce_coerce value, type.literal_coerce value, fun name => BoundParameter.of_coerce name value type,
    fun b => b.coerce_coerce value, fun v => ⟨?_, fun kept => ⟨v, (type.coerce_eq_self_iff v).mpr kept⟩⟩⟩
  rintro ⟨source, rfl⟩
  exact type.keeps_coerce source

end ViewEngine
