import ViewEngine.Proofs.Text.Octets
import ViewEngine.Proofs.Versions.Interval

/-!
Timestamps as sorted texts. While years have four digits, every field of a timestamp but its fraction is written with
a fixed number of digits, the weightiest field first, and a fraction loses only trailing zeros; so the texts are in
the order of time, octet by octet.
-/

namespace ViewEngine

namespace Number

variable {u v x y digits : List Char}

theorem ofDigits_append (u v : List Char) :
    ofDigits (u ++ v) = ofDigits u * 10 ^ v.length + ofDigits v := by
  simp only [ofDigits_eq_ofDigitChars, Nat.ofDigitChars_append]
  rw [Nat.ofDigitChars_eq_ofDigitChars_zero, Nat.mul_comm]

theorem ofDigits_cons (c : Char) (digits : List Char) :
    ofDigits (c :: digits) = digitValue c * 10 ^ digits.length + ofDigits digits := by
  have single : ofDigits [c] = digitValue c := by simp [ofDigits]
  rw [← List.singleton_append, ofDigits_append, single]

theorem ofDigits_append_zeros_right (digits : List Char) (count : Nat) :
    ofDigits (digits ++ List.replicate count '0') = ofDigits digits * 10 ^ count := by
  have zeros : ofDigits (List.replicate count '0') = 0 := by
    rw [← List.append_nil (List.replicate count '0'), ofDigits_append_zeros]
    rfl
  rw [ofDigits_append, zeros, List.length_replicate, Nat.add_zero]

theorem digit_bounds {c : Char} (digit : c.isDigit = true) : 48 ≤ c.toNat ∧ c.toNat ≤ 57 := by
  simp only [Char.isDigit, Bool.and_eq_true, decide_eq_true_eq] at digit
  exact digit

theorem digitValue_eq (c : Char) : digitValue c = c.toNat - 48 :=
  rfl

theorem digitValue_lt {c : Char} (digit : c.isDigit = true) : digitValue c < 10 := by
  have bounds := digit_bounds digit
  rw [digitValue_eq]
  omega

theorem digitValue_lt_iff {c d : Char} (digitC : c.isDigit = true) (digitD : d.isDigit = true) :
    digitValue c < digitValue d ↔ c < d := by
  have boundsC := digit_bounds digitC
  have boundsD := digit_bounds digitD
  have order : c < d ↔ c.toNat < d.toNat := Iff.rfl
  rw [order, digitValue_eq, digitValue_eq]
  omega

theorem ofDigits_lt (allDigits : ∀ c ∈ digits, c.isDigit = true) :
    ofDigits digits < 10 ^ digits.length := by
  induction digits with
  | nil => simp [ofDigits]
  | cons c digits ih =>
      have first := digitValue_lt (allDigits c (List.mem_cons_self ..))
      have others := ih fun d member => allDigits d (List.mem_cons_of_mem _ member)
      rw [ofDigits_cons, List.length_cons, Nat.pow_succ]
      have scaled : digitValue c * 10 ^ digits.length ≤ 9 * 10 ^ digits.length :=
        Nat.mul_le_mul_right _ (by omega)
      omega

theorem append_lt_of_ofDigits_lt (digitsU : ∀ c ∈ u, c.isDigit = true) (digitsV : ∀ c ∈ v, c.isDigit = true)
    (sameLength : u.length = v.length) (less : ofDigits u < ofDigits v) : u ++ x < v ++ y := by
  induction u generalizing v with
  | nil =>
      rw [List.eq_nil_of_length_eq_zero sameLength.symm] at less
      exact absurd less (lt_irrefl _)
  | cons c u ih =>
      cases v with
      | nil => exact absurd sameLength (Nat.succ_ne_zero _)
      | cons d v =>
          have digitC := digitsU c (List.mem_cons_self ..)
          have digitD := digitsV d (List.mem_cons_self ..)
          have restU : ∀ e ∈ u, e.isDigit = true := fun e member => digitsU e (List.mem_cons_of_mem _ member)
          have restV : ∀ e ∈ v, e.isDigit = true := fun e member => digitsV e (List.mem_cons_of_mem _ member)
          have sameRest : u.length = v.length := Nat.succ.inj sameLength
          have bound := ofDigits_lt restV
          rw [ofDigits_cons, ofDigits_cons, sameRest] at less
          rw [List.cons_append, List.cons_append, List.cons_lt_cons_iff, ← digitValue_lt_iff digitC digitD]
          rcases lt_trichotomy c d with smaller | rfl | larger
          · exact .inl ((digitValue_lt_iff digitC digitD).mpr smaller)
          · exact .inr ⟨rfl, ih restU restV sameRest (by omega)⟩
          · -- a larger first digit outweighs all digits that follow
            have scaled : (digitValue d + 1) * 10 ^ v.length ≤ digitValue c * 10 ^ v.length :=
              Nat.mul_le_mul_right _ ((digitValue_lt_iff digitD digitC).mpr larger)
            rw [Nat.succ_mul] at scaled
            omega

theorem not_lt_zeros (allDigits : ∀ c ∈ digits, c.isDigit = true) :
    ¬ digits < List.replicate digits.length '0' := by
  induction digits with
  | nil => exact List.not_lt_nil _
  | cons c digits ih =>
      have zero : ¬ c < '0' := by
        have bounds := digit_bounds (allDigits c (List.mem_cons_self ..))
        intro less
        have smaller : c.toNat < 48 := less
        omega
      rw [List.length_cons, List.replicate_succ, List.cons_lt_cons_iff, not_or, not_and]
      exact ⟨zero, fun _ => ih fun d member => allDigits d (List.mem_cons_of_mem _ member)⟩

theorem lt_of_append_zeros_lt {j k : Nat} (digitsU : ∀ c ∈ u, c.isDigit = true)
    (sameLength : u.length + j = v.length + k)
    (less : u ++ List.replicate j '0' < v ++ List.replicate k '0') : u < v := by
  induction u generalizing v with
  | nil =>
      cases v with
      | nil =>
          rw [List.length_nil, Nat.zero_add, Nat.zero_add] at sameLength
          rw [sameLength] at less
          exact absurd less (lt_irrefl _)
      | cons d v => exact List.nil_lt_cons ..
  | cons c u ih =>
      have restU : ∀ e ∈ u, e.isDigit = true := fun e member => digitsU e (List.mem_cons_of_mem _ member)
      cases v with
      | nil =>
          have filled : ∀ e ∈ c :: u ++ List.replicate j '0', e.isDigit = true :=
            List.forall_mem_append.mpr ⟨digitsU, fun e zero => by rw [List.eq_of_mem_replicate zero]; rfl⟩
          have length : (c :: u ++ List.replicate j '0').length = k := by
            rw [List.length_append, List.length_replicate, sameLength, List.length_nil, Nat.zero_add]
          have notLess := not_lt_zeros filled
          rw [length] at notLess
          exact absurd less notLess
      | cons d v =>
          rw [List.cons_append, List.cons_append, List.cons_lt_cons_iff] at less
          rw [List.length_cons, List.length_cons] at sameLength
          rw [List.cons_lt_cons_iff]
          exact less.imp_right (And.imp_right (ih restU (by omega)))

end Number

namespace Timestamp

open Number

variable {x y : List Char} {width m n : Nat}

/-- Numbers that fill their fields are in the order of their texts, and what follows decides between equal ones. -/
theorem paddedDigits_append_lt (positive : 0 < width) (smallM : m < 10 ^ width) (smallN : n < 10 ^ width)
    (ordered : m < n ∨ m = n ∧ x < y) : paddedDigits width m ++ x < paddedDigits width n ++ y := by
  rcases ordered with less | ⟨rfl, later⟩
  · refine append_lt_of_ofDigits_lt paddedDigits_isDigit paddedDigits_isDigit ?_ ?_
    · rw [paddedDigits_length positive smallM, paddedDigits_length positive smallN]
    · rwa [ofDigits_paddedDigits, ofDigits_paddedDigits]
  · exact List.append_left_lt later

theorem paddedDigits_mark_lt {mark : Char} (positive : 0 < width) (smallM : m < 10 ^ width)
    (smallN : n < 10 ^ width) (ordered : m < n ∨ m = n ∧ x < y) :
    paddedDigits width m ++ mark :: x < paddedDigits width n ++ mark :: y :=
  paddedDigits_append_lt positive smallM smallN
    (ordered.imp_right (And.imp_right fun later => List.cons_lt_cons_iff.mpr (.inr ⟨rfl, later⟩)))

structure IsFraction (n : Nat) (digits : List Char) (zeros : Nat) : Prop where
  written : fractionCharacters n = '.' :: digits
  digit : ∀ c ∈ digits, c.isDigit = true
  places : digits.length + zeros = 9
  value : ofDigits (digits ++ List.replicate zeros '0') = n

theorem isFraction_padded {value zeros : Nat} (written : fractionCharacters n = '.' :: paddedDigits width value)
    (positive : 0 < width) (fits : value < 10 ^ width) (places : width + zeros = 9) (same : value * 10 ^ zeros = n) :
    IsFraction n (paddedDigits width value) zeros where
  written := written
  digit := paddedDigits_isDigit
  places := by rw [paddedDigits_length positive fits, places]
  value := by rw [ofDigits_append_zeros_right, ofDigits_paddedDigits, same]

theorem exists_isFraction (positive : 0 < n) (small : n < 1000000000) :
    ∃ digits zeros, IsFraction n digits zeros := by
  by_cases thousandths : n % 1000000 = 0
  · have written : fractionCharacters n = '.' :: paddedDigits 3 (n / 1000000) := by
      rw [fractionCharacters, if_neg positive.ne', if_pos thousandths]
    exact ⟨_, 6, isFraction_padded written (by decide) (by omega) rfl (by omega)⟩
  · by_cases millionths : n % 1000 = 0
    · have written : fractionCharacters n = '.' :: paddedDigits 6 (n / 1000) := by
        rw [fractionCharacters, if_neg positive.ne', if_neg thousandths, if_pos millionths]
      exact ⟨_, 3, isFraction_padded written (by decide) (by omega) rfl (by omega)⟩
    · have written : fractionCharacters n = '.' :: paddedDigits 9 n := by
        rw [fractionCharacters, if_neg positive.ne', if_neg thousandths, if_neg millionths]
      exact ⟨_, 0, isFraction_padded written (by decide) small rfl (by omega)⟩

theorem fractionCharacters_lt (less : m < n) (small : n < 1000000000) :
    fractionCharacters m < fractionCharacters n := by
  obtain ⟨digitsN, zerosN, fractionN⟩ := exists_isFraction (by omega : 0 < n) small
  rw [fractionN.written]
  rcases Nat.eq_zero_or_pos m with rfl | positive
  · exact List.nil_lt_cons ..
  · obtain ⟨digitsM, zerosM, fractionM⟩ := exists_isFraction positive (less.trans small)
    have places := fractionM.places.trans fractionN.places.symm
    have filled {n zeros : Nat} {digits : List Char} (fraction : IsFraction n digits zeros) :
        ∀ c ∈ digits ++ List.replicate zeros '0', c.isDigit = true :=
      List.forall_mem_append.mpr ⟨fraction.digit, fun c zero => by rw [List.eq_of_mem_replicate zero]; rfl⟩
    -- with all nine places written the fractions are in the order of their digits
    have whole : digitsM ++ List.replicate zerosM '0' < digitsN ++ List.replicate zerosN '0' := by
      have ordered := append_lt_of_ofDigits_lt (x := []) (y := []) (filled fractionM) (filled fractionN)
        (by simpa using places) (by rwa [fractionM.value, fractionN.value])
      simpa only [List.append_nil] using ordered
    rw [fractionM.written]
    exact List.cons_lt_cons_iff.mpr (.inr ⟨rfl, lt_of_append_zeros_lt fractionM.digit places whole⟩)

/-- A year that is written without a sign, with four digits. -/
def HasPlainYear (t : Timestamp) : Prop :=
  0 ≤ t.year ∧ t.year ≤ 9999

instance (t : Timestamp) : Decidable t.HasPlainYear := by
  unfold HasPlainYear
  infer_instance

theorem month_lt (t : Timestamp) : t.month < 100 := by
  have bound := t.validDate.2.2.2.1
  omega

theorem day_lt (t : Timestamp) : t.day < 100 := by
  have bound := t.validDate.2.2.2.2.2
  have month : daysInMonth t.year t.month ≤ 31 := by
    unfold daysInMonth
    split
    · split <;> decide
    · split <;> decide
  omega

theorem HasPlainYear.yearCharacters {t : Timestamp} (plain : t.HasPlainYear) :
    Timestamp.yearCharacters t.year = paddedDigits 4 t.year.toNat ∧ t.year.toNat < 10 ^ 4 := by
  obtain ⟨lower, upper⟩ := plain
  exact ⟨if_pos ⟨lower, upper⟩, by omega⟩

theorem text_lt {a b : Timestamp} (plainA : a.HasPlainYear) (plainB : b.HasPlainYear) (earlier : a < b) :
    a.text < b.text := by
  have ordered : a.fields < b.fields := earlier
  simp only [fields, List.cons_lt_cons_iff, Int.ofNat_lt, Int.natCast_inj, lt_self_iff_false, and_false,
    or_false] at ordered
  obtain ⟨yearA, smallA⟩ := plainA.yearCharacters
  obtain ⟨yearB, smallB⟩ := plainB.yearCharacters
  obtain ⟨hourA, minuteA, secondA, -⟩ := a.validTime
  obtain ⟨hourB, minuteB, secondB, nanosecondB⟩ := b.validTime
  have years : a.year.toNat < b.year.toNat ∨ a.year.toNat = b.year.toNat ∧ _ :=
    ordered.imp (fun less => by have nonnegative := plainA.1; omega) (And.imp_left fun same => by rw [same])
  -- each field decides unless it is the same in both, in which case the next one does
  rw [String.lt_iff_toList_lt, text_toList, text_toList]
  simp only [dateCharacters, timeCharacters, yearA, yearB, List.append_assoc, List.cons_append]
  refine paddedDigits_mark_lt (by decide) smallA smallB (years.imp_right (And.imp_right fun months => ?_))
  refine paddedDigits_mark_lt (by decide) a.month_lt b.month_lt (months.imp_right (And.imp_right fun days => ?_))
  refine paddedDigits_mark_lt (by decide) a.day_lt b.day_lt (days.imp_right (And.imp_right fun hours => ?_))
  refine paddedDigits_mark_lt (by decide) (by omega) (by omega) (hours.imp_right (And.imp_right fun minutes => ?_))
  refine paddedDigits_mark_lt (by decide) (by omega) (by omega) (minutes.imp_right (And.imp_right fun seconds => ?_))
  refine paddedDigits_append_lt (by decide) (by omega) (by omega) (seconds.imp_right (And.imp_right fun fraction => ?_))
  exact fractionCharacters_lt fraction nanosecondB

theorem cmp_octets_text {a b : Timestamp} (plainA : a.HasPlainYear) (plainB : b.HasPlainYear) :
    cmp (Text.octets a.text) (Text.octets b.text) = cmp a b := by
  have increasing : StrictMonoOn Timestamp.text {t | t.HasPlainYear} := fun _ plain _ plain' => text_lt plain plain'
  rw [Text.cmp_octets]
  exact increasing.cmp_map_eq plainA plainB

end Timestamp

/-- Texts are compared octet by octet. -/
def Collation.ComparesOctets (c : Collation) : Prop :=
  ∀ a b, c.order (.text a) (.text b) = cmp (Text.octets a) (Text.octets b)

theorem Collation.standard_comparesOctets : Collation.standard.ComparesOctets :=
  fun a b => (Text.cmp_octets a b).symm

structure Interval.HasPlainYears (i : Interval) : Prop where
  opening : i.opening.HasPlainYear
  closing : ∀ t, i.closing = some t → t.HasPlainYear

/-- The interval stands in two columns of a row as text, with nothing in the second one while it is open. -/
structure Record.IsDated (record : Record) (opening closing : String) (i : Interval) : Prop where
  opening : record opening = .text i.opening.text
  closing : record closing = (i.closing.map fun t => Value.text t.text).getD .null

theorem ColumnType.literal_timestamp (type : ColumnType) (t : Timestamp) :
    type.literal (.timestamp t) = .string t.text := by
  cases type <;> rfl

namespace Entity

open Sql

variable {c : Collation} {e : Entity} {version : VersionColumns} {opening closing : String} {frame : Frame}
  {table : Nat} {i : Interval} {t : Timestamp}

/-- Where texts are compared octet by octet, the version constraint finds the interval that covers the time, though
the database holds only texts. -/
theorem versionConstraint?_dated (octets : c.ComparesOctets) (versioned : e.version = some version)
    (opens : version.opening.column = some opening) (closes : version.closing.column = some closing)
    (plain : t.HasPlainYear) (plains : i.HasPlainYears) (dated : (frame.rows table).IsDated opening closing i) :
    ∃ constraint, e.versionConstraint? (some t) table = some constraint ∧
      (constraint.holds c frame = true ↔ i.Covers t) := by
  have began : ((Expr.columnOf table opening).atMost (.string t.text)).holds c frame = true ↔ i.opening ≤ t := by
    simp only [Expr.holds, Expr.atMost, Expr.eval, Operator.apply, Expr.eval_columnOf, Expr.string,
      Sql.Literal.value, dated.opening, Value.truth_value, Collation.compare, Value.isNull, Bool.or_false,
      Bool.false_eq_true, if_false, Truth.holds_some, bne_iff_ne, ne_eq]
    rw [octets, Timestamp.cmp_octets_text plains.opening plain, cmp_eq_gt_iff, not_lt]
  have lasts : ((Expr.columnOf table closing).greater (.string t.text)).holds c frame = true ∨
      (frame.rows table closing).isNull = true ↔ ∀ ending, i.closing = some ending → t < ending := by
    cases ends : i.closing with
    | none => simp [dated.closing, ends, Value.isNull]
    | some ending =>
        have held : frame.rows table closing = .text ending.text := by rw [dated.closing, ends]; rfl
        simp only [Expr.holds, Expr.greater, Expr.eval, Operator.apply, Expr.eval_columnOf, Expr.string,
          Sql.Literal.value, held, Value.truth_value, Collation.compare, Value.isNull, Bool.or_false,
          Bool.false_eq_true, if_false, Truth.holds_some, beq_iff_eq, or_false]
        rw [octets, Timestamp.cmp_octets_text (plains.closing ending ends) plain, cmp_eq_gt_iff]
        simp
  refine ⟨((Expr.columnOf table opening).atMost (.string t.text)).conjoined
    (((Expr.columnOf table closing).greater (.string t.text)).disjoined (Expr.columnOf table closing).isNull), ?_, ?_⟩
  · simp only [versionConstraint?, versioned, opens, closes, ColumnType.literal_timestamp]
  · rw [Expr.holds_conjoined, Bool.and_eq_true, began, Expr.holds_disjoined, Bool.or_eq_true, Expr.holds_isNull,
      Expr.eval_columnOf, lasts, Interval.Covers]

end Entity

/-- Every timestamp is read back from its text. While years have four digits, the texts of timestamps are in the order
of time, octet by octet, and a version constraint that compares such texts finds the versions whose interval covers
the time that is asked for. -/
theorem timestamps_are_sorted_texts :
    (∀ t : Timestamp, Timestamp.read? t.text = some t) ∧
    (∀ a b : Timestamp, a.HasPlainYear → b.HasPlainYear →
      cmp (Text.octets a.text) (Text.octets b.text) = cmp a b) ∧
    ∀ (c : Collation) (e : Entity) (version : VersionColumns) (opening closing : String) (frame : Frame) (table : Nat)
      (i : Interval) (t : Timestamp), c.ComparesOctets → e.version = some version →
      version.opening.column = some opening → version.closing.column = some closing → t.HasPlainYear →
      i.HasPlainYears → (frame.rows table).IsDated opening closing i →
      ∃ constraint, e.versionConstraint? (some t) table = some constraint ∧
        (constraint.holds c frame = true ↔ i.Covers t) :=
  ⟨Timestamp.read?_text, fun _ _ => Timestamp.cmp_octets_text,
    fun _ _ _ _ _ _ _ _ _ octets versioned opens closes plain plains dated =>
      Entity.versionConstraint?_dated octets versioned opens closes plain plains dated⟩

namespace Lease

def column (property : String) : Attribute :=
  { Attribute.ofColumn property (some property) .timestamp with id := ⟨"Lease", property⟩ }

def entity : Entity where
  name := "Lease"
  table := "lease"
  parent := none
  attributes := [column "begins", column "ends"]
  discriminator := none
  version := some ⟨column "begins", column "ends"⟩

def leapSecond : Timestamp :=
  ⟨2016, 12, 31, 23, 59, 60, 500000000, by decide, by decide⟩

theorem validMidnight : ValidTime 0 0 0 0 := by
  decide

def newYear : Timestamp :=
  ⟨2017, 1, 1, 0, 0, 0, 0, by decide, validMidnight⟩

def record : Record
  | "begins" => .text "2016-12-31 23:59:60"
  | "ends" => .text "2017-01-01 00:00:00"
  | _ => .null

theorem record_isDated : record.IsDated "begins" "ends" ⟨leapSecond.truncated, some newYear⟩ where
  opening := congrArg Value.text (by decide +kernel : "2016-12-31 23:59:60" = leapSecond.truncated.text)
  closing := congrArg Value.text (by decide +kernel : "2017-01-01 00:00:00" = newYear.text)

/-- The lease is found in the leap second, which is before the new year in both orders. -/
theorem leapSecond_is_leased :
    Timestamp.read? leapSecond.text = some leapSecond ∧
    cmp (Text.octets leapSecond.text) (Text.octets newYear.text) = .lt ∧
    ∃ constraint, entity.versionConstraint? (some leapSecond) 0 = some constraint ∧
      constraint.holds .standard (.ofRow record) = true := by
  obtain ⟨read, sorted, covered⟩ := timestamps_are_sorted_texts
  refine ⟨read leapSecond, (sorted leapSecond newYear (by decide) (by decide)).trans (by decide), ?_⟩
  obtain ⟨constraint, compiled, holds⟩ := covered .standard entity _ "begins" "ends" (.ofRow record) 0
    ⟨leapSecond.truncated, some newYear⟩ leapSecond Collation.standard_comparesOctets rfl rfl rfl (by decide)
    ⟨by decide, by rintro _ ⟨⟩; decide⟩ record_isDated
  exact ⟨constraint, compiled, holds.mpr ⟨by decide, by rintro _ ⟨⟩; decide⟩⟩

end Lease

end ViewEngine
