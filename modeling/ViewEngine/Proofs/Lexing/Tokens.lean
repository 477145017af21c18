import ViewEngine.Proofs.Lexing.Lexer
import ViewEngine.Proofs.Text.Digits
import ViewEngine.Sql.Token

namespace ViewEngine.Sql

open Reading

def separators : List Char :=
  [' ', '\n', '(', ')', ',']

structure Reading.IsLoose (reading : Reading) : Prop where
  complete : reading.isComplete = true
  cut : ∀ c ∈ separators, reading.goOn? c = none

instance (reading : Reading) : Decidable reading.IsLoose :=
  decidable_of_iff (reading.isComplete = true ∧ (separators.all fun c => (reading.goOn? c).isNone) = true) <| by
    simp only [List.all_eq_true, Option.isNone_iff_eq_none]
    exact ⟨fun loose => ⟨loose.1, loose.2⟩, fun loose => ⟨loose.complete, loose.cut⟩⟩

namespace Reading

theorem forall_separators {property : Char → Prop} (space : property ' ') (newline : property '\n')
    (opening : property '(') (closing : property ')') (comma : property ',') :
    ∀ c ∈ separators, property c := by
  intro c member
  simp only [separators, List.mem_cons, List.not_mem_nil, or_false] at member
  rcases member with rfl | rfl | rfl | rfl | rfl
  · exact space
  · exact newline
  · exact opening
  · exact closing
  · exact comma

theorem not_isWordCharacter_of_separator : ∀ c ∈ separators, isWordCharacter c = false :=
  forall_separators rfl rfl rfl rfl rfl

theorem nothing_isLoose : nothing.IsLoose := by
  decide

theorem word_isLoose (read : List Char) : (word read).IsLoose := by
  refine ⟨rfl, fun c member => ?_⟩
  simp [goOn?, not_isWordCharacter_of_separator c member]

theorem parameter_isLoose {read : List Char} (nonempty : read ≠ []) : (parameter read).IsLoose := by
  refine ⟨rfl, fun c member => ?_⟩
  simp [goOn?, not_isWordCharacter_of_separator c member, nonempty]

theorem number_isLoose (read : List Char) : (number read).IsLoose :=
  ⟨rfl, forall_separators rfl rfl rfl rfl rfl⟩

theorem unquoted_isLoose {quote : Char} (isQuote : quote = '\'' ∨ quote = '"') (read : List Char) :
    (unquoted quote read).IsLoose := by
  rcases isQuote with rfl | rfl <;> exact ⟨rfl, forall_separators rfl rfl rfl rfl rfl⟩

end Reading

theorem isWordCharacter_of_isDigit {c : Char} (digit : c.isDigit = true) : isWordCharacter c = true := by
  simp [isWordCharacter, Char.isAlphanum, digit]

def ArePositional (characters : List Char) : Prop :=
  ∀ c ∈ characters, isWordCharacter c = true ∨ c = '.'

theorem ArePositional.of_digits {digits : List Char} (allDigits : ∀ c ∈ digits, c.isDigit = true) :
    ArePositional digits :=
  fun c member => .inl (isWordCharacter_of_isDigit (allDigits c member))

theorem ArePositional.append {before after : List Char} (first : ArePositional before)
    (second : ArePositional after) : ArePositional (before ++ after) := by
  intro c member
  rcases List.mem_append.mp member with inFirst | inSecond
  · exact first c inFirst
  · exact second c inSecond

theorem arePositional_point : ArePositional ".".toList :=
  fun _ member => .inr (List.mem_singleton.mp member)

theorem arePositional_fraction {digits : List Char} (allDigits : ∀ c ∈ digits, c.isDigit = true) :
    ArePositional (if digits.isEmpty then "" else "." ++ String.ofList digits).toList := by
  split
  · exact fun c none => absurd none List.not_mem_nil
  · simp only [String.toList_append, String.toList_ofList]
    exact arePositional_point.append (.of_digits allDigits)

theorem isWhitespace_of_isWordCharacter {c : Char} (letter : isWordCharacter c = true) :
    c.isWhitespace = false := by
  cases white : c.isWhitespace with
  | false => rfl
  | true =>
      simp only [Char.isWhitespace, Bool.or_eq_true, decide_eq_true_eq] at white
      rcases white with ((rfl | rfl) | rfl) | rfl <;> contradiction

theorem run_numeral {first : Char} {rest : List Char} (digit : first.isDigit = true)
    (numeric : ArePositional rest) :
    nothing.run (first :: rest) = (number (first :: rest), []) := by
  have visible := isWhitespace_of_isWordCharacter (isWordCharacter_of_isDigit digit)
  have begins : nothing.step first = (number [first], []) := by
    simp [step, goOn?, begin, visible, digit, lexemes]
  simp only [run, begins, run_number numeric, List.singleton_append, List.nil_append]

structure IsNumeral (characters : List Char) : Prop where
  digit : ∃ first rest, characters = first :: rest ∧ first.isDigit = true
  run : nothing.run characters = (number characters, [])

namespace IsNumeral

variable {characters digits rest : List Char}

theorem of_digits (nonempty : digits ≠ []) (allDigits : ∀ c ∈ digits, c.isDigit = true)
    (numeric : ArePositional rest) : IsNumeral (digits ++ rest) := by
  cases digits with
  | nil => contradiction
  | cons first more =>
      have digit := allDigits first (List.mem_cons_self ..)
      refine ⟨⟨first, more ++ rest, rfl, digit⟩, run_numeral digit fun c member => ?_⟩
      rcases List.mem_append.mp member with inDigits | inRest
      · exact .inl (isWordCharacter_of_isDigit (allDigits c (List.mem_cons_of_mem _ inDigits)))
      · exact numeric c inRest

theorem run_further (numeral : IsNumeral characters) (numeric : ArePositional rest) :
    nothing.run (characters ++ rest) = (number (characters ++ rest), []) := by
  rw [run_append, numeral.run, run_number numeric, List.nil_append]

theorem append (numeral : IsNumeral characters) (numeric : ArePositional rest) :
    IsNumeral (characters ++ rest) := by
  obtain ⟨first, more, rfl, digit⟩ := numeral.digit
  exact ⟨⟨first, more ++ rest, rfl, digit⟩, numeral.run_further numeric⟩

/-- A sign belongs to the number only behind the mark of an exponent. -/
theorem exponent (numeral : IsNumeral characters) (allDigits : ∀ c ∈ digits, c.isDigit = true) :
    IsNumeral (characters ++ 'e' :: '-' :: digits) := by
  obtain ⟨first, more, shape, digit⟩ := numeral.digit
  have sign : (number (characters ++ ['e'])).run ('-' :: digits) = (number (characters ++ 'e' :: '-' :: digits), []) := by
    have goesOn : (number (characters ++ ['e'])).goOn? '-' = some (number (characters ++ ['e', '-']), []) := by
      simp [goOn?]
    have further := run_number (fun c member => .inl (isWordCharacter_of_isDigit (allDigits c member)))
      (characters ++ ['e', '-'])
    simp only [Reading.run, step_of_goOn goesOn, further, List.nil_append, List.append_assoc, List.cons_append]
  refine ⟨⟨first, more ++ 'e' :: '-' :: digits, by rw [shape, List.cons_append], digit⟩, ?_⟩
  have mark : ArePositional ['e'] := by simp [ArePositional, isWordCharacter]
  have marked := numeral.run_further mark
  have cut : characters ++ 'e' :: '-' :: digits = (characters ++ ['e']) ++ '-' :: digits := by simp
  rw [cut, run_append, marked, sign, ← cut, List.nil_append]

theorem isLoose (numeral : IsNumeral characters) : (nothing.run characters).1.IsLoose := by
  rw [numeral.run]
  exact number_isLoose characters

theorem negative_isLoose (numeral : IsNumeral characters) : (nothing.run ('-' :: characters)).1.IsLoose := by
  obtain ⟨first, more, rfl, digit⟩ := numeral.digit
  have cut : (operator '-').goOn? first = none := by
    have noSign : first ≠ '-' := by
      rintro rfl
      contradiction
    simp [goOn?, noSign, pairs]
  have begins : nothing.run ('-' :: first :: more) = (operator '-').run (first :: more) := rfl
  rw [begins, run_cut cut]
  exact numeral.isLoose

end IsNumeral

theorem natural_isNumeral (n : Nat) : IsNumeral (toString n).toList := by
  have nothingMore : ArePositional [] := fun c none => absurd none List.not_mem_nil
  have numeral := IsNumeral.of_digits (toString_nonempty n) (isDigit_toString n) nothingMore
  rwa [List.append_nil] at numeral

theorem integer_isLoose (n : Int) : (nothing.run (toString n).toList).1.IsLoose := by
  cases n with
  | ofNat n => exact (natural_isNumeral n).isLoose
  | negSucc n =>
      rw [toString_negSucc]
      exact (natural_isNumeral (n + 1)).negative_isLoose

theorem IsNumeral.scaled {characters : List Char} (numeral : IsNumeral characters) (power : Int) :
    IsNumeral (characters ++ 'e' :: (toString power).toList) := by
  cases power with
  | ofNat n =>
      refine numeral.append fun c member => .inl ?_
      rcases List.mem_cons.mp member with rfl | digit
      · rfl
      · exact isWordCharacter_of_isDigit (isDigit_toString n c digit)
  | negSucc n =>
      rw [toString_negSucc]
      exact numeral.exponent (isDigit_toString (n + 1))

theorem isDigit_zeros (n : Nat) : ∀ c ∈ (Double.zeros n).toList, c.isDigit = true := by
  intro c member
  rw [Double.zeros, String.toList_ofList] at member
  rw [List.eq_of_mem_replicate member]
  rfl

theorem decimal_isNumeral (d : Double.Decimal) : IsNumeral d.text.toList := by
  have digits := isDigit_toString d.digits
  have nonempty := toString_nonempty d.digits
  have taken {count : Nat} (some : 0 < count) : (toString d.digits).toList.take count ≠ [] := by
    rw [ne_eq, List.take_eq_nil_iff]
    rintro (none | none)
    · omega
    · exact nonempty none
  have takenDigits (count : Nat) : ∀ c ∈ (toString d.digits).toList.take count, c.isDigit = true :=
    fun c member => digits c (List.mem_of_mem_take member)
  have droppedDigits (count : Nat) : ∀ c ∈ (toString d.digits).toList.drop count, c.isDigit = true :=
    fun c member => digits c (List.mem_of_mem_drop member)
  unfold Double.Decimal.text
  dsimp only
  split
  next =>
    have integral : ArePositional ".0".toList := arePositional_point.append (.of_digits (isDigit_zeros 1))
    rw [String.toList_append, String.toList_append, List.append_assoc]
    exact .of_digits nonempty digits ((ArePositional.of_digits (isDigit_zeros _)).append integral)
  next =>
    split
    next positive =>
      have some : 0 < ((toString d.digits).length + d.power).toNat := by omega
      simp only [String.toList_append, String.toList_ofList, List.append_assoc]
      exact .of_digits (taken some) (takenDigits _)
        (arePositional_point.append (.of_digits (droppedDigits _)))
    next =>
      split
      next =>
        have start : IsNumeral "0.".toList := ⟨⟨'0', ['.'], rfl, rfl⟩, rfl⟩
        rw [String.toList_append, String.toList_append, List.append_assoc]
        exact start.append ((ArePositional.of_digits (isDigit_zeros _)).append (.of_digits digits))
      next =>
        have mantissa := IsNumeral.of_digits (taken Nat.one_pos) (takenDigits 1)
          (arePositional_fraction (droppedDigits 1))
        rw [String.toList_append, String.toList_append, String.toList_append, String.toList_ofList,
          List.append_assoc]
        exact mantissa.scaled _

theorem double_isLoose {x : Double} (finite : x.isFinite = true) : (nothing.run x.text.toList).1.IsLoose := by
  cases x with
  | notANumber => contradiction
  | infinite => contradiction
  | finite negative significand exponent normal =>
      have magnitude : IsNumeral
          (if significand = 0 then "0.0" else (Double.shortest significand exponent).text).toList := by
        split
        · exact ⟨⟨'0', ['.', '0'], rfl, rfl⟩, rfl⟩
        · exact decimal_isNumeral _
      unfold Double.text
      dsimp only
      split
      · rw [String.toList_append]
        exact magnitude.negative_isLoose
      · exact magnitude.isLoose

theorem keyword_isLoose (word : Keyword) : (nothing.run word.text.toList).1.IsLoose := by
  cases word <;> decide

theorem run_blanks (count : Nat) : nothing.run (List.replicate count ' ') = (nothing, []) := by
  induction count with
  | zero => rfl
  | succ count ih =>
      have blank : nothing.step ' ' = (nothing, []) := rfl
      rw [List.replicate_succ, run, blank]
      simp only [ih, List.append_nil]

theorem quoted_run {quote : Char} (isQuote : quote = '\'' ∨ quote = '"') (text : String) :
    nothing.run (Dialect.quoted quote text).toList = (unquoted quote text.toList, []) := by
  have opens : nothing.step quote = (quoted quote [], []) := by
    rcases isQuote with rfl | rfl <;> rfl
  have closes : (quoted quote text.toList).run [quote] = (unquoted quote text.toList, []) := by
    simp [run, step, goOn?]
  rw [Dialect.quoted, String.toList_ofList, List.cons_append, run, opens]
  simp only [run_append, run_doubled, List.nil_append, closes]

theorem name_isLoose {name : String} (isName : IsName name) : (nothing.run name.toList).1.IsLoose := by
  obtain ⟨first, rest, shape⟩ := List.exists_cons_of_ne_nil (mt String.toList_eq_nil_iff.mp isName.1)
  have letters := isName.2
  rw [shape, List.forall_mem_cons] at letters
  obtain ⟨letter, others⟩ := letters
  by_cases digit : first.isDigit = true
  · rw [shape, run_numeral digit fun c member => .inl (others c member)]
    exact number_isLoose _
  · have begins : nothing.step first = (word [first], []) := by
      simp [step, goOn?, begin, isWhitespace_of_isWordCharacter letter, digit, letter, lexemes]
    simp only [shape, run, begins, run_word others]
    exact word_isLoose _

theorem tableAlias_run (table : Nat) :
    nothing.run (tableAlias table).toList = (word (tableAlias table).toList, []) := by
  have begins : nothing.run "t".toList = (word ['t'], []) := rfl
  have letters := run_word (fun c member => isWordCharacter_of_isDigit (isDigit_toString table c member)) ['t']
  rw [tableAlias, String.toList_append, run_append, begins, letters]
  rfl

namespace Reading

variable {before rest : List Char}

theorem run_after (blank : (nothing.run before).1 = nothing) :
    (nothing.run (before ++ rest)).1 = (nothing.run rest).1 := by
  rw [run_append, blank]

theorem run_apart {c : Char} (cut : (nothing.run before).1.goOn? c = none) :
    (nothing.run (before ++ c :: rest)).1 = (nothing.run (c :: rest)).1 := by
  rw [run_append, run_cut cut]

end Reading

theorem counted_isLoose {heading : String} (blank : (nothing.run heading.toList).1 = nothing) (n : UInt64) :
    (nothing.run (heading ++ Dialect.countText n).toList).1.IsLoose := by
  rw [String.toList_append, run_after blank]
  exact integer_isLoose _

theorem counted_twice_isLoose (first second : String) (blank : (nothing.run first.toList).1 = nothing)
    (blank' : (nothing.run second.toList).1 = nothing) (n m : UInt64) :
    (nothing.run (first ++ Dialect.countText n ++ " " ++ (second ++ Dialect.countText m)).toList).1.IsLoose := by
  have cut := (counted_isLoose blank n).cut ' ' (by decide)
  have again : nothing.run (' ' :: (second ++ Dialect.countText m).toList) =
      nothing.run (second ++ Dialect.countText m).toList := rfl
  rw [String.toList_append, String.toList_append, List.append_assoc]
  change (nothing.run (_ ++ ' ' :: _)).1.IsLoose
  rw [run_apart cut]
  change (nothing.run (' ' :: (second ++ Dialect.countText m).toList)).1.IsLoose
  rw [again]
  exact counted_isLoose blank' m

theorem pagination_isLoose (dialect : Dialect) (offset limit : Option UInt64) :
    (nothing.run (dialect.pagination offset limit).toList).1.IsLoose := by
  have written (first second : String) (n m : UInt64) :
      first ++ Dialect.countText n ++ (" " ++ second) ++ Dialect.countText m =
        first ++ Dialect.countText n ++ " " ++ (second ++ Dialect.countText m) := by
    simp only [String.append_assoc]
  cases offset with
  | none =>
      cases limit with
      | none => cases dialect <;> decide
      | some limit => cases dialect <;> exact counted_isLoose rfl limit
  | some offset =>
      cases limit with
      | none => cases dialect <;> exact counted_isLoose rfl offset
      | some limit =>
          cases dialect with
          | postgres =>
              have both := counted_twice_isLoose "OFFSET " "LIMIT " rfl rfl offset limit
              rwa [← written] at both
          | sqlite =>
              have both := counted_twice_isLoose "LIMIT " "OFFSET " rfl rfl limit offset
              rwa [← written] at both

theorem wholeRow_isLoose (dialect : Dialect) (table : Nat) (keyColumn : String) :
    (nothing.run (dialect.wholeRow (tableAlias table) keyColumn).toList).1.IsLoose := by
  have cut : (nothing.run (tableAlias table).toList).1.goOn? '.' = none := by
    rw [tableAlias_run]
    rfl
  cases dialect with
  | postgres =>
      rw [Dialect.wholeRow, String.toList_append]
      change (nothing.run (_ ++ '.' :: ['*'])).1.IsLoose
      rw [run_apart cut]
      decide
  | sqlite =>
      have dot : nothing.run ".".toList = (operator '.', []) := rfl
      obtain ⟨rest, shape⟩ : ∃ rest, (Dialect.quoted '"' keyColumn).toList = '"' :: rest := by
        rw [Dialect.quoted, String.toList_ofList, List.cons_append]
        exact ⟨_, rfl⟩
      have opens : (nothing.run ".".toList).1.goOn? '"' = none := rfl
      rw [Dialect.wholeRow, String.toList_append, String.toList_append, List.append_assoc]
      change (nothing.run (_ ++ '.' :: _)).1.IsLoose
      rw [run_apart cut]
      change (nothing.run (".".toList ++ _)).1.IsLoose
      rw [shape, run_apart opens, ← shape, quoted_run (.inr rfl)]
      exact unquoted_isLoose (.inr rfl) _

def Token.name? : Token → Option String
  | .parameter name | .function name => some name
  | _ => none

def Token.IsNamed (token : Token) : Prop :=
  ∀ name ∈ token.name?, IsName name

instance (token : Token) : Decidable token.IsNamed :=
  inferInstanceAs (Decidable (∀ name ∈ token.name?, IsName name))

theorem Token.isNamed_of_none {token : Token} (unnamed : token.name? = none) : token.IsNamed := by
  intro name isName
  rw [unnamed] at isName
  cases isName

theorem Token.isLoose (dialect : Dialect) {token : Token} (named : token.IsNamed) :
    (nothing.run (token.text dialect).toList).1.IsLoose := by
  cases token with
  | keyword word => exact keyword_isLoose word
  | symbol mark => cases dialect <;> cases mark <;> decide
  | space =>
      change (nothing.run " ".toList).1.IsLoose
      decide
  | newline =>
      change (nothing.run "\n".toList).1.IsLoose
      decide
  | indent levels =>
      rw [Token.text, String.toList_ofList, run_blanks]
      exact nothing_isLoose
  | identifier name =>
      change (nothing.run (Dialect.quoted '"' name).toList).1.IsLoose
      rw [quoted_run (.inr rfl)]
      exact unquoted_isLoose (.inr rfl) _
  | tableAlias table =>
      rw [Token.text, tableAlias_run]
      exact word_isLoose _
  | integer value => exact integer_isLoose _
  | float value =>
      rw [Token.text]
      split
      next finite => exact double_isLoose finite
      next => decide
  | string value =>
      change (nothing.run (Dialect.quoted '\'' value).toList).1.IsLoose
      rw [quoted_run (.inl rfl)]
      exact unquoted_isLoose (.inl rfl) _
  | boolean value => cases dialect <;> cases value <;> decide
  | null =>
      change (nothing.run "NULL".toList).1.IsLoose
      decide
  | parameter name =>
      have begins : nothing.run ":".toList = (.parameter [], []) := rfl
      change (nothing.run (":" ++ name).toList).1.IsLoose
      rw [String.toList_append, run_append, begins, run_parameter (named name rfl).2, List.nil_append]
      exact parameter_isLoose (mt String.toList_eq_nil_iff.mp (named name rfl).1)
  | textType => cases dialect <;> decide
  | function name => exact name_isLoose (Text.isName_toUpper (named name rfl))
  | wholeRow table keyColumn => exact wholeRow_isLoose dialect table keyColumn
  | pagination offset limit => exact pagination_isLoose dialect offset limit

end ViewEngine.Sql
