import SmallLisp.Reader.Token

/-! # Numerals denote the integers they are written for

The written form of an integer is a numeral of the reader, no longer than the limit, and denotes
the integer again.
-/
namespace SmallLisp.Text

theorem decimalValue_of_isDigit {c : Char} (h : c.isDigit = true) :
    decimalValue? c = some (c.toNat - 48) := by
  obtain ⟨hl, hr⟩ := Char.isDigit_iff_toNat.mp h
  have hfind : (decimalZeros.find? fun z => z ≤ c.toNat && c.toNat < z + 10) = some 0x30 := by
    apply List.find?_cons_of_pos
    simp only [Bool.and_eq_true, decide_eq_true_eq]
    exact ⟨hl, Nat.lt_succ_of_le hr⟩
  rw [decimalValue?, hfind]
  rfl

theorem isDecimal_of_isDigit {c : Char} (h : c.isDigit = true) : isDecimal c = true := by
  simp [isDecimal, decimalValue_of_isDigit h]

theorem decimalValue_lt {c : Char} {digit : Nat} (h : decimalValue? c = some digit) :
    digit < 10 := by
  obtain ⟨least, hleast, rfl⟩ := Option.map_eq_some_iff.mp h
  have hrange := List.find?_some hleast
  simp only [Bool.and_eq_true, decide_eq_true_eq] at hrange
  omega

theorem decimalNumber_lt (digits : List Char) :
    decimalNumber digits < Nat.pow 10 digits.length := by
  suffices hfold : ∀ n, digits.foldl (fun n c => 10 * n + (decimalValue? c).getD 0) n <
      (n + 1) * Nat.pow 10 digits.length by
    have hzero := hfold 0
    rwa [Nat.zero_add, Nat.one_mul] at hzero
  induction digits with
  | nil => exact fun n => Nat.lt_of_lt_of_eq (Nat.lt_succ_self n) (Nat.mul_one _).symm
  | cons c digits ih =>
    intro n
    have hdigit : (decimalValue? c).getD 0 < 10 := by
      cases hc : decimalValue? c with
      | none => exact Nat.zero_lt_succ 9
      | some digit => exact decimalValue_lt hc
    have hhead : 10 * n + (decimalValue? c).getD 0 + 1 ≤ (n + 1) * 10 := by omega
    have hpow : 10 * Nat.pow 10 digits.length = Nat.pow 10 (digits.length + 1) :=
      Nat.mul_comm 10 _
    calc digits.foldl (fun n c => 10 * n + (decimalValue? c).getD 0)
          (10 * n + (decimalValue? c).getD 0)
        < (10 * n + (decimalValue? c).getD 0 + 1) * Nat.pow 10 digits.length := ih _
      _ ≤ (n + 1) * 10 * Nat.pow 10 digits.length := Nat.mul_le_mul_right _ hhead
      _ = (n + 1) * Nat.pow 10 (digits.length + 1) := by rw [Nat.mul_assoc, hpow]

theorem natAbs_numeralValue (text : List Char) :
    (numeralValue text).natAbs = decimalNumber (splitSign text).2 := by
  unfold numeralValue
  dsimp only
  split
  · exact (Int.natAbs_neg _).trans (Int.natAbs_natCast _)
  · exact Int.natAbs_natCast _

/-- What a numeral within the limit denotes can be written. -/
theorem natAbs_numeralValue_lt {text : List Char} (h : numeralLength text ≤ digitLimit) :
    (numeralValue text).natAbs < numeralBound := by
  rw [natAbs_numeralValue]
  unfold numeralBound
  -- the bound itself is too large to be computed
  generalize digitLimit = limit at h ⊢
  exact Nat.lt_of_lt_of_le (decimalNumber_lt _) (Nat.pow_le_pow_right (Nat.zero_lt_succ 9) h)

/-- Among the digits of the basic Latin alphabet a run has its usual value. -/
theorem decimalNumber_eq_ofDigitChars {digits : List Char}
    (h : ∀ c ∈ digits, c.isDigit = true) :
    decimalNumber digits = Nat.ofDigitChars 10 digits 0 := by
  suffices hfold : ∀ n, digits.foldl (fun n c => 10 * n + (decimalValue? c).getD 0) n =
      Nat.ofDigitChars 10 digits n from hfold 0
  intro n
  rw [Nat.ofDigitChars_eq_foldl]
  induction digits generalizing n with
  | nil => rfl
  | cons c digits ih =>
    have hc : (decimalValue? c).getD 0 = c.toNat - '0'.toNat := by
      rw [decimalValue_of_isDigit (h c List.mem_cons_self)]
      rfl
    rw [List.foldl_cons, List.foldl_cons, hc]
    exact ih (fun d hd => h d (List.mem_cons_of_mem c hd)) _

theorem isDigit_of_mem_repr {n : Nat} {c : Char} (h : c ∈ n.repr.toList) :
    c.isDigit = true := by
  rw [Nat.toList_repr] at h
  exact Nat.isDigit_of_mem_toDigits (by decide) (by decide) h

theorem repr_toList_ne_nil (n : Nat) : n.repr.toList ≠ [] := by
  rw [Nat.toList_repr]
  exact Nat.toDigits_ne_nil

theorem splitSign_repr (n : Nat) : splitSign n.repr.toList = (false, n.repr.toList) := by
  have hd : ∀ c ∈ n.repr.toList, c.isDigit = true := fun c hc => isDigit_of_mem_repr hc
  generalize n.repr.toList = digits at hd
  cases digits with
  | nil => rfl
  | cons c digits =>
    have hc := hd c List.mem_cons_self
    unfold splitSign
    split
    · next h => cases h; exact absurd hc (by decide)
    · next h => cases h; exact absurd hc (by decide)
    · rfl

theorem decimalNumber_repr (n : Nat) : decimalNumber n.repr.toList = n := by
  rw [decimalNumber_eq_ofDigitChars fun c hc => isDigit_of_mem_repr hc, Nat.toList_repr]
  exact Nat.ofDigitChars_ten_toDigits

theorem length_repr_le {n digits : Nat} (hdigits : 0 < digits) (h : n < Nat.pow 10 digits) :
    n.repr.toList.length ≤ digits := by
  rw [Nat.toList_repr]
  exact (Nat.length_toDigits_le_iff (by decide) hdigits).mpr h

theorem exists_numeral {n : Int} (h : n.natAbs < numeralBound) :
    ∃ text, numeral? n = some text :=
  ⟨_, if_pos h⟩

/-- The written form of an integer splits into its sign and the digits of its size. -/
theorem splitSign_numeral {n : Int} {text : String} (h : numeral? n = some text) :
    n.natAbs < numeralBound ∧
      splitSign text.toList = (decide (n < 0), n.natAbs.repr.toList) := by
  unfold numeral? at h
  split at h
  · next hn =>
    refine ⟨hn, ?_⟩
    cases h
    by_cases hs : n < 0
    · simp [hs, splitSign]
    · simpa only [hs, if_false, decide_false] using splitSign_repr n.natAbs
  · cases h

theorem isNumeral_numeral {n : Int} {text : String} (h : numeral? n = some text) :
    isNumeral text.toList = true := by
  obtain ⟨_, hs⟩ := splitSign_numeral h
  have hd : ∀ c ∈ n.natAbs.repr.toList, isDecimal c = true := fun c hc =>
    isDecimal_of_isDigit (isDigit_of_mem_repr hc)
  simp only [isNumeral, hs, Bool.and_eq_true, Bool.not_eq_true', List.isEmpty_eq_false_iff,
    List.all_eq_true]
  exact ⟨repr_toList_ne_nil _, hd⟩

theorem numeralValue_numeral {n : Int} {text : String} (h : numeral? n = some text) :
    numeralValue text.toList = n := by
  obtain ⟨_, hs⟩ := splitSign_numeral h
  simp only [numeralValue, hs, decimalNumber_repr, decide_eq_true_eq]
  split <;> omega

theorem numeralLength_numeral {n : Int} {text : String} (h : numeral? n = some text) :
    numeralLength text.toList ≤ digitLimit := by
  obtain ⟨hn, hs⟩ := splitSign_numeral h
  simp only [numeralLength, hs]
  unfold numeralBound at hn
  exact length_repr_le (by decide) hn

/-- The characters of a numeral: a digit each, or a minus sign. -/
theorem mem_numeral {n : Int} {text : String} (h : numeral? n = some text) {c : Char}
    (hc : c ∈ text.toList) : c.isDigit = true ∨ c = '-' := by
  unfold numeral? at h
  split at h
  · cases h
    by_cases hs : n < 0
    · simp only [hs, if_true, String.toList_append, List.mem_append] at hc
      rcases hc with hc | hc
      · exact Or.inr (by simpa using hc)
      · exact Or.inl (isDigit_of_mem_repr hc)
    · simp only [hs, if_false] at hc
      exact Or.inl (isDigit_of_mem_repr hc)
  · cases h

theorem numeral_ne_nil {n : Int} {text : String} (h : numeral? n = some text) :
    text.toList ≠ [] := by
  intro hnil
  have := isNumeral_numeral h
  simp [hnil, isNumeral, splitSign] at this

end SmallLisp.Text
