import StakeLedger.Proofs.Decimal.Amount
import StakeLedger.Proofs.Identity.KeyText

/-!
# Amounts as they are printed

If a coin is worth a power of ten of units, an amount that is printed in whole coins is read back as
it was. The quotient has a finite expansion then, which the mantissa has room for. All its digits
are printed, and the reader takes all of them up. Zeros at the end of the fraction do no harm: when
there is no more room for them, they are rounded away, and nothing is lost by that. The product with
the scale may be too long for the mantissa as well, but zeros are all that it gives up.
`Coin.ofDecimalText_toDecimal` is the whole way there and back.
-/

namespace StakeLedger

/-! ## Exact quotients -/

namespace Decimal

section

variable {num den most : Nat} {d : Decimal}

/-- A quotient that is whole at some places, where the mantissa has room for it, is exact. -/
theorem Nearest.value_eq (h : Nearest num den most d) (pos : 0 < den) {places m : Nat}
    (whole : num * tenTo places = m * den) (places_le : places ≤ most)
    (room : m < 0x1000000000000000000000000) : d.value = num / den := by
  have enough : places ≤ d.places := by
    by_contra fewer
    have power : tenTo (d.places + 1) ≤ tenTo places := Nat.pow_le_pow_right (by decide) (by omega)
    have short := roundQuotient_le pos ((Nat.mul_le_mul_left num power).trans_eq whole)
    have long := h.full (by omega)
    omega
  have split : tenTo d.places = tenTo places * tenTo (d.places - places) := by
    simp only [tenTo, Nat.pow_eq, ← Nat.pow_add, Nat.add_sub_cancel' enough]
  have exact : num * tenTo d.places = m * tenTo (d.places - places) * den := by
    rw [split, ← Nat.mul_assoc, whole, Nat.mul_right_comm]
  have mantissa_eq := h.mantissa_eq
  rw [exact, roundQuotient_mul pos] at mantissa_eq
  have product : d.mantissa * den = num * tenTo d.places := by rw [exact, mantissa_eq]
  rw [value, div_eq_div_iff (by positivity) (Nat.cast_ne_zero.2 pos.ne'), ← cast_tenTo]
  exact_mod_cast product

/-- A quotient has a decimal number nearest to it if the mantissa has room for its whole part. -/
theorem exists_nearest? (room : roundQuotient num den < 0x1000000000000000000000000) (most : Nat) :
    ∃ d, nearest? num den most = some d := by
  induction most with
  | zero => exact ⟨⟨_, 0, room, by decide⟩, of?_eq_some_iff.2 ⟨rfl, rfl⟩⟩
  | succ fewer ih =>
    rw [nearest?]
    split
    · exact ⟨_, rfl⟩
    · exact ih

/-- What a whole product says of the mantissa. -/
theorem mantissa_mul_of_value {n c : Nat} (whole : d.value * n = c) :
    d.mantissa * n = c * tenTo d.places := by
  have product : (d.mantissa : ℚ) * n = c * (tenTo d.places : Nat) := by
    rw [← value_eq_mul, cast_tenTo, ← whole, mul_right_comm]
  exact_mod_cast product

/-- A decimal number that stands for a whole number has no other part. -/
theorem isWhole_of_value {c : Nat} (h : d.value = c) : d.isWhole = true ∧ d.wholePart = c := by
  have mantissa_eq := mantissa_mul_of_value (n := 1) (c := c) (by rw [Nat.cast_one, mul_one, h])
  rw [Nat.mul_one] at mantissa_eq
  rw [isWhole, wholePart, mantissa_eq, Nat.mul_mod_left, Nat.mul_div_cancel _ (tenTo_pos _)]
  exact ⟨rfl, rfl⟩

end

/-- The quotient of an amount and a power of ten of 64 binary digits is exact. -/
theorem exists_ofQuotient? {c k : Nat} (short : c < 0x10000000000000000) (k_le : k ≤ 28) :
    ∃ d, ofQuotient? c (10 ^ k) = some d ∧ d.value = c / 10 ^ k := by
  have pos : 0 < 10 ^ k := Nat.pow_pos (by decide)
  have small : roundQuotient c (10 ^ k) ≤ c := roundQuotient_le pos (Nat.le_mul_of_pos_right c pos)
  obtain ⟨d, hd⟩ := exists_nearest? (by omega : roundQuotient c (10 ^ k) < _) 28
  refine ⟨d, hd, ?_⟩
  rw [(nearest?_nearest hd le_rfl).value_eq pos rfl k_le (by omega)]
  norm_cast

/-- A product that is a whole number of 64 binary digits is exact, whatever places it gives up. -/
theorem exists_timesWhole? {d : Decimal} {n c : Nat} (whole : d.value * n = c)
    (short : c < 0x10000000000000000) : ∃ e, d.timesWhole? n = some e ∧ e.value = c := by
  unfold timesWhole?
  split_ifs with nothing
  · refine ⟨zero, rfl, ?_⟩
    rw [← whole]
    rcases nothing with nothing | nothing <;> simp [value, zero, nothing]
  have pos := tenTo_pos d.places
  have product : d.mantissa * n * tenTo 0 = c * tenTo d.places :=
    (Nat.mul_one _).trans (mantissa_mul_of_value whole)
  have room : roundQuotient (d.mantissa * n) (tenTo d.places) < 0x1000000000000000000000000 := by
    rw [mantissa_mul_of_value whole, roundQuotient_mul pos]
    omega
  obtain ⟨e, he⟩ := exists_nearest? room d.places
  refine ⟨e, he, ?_⟩
  rw [(nearest?_nearest he d.places_le).value_eq pos product (Nat.zero_le _) (by omega),
    mantissa_mul_of_value whole, Nat.cast_mul]
  exact mul_div_cancel_right₀ _ (Nat.cast_ne_zero.2 pos.ne')

/-! ## Printing -/

theorem dropZeros_value (mantissa places : Nat) :
    ((dropZeros mantissa places).1 : ℚ) / 10 ^ (dropZeros mantissa places).2 =
      mantissa / 10 ^ places := by
  induction places generalizing mantissa with
  | zero => rfl
  | succ places ih =>
    unfold dropZeros
    split
    · rename_i last
      obtain ⟨m, rfl⟩ := Nat.dvd_of_mod_eq_zero last
      rw [ih, Nat.mul_div_cancel_left m (by decide)]
      push_cast
      rw [pow_succ]
      field_simp
    · rfl

@[simp] theorem value_trimmed (d : Decimal) : d.trimmed.value = d.value :=
  dropZeros_value d.mantissa d.places

/-- The text of the number with zeros at the end of its fraction. -/
def textWith (d : Decimal) : (zeros : Nat) → String
  | 0 => d.text
  | zeros + 1 => String.ofList (d.text.toList ++
      ((if d.places = 0 then ['.'] else []) ++ List.replicate (zeros + 1) '0'))

/-- The digits of the fraction. -/
def fraction (d : Decimal) : List Char :=
  if d.places = 0 then [] else paddedDigits d.places (d.mantissa % tenTo d.places)

theorem toList_textWith (d : Decimal) (zeros : Nat) :
    (d.textWith zeros).toList = Nat.toDigits 10 d.wholePart ++
      if d.places + zeros = 0 then [] else '.' :: (d.fraction ++ List.replicate zeros '0') := by
  cases zeros with
  | zero => by_cases none : d.places = 0 <;> simp [textWith, text, fraction, wholePart, none]
  | succ zeros => by_cases none : d.places = 0 <;> simp [textWith, text, fraction, wholePart, none]

section

variable {width n : Nat}

theorem length_paddedDigits (pos : 0 < width) (short : n < tenTo width) :
    (paddedDigits width n).length = width := by
  have fits := (Nat.length_toDigits_le_iff (by decide) pos).2 short
  rw [paddedDigits, List.length_append, List.length_replicate, Nat.sub_add_cancel fits]

theorem isDigit_of_mem_paddedDigits {c : Char} (h : c ∈ paddedDigits width n) : c.isDigit := by
  rcases List.mem_append.1 h with zero | digit
  · rw [List.eq_of_mem_replicate zero]
    rfl
  · exact Nat.isDigit_of_mem_toDigits (by decide) (by decide) digit

theorem ofDigitChars_paddedDigits (pos : 0 < width) (short : n < tenTo width) (m : Nat) :
    Nat.ofDigitChars 10 (paddedDigits width n) m = m * tenTo width + n := by
  have length := length_paddedDigits pos short
  rw [Nat.ofDigitChars_eq_ofDigitChars_zero, length, paddedDigits, Nat.ofDigitChars_append,
    Nat.ofDigitChars_replicate_zero, Nat.mul_zero, Nat.ofDigitChars_ten_toDigits, Nat.mul_comm]
  rfl

end

section

variable (d : Decimal)

theorem length_fraction : d.fraction.length = d.places := by
  unfold fraction
  split_ifs with none
  · exact none.symm
  · exact length_paddedDigits (Nat.pos_of_ne_zero none) (Nat.mod_lt _ (tenTo_pos _))

theorem isDigit_of_mem_wholePart {c : Char} (h : c ∈ Nat.toDigits 10 d.wholePart) : c.isDigit :=
  Nat.isDigit_of_mem_toDigits (by decide) (by decide) h

theorem isDigit_of_mem_fraction {c : Char} (h : c ∈ d.fraction) : c.isDigit := by
  unfold fraction at h
  split_ifs at h
  · cases h
  · exact isDigit_of_mem_paddedDigits h

/-- The digits of the fraction, behind those of the whole part, make the mantissa. -/
theorem ofDigitChars_fraction : Nat.ofDigitChars 10 d.fraction d.wholePart = d.mantissa := by
  unfold fraction wholePart
  split_ifs with none
  · rw [none]
    exact Nat.div_one _
  · rw [ofDigitChars_paddedDigits (Nat.pos_of_ne_zero none) (Nat.mod_lt _ (tenTo_pos _)),
      Nat.div_add_mod']

theorem wholePart_le : d.wholePart ≤ d.mantissa := Nat.div_le_self _ _

/-- The text consists of digits and a point. -/
theorem isDigit_of_mem_textWith {zeros : Nat} {c : Char} (h : c ∈ (d.textWith zeros).toList) :
    c.isDigit ∨ c = '.' := by
  rw [toList_textWith] at h
  rcases List.mem_append.1 h with whole | tail
  · exact .inl (d.isDigit_of_mem_wholePart whole)
  split_ifs at tail
  · cases tail
  rcases List.mem_cons.1 tail with point | tail
  · exact .inr point
  rcases List.mem_append.1 tail with digit | zero
  · exact .inl (d.isDigit_of_mem_fraction digit)
  · rw [List.eq_of_mem_replicate zero]
    exact .inl rfl

end

end Decimal

/-! ## Reading what was printed -/

namespace Numeral

variable {mantissa places : Nat} {places? : Option Nat} {started : Bool} {rest : List Char}

theorem digitsFrom_taken {c : Char} (digit : c.isDigit) (notLast : places? ≠ some 28)
    (fits : 10 * mantissa + (c.toNat - '0'.toNat) < 0x1000000000000000000000000) :
    digitsFrom mantissa places? started (c :: rest) =
      digitsFrom (10 * mantissa + (c.toNat - '0'.toNat)) (places?.map (· + 1)) true rest := by
  rw [digitsFrom, digit?_eq_some_iff.2 ⟨digit, rfl⟩]
  generalize c.toNat - '0'.toNat = v at fits
  exact if_neg (by simpa [notLast] using fits)

theorem digitsFrom_rounded {c : Char} (digit : c.isDigit)
    (long : places = 28 ∨ 0x1000000000000000000000000 ≤ 10 * mantissa + (c.toNat - '0'.toNat)) :
    digitsFrom mantissa (some places) started (c :: rest) =
      roundedBy mantissa places (c.toNat - '0'.toNat) rest := by
  rw [digitsFrom, digit?_eq_some_iff.2 ⟨digit, rfl⟩]
  generalize c.toNat - '0'.toNat = v at long
  exact if_pos (by simpa using long)

/-- Digits are taken up while the mantissa has room for them and there are places left. -/
theorem digitsFrom_digits {digits : List Char} (all : ∀ c ∈ digits, c.isDigit)
    (room : Nat.ofDigitChars 10 digits mantissa < 0x1000000000000000000000000)
    (few : ∀ places ∈ places?, places + digits.length ≤ 28) :
    digitsFrom mantissa places? started (digits ++ rest) =
      digitsFrom (Nat.ofDigitChars 10 digits mantissa) (places?.map (· + digits.length))
        (started || !digits.isEmpty) rest := by
  induction digits generalizing mantissa places? started with
  | nil => simp [Nat.ofDigitChars]
  | cons c digits ih =>
    rw [List.forall_mem_cons] at all
    rw [Nat.ofDigitChars_cons] at room
    have fits := Nat.lt_of_le_of_lt (Written.le_ofDigitChars digits _) room
    have notLast : places? ≠ some 28 := by
      rintro rfl
      simpa using few 28 rfl
    have fewer : ∀ places ∈ places?.map (· + 1), places + digits.length ≤ 28 := by
      rintro _ hplaces
      obtain ⟨places, last, rfl⟩ := Option.map_eq_some_iff.1 hplaces
      have := few places last
      rw [List.length_cons] at this
      omega
    rw [List.cons_append, digitsFrom_taken all.1 notLast fits, ih all.2 room fewer,
      Nat.ofDigitChars_cons, Option.map_map]
    simp [Function.comp_def, Nat.add_assoc, Nat.add_comm 1]

/-- Zeros at the end change nothing. If there is no room for one, it is rounded away. -/
theorem exists_digitsFrom_zeros (mantissa_lt : mantissa < 0x1000000000000000000000000)
    (places_le : places ≤ 28) (zeros : Nat) :
    ∃ d, digitsFrom mantissa (some places) true (List.replicate zeros '0') = some d ∧
      d.value = mantissa / 10 ^ places := by
  induction zeros generalizing mantissa places with
  | zero =>
    exact ⟨⟨mantissa, places, mantissa_lt, places_le⟩, Decimal.of?_eq_some_iff.2 ⟨rfl, rfl⟩, rfl⟩
  | succ zeros ih =>
    rw [List.replicate_succ]
    by_cases long : places = 28 ∨
        0x1000000000000000000000000 ≤ 10 * mantissa + ('0'.toNat - '0'.toNat)
    · have groups : (List.replicate zeros '0').all isGroupChar = true := by simp [isGroupChar]
      rw [digitsFrom_rounded rfl long, roundedBy, groups]
      exact ⟨⟨mantissa, places, mantissa_lt, places_le⟩, Decimal.of?_eq_some_iff.2 ⟨rfl, rfl⟩, rfl⟩
    · rw [not_or, Nat.not_le] at long
      rw [digitsFrom_taken rfl (by simpa using long.1) long.2]
      obtain ⟨d, hd, value⟩ := ih long.2 (Nat.lt_of_le_of_ne places_le long.1)
      refine ⟨d, hd, ?_⟩
      rw [value, pow_succ, Nat.sub_self, Nat.add_zero]
      push_cast
      field_simp

theorem digitsFrom_point : digitsFrom mantissa none started ('.' :: rest) =
    digitsFrom mantissa (some 0) started rest := by
  rw [digitsFrom]
  rfl

/-- The text of a number, with zeros at the end or without, is read as the number. -/
theorem exists_digitsFrom_textWith (d : Decimal) (zeros : Nat) :
    ∃ e, digitsFrom 0 none false (d.textWith zeros).toList = some e ∧ e.value = d.value := by
  have whole : Nat.ofDigitChars 10 (Nat.toDigits 10 d.wholePart) 0 = d.wholePart :=
    Nat.ofDigitChars_ten_toDigits
  have started : (Nat.toDigits 10 d.wholePart).isEmpty = false :=
    List.isEmpty_eq_false_iff.2 Nat.toDigits_ne_nil
  have room := Nat.lt_of_le_of_lt d.wholePart_le d.mantissa_lt
  have noPlaces : ∀ places ∈ (none : Option Nat),
      places + (Nat.toDigits 10 d.wholePart).length ≤ 28 := nofun
  rw [d.toList_textWith, digitsFrom_digits (fun _ => d.isDigit_of_mem_wholePart) (whole.symm ▸ room)
    noPlaces, whole, started]
  simp only [Option.map_none, Bool.false_or, Bool.not_false]
  split_ifs with none
  · have none : d.places = 0 := by omega
    refine ⟨d, Decimal.of?_eq_some_iff.2 ⟨?_, none⟩, rfl⟩
    rw [Decimal.wholePart, none]
    exact (Nat.div_one _).symm
  · have few : ∀ places ∈ some 0, places + d.fraction.length ≤ 28 := by
      rintro _ ⟨⟩
      rw [d.length_fraction, Nat.zero_add]
      exact d.places_le
    rw [digitsFrom_point, digitsFrom_digits (fun _ => d.isDigit_of_mem_fraction)
      (d.ofDigitChars_fraction ▸ d.mantissa_lt) few, d.ofDigitChars_fraction, d.length_fraction]
    simp only [Option.map_some, Bool.true_or, Nat.zero_add]
    exact exists_digitsFrom_zeros d.mantissa_lt d.places_le zeros

/-- A text that begins with a digit has no sign. -/
theorem plain?_of_isDigit {c : Char} (digit : c.isDigit) :
    plain? (c :: rest) = (digitsFrom 0 none false (c :: rest)).map (⟨false, ·⟩) := by
  unfold plain?
  split
  · rename_i sign
    cases sign
    cases digit
  · rename_i sign
    cases sign
    cases digit
  · rfl

/-- The text of a number is read as that number, without a sign. -/
theorem exists_ofChars?_textWith (d : Decimal) (zeros : Nat) :
    ∃ e, ofChars? (d.textWith zeros).toList = some ⟨false, e⟩ ∧ e.value = d.value := by
  obtain ⟨e, read, value⟩ := exists_digitsFrom_textWith d zeros
  obtain ⟨c, digits, first⟩ : ∃ c digits, Nat.toDigits 10 d.wholePart = c :: digits :=
    List.exists_cons_of_ne_nil Nat.toDigits_ne_nil
  have digit : c.isDigit := d.isDigit_of_mem_wholePart (first ▸ List.mem_cons_self)
  refine ⟨e, ?_, value⟩
  rw [d.toList_textWith, first, List.cons_append] at read ⊢
  rw [ofChars?, plain?_of_isDigit digit, read]
  rfl

end Numeral

/-! ## Amounts -/

namespace Coin

/-- There are no blanks around the text of a number. -/
theorem trimBlank_textWith (d : Decimal) (zeros : Nat) :
    Text.trimBlank (d.textWith zeros).toList = (d.textWith zeros).toList := by
  apply Text.trimBlank_of_forall
  intro c hc
  rcases d.isDigit_of_mem_textWith hc with digit | rfl
  · have bounds : 48 ≤ c.toNat ∧ c.toNat ≤ 57 := Char.isDigit_iff_toNat.1 digit
    simp only [Text.isBlank, Bool.or_eq_false_iff, Bool.and_eq_false_iff, decide_eq_false_iff_not,
      beq_eq_false_iff_ne]
    omega
  · rfl

/-- An amount is read from any number that stands for it, with zeros at the end or without. -/
theorem ofDecimalText_textWith {d : Decimal} {coin : Coin} {scale : Word64}
    (whole : d.value * scale.val = coin.units) (zeros : Nat) :
    ofDecimalText (d.textWith zeros) scale = .ok coin := by
  obtain ⟨e, read, value⟩ := Numeral.exists_ofChars?_textWith d zeros
  obtain ⟨units, product, exact⟩ :=
    Decimal.exists_timesWhole? (value.symm ▸ whole) coin.units_lt
  obtain ⟨isWhole, wholePart⟩ := Decimal.isWhole_of_value exact
  simp [ofDecimalText, trimBlank_textWith, read, product, isWhole, wholePart]

/-- The expansion of an amount in whole coins is finite and exact. -/
theorem value_toDecimal (coin : Coin) {scale : Word64} {k : Nat} (power : scale.val = 10 ^ k) :
    (coin.toDecimal scale).value * scale.val = coin.units := by
  have k_le : k ≤ 28 := by
    by_contra more
    have large : 10 ^ 29 ≤ 10 ^ k := Nat.pow_le_pow_right (by decide) (by omega)
    have := scale.val_lt
    omega
  have pos : 0 < 10 ^ k := Nat.pow_pos (by decide)
  obtain ⟨d, quotient, value⟩ := Decimal.exists_ofQuotient? coin.units_lt k_le
  rw [toDecimal, power, Nat.max_eq_left pos, quotient, Option.getD_some, Decimal.value_trimmed,
    value]
  push_cast
  field_simp

/-- Take a scale that is a power of ten, of 64 binary digits. The amount in whole coins is exact
then, whatever it is. Its text is read back as the amount, and so it is with zeros behind it. -/
theorem ofDecimalText_toDecimal (coin : Coin) {scale : Word64} {k : Nat}
    (power : scale.val = 10 ^ k) :
    (coin.toDecimal scale).value * scale.val = coin.units ∧
      ofDecimalText (coin.toDecimal scale).text scale = .ok coin ∧
      ∀ zeros, ofDecimalText ((coin.toDecimal scale).textWith zeros) scale = .ok coin :=
  have exact := value_toDecimal coin power
  ⟨exact, ofDecimalText_textWith exact 0, ofDecimalText_textWith exact⟩

/-- The largest amount has 19 digits behind the point when a coin is worth the 19th power of ten.
The product of these two numbers is too long for a mantissa. The amount is read back nevertheless,
also with 13 zeros behind it, of which there is room for nine. -/
theorem ofDecimalText_toDecimal_largest :
    let coin : Coin := ⟨2 ^ 64 - 1, by decide⟩
    let scale : Word64 := ⟨10 ^ 19, by decide⟩
    let text := "1.8446744073709551615"
    scale.val = 10 ^ 19 ∧ (coin.toDecimal scale).text = text ∧
      ofDecimalText text scale = .ok coin ∧
      ofDecimalText (text ++ "0000000000000") scale = .ok coin := by
  intro coin scale text
  have power : scale.val = 10 ^ 19 := rfl
  have printed : (coin.toDecimal scale).text = text := by decide +kernel
  have longer : (coin.toDecimal scale).textWith 13 = text ++ "0000000000000" := by decide +kernel
  obtain ⟨-, plain, padded⟩ := ofDecimalText_toDecimal coin power
  exact ⟨power, printed, printed ▸ plain, longer ▸ padded 13⟩

end Coin

end StakeLedger
