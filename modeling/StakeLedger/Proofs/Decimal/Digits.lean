import StakeLedger.Proofs.Decimal.Rounding
import StakeLedger.Proofs.Decimal.Written

/-!
# Reading digits

The reader takes up digits as long as the mantissa has room for them and there are places left. The
digit after that rounds the number, or an underscore cuts it off there. What the number that was
read tells of the digits is `Decimal.Reads`.
-/

namespace StakeLedger

namespace Numeral

open Written

theorem digit?_eq_some_iff {c : Char} {v : Nat} :
    digit? c = some v ↔ c.isDigit ∧ v = c.toNat - '0'.toNat := by
  unfold digit?
  split_ifs with digit <;> simp [digit, eq_comm]

theorem digit_le_nine {c : Char} (digit : c.isDigit) : c.toNat - '0'.toNat ≤ 9 := by
  have bounds := Char.isDigit_iff_toNat.1 digit
  change 48 ≤ c.toNat ∧ c.toNat ≤ 57 at bounds
  change c.toNat - 48 ≤ 9
  omega

/-- What the reader does with one character: it takes up a digit, is rounded by one that does not
fit, passes the point or an underscore, or is cut off by an underscore behind the last place. -/
inductive Digested (mantissa : Nat) (places? : Option Nat) (started : Bool) (c : Char)
    (rest : List Char) (d : Decimal) : Prop
  | taken (digit : c.isDigit) (notLast : places? ≠ some 28)
    (fits : 10 * mantissa + (c.toNat - '0'.toNat) < 0x1000000000000000000000000)
    (more : digitsFrom (10 * mantissa + (c.toNat - '0'.toNat)) (places?.map (· + 1)) true rest =
      some d)
  | rounded {places : Nat} (digit : c.isDigit) (hplaces : places? = some places)
    (long : places = 28 ∨ 0x1000000000000000000000000 ≤ 10 * mantissa + (c.toNat - '0'.toNat))
    (more : roundedBy mantissa places (c.toNat - '0'.toNat) rest = some d)
  | point (hc : c = '.') (first : places? = none)
    (more : digitsFrom mantissa (some 0) started rest = some d)
  | cut (hc : c = '_') (hstarted : started = true) (last : places? = some 28)
    (more : roundedBy mantissa 28 0 rest = some d)
  | passed (hc : c = '_') (hstarted : started = true)
    (more : digitsFrom mantissa places? started rest = some d)

theorem digitsFrom_cons {mantissa : Nat} {places? : Option Nat} {started : Bool} {c : Char}
    {rest : List Char} {d : Decimal}
    (h : digitsFrom mantissa places? started (c :: rest) = some d) :
    Digested mantissa places? started c rest d := by
  rw [digitsFrom] at h
  split at h
  · rename_i v hv
    obtain ⟨digit, rfl⟩ := digit?_eq_some_iff.1 hv
    split at h
    · rename_i long
      obtain ⟨places, hplaces, more⟩ := Option.bind_eq_some_iff.1 h
      refine .rounded digit hplaces ?_ more
      simpa [hplaces] using long
    · rename_i short
      simp only [Bool.or_eq_true, decide_eq_true_eq, not_or, Nat.not_le] at short
      exact .taken digit short.1 short.2 h
  · split_ifs at h with point group cut
    · simp only [Bool.and_eq_true, decide_eq_true_eq, Option.isNone_iff_eq_none] at point
      exact .point point.1 point.2 h
    · simp only [Bool.and_eq_true, decide_eq_true_eq] at group cut
      exact .cut group.1 group.2 cut.1 h
    · simp only [Bool.and_eq_true, decide_eq_true_eq] at group
      exact .passed group.1 group.2 h

theorem roundedBy_rest {mantissa places v : Nat} {rest : List Char} {d : Decimal}
    (h : roundedBy mantissa places v rest = some d) : rest.all isGroupChar := by
  unfold roundedBy at h
  split_ifs at h with other <;> simpa using other

theorem isGroupChar_ne_point {c : Char} (h : isGroupChar c) : c ≠ '.' := by
  rintro rfl
  cases h

/-! ## What a numeral looks like -/

/-- What is left of the digits of a numeral: a first digit if there was none, groups, and the point
unless that was passed. -/
structure Body (places? : Option Nat) (started : Bool) (text : List Char) : Prop where
  points : text.count '.' ≤ if places? = none then 1 else 0
  groups : started = true → (text.filter (· != '.')).all isGroupChar
  start : started = false →
    ∃ d rest, text.filter (· != '.') = d :: rest ∧ d.isDigit ∧ rest.all isGroupChar

theorem Body.of_groups {places? : Option Nat} {text : List Char} (h : text.all isGroupChar) :
    Body places? true text where
  points := by
    have none : '.' ∉ text := fun hc => isGroupChar_ne_point (List.all_eq_true.1 h _ hc) rfl
    rw [List.count_eq_zero.2 none]
    exact Nat.zero_le _
  groups _ := List.all_eq_true.2 fun c hc => List.all_eq_true.1 h c (List.mem_filter.1 hc).1
  start := nofun

/-- A digit may start the groups or go on with them. -/
theorem Body.cons_digit {places? : Option Nat} {started : Bool} {c : Char} {rest : List Char}
    (digit : c.isDigit) (later : Body places? true rest) : Body places? started (c :: rest) := by
  have noPoint : c ≠ '.' := ne_of_isDigit digit rfl
  have same : (c :: rest).filter (· != '.') = c :: rest.filter (· != '.') :=
    List.filter_cons_of_pos (by simpa using noPoint)
  refine ⟨?_, fun _ => ?_, fun _ => ⟨c, _, same, digit, later.groups rfl⟩⟩
  · rw [List.count_cons_of_ne noPoint]
    exact later.points
  · rw [same, List.all_cons, later.groups rfl, Bool.and_true, isGroupChar, digit, Bool.true_or]

theorem digitsFrom_body {mantissa : Nat} {places? : Option Nat} {started : Bool}
    {text : List Char} {d : Decimal} (h : digitsFrom mantissa places? started text = some d) :
    Body places? started text := by
  induction text generalizing mantissa places? started with
  | nil =>
    cases started with
    | true => exact .of_groups rfl
    | false => cases h
  | cons c rest ih =>
    cases digitsFrom_cons h with
    | taken digit _ _ more =>
      have later := ih more
      exact .cons_digit digit ⟨by simpa using later.points, later.groups, nofun⟩
    | rounded digit _ _ more => exact .cons_digit digit (.of_groups (roundedBy_rest more))
    | point hc first more =>
      subst hc first
      have later := ih more
      refine ⟨?_, later.groups, later.start⟩
      have none : rest.count '.' = 0 := Nat.le_zero.1 later.points
      simp [none]
    | cut hc hstarted _ more =>
      subst hc hstarted
      exact .of_groups (by simpa [isGroupChar] using roundedBy_rest more)
    | passed hc hstarted more =>
      subst hc hstarted
      have later := ih more
      exact ⟨later.points, fun _ => later.groups rfl, nofun⟩

/-! ## How far a numeral is read -/

end Numeral

/-- What a decimal number tells of digits with some places behind the point: all of them, all but
those behind the 28th place, or as many as fill the mantissa. -/
inductive Decimal.Reads (d : Decimal) (digits places : Nat) : Prop
  | exact (mantissa : d.mantissa = digits) (same : d.places = places)
  | cut (more : 28 < places) (last : d.places = 28)
    (near : |d.value - digits / 10 ^ places| < 1 / 10 ^ d.places)
  | full (long : 0x1000000000000000000000000 ≤ digits)
    (filled : 0x1000000000000000000000000 ≤ 10 * d.mantissa + 9)
    (near : |d.value - digits / 10 ^ places| < 1 / 10 ^ d.places)

namespace Numeral

open Written

section

variable {mantissa places v : Nat} {rest : List Char} {d : Decimal}

/-- Digits that come later add less than one to a mantissa, at its last place. -/
theorem cast_ofDigitChars (mantissa places : Nat) (rest : List Char) :
    ∃ t : ℚ, 0 ≤ t ∧ t < 1 ∧
      ((Nat.ofDigitChars 10 (rest.filter Char.isDigit) mantissa : Nat) : ℚ) /
        10 ^ (places + rest.countP Char.isDigit) = (mantissa + t) / 10 ^ places := by
  refine ⟨(Nat.ofDigitChars 10 (rest.filter Char.isDigit) 0 : Nat) /
    10 ^ rest.countP Char.isDigit, by positivity, ?_, ?_⟩
  · rw [div_lt_one (by positivity)]
    exact_mod_cast ofDigitChars_lt rest
  · rw [Nat.ofDigitChars_eq_ofDigitChars_zero, ← List.countP_eq_length_filter, pow_add]
    push_cast
    field_simp

theorem near_of_places {x y : ℚ} (near : |x - y| < 1) (places : Nat) :
    |x / 10 ^ places - y / 10 ^ places| < 1 / 10 ^ places := by
  rw [← sub_div, abs_div, abs_of_pos (a := (10 : ℚ) ^ places) (by positivity)]
  gcongr

/-- The three ways to round: down, up, and up with one place less. -/
theorem roundedBy_cases (h : roundedBy mantissa places v rest = some d)
    (mantissa_lt : mantissa < 0x1000000000000000000000000) :
    v < 5 ∧ d.mantissa = mantissa ∧ d.places = places ∨
      5 ≤ v ∧ d.mantissa = mantissa + 1 ∧ d.places = places ∨
      5 ≤ v ∧ mantissa + 1 = 0x1000000000000000000000000 ∧ 10 * d.mantissa = mantissa + 5 ∧
        d.places + 1 = places := by
  unfold roundedBy at h
  split_ifs at h with other less room none
  · exact .inl ⟨less, Decimal.of?_eq_some_iff.1 h⟩
  · exact .inr (.inl ⟨Nat.le_of_not_lt less, Decimal.of?_eq_some_iff.1 h⟩)
  · obtain ⟨mantissa_eq, places_eq⟩ := Decimal.of?_eq_some_iff.1 h
    refine .inr (.inr ⟨Nat.le_of_not_lt less, ?_, ?_, ?_⟩) <;> omega

/-- A number that is rounded by a digit is off by less than one unit of its last place. -/
theorem roundedBy_near (h : roundedBy mantissa places v rest = some d)
    (mantissa_lt : mantissa < 0x1000000000000000000000000) (v_le : v ≤ 9) :
    |d.value - (Nat.ofDigitChars 10 (rest.filter Char.isDigit) (10 * mantissa + v) : Nat)
      / 10 ^ (places + 1 + rest.countP Char.isDigit)| < 1 / 10 ^ d.places := by
  obtain ⟨t, t_nonneg, t_lt, tail⟩ := cast_ofDigitChars (10 * mantissa + v) (places + 1) rest
  have shift : ((10 * mantissa + v : Nat) + t) / 10 ^ (places + 1) =
      (mantissa + (v + t) / 10) / 10 ^ places := by
    rw [pow_succ]
    push_cast
    field_simp
    ring
  rw [tail, shift, Decimal.value]
  have v_le : (v : ℚ) ≤ 9 := by exact_mod_cast v_le
  rcases roundedBy_cases h mantissa_lt with ⟨-, mantissa_eq, same⟩ | ⟨more, mantissa_eq, same⟩ |
    ⟨more, -, mantissa_eq, fewer⟩
  · rw [mantissa_eq, same]
    refine near_of_places (abs_lt.2 ⟨?_, ?_⟩) places <;> linarith
  · have more : (5 : ℚ) ≤ v := by exact_mod_cast more
    rw [mantissa_eq, same, Nat.cast_add, Nat.cast_one]
    refine near_of_places (abs_lt.2 ⟨?_, ?_⟩) places <;> linarith
  · -- the mantissa gives up a place, so its last unit is ten of those before
    have mantissa_eq : 10 * (d.mantissa : ℚ) = mantissa + 5 := by exact_mod_cast mantissa_eq
    rw [← fewer, pow_succ, mul_comm, ← div_div]
    refine near_of_places (abs_lt.2 ⟨?_, ?_⟩) d.places <;> linarith

theorem roundedBy_reads (h : roundedBy mantissa places v rest = some d)
    (mantissa_lt : mantissa < 0x1000000000000000000000000) (v_le : v ≤ 9)
    (long : places = 28 ∨ 0x1000000000000000000000000 ≤ 10 * mantissa + v) :
    d.Reads (Nat.ofDigitChars 10 (rest.filter Char.isDigit) (10 * mantissa + v))
      (places + 1 + rest.countP Char.isDigit) := by
  have ways := roundedBy_cases h mantissa_lt
  have near := roundedBy_near h mantissa_lt v_le
  by_cases fills : 0x1000000000000000000000000 ≤ 10 * mantissa + v
  · exact .full (fills.trans (le_ofDigitChars _ _)) (by omega) near
  · exact .cut (by omega) (by omega) near

/-- An underscore behind the last place cuts off the digits that come later. -/
theorem roundedBy_cut (h : roundedBy mantissa 28 0 rest = some d)
    (mantissa_lt : mantissa < 0x1000000000000000000000000) :
    d.Reads (Nat.ofDigitChars 10 (rest.filter Char.isDigit) mantissa)
      (28 + rest.countP Char.isDigit) := by
  obtain ⟨-, mantissa_eq, last⟩ | ⟨more, -⟩ | ⟨more, -⟩ := roundedBy_cases h mantissa_lt
  · rcases Nat.eq_zero_or_pos (rest.countP Char.isDigit) with none | some
    · rw [none, List.length_eq_zero_iff.1 (List.countP_eq_length_filter.symm.trans none)]
      exact .exact mantissa_eq last
    · obtain ⟨t, t_nonneg, t_lt, tail⟩ := cast_ofDigitChars mantissa 28 rest
      refine .cut (Nat.lt_add_of_pos_right some) last ?_
      rw [tail, Decimal.value, mantissa_eq, last]
      refine near_of_places (abs_lt.2 ⟨?_, ?_⟩) 28 <;> linarith
  · cases more
  · cases more

end

/-- How many digits stand behind the point, with those that were read. -/
def placesFrom (places? : Option Nat) (text : List Char) : Nat :=
  places?.elim (placesOf text) (· + text.countP Char.isDigit)

theorem placesFrom_digit {places? : Option Nat} {c : Char} {rest : List Char}
    (digit : c.isDigit) :
    placesFrom (places?.map (· + 1)) rest = placesFrom places? (c :: rest) := by
  cases places? with
  | none =>
    have noPoint : (c != '.') = true := by simpa using ne_of_isDigit (d := '.') digit rfl
    simp [placesFrom, placesOf, noPoint]
  | some places =>
    simp only [placesFrom, Option.map_some, Option.elim_some, List.countP_cons_of_pos digit]
    omega

theorem placesFrom_point (rest : List Char) :
    placesFrom none ('.' :: rest) = placesFrom (some 0) rest :=
  (Nat.zero_add _).symm

/-- A decimal number that is read tells what is written, as far as it can. -/
theorem digitsFrom_reads {mantissa : Nat} {places? : Option Nat} {started : Bool}
    {text : List Char} {d : Decimal} (h : digitsFrom mantissa places? started text = some d)
    (mantissa_lt : mantissa < 0x1000000000000000000000000)
    (places_le : ∀ places, places? = some places → places ≤ 28) :
    d.Reads (Nat.ofDigitChars 10 (text.filter Char.isDigit) mantissa)
      (placesFrom places? text) := by
  -- what was read so far stays in front: the digits of the rest are appended to the mantissa
  induction text generalizing mantissa places? started with
  | nil =>
    rw [digitsFrom] at h
    split_ifs at h
    obtain ⟨mantissa_eq, places_eq⟩ := Decimal.of?_eq_some_iff.1 h
    refine .exact mantissa_eq ?_
    cases places? <;> exact places_eq
  | cons c rest ih =>
    cases digitsFrom_cons h with
    | taken digit notLast fits more =>
      rw [List.filter_cons_of_pos digit, Nat.ofDigitChars_cons, ← placesFrom_digit digit]
      refine ih more fits fun places hplaces => ?_
      obtain ⟨fewer, hfewer, rfl⟩ := Option.map_eq_some_iff.1 hplaces
      have := places_le fewer hfewer
      have : fewer ≠ 28 := by
        rintro rfl
        exact notLast hfewer
      omega
    | @rounded places digit hplaces long more =>
      rw [List.filter_cons_of_pos digit, Nat.ofDigitChars_cons, ← placesFrom_digit digit, hplaces]
      exact roundedBy_reads more mantissa_lt (digit_le_nine digit) long
    | point hc first more =>
      subst hc first
      rw [placesFrom_point]
      exact ih more mantissa_lt fun places hplaces => Option.some.inj hplaces ▸ Nat.zero_le _
    | cut hc _ last more =>
      subst hc last
      exact roundedBy_cut more mantissa_lt
    | passed hc _ more =>
      subst hc
      cases places? <;> exact ih more mantissa_lt places_le

end Numeral

end StakeLedger
