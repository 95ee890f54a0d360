import Mathlib.Data.List.TakeWhile
import StakeLedger.Proofs.Decimal.Digits

/-!
# Reading numerals

A power of ten moves the point of a number that was read already. To the right nothing is lost by
that, but what was dropped behind the 28th place moves in front of it. To the left, digits may be
rounded away. `Numeral.Matches` says how close the number stays, and `Numeral.ofChars?_matches` that
every text which is read is a numeral, matched by what was read.
-/

namespace StakeLedger

/-! ## Moving the point -/

/-- A number stands for another one: it is the same, or off by less than what is dropped, or off by
less than one unit of a full mantissa. -/
inductive Near (drop read x : ℚ) : Prop
  | exact (same : read = x)
  | short (off : |read - x| < drop)
  | full {unit : ℚ} (off : |read - x| < unit)
    (filled : (0x1000000000000000000000000 - 9) * unit ≤ 10 * read)

section

variable {drop read x : ℚ}

theorem Near.mono (h : Near drop read x) {more : ℚ} (le : drop ≤ more) : Near more read x := by
  cases h with
  | exact same => exact .exact same
  | short off => exact .short (off.trans_le le)
  | full off filled => exact .full off filled

theorem Near.mul (h : Near drop read x) {k : ℚ} (pos : 0 < k) :
    Near (drop * k) (read * k) (x * k) := by
  have scaled {unit : ℚ} (off : |read - x| < unit) : |read * k - x * k| < unit * k := by
    rw [← sub_mul, abs_mul, abs_of_pos pos]
    exact mul_lt_mul_of_pos_right off pos
  cases h with
  | exact same => exact .exact (congrArg (· * k) same)
  | short off => exact .short (scaled off)
  | full off filled =>
    refine .full (scaled off) ?_
    rw [← mul_assoc, ← mul_assoc]
    exact mul_le_mul_of_nonneg_right filled pos.le

end

section

variable {d e : Decimal} {digits places n : Nat}

theorem Decimal.Reads.off (h : d.Reads digits places) :
    |d.value - digits / 10 ^ places| < 1 / 10 ^ d.places := by
  cases h with
  | exact mantissa same =>
    rw [value, mantissa, same, sub_self, abs_zero]
    positivity
  | cut _ _ near | full _ _ near => exact near

theorem Decimal.Reads.near (h : d.Reads digits places) :
    Near (if places ≤ 28 then 0 else 1 / 10 ^ 28) d.value (digits / 10 ^ places) := by
  cases h with
  | exact mantissa same => exact .exact (by rw [value, mantissa, same])
  | cut more last near =>
    rw [if_neg (Nat.not_le.2 more)]
    exact .short (last ▸ near)
  | full _ filled near =>
    refine .full near ?_
    have filled : (0x1000000000000000000000000 : ℚ) ≤ 10 * d.mantissa + 9 := by
      exact_mod_cast filled
    rw [value, mul_one_div, ← mul_div_assoc]
    gcongr
    linarith

/-- Digits that fit are read as they are. -/
theorem Decimal.Reads.eq_of_fits (h : d.Reads digits places)
    (short : digits < 0x1000000000000000000000000) (few : places ≤ 28) :
    d.mantissa = digits ∧ d.places = places := by
  cases h with
  | exact mantissa same => exact ⟨mantissa, same⟩
  | cut more => omega
  | full long => omega

namespace Numeral

/-- Nothing is lost by a point that is moved to the right. -/
theorem raised?_value (h : raised? d n = some e) :
    e.value = d.value * 10 ^ n ∧ (e.mantissa = d.mantissa ∨ e.places = 0) := by
  unfold raised? at h
  split_ifs at h with within
  · obtain ⟨mantissa_eq, places_eq⟩ := Decimal.of?_eq_some_iff.1 h
    refine ⟨?_, .inl mantissa_eq⟩
    have split : d.places = e.places + n := by omega
    rw [Decimal.value, Decimal.value, mantissa_eq, split, pow_add]
    field_simp
  · obtain ⟨mantissa_eq, places_eq⟩ := Decimal.of?_eq_some_iff.1 h
    refine ⟨?_, .inr places_eq⟩
    have split : n = d.places + (n - d.places) := by omega
    rw [Decimal.value, Decimal.value, mantissa_eq, places_eq, Nat.cast_mul, cast_tenTo]
    nth_rewrite 2 [split]
    rw [pow_add]
    field_simp

/-- A point moved to the left loses nothing if the digits still have places. -/
theorem lowered?_value (h : lowered? d n = some e) (within : d.places + n ≤ 28) :
    e.value = d.value / 10 ^ n ∧ e.mantissa = d.mantissa := by
  unfold lowered? at h
  rw [if_neg (by omega), Nat.sub_eq_zero_of_le within] at h
  obtain ⟨mantissa_eq, places_eq⟩ := Decimal.of?_eq_some_iff.1 h
  refine ⟨?_, mantissa_eq⟩
  rw [Decimal.value, Decimal.value, mantissa_eq, places_eq, pow_add, div_div]

/-- Digits that a point moved to the left leaves behind the last place are rounded away. -/
theorem lowered?_eq (h : lowered? d n = some e) {excess : Nat}
    (beyond : d.places + n = 28 + (excess + 1)) :
    e.mantissa = (d.mantissa + 5 * tenTo excess) / tenTo (excess + 1) ∧ e.places = 28 := by
  unfold lowered? at h
  split_ifs at h
  rw [beyond, Nat.add_sub_cancel_left] at h
  exact Decimal.of?_eq_some_iff.1 h

theorem lowered?_off (h : lowered? d n = some e) {excess : Nat}
    (beyond : d.places + n = 28 + (excess + 1)) :
    |e.value - d.value / 10 ^ n| ≤ 1 / 2 / 10 ^ 28 := by
  obtain ⟨mantissa_eq, places_eq⟩ := lowered?_eq h beyond
  have ten : tenTo (excess + 1) = 2 * (5 * tenTo excess) := by
    simp only [tenTo, Nat.pow_eq, Nat.pow_succ]
    omega
  have shift : d.value / 10 ^ n = d.mantissa / (tenTo (excess + 1) : Nat) / 10 ^ 28 := by
    rw [Decimal.value, div_div, ← pow_add, beyond, cast_tenTo, div_div, ← pow_add,
      Nat.add_comm 28]
  rw [shift, Decimal.value, places_eq, ← sub_div, abs_div,
    abs_of_pos (a := (10 : ℚ) ^ 28) (by positivity), mantissa_eq, ten]
  gcongr
  exact half_up_near _ (Nat.mul_pos (by decide) (tenTo_pos _))

theorem lowered?_near (h : lowered? d n = some e) (reads : d.Reads digits places) :
    Near (1 / 10 ^ 28) e.value (digits / 10 ^ places / 10 ^ n) := by
  rcases Nat.lt_or_ge 28 (d.places + n) with beyond | within
  · obtain ⟨excess, beyond⟩ := Nat.exists_eq_add_of_lt beyond
    have first := lowered?_off h beyond
    have second : |d.value / 10 ^ n - digits / 10 ^ places / 10 ^ n| < 1 / 10 ^ 29 := by
      rw [← sub_div, abs_div, abs_of_pos (a := (10 : ℚ) ^ n) (by positivity)]
      calc
        _ < 1 / 10 ^ d.places / (10 : ℚ) ^ n := by gcongr; exact reads.off
        _ = 1 / 10 ^ (d.places + n) := by rw [div_div, pow_add]
        _ ≤ 1 / 10 ^ 29 := one_div_le_one_div_of_le (by positivity)
          (pow_le_pow_right₀ (by norm_num) (by omega))
    refine .short ?_
    calc
      _ ≤ |e.value - d.value / 10 ^ n| + |d.value / 10 ^ n - digits / 10 ^ places / 10 ^ n| :=
        abs_sub_le _ _ _
      _ < 1 / 2 / 10 ^ 28 + 1 / 10 ^ 29 := add_lt_add_of_le_of_lt first second
      _ ≤ 1 / 10 ^ 28 := by norm_num
  · rw [(lowered?_value h within).1, div_eq_mul_one_div d.value, div_eq_mul_one_div (_ / _)]
    refine (reads.near.mul (by positivity)).mono ?_
    have small : (1 : ℚ) / 10 ^ n ≤ 1 := (div_le_one (by positivity)).2 (one_le_pow₀ (by norm_num))
    split_ifs
    · simp
    · exact mul_le_of_le_one_right (by positivity) small

theorem lowered?_zero (h : lowered? d n = some e) (zero : d.mantissa = 0) : e.value = 0 := by
  rcases Nat.lt_or_ge 28 (d.places + n) with beyond | within
  · obtain ⟨excess, beyond⟩ := Nat.exists_eq_add_of_lt beyond
    have less : 5 * tenTo excess < tenTo (excess + 1) := by
      have pos := tenTo_pos excess
      simp only [tenTo, Nat.pow_eq, Nat.pow_succ] at pos ⊢
      omega
    have none : e.mantissa = 0 := by
      rw [(lowered?_eq h beyond).1, zero, Nat.zero_add, Nat.div_eq_of_lt less]
    rw [Decimal.value, none, Nat.cast_zero, zero_div]
  · rw [(lowered?_value h within).1, Decimal.value, zero, Nat.cast_zero, zero_div, zero_div]

end Numeral

end

/-! ## Reading a text -/

/-- What one unit of the 28th place is worth, if digits behind that place are written. -/
def Written.dropped (w : Written) : ℚ := if w.places ≤ 28 then 0 else 10 ^ (w.power - 28)

theorem Written.dropped_nonneg (w : Written) : 0 ≤ w.dropped := by
  unfold dropped
  split_ifs
  · exact le_rfl
  · exact zpow_nonneg (by norm_num) _

namespace Numeral

open Written

/-- What a numeral that was read tells of the written one: how large that is, all of it if there is
room for it, and that nothing is left of it if its sign was lost. -/
structure Matches (n : Numeral) (w : Written) : Prop where
  near : Near (w.dropped + 1 / 10 ^ 28) n.size.value w.size
  fits : w.digits < 0x1000000000000000000000000 → w.places ≤ 28 → w.places - w.power ≤ 28 →
    n.size.value = w.size ∧ (n.size.mantissa = w.digits ∨ n.size.places = 0)
  unsigned : n.isNegative = false → w.isNegative = true → n.size.value = 0

/-- A text that is read without a power of ten is a sign and a body of digits. -/
theorem plain?_spec {text : List Char} {n : Numeral} (h : plain? text = some n) :
    ∃ sign body, text = sign ++ body ∧ sign ∈ [[], ['+'], ['-']] ∧
      digitsFrom 0 none false body = some n.size ∧
      (n.isNegative = false → text.head? = some '-' → n.size.mantissa = 0) := by
  unfold plain? at h
  split at h
  · rename_i rest
    obtain ⟨size, hsize, rfl⟩ := Option.map_eq_some_iff.1 h
    exact ⟨['-'], rest, rfl, by simp, hsize, fun positive _ => by simpa using positive⟩
  · rename_i rest
    obtain ⟨size, hsize, rfl⟩ := Option.map_eq_some_iff.1 h
    exact ⟨['+'], rest, rfl, by simp, hsize, fun _ => nofun⟩
  · rename_i unsigned _
    obtain ⟨size, hsize, rfl⟩ := Option.map_eq_some_iff.1 h
    refine ⟨[], text, rfl, by simp, hsize, fun _ negative => ?_⟩
    cases text with
    | nil => cases negative
    | cons c rest => cases Option.some.inj negative; exact absurd rfl (unsigned rest)

theorem isPlain_of_digitsFrom {body : List Char} {d : Decimal}
    (h : digitsFrom 0 none false body = some d) : IsPlain body :=
  ⟨(digitsFrom_body h).points, (digitsFrom_body h).start rfl⟩

theorem reads_of_digitsFrom {body : List Char} {d : Decimal}
    (h : digitsFrom 0 none false body = some d) : d.Reads (digitsOf body) (placesOf body) :=
  digitsFrom_reads h (by decide) nofun

theorem mapM_digit? {text : List Char} {values : List Nat} (h : text.mapM digit? = some values)
    (start : Nat) : text.all Char.isDigit ∧
      values.foldl (fun n d => 10 * n + d) start = Nat.ofDigitChars 10 text start := by
  induction text generalizing values start with
  | nil =>
    cases h
    exact ⟨rfl, rfl⟩
  | cons c rest ih =>
    rw [List.mapM_cons] at h
    obtain ⟨v, hv, h⟩ := Option.bind_eq_some_iff.1 h
    obtain ⟨later, hlater, h⟩ := Option.bind_eq_some_iff.1 h
    cases h
    obtain ⟨digit, rfl⟩ := digit?_eq_some_iff.1 hv
    obtain ⟨all, value⟩ := ih hlater (10 * start + (c.toNat - '0'.toNat))
    exact ⟨by rw [List.all_cons, digit, all]; rfl, value⟩

theorem digitsOf_of_all {digits : List Char} (all : digits.all Char.isDigit) :
    digitsOf digits = Nat.ofDigitChars 10 digits 0 := by
  rw [digitsOf, List.filter_eq_self.2 (List.all_eq_true.1 all)]

/-- A power is a number in digits, perhaps behind a plus. -/
theorem power?_spec {text : List Char} {n : Nat} (h : power? text = some n) :
    ∃ sign digits, text = sign ++ digits ∧ sign ∈ [[], ['+']] ∧ digits ≠ [] ∧
      digits.all Char.isDigit ∧ digitsOf text = n := by
  unfold power? at h
  dsimp only at h
  split_ifs at h with empty
  split at h
  · cases h
  · rename_i values hvalues
    obtain ⟨all, value⟩ := mapM_digit? hvalues 0
    split_ifs at h
    cases h
    clear hvalues
    revert empty all value
    split <;> intro empty all value
    · rename_i digits
      exact ⟨['+'], digits, rfl, by simp, by simpa using empty, all,
        (digitsOf_of_all all).trans value.symm⟩
    · exact ⟨[], text, rfl, by simp, by simpa using empty, all,
        (digitsOf_of_all all).trans value.symm⟩

theorem not_isMark_of_group {c : Char} (h : isGroupChar c) : isMark c = false := by
  simp only [isGroupChar, Bool.or_eq_true, beq_iff_eq] at h
  rcases h with digit | rfl
  · simp only [isMark, Bool.or_eq_false_iff, decide_eq_false_iff_not]
    exact ⟨ne_of_isDigit digit rfl, ne_of_isDigit digit rfl⟩
  · rfl

/-- There is no mark in a body of digits. -/
theorem not_isMark_of_isPlain {body : List Char} (plain : IsPlain body) {c : Char}
    (hc : c ∈ body) : isMark c = false := by
  obtain ⟨-, d, rest, split, digit, groups⟩ := plain
  by_cases point : c = '.'
  · subst point
    rfl
  · have hc : c ∈ d :: rest := split ▸ List.mem_filter.2 ⟨hc, by simpa using point⟩
    rcases List.mem_cons.1 hc with rfl | hc
    · exact not_isMark_of_group (by simp [isGroupChar, digit])
    · exact not_isMark_of_group (List.all_eq_true.1 groups c hc)

theorem not_isMark_of_sign {sign : List Char} (signed : sign ∈ [[], ['+'], ['-']]) {c : Char}
    (hc : c ∈ sign) : isMark c = false := by
  simp only [List.mem_cons, List.not_mem_nil, or_false] at signed
  rcases signed with rfl | rfl | rfl
  · cases hc
  · rw [List.mem_singleton.1 hc]
    rfl
  · rw [List.mem_singleton.1 hc]
    rfl

theorem ofChars_plain {sign body : List Char} (signed : sign ∈ [[], ['+'], ['-']])
    (plain : IsPlain body) : Written.ofChars (sign ++ body) =
      ⟨(sign ++ body).head? = some '-', digitsOf body, placesOf body, 0⟩ := by
  have none : ∀ c ∈ sign ++ body, (!isMark c) = true := by
    intro c hc
    rcases List.mem_append.1 hc with hc | hc
    · rw [not_isMark_of_sign signed hc, Bool.not_false]
    · rw [not_isMark_of_isPlain plain hc, Bool.not_false]
  rw [ofChars_eq signed (List.takeWhile_eq_self_iff.2 none), List.dropWhile_eq_nil_iff.2 none]
  rfl

section

variable {n : Numeral} {isNegative : Bool} {digits places k : Nat} {base : Decimal}

theorem size_raised : (⟨isNegative, digits, places, k⟩ : Written).size =
    digits / 10 ^ places * 10 ^ k := by
  rw [Written.size, zpow_sub₀ (by norm_num), zpow_natCast, zpow_natCast, div_mul_eq_mul_div,
    mul_div_assoc]

theorem size_lowered : (⟨isNegative, digits, places, -k⟩ : Written).size =
    digits / 10 ^ places / 10 ^ k := by
  rw [Written.size, zpow_sub₀ (by norm_num), zpow_neg, zpow_natCast, zpow_natCast, div_div,
    ← one_div, div_div, mul_one_div, mul_comm]

theorem Matches.of_raised (reads : base.Reads digits places) (h : raised? base k = some n.size)
    (unsigned : n.isNegative = false → isNegative = true → base.mantissa = 0) :
    n.Matches ⟨isNegative, digits, places, k⟩ := by
  obtain ⟨value_eq, kept⟩ := raised?_value h
  refine ⟨?_, fun short few _ => ?_, fun positive signed => ?_⟩
  · rw [size_raised, value_eq]
    refine (reads.near.mul (by positivity)).mono ?_
    unfold dropped
    dsimp only
    split_ifs
    · rw [zero_mul, zero_add]
      positivity
    · rw [zpow_sub₀ (by norm_num), zpow_natCast, one_div_mul_eq_div]
      exact le_add_of_nonneg_right (by positivity)
  · obtain ⟨mantissa_eq, places_eq⟩ := reads.eq_of_fits short few
    rw [size_raised, value_eq, Decimal.value, mantissa_eq, places_eq]
    exact ⟨rfl, kept.imp_left (·.trans mantissa_eq)⟩
  · rw [value_eq, Decimal.value, unsigned positive signed, Nat.cast_zero, zero_div, zero_mul]

theorem Matches.of_lowered (reads : base.Reads digits places) (h : lowered? base k = some n.size)
    (unsigned : n.isNegative = false → isNegative = true → base.mantissa = 0) :
    n.Matches ⟨isNegative, digits, places, -k⟩ := by
  refine ⟨?_, fun short few within => ?_, fun positive signed => ?_⟩
  · rw [size_lowered]
    exact (lowered?_near h reads).mono (le_add_of_nonneg_left (dropped_nonneg _))
  · obtain ⟨mantissa_eq, places_eq⟩ := reads.eq_of_fits short few
    dsimp only at within
    obtain ⟨value_eq, kept⟩ := lowered?_value h (by omega)
    rw [size_lowered, value_eq, Decimal.value, mantissa_eq, places_eq]
    exact ⟨rfl, .inl (kept.trans mantissa_eq)⟩
  · exact lowered?_zero h (unsigned positive signed)

end

theorem plain?_matches {text : List Char} {n : Numeral} (h : plain? text = some n) :
    IsNumeral text ∧ n.Matches (Written.ofChars text) := by
  obtain ⟨sign, body, rfl, signed, read, unsigned⟩ := plain?_spec h
  have plain := isPlain_of_digitsFrom read
  refine ⟨.plain signed plain, ?_⟩
  rw [ofChars_plain signed plain]
  exact .of_raised (k := 0) (reads_of_digitsFrom read)
    (Decimal.of?_eq_some_iff.2 ⟨rfl, Nat.sub_zero _⟩) fun positive negative =>
      unsigned positive (of_decide_eq_true negative)

theorem powerOf_forward {mark : Char} {power : List Char}
    (forward : ∀ digits, power = '-' :: digits → False) :
    powerOf (mark :: power) = digitsOf power := by
  unfold powerOf
  split
  · rename_i nothing
    cases nothing
  · rename_i digits back
    cases back
    exact (forward digits rfl).elim
  · rename_i same
    cases same
    rfl

/-- How a text with a power of ten is read: what stands in front of the mark as a plain numeral,
whose point is then moved. -/
inductive Moved (text : List Char) (n : Numeral) : Prop
  | lowered {mark : Char} {digits : List Char} {base : Numeral} {k : Nat}
    (hdrop : text.dropWhile (!isMark ·) = mark :: '-' :: digits)
    (hbase : plain? (text.takeWhile (!isMark ·)) = some base) (hk : power? digits = some k)
    (hsize : lowered? base.size k = some n.size) (same : base.isNegative = n.isNegative)
  | raised {mark : Char} {power : List Char} {base : Numeral} {k : Nat}
    (hdrop : text.dropWhile (!isMark ·) = mark :: power)
    (hbase : plain? (text.takeWhile (!isMark ·)) = some base) (hk : power? power = some k)
    (hsize : raised? base.size k = some n.size) (same : base.isNegative = n.isNegative)
    (forward : ∀ digits, power = '-' :: digits → False)

theorem scientific?_moved {text : List Char} {n : Numeral} (h : scientific? text = some n) :
    Moved text n := by
  unfold scientific? at h
  dsimp only at h
  split at h
  · cases h
  rename_i mark power hdrop
  obtain ⟨base, hbase, h⟩ := Option.bind_eq_some_iff.1 h
  split at h
  · obtain ⟨k, hk, h⟩ := Option.bind_eq_some_iff.1 h
    obtain ⟨size, hsize, h⟩ := Option.bind_eq_some_iff.1 h
    cases h
    exact .lowered hdrop hbase hk hsize rfl
  · rename_i forward
    obtain ⟨k, hk, h⟩ := Option.bind_eq_some_iff.1 h
    obtain ⟨size, hsize, h⟩ := Option.bind_eq_some_iff.1 h
    cases h
    exact .raised hdrop hbase hk hsize rfl forward

/-- What stands in front of a mark is read as any other plain numeral. -/
theorem base_spec {text power : List Char} {mark : Char} {base : Numeral}
    (hdrop : text.dropWhile (!isMark ·) = mark :: power)
    (hbase : plain? (text.takeWhile (!isMark ·)) = some base) :
    ∃ sign body, text = sign ++ body ++ mark :: power ∧ isMark mark ∧
      sign ∈ [[], ['+'], ['-']] ∧ IsPlain body ∧
      base.size.Reads (digitsOf body) (placesOf body) ∧
      Written.ofChars text =
        ⟨text.head? = some '-', digitsOf body, placesOf body, powerOf (mark :: power)⟩ ∧
      (base.isNegative = false → decide (text.head? = some '-') → base.size.mantissa = 0) := by
  have marked : isMark mark = true := by
    have first := List.head?_dropWhile_not (!isMark ·) text
    rw [hdrop] at first
    simpa using first
  obtain ⟨sign, body, hbody, signed, read, unsigned⟩ := plain?_spec hbase
  have plain := isPlain_of_digitsFrom read
  have parts : sign ++ body ++ mark :: power = text := by
    rw [← hbody, ← hdrop, List.takeWhile_append_dropWhile]
  have first : text.head? = (text.takeWhile (!isMark ·)).head? := by
    have nonempty : sign ++ body ≠ [] := fun none =>
      plain.ne_nil (List.append_eq_nil_iff.1 none).2
    rw [hbody, ← parts, List.head?_append_of_ne_nil _ nonempty]
  exact ⟨sign, body, parts.symm, marked, signed, plain, reads_of_digitsFrom read,
    hdrop ▸ ofChars_eq signed hbody,
    fun positive negative => unsigned positive (first ▸ of_decide_eq_true negative)⟩

theorem scientific?_matches {text : List Char} {n : Numeral} (h : scientific? text = some n) :
    IsNumeral text ∧ n.Matches (Written.ofChars text) := by
  cases scientific?_moved h with
  | lowered hdrop hbase hk hsize same =>
    obtain ⟨sign, body, parts, marked, signed, plain, reads, written, unsigned⟩ :=
      base_spec hdrop hbase
    obtain ⟨plus, whole, rfl, directed, nonempty, all, rfl⟩ := power?_spec hk
    rw [written]
    refine ⟨?_, .of_lowered reads hsize (same ▸ unsigned)⟩
    rw [parts]
    change IsNumeral (sign ++ body ++ _ :: (('-' :: plus) ++ whole))
    refine .scientific signed plain marked ?_ nonempty all
    simp only [List.mem_cons, List.not_mem_nil, or_false] at directed
    rcases directed with rfl | rfl <;> decide
  | raised hdrop hbase hk hsize same forward =>
    obtain ⟨sign, body, parts, marked, signed, plain, reads, written, unsigned⟩ :=
      base_spec hdrop hbase
    obtain ⟨plus, whole, rfl, directed, nonempty, all, rfl⟩ := power?_spec hk
    rw [written, powerOf_forward forward]
    refine ⟨?_, .of_raised reads hsize (same ▸ unsigned)⟩
    rw [parts]
    refine .scientific signed plain marked ?_ nonempty all
    simp only [List.mem_cons, List.not_mem_nil, or_false] at directed
    rcases directed with rfl | rfl <;> decide

theorem ofChars?_matches {text : List Char} {n : Numeral} (h : ofChars? text = some n) :
    IsNumeral text ∧ n.Matches (Written.ofChars text) := by
  unfold ofChars? at h
  split at h
  · rename_i read
    cases h
    exact plain?_matches read
  · exact scientific?_matches h

end Numeral

end StakeLedger
