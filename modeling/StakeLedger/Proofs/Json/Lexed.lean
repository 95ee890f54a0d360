import Mathlib.Data.List.Basic
import Mathlib.Tactic.SplitIfs
import StakeLedger.Json.Text
import StakeLedger.Json.Token

/-!
# Tokens of written values

Reading a written value, whether without blanks or over several lines, finds the tokens that the
value is made of and goes on with what follows it. For that the value has to be `Json.Legal`: its
numbers are such as can be written.
-/

namespace StakeLedger.Json

/-! ## Tokens of a value -/

mutual

/-- The tokens that a value is made of. -/
def tokens : Json → List Token
  | null => [.null]
  | bool b => [.bool b]
  | number n => [.number n]
  | text s => [.text s]
  | array [] => [.openArray, .closeArray]
  | array (v :: items) => .openArray :: (tokens v ++ itemTokens items)
  | object [] => [.openObject, .closeObject]
  | object ((key, v) :: members) =>
    .openObject :: .text key :: .colon :: (tokens v ++ memberTokens members)

/-- The tokens of the further items of an array, and of its end. -/
def itemTokens : List Json → List Token
  | [] => [.closeArray]
  | v :: items => .comma :: (tokens v ++ itemTokens items)

/-- The tokens of the further members of an object, and of its end. -/
def memberTokens : List (Option String × Json) → List Token
  | [] => [.closeObject]
  | (key, v) :: members => .comma :: .text key :: .colon :: (tokens v ++ memberTokens members)

end

mutual

/-- What follows the whole part of a number is a fraction, an exponent, both or nothing, for all
numbers in a value. -/
def Legal : Json → Prop
  | null | bool _ | text _ => True
  | number n => isTail n.tail = true
  | array items => LegalItems items
  | object members => LegalMembers members

def LegalItems : List Json → Prop
  | [] => True
  | v :: items => v.Legal ∧ LegalItems items

def LegalMembers : List (Option String × Json) → Prop
  | [] => True
  | (_, v) :: members => v.Legal ∧ LegalMembers members

end

/-! ## Reading on -/

/-- The tokens found once all characters are read, newest first. -/
def Lexer.run (l : Lexer) (chars : List Char) : Option (List Token) :=
  (chars.foldlM Lexer.step l).bind Lexer.ended

theorem Lexer.run_cons (l : Lexer) (c : Char) (chars : List Char) :
    l.run (c :: chars) = (l.step c).bind (·.run chars) := by
  simp only [run, List.foldlM_cons, bind, Option.bind_assoc]

theorem Lexer.run_cons_of_step {l l' : Lexer} {c : Char} {chars : List Char}
    (h : l.step c = some l') : l.run (c :: chars) = l'.run chars := by
  rw [run_cons, h, Option.bind_some]

theorem Token.ofChars?_eq_run (chars : List Char) :
    ofChars? chars = (Lexer.run ⟨.between, []⟩ chars).map List.reverse := by
  simp only [ofChars?, Lexer.run, bind, pure, Option.map_eq_bind, Option.bind_assoc]
  rfl

/-- The tokens found in characters before which no token has begun. -/
def scan (found : List Token) (chars : List Char) : Option (List Token) :=
  Lexer.run ⟨.between, found⟩ chars

/-- No number and no word goes on with the characters. -/
def Delimited (chars : List Char) : Prop :=
  ∀ c ∈ chars.head?, isNumberChar c = false ∧ c.isLower = false

variable {found : List Token} {rest : List Char}

theorem scan_cons (c : Char) :
    scan found (c :: rest) = (Lexer.start found c).bind (·.run rest) :=
  Lexer.run_cons _ _ _

@[simp] theorem scan_nil : scan found [] = some found := rfl

@[simp] theorem scan_blank : scan found (' ' :: rest) = scan found rest := rfl

@[simp] theorem scan_line : scan found ('\n' :: rest) = scan found rest := rfl

@[simp] theorem scan_openArray : scan found ('[' :: rest) = scan (.openArray :: found) rest := rfl

@[simp] theorem scan_closeArray : scan found (']' :: rest) = scan (.closeArray :: found) rest := rfl

@[simp] theorem scan_openObject : scan found ('\x7b' :: rest) = scan (.openObject :: found) rest :=
  rfl

@[simp] theorem scan_closeObject :
    scan found ('\x7d' :: rest) = scan (.closeObject :: found) rest := rfl

@[simp] theorem scan_comma : scan found (',' :: rest) = scan (.comma :: found) rest := rfl

@[simp] theorem scan_colon : scan found (':' :: rest) = scan (.colon :: found) rest := rfl

@[simp] theorem scan_newLine (level : Nat) :
    scan found (newLine level ++ rest) = scan found rest := by
  rw [newLine, List.cons_append, scan_line]
  induction 2 * level with
  | zero => rfl
  | succ n ih => rwa [List.replicate_succ, List.cons_append, scan_blank]

/-! ## Texts -/

/-- The part of a quoted text that a character is written as. -/
def pieceOf (c : Char) : Piece :=
  if c.toNat < 32 ∧ c ≠ '\x08' ∧ c ≠ '\x0c' ∧ c ≠ '\n' ∧ c ≠ '\r' ∧ c ≠ '\t' then .unit c.toNat
  else .char c

theorem hexValue?_hexDigit {n : Nat} (small : n < 16) :
    Text.hexValue? (Text.hexDigit n).toNat = some n := by
  revert n
  decide

/-- A written character is read as its part of the text. -/
theorem run_escapedChar (pieces : List Piece) (c : Char) :
    Lexer.run ⟨.text pieces, found⟩ (escapedChar c ++ rest) =
      Lexer.run ⟨.text (pieceOf c :: pieces), found⟩ rest := by
  unfold escapedChar
  split_ifs with quote back b f n r t low
  · subst quote
    rfl
  · subst back
    rfl
  · subst b
    rfl
  · subst f
    rfl
  · subst n
    rfl
  · subst r
    rfl
  · subst t
    rfl
  · -- A control character without a letter of its own is a unit, whose first two digits are zero.
    have piece : pieceOf c = .unit c.toNat := if_pos ⟨low, b, f, n, r, t⟩
    have high := hexValue?_hexDigit (n := c.toNat / 16) (by omega)
    have last := hexValue?_hexDigit (n := c.toNat % 16) (by omega)
    have value : 16 * (16 * 0 + c.toNat / 16) + c.toNat % 16 = c.toNat := by omega
    have marked : Lexer.run ⟨.text pieces, found⟩
        (['\\', 'u', '0', '0', Text.hexDigit (c.toNat / 16), Text.hexDigit (c.toNat % 16)] ++
          rest) =
        Lexer.run ⟨.unit pieces 2 0, found⟩
          (Text.hexDigit (c.toNat / 16) :: Text.hexDigit (c.toNat % 16) :: rest) := rfl
    have first : Lexer.step ⟨.unit pieces 2 0, found⟩ (Text.hexDigit (c.toNat / 16)) =
        some ⟨.unit pieces 1 (16 * 0 + c.toNat / 16), found⟩ := by
      simp [Lexer.step, high]
    have second : Lexer.step ⟨.unit pieces 1 (16 * 0 + c.toNat / 16), found⟩
        (Text.hexDigit (c.toNat % 16)) = some ⟨.text (.unit c.toNat :: pieces), found⟩ := by
      simp only [Lexer.step, last, if_true, value]
    rw [marked, Lexer.run_cons_of_step first, Lexer.run_cons_of_step second, piece]
  · have piece : pieceOf c = .char c := if_neg fun h => low h.1
    have plain : Lexer.step ⟨.text pieces, found⟩ c = some ⟨.text (.char c :: pieces), found⟩ := by
      simp only [Lexer.step, if_neg quote, if_neg back, if_neg low]
    rw [List.singleton_append, Lexer.run_cons_of_step plain, piece]

theorem run_escaped (pieces : List Piece) (cs : List Char) :
    Lexer.run ⟨.text pieces, found⟩ (cs.flatMap escapedChar ++ rest) =
      Lexer.run ⟨.text ((cs.map pieceOf).reverse ++ pieces), found⟩ rest := by
  induction cs generalizing pieces with
  | nil => rfl
  | cons c cs ih =>
    rw [List.flatMap_cons, List.append_assoc, run_escapedChar, ih, List.map_cons,
      List.reverse_cons, List.append_assoc, List.singleton_append]

/-- A unit below all halves of pairs is a character by itself. -/
theorem assemble_unit {n : Nat} (small : n < 0xD800) (pieces : List Piece) :
    assemble (.unit n :: pieces) = (assemble pieces).map (Char.ofNat n :: ·) := by
  have high : isHighHalf n = false := by simp [isHighHalf]; omega
  have low : isLowHalf n = false := by simp [isLowHalf]; omega
  cases pieces with
  | nil => simp [assemble, high, low]
  | cons piece rest =>
    cases piece with
    | char c => simp [assemble, high, low]
    | unit m => rw [assemble, if_neg (by simp [high]), if_neg (by simp [low])]

theorem assemble_pieceOf (cs : List Char) : assemble (cs.map pieceOf) = some cs := by
  induction cs with
  | nil => rfl
  | cons c cs ih =>
    rw [List.map_cons, pieceOf]
    split_ifs with unit
    · rw [assemble_unit (by omega), ih, Option.map_some, Char.ofNat_toNat]
    · rw [assemble, ih, Option.map_some]

/-- A written text is read as it was written. -/
@[simp] theorem scan_quotedText (s : Option String) :
    scan found (quotedText s ++ rest) = scan (.text s :: found) rest := by
  cases s with
  | none => rfl
  | some s =>
    have opened : scan found (quotedText (some s) ++ rest) =
        Lexer.run ⟨.text [], found⟩ (s.toList.flatMap escapedChar ++ ('"' :: rest)) := by
      rw [quotedText, List.cons_append, List.append_assoc, List.singleton_append]
      rfl
    have closed : Lexer.step ⟨.text (s.toList.map pieceOf).reverse, found⟩ '"' =
        some ⟨.between, .text (some s) :: found⟩ := by
      simp only [Lexer.step, if_true, List.reverse_reverse, assemble_pieceOf, Option.map_some,
        String.ofList_toList]
    rw [opened, run_escaped, List.append_nil, Lexer.run_cons_of_step closed, scan]

/-! ## Numbers and words -/

theorem digitsValue_toDigits (n : Nat) : digitsValue (Nat.toDigits 10 n) = n :=
  Nat.ofDigitChars_ten_toDigits

/-- A positive number has no zero in front. -/
theorem head?_toDigits {n : Nat} (pos : 0 < n) : (Nat.toDigits 10 n).head? ≠ some '0' := by
  induction n using Nat.strongRecOn with
  | _ n ih =>
    by_cases small : n < 10
    · have digit : ∀ m < 10, 0 < m → [m.digitChar].head? ≠ some '0' := by decide
      rw [Nat.toDigits_of_lt_base small]
      exact digit n small pos
    · have front := ih (n / 10) (by omega) (by omega)
      rw [Nat.toDigits_of_base_le (by decide) (by omega),
        List.head?_append_of_ne_nil _ Nat.toDigits_ne_nil]
      exact front

theorem isDigit_of_mem_toDigits {n : Nat} {c : Char} (h : c ∈ Nat.toDigits 10 n) :
    c.isDigit = true :=
  Nat.isDigit_of_mem_toDigits (by decide) (by decide) h

theorem isNumberChar_of_isDigit {c : Char} (h : c.isDigit = true) : isNumberChar c = true := by
  simp [isNumberChar, h]

theorem isExponent_spec {chars : List Char} (h : isExponent chars = true) :
    chars.takeWhile Char.isDigit = [] ∧ ∀ c ∈ chars, isNumberChar c = true := by
  cases chars with
  | nil => simp
  | cons mark rest =>
    simp only [isExponent, Bool.and_eq_true, Bool.or_eq_true, beq_iff_eq] at h
    obtain ⟨hmark, -, digits⟩ := h
    have all : ∀ c ∈ rest, isNumberChar c = true := by
      intro c hc
      split at digits
      · rcases List.mem_cons.1 hc with rfl | hc
        · rfl
        · exact isNumberChar_of_isDigit (List.all_eq_true.1 digits c hc)
      · rcases List.mem_cons.1 hc with rfl | hc
        · rfl
        · exact isNumberChar_of_isDigit (List.all_eq_true.1 digits c hc)
      · exact isNumberChar_of_isDigit (List.all_eq_true.1 digits c hc)
    rcases hmark with rfl | rfl
    · exact ⟨rfl, List.forall_mem_cons.2 ⟨rfl, all⟩⟩
    · exact ⟨rfl, List.forall_mem_cons.2 ⟨rfl, all⟩⟩

/-- What follows the whole part of a number starts with no digit, and goes on like a number. -/
theorem isTail_spec {tail : List Char} (h : isTail tail = true) :
    tail.takeWhile Char.isDigit = [] ∧ ∀ c ∈ tail, isNumberChar c = true := by
  unfold isTail at h
  split at h
  · rename_i rest
    rw [Bool.and_eq_true] at h
    refine ⟨rfl, List.forall_mem_cons.2 ⟨rfl, fun c hc => ?_⟩⟩
    rw [← List.takeWhile_append_dropWhile (p := Char.isDigit) (l := rest), List.mem_append] at hc
    rcases hc with digit | exponent
    · exact isNumberChar_of_isDigit (List.all_eq_true.1 List.all_takeWhile c digit)
    · exact (isExponent_spec h.2).2 c exponent
  · exact isExponent_spec h

theorem unsigned?_toDigits (minus : Bool) {n : Number} (tail : isTail n.tail = true) :
    Number.unsigned? minus (Nat.toDigits 10 n.whole ++ n.tail) = some ⟨minus, n.whole, n.tail⟩ := by
  have digits : ∀ c ∈ Nat.toDigits 10 n.whole, c.isDigit = true := fun c => isDigit_of_mem_toDigits
  have none := (isTail_spec tail).1
  have rest : n.tail.dropWhile Char.isDigit = n.tail := by
    have parts := List.takeWhile_append_dropWhile (p := Char.isDigit) (l := n.tail)
    rwa [none, List.nil_append] at parts
  have zero : ((Nat.toDigits 10 n.whole).head? == some '0' &&
      (Nat.toDigits 10 n.whole).length != 1) = false := by
    by_cases pos : 0 < n.whole
    · simp [head?_toDigits pos]
    · have : n.whole = 0 := by omega
      rw [this]
      rfl
  unfold Number.unsigned?
  dsimp only
  rw [List.takeWhile_append_of_pos digits, List.dropWhile_append_of_pos digits, none, rest,
    List.append_nil, zero, tail, digitsValue_toDigits]
  simp [Nat.toDigits_ne_nil]

/-- A written number is read as it was written. -/
theorem ofChars?_chars {n : Number} (tail : isTail n.tail = true) :
    Number.ofChars? n.chars = some n := by
  obtain ⟨minus, whole, rest⟩ := n
  cases minus with
  | true => exact unsigned?_toDigits true (n := ⟨true, whole, rest⟩) tail
  | false =>
    have plain := unsigned?_toDigits false (n := ⟨false, whole, rest⟩) tail
    obtain ⟨d, ds, first⟩ := List.exists_cons_of_ne_nil (Nat.toDigits_ne_nil (n := whole) (b := 10))
    have digit : d.isDigit = true := isDigit_of_mem_toDigits (n := whole) (by simp [first])
    have unsigned : d ≠ '-' := by
      rintro rfl
      simp at digit
    simp only [Number.chars, first, List.cons_append] at plain ⊢
    simpa [Number.ofChars?, unsigned] using plain

/-- What was being read has ended where the next character does not go on with it. -/
theorem run_of_step {l : Lexer} (h : ∀ c ∈ rest.head?, l.step c = l.ended.bind (Lexer.start · c)) :
    l.run rest = l.ended.bind (scan · rest) := by
  cases rest with
  | nil =>
    change l.ended = l.ended.bind some
    rw [Option.bind_fun_some]
  | cons c rest =>
    simp only [Lexer.run_cons, h c rfl, Option.bind_assoc, scan_cons]

theorem run_number (acc : List Char) {chars : List Char} (h : ∀ c ∈ chars, isNumberChar c = true) :
    Lexer.run ⟨.number acc, found⟩ (chars ++ rest) =
      Lexer.run ⟨.number (chars.reverse ++ acc), found⟩ rest := by
  induction chars generalizing acc with
  | nil => rfl
  | cons c chars ih =>
    rw [List.forall_mem_cons] at h
    have goesOn : Lexer.step ⟨.number acc, found⟩ c = some ⟨.number (c :: acc), found⟩ := if_pos h.1
    rw [List.cons_append, Lexer.run_cons_of_step goesOn, ih _ h.2, List.reverse_cons,
      List.append_assoc, List.singleton_append]

theorem start_digit {c : Char} (h : c.isDigit = true) :
    Lexer.start found c = some ⟨.number [c], found⟩ := by
  have apart (d : Char) (other : d.isDigit = false) : c ≠ d := by
    rintro rfl
    rw [h] at other
    cases other
  simp (disch := decide) [Lexer.start, h, apart]

/-- A written number starts with a sign or a digit, and goes on like a number. -/
theorem chars_spec {n : Number} (tail : isTail n.tail = true) :
    ∃ c cs, n.chars = c :: cs ∧ (c = '-' ∨ c.isDigit = true) ∧
      ∀ d ∈ cs, isNumberChar d = true := by
  obtain ⟨minus, whole, rest⟩ := n
  have digits : ∀ d ∈ Nat.toDigits 10 whole, isNumberChar d = true := fun d hd =>
    isNumberChar_of_isDigit (isDigit_of_mem_toDigits hd)
  have all := List.forall_mem_append.2 ⟨digits, (isTail_spec tail).2⟩
  cases minus with
  | true => exact ⟨'-', _, rfl, .inl rfl, all⟩
  | false =>
    obtain ⟨d, ds, first⟩ := List.exists_cons_of_ne_nil (Nat.toDigits_ne_nil (n := whole) (b := 10))
    have digit : d.isDigit = true := isDigit_of_mem_toDigits (n := whole) (by simp [first])
    rw [first, List.cons_append, List.forall_mem_cons] at all
    exact ⟨d, ds ++ rest, by simp [Number.chars, first], .inr digit, all.2⟩

/-- A written number is read as it was written, if what follows does not go on with it. -/
theorem scan_number {n : Number} (tail : isTail n.tail = true) (delimited : Delimited rest) :
    scan found (n.chars ++ rest) = scan (.number n :: found) rest := by
  obtain ⟨c, cs, chars, first, all⟩ := chars_spec tail
  have begun : Lexer.start found c = some ⟨.number [c], found⟩ := by
    rcases first with rfl | digit
    · rfl
    · exact start_digit digit
  have ended : Lexer.ended ⟨.number (cs.reverse ++ [c]), found⟩ = some (.number n :: found) := by
    have read := ofChars?_chars tail
    rw [chars] at read
    simp [Lexer.ended, read]
  rw [chars, List.cons_append, scan_cons, begun, Option.bind_some, run_number _ all, run_of_step,
    ended, Option.bind_some]
  exact fun d hd => if_neg (by simp [(delimited d hd).1])

theorem scan_word (chars : List Char) {t : Token} (read : wordOfChars? chars.reverse = some t)
    (delimited : Delimited rest) :
    Lexer.run ⟨.word chars, found⟩ rest = scan (t :: found) rest := by
  have ended : Lexer.ended ⟨.word chars, found⟩ = some (t :: found) := by
    simp [Lexer.ended, read]
  rw [run_of_step, ended, Option.bind_some]
  exact fun d hd => if_neg (by simp [(delimited d hd).2])

theorem scan_null (delimited : Delimited rest) :
    scan found (['n', 'u', 'l', 'l'] ++ rest) = scan (.null :: found) rest :=
  scan_word ['l', 'l', 'u', 'n'] rfl delimited

theorem scan_wordOf (b : Bool) (delimited : Delimited rest) :
    scan found (wordOf b ++ rest) = scan (.bool b :: found) rest := by
  cases b with
  | true => exact scan_word ['e', 'u', 'r', 't'] rfl delimited
  | false => exact scan_word ['e', 's', 'l', 'a', 'f'] rfl delimited

/-! ## Values -/

theorem delimited_cons {c : Char} (h : isNumberChar c = false ∧ c.isLower = false)
    (rest : List Char) : Delimited (c :: rest) := by
  intro d hd
  cases hd
  exact h

theorem delimited_compactItems (items : List Json) (rest : List Char) :
    Delimited (compactItems items ++ rest) := by
  cases items <;> exact delimited_cons (by decide) _

theorem delimited_compactMembers (members : List (Option String × Json)) (rest : List Char) :
    Delimited (compactMembers members ++ rest) := by
  cases members <;> exact delimited_cons (by decide) _

mutual

/-- A value written without blanks is read as its tokens, if what follows does not go on with it. -/
theorem scan_compact {found : List Token} {rest : List Char} :
    (v : Json) → v.Legal → Delimited rest →
      scan found (compactChars v ++ rest) = scan (v.tokens.reverse ++ found) rest
  | null, _, delimited => scan_null delimited
  | bool b, _, delimited => scan_wordOf b delimited
  | number n, legal, delimited => scan_number legal delimited
  | text s, _, _ => scan_quotedText s
  | array [], _, _ => by simp [compactChars, tokens]
  | array (v :: items), ⟨first, others⟩, _ => by
    simp only [compactChars, tokens, List.cons_append, List.append_assoc, scan_openArray]
    rw [scan_compact v first (delimited_compactItems _ _), scan_compactItems items others]
    simp
  | object [], _, _ => by simp [compactChars, tokens]
  | object ((key, v) :: members), ⟨first, others⟩, _ => by
    simp only [compactChars, tokens, List.cons_append, List.append_assoc, scan_openObject,
      scan_quotedText, scan_colon]
    rw [scan_compact v first (delimited_compactMembers _ _), scan_compactMembers members others]
    simp

theorem scan_compactItems {found : List Token} {rest : List Char} :
    (items : List Json) → LegalItems items →
      scan found (compactItems items ++ rest) = scan ((itemTokens items).reverse ++ found) rest
  | [], _ => rfl
  | v :: items, ⟨first, others⟩ => by
    simp only [compactItems, itemTokens, List.cons_append, List.append_assoc, scan_comma]
    rw [scan_compact v first (delimited_compactItems _ _), scan_compactItems items others]
    simp

theorem scan_compactMembers {found : List Token} {rest : List Char} :
    (members : List (Option String × Json)) → LegalMembers members →
      scan found (compactMembers members ++ rest) =
        scan ((memberTokens members).reverse ++ found) rest
  | [], _ => rfl
  | (key, v) :: members, ⟨first, others⟩ => by
    simp only [compactMembers, memberTokens, List.cons_append, List.append_assoc, scan_comma,
      scan_quotedText, scan_colon]
    rw [scan_compact v first (delimited_compactMembers _ _), scan_compactMembers members others]
    simp

end

theorem delimited_prettyItems (level : Nat) (items : List Json) (rest : List Char) :
    Delimited (prettyItems level items ++ rest) := by
  cases items <;> exact delimited_cons (by decide) _

theorem delimited_prettyMembers (level : Nat) (members : List (Option String × Json))
    (rest : List Char) : Delimited (prettyMembers level members ++ rest) := by
  cases members <;> exact delimited_cons (by decide) _

mutual

/-- A value written over several lines is read as its tokens, if what follows does not go on with
it. -/
theorem scan_pretty {found : List Token} {rest : List Char} (level : Nat) :
    (v : Json) → v.Legal → Delimited rest →
      scan found (prettyChars level v ++ rest) = scan (v.tokens.reverse ++ found) rest
  | null, _, delimited => scan_null delimited
  | bool b, _, delimited => scan_wordOf b delimited
  | number n, legal, delimited => scan_number legal delimited
  | text s, _, _ => scan_quotedText s
  | array [], _, _ => by simp [prettyChars, tokens]
  | array (v :: items), ⟨first, others⟩, _ => by
    simp only [prettyChars, tokens, List.cons_append, List.append_assoc, scan_openArray,
      scan_newLine]
    rw [scan_pretty _ v first (delimited_prettyItems _ _ _), scan_prettyItems level items others]
    simp
  | object [], _, _ => by simp [prettyChars, tokens]
  | object ((key, v) :: members), ⟨first, others⟩, _ => by
    simp only [prettyChars, tokens, List.cons_append, List.append_assoc, scan_openObject,
      scan_newLine, scan_quotedText, scan_colon, scan_blank]
    rw [scan_pretty _ v first (delimited_prettyMembers _ _ _),
      scan_prettyMembers level members others]
    simp

theorem scan_prettyItems {found : List Token} {rest : List Char} (level : Nat) :
    (items : List Json) → LegalItems items →
      scan found (prettyItems level items ++ rest) = scan ((itemTokens items).reverse ++ found) rest
  | [], _ => by simp [prettyItems, itemTokens]
  | v :: items, ⟨first, others⟩ => by
    simp only [prettyItems, itemTokens, List.cons_append, List.append_assoc, scan_comma,
      scan_newLine]
    rw [scan_pretty _ v first (delimited_prettyItems _ _ _), scan_prettyItems level items others]
    simp

theorem scan_prettyMembers {found : List Token} {rest : List Char} (level : Nat) :
    (members : List (Option String × Json)) → LegalMembers members →
      scan found (prettyMembers level members ++ rest) =
        scan ((memberTokens members).reverse ++ found) rest
  | [], _ => by simp [prettyMembers, memberTokens]
  | (key, v) :: members, ⟨first, others⟩ => by
    simp only [prettyMembers, memberTokens, List.cons_append, List.append_assoc, scan_comma,
      scan_newLine, scan_quotedText, scan_colon, scan_blank]
    rw [scan_pretty _ v first (delimited_prettyMembers _ _ _),
      scan_prettyMembers level members others]
    simp

end

theorem ofChars?_of_scan {chars : List Char} {v : Json}
    (read : scan [] (chars ++ []) = scan (v.tokens.reverse ++ []) []) :
    Token.ofChars? chars = some v.tokens := by
  rw [List.append_nil, List.append_nil, scan_nil, scan] at read
  rw [Token.ofChars?_eq_run, read, Option.map_some, List.reverse_reverse]

/-- A text that is a written value has the tokens of the value. -/
theorem ofChars?_compactChars {v : Json} (legal : v.Legal) :
    Token.ofChars? (compactChars v) = some v.tokens :=
  ofChars?_of_scan (scan_compact v legal nofun)

theorem ofChars?_prettyChars {v : Json} (legal : v.Legal) :
    Token.ofChars? (prettyChars 0 v) = some v.tokens :=
  ofChars?_of_scan (scan_pretty 0 v legal nofun)

end StakeLedger.Json
