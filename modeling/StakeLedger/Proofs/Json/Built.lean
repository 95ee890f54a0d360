import StakeLedger.Json.Tree
import StakeLedger.Proofs.Json.Lexed

/-!
# Values read back from text

The tokens of a value build the value, whatever containers are open around it. With that a written
value is read back, and the values that are read back from their text are exactly those that any
text writes. `Json.legal_iff` has the latter.
-/

namespace StakeLedger.Json

namespace Builder

/-- What comes of tokens one after another. -/
def run (b : Builder) (tokens : List Token) : Option Builder := tokens.foldlM step b

variable {stack : List Frame} {rest : List Token}

theorem run_cons_of_step {b b' : Builder} {t : Token} (h : b.step t = some b') :
    b.run (t :: rest) = b'.run rest := by
  change (b.step t).bind (·.run rest) = b'.run rest
  rw [h, Option.bind_some]

/-! ## Building a value -/

/-- The first item of an array is built as any value is. -/
theorem run_firstItem (v : Json) :
    (firstItem stack).run (v.tokens ++ rest) =
      (value (.array [] :: stack)).run (v.tokens ++ rest) := by
  cases v with
  | array items => cases items <;> rfl
  | object members => cases members <;> rfl
  | _ => rfl

mutual

/-- The tokens of a value build it in its place. -/
theorem run_tokens {stack : List Frame} {rest : List Token} :
    (v : Json) → (value stack).run (v.tokens ++ rest) = (place v stack).run rest
  | null | bool _ | number _ | text _ | array [] | object [] => rfl
  | array (v :: items) => by
    rw [tokens, List.cons_append, run_cons_of_step rfl, List.append_assoc, run_firstItem v,
      run_tokens v]
    exact run_itemTokens items [v]
  | object ((key, v) :: members) => by
    rw [tokens, List.cons_append, run_cons_of_step rfl, List.cons_append, run_cons_of_step rfl,
      List.cons_append, run_cons_of_step rfl, List.append_assoc, run_tokens v]
    exact run_memberTokens members [(key, v)]

theorem run_itemTokens {stack : List Frame} {rest : List Token} :
    (items before : List Json) → (afterItem stack before).run (itemTokens items ++ rest) =
      (place (.array (before.reverse ++ items)) stack).run rest
  | [], before => by rw [List.append_nil]; rfl
  | v :: items, before => by
    rw [itemTokens, List.cons_append, run_cons_of_step rfl, List.append_assoc, run_tokens v]
    refine (run_itemTokens items (v :: before)).trans ?_
    rw [List.reverse_cons, List.append_assoc, List.singleton_append]

theorem run_memberTokens {stack : List Frame} {rest : List Token} :
    (members before : List (Option String × Json)) →
      (afterMember stack before).run (memberTokens members ++ rest) =
        (place (.object (before.reverse ++ members)) stack).run rest
  | [], before => by rw [List.append_nil]; rfl
  | (key, v) :: members, before => by
    rw [memberTokens, List.cons_append, run_cons_of_step rfl, List.cons_append,
      run_cons_of_step rfl, List.cons_append, run_cons_of_step rfl, List.append_assoc, run_tokens v]
    refine (run_memberTokens members ((key, v) :: before)).trans ?_
    rw [List.reverse_cons, List.append_assoc, List.singleton_append]

end

end Builder

/-- The tokens of a value write the value. -/
theorem ofTokens?_tokens (v : Json) : ofTokens? v.tokens = some v := by
  have built : (Builder.value []).run (v.tokens ++ []) = (Builder.place v []).run [] :=
    Builder.run_tokens v
  rw [List.append_nil] at built
  unfold ofTokens?
  rw [← Builder.run, built]
  rfl

/-! ## Reading back -/

/-- A value written without blanks is read back. -/
theorem ofText?_compact {v : Json} (legal : v.Legal) : ofText? v.compact = some v := by
  rw [ofText?, compact, String.toList_ofList, ofChars?_compactChars legal, Option.bind_some,
    ofTokens?_tokens]

/-- A value written over several lines is read back. -/
theorem ofText?_pretty {v : Json} (legal : v.Legal) : ofText? v.pretty = some v := by
  rw [ofText?, pretty, String.toList_ofList, ofChars?_prettyChars legal, Option.bind_some,
    ofTokens?_tokens]

/-! ## Values that have a text -/

theorem legalItems_iff {items : List Json} : LegalItems items ↔ ∀ v ∈ items, v.Legal := by
  induction items with
  | nil => simp [LegalItems]
  | cons v items ih => rw [LegalItems, ih, List.forall_mem_cons]

theorem legalMembers_iff {members : List (Option String × Json)} :
    LegalMembers members ↔ ∀ p ∈ members, p.2.Legal := by
  induction members with
  | nil => simp [LegalMembers]
  | cons p members ih => rw [LegalMembers, ih, List.forall_mem_cons]

def Token.Legal : Token → Prop
  | number n => isTail n.tail = true
  | _ => True

def Frame.Legal : Frame → Prop
  | array items => LegalItems items
  | object members _ => LegalMembers members

/-- All values in what has been built so far are legal. -/
def Builder.Legal : Builder → Prop
  | value stack | firstItem stack | firstKey stack => ∀ f ∈ stack, f.Legal
  | nextKey stack members | colon stack members _ | afterMember stack members =>
    LegalMembers members ∧ ∀ f ∈ stack, f.Legal
  | afterItem stack items => LegalItems items ∧ ∀ f ∈ stack, f.Legal
  | complete v => v.Legal

theorem Number.isTail_of_ofChars? {chars : List Char} {n : Number} (h : ofChars? chars = some n) :
    isTail n.tail = true := by
  have unsigned {minus : Bool} {chars : List Char} (h : unsigned? minus chars = some n) :
      isTail n.tail = true := by
    unfold unsigned? at h
    dsimp only at h
    split_ifs at h with flawed
    cases h
    by_contra flaw
    exact flawed (by simp [flaw])
  unfold ofChars? at h
  split at h <;> exact unsigned h

namespace Lexer

theorem legal_start {found : List Token} {c : Char} {l : Lexer} (legal : ∀ t ∈ found, t.Legal)
    (h : start found c = some l) : ∀ t ∈ l.found, t.Legal := by
  unfold start at h
  split_ifs at h <;> cases h <;> first
    | exact legal
    | exact List.forall_mem_cons.2 ⟨trivial, legal⟩

theorem legal_ended {l : Lexer} {found : List Token} (legal : ∀ t ∈ l.found, t.Legal)
    (h : l.ended = some found) : ∀ t ∈ found, t.Legal := by
  unfold ended at h
  split at h
  · cases h
    exact legal
  · rename_i chars
    obtain ⟨t, word, rfl⟩ := Option.map_eq_some_iff.1 h
    refine List.forall_mem_cons.2 ⟨?_, legal⟩
    unfold wordOfChars? at word
    split_ifs at word <;> cases word <;> trivial
  · obtain ⟨n, number, rfl⟩ := Option.map_eq_some_iff.1 h
    exact List.forall_mem_cons.2 ⟨Number.isTail_of_ofChars? number, legal⟩
  · cases h
  · cases h
  · cases h

/-- One more character finds legal tokens only. -/
theorem legal_step {l l' : Lexer} {c : Char} (legal : ∀ t ∈ l.found, t.Legal)
    (h : l.step c = some l') : ∀ t ∈ l'.found, t.Legal := by
  have next (ended : l.ended.bind (start · c) = some l') : ∀ t ∈ l'.found, t.Legal := by
    obtain ⟨found, hfound, hstart⟩ := Option.bind_eq_some_iff.1 ended
    exact legal_start (legal_ended legal hfound) hstart
  unfold step at h
  split at h
  · exact legal_start legal h
  · split_ifs at h
    · cases h
      exact legal
    · exact next h
  · split_ifs at h
    · cases h
      exact legal
    · exact next h
  · split_ifs at h
    · cases h
      exact List.forall_mem_cons.2 ⟨trivial, legal⟩
    · cases h
      exact legal
    · cases h
      exact legal
  · split_ifs at h
    · cases h
      exact legal
    · obtain ⟨e, -, rfl⟩ := Option.map_eq_some_iff.1 h
      exact legal
  · split at h
    · cases h
    · split_ifs at h <;> cases h <;> exact legal

theorem legal_foldlM {chars : List Char} {l l' : Lexer} (legal : ∀ t ∈ l.found, t.Legal)
    (h : chars.foldlM step l = some l') : ∀ t ∈ l'.found, t.Legal := by
  induction chars generalizing l with
  | nil =>
    cases h
    exact legal
  | cons c chars ih =>
    obtain ⟨next, first, later⟩ := Option.bind_eq_some_iff.1 h
    exact ih (legal_step legal first) later

end Lexer

theorem Token.legal_of_ofChars? {chars : List Char} {tokens : List Token}
    (h : ofChars? chars = some tokens) : ∀ t ∈ tokens, t.Legal := by
  obtain ⟨l, read, ended⟩ := Option.bind_eq_some_iff.1 h
  obtain ⟨found, hfound, last⟩ := Option.bind_eq_some_iff.1 ended
  cases last
  have legal := Lexer.legal_ended (Lexer.legal_foldlM (by simp) read) hfound
  simpa using legal

namespace Builder

theorem legal_place {v : Json} (legal : v.Legal) (stack : List Frame)
    (open_ : ∀ f ∈ stack, f.Legal) : (place v stack).Legal := by
  cases stack with
  | nil => exact legal
  | cons f stack =>
    rw [List.forall_mem_cons] at open_
    cases f with
    | array items => exact ⟨⟨legal, open_.1⟩, open_.2⟩
    | object members key => exact ⟨⟨legal, open_.1⟩, open_.2⟩

theorem legal_begin {stack : List Frame} {t : Token} {b : Builder} (open_ : ∀ f ∈ stack, f.Legal)
    (legal : t.Legal) (h : begin stack t = some b) : b.Legal := by
  cases t with
  | openArray | openObject =>
    cases h
    exact open_
  | null =>
    cases h
    exact legal_place (v := .null) trivial stack open_
  | bool x =>
    cases h
    exact legal_place (v := .bool x) trivial stack open_
  | number n =>
    cases h
    exact legal_place (v := .number n) legal stack open_
  | text s =>
    cases h
    exact legal_place (v := .text s) trivial stack open_
  | closeArray | closeObject | comma | colon => cases h

/-- One more token keeps what is built legal. -/
theorem legal_step {b b' : Builder} {t : Token} (hb : b.Legal) (ht : t.Legal)
    (h : b.step t = some b') : b'.Legal := by
  -- The cases are those of a step, in their order.
  unfold step at h
  split at h
  · exact legal_begin hb ht h
  · cases h
    exact legal_place (v := .array []) trivial _ hb
  · have opened : Frame.Legal (.array []) := trivial
    exact legal_begin (List.forall_mem_cons.2 ⟨opened, hb⟩) ht h
  · cases h
    exact legal_place (v := .object []) trivial _ hb
  · cases h
    exact ⟨trivial, hb⟩
  · cases h
    exact hb
  · cases h
    exact List.forall_mem_cons.2 hb
  · cases h
    exact List.forall_mem_cons.2 hb
  · cases h
    refine legal_place ?_ _ hb.2
    rw [Json.Legal, legalItems_iff]
    exact fun v hv => legalItems_iff.1 hb.1 v (List.mem_reverse.1 hv)
  · cases h
    exact hb
  · cases h
    refine legal_place ?_ _ hb.2
    rw [Json.Legal, legalMembers_iff]
    exact fun p hp => legalMembers_iff.1 hb.1 p (List.mem_reverse.1 hp)
  · cases h

theorem legal_run {tokens : List Token} {b b' : Builder} (hb : b.Legal)
    (legal : ∀ t ∈ tokens, t.Legal) (h : b.run tokens = some b') : b'.Legal := by
  induction tokens generalizing b with
  | nil =>
    cases h
    exact hb
  | cons t tokens ih =>
    rw [List.forall_mem_cons] at legal
    obtain ⟨next, first, later⟩ := Option.bind_eq_some_iff.1 h
    exact ih (legal_step hb legal.1 first) legal.2 later

end Builder

/-- The values that a text writes are exactly the legal ones. -/
theorem legal_iff {v : Json} : v.Legal ↔ ∃ s, ofText? s = some v := by
  refine ⟨fun legal => ⟨_, ofText?_compact legal⟩, fun ⟨s, h⟩ => ?_⟩
  obtain ⟨tokens, lexed, built⟩ := Option.bind_eq_some_iff.1 h
  have done : Builder.run (.value []) tokens = some (.complete v) := by
    unfold ofTokens? at built
    split at built
    · rename_i done
      cases built
      exact done
    · cases built
  exact Builder.legal_run (b := .value []) (by simp [Builder.Legal]) (Token.legal_of_ofChars? lexed)
    done

end StakeLedger.Json
