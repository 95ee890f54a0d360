import StakeLedger.Proofs.Ledger.Run
import StakeLedger.Proofs.Ledger.Spelling
import StakeLedger.Proofs.Throttle.Worth

/-!
# Checks at ratios of one worth

A ratio comes into the ledger in two ways: in lowest terms, or as a message spells it, which nobody
reduces. The ledger cannot tell them apart. What is charged depends on what the ratio is worth, and
so do the answer to a check of capacity and the store that it leaves. `Ledger.charged_by_worth`
brings all of this together.
-/

namespace StakeLedger

open Json

/-- The charges of an account are the same program at ratios of one worth, so they do the same on
any store. -/
theorem Ratio.Alike.ledger_charge_eq {r s : Ratio} (h : r.Alike s) (l : Ledger) (u : Username)
    (now : Seconds) : l.charge u r now = l.charge u s now := by
  simp only [Ledger.charge, h.charge_eq]

/-! ## Messages -/

/-- The same message, except that one ratio may be written in another way. -/
inductive Message.Alike : Message → Message → Prop
  | same (m : Message) : Alike m m
  | checkCapacity (u : Username) {r s : Ratio} (h : r.Alike s) :
    Alike (.checkCapacity u r) (.checkCapacity u s)

namespace Message.Alike

variable {m m' : Message}

theorem check_eq (h : m.Alike m') : m.check = m'.check := by
  cases h with
  | same => rfl
  | checkCapacity u h => rw [check, check, if_neg h.left_valued, if_neg h.right_valued]

theorem script_eq (h : m.Alike m') (l : Ledger) (now : Seconds) :
    m.script l now = m'.script l now := by
  cases h with
  | same => rfl
  | checkCapacity u h => rw [script, script, h.ledger_charge_eq]

/-- However its ratio is written, a message is answered alike and leaves the same store, whatever is
in the store and whatever fails there. -/
theorem deliver_eq (h : m.Alike m') (l : Ledger) (b : Backend) (now : Seconds) :
    l.deliver b m now = l.deliver b m' now := by
  rw [Ledger.deliver, Ledger.deliver, h.check_eq, h.script_eq]

end Message.Alike

/-! ## Requests one after another -/

/-- The same request, except that the ratio of its message may be written in another way. -/
inductive Request.Alike : Request → Request → Prop
  | start (g : Genesis) : Alike (.start g) (.start g)
  | deliver {m m' : Message} (h : m.Alike m') (now : Seconds) :
    Alike (.deliver m now) (.deliver m' now)

theorem Request.Alike.serve_eq {r r' : Request} (h : r.Alike r') (l : Ledger) (b : Backend) :
    l.serve b r = l.serve b r' := by
  cases h with
  | start g => rfl
  | deliver h now => exact h.deliver_eq l b now

/-- Requests one after another are answered alike and leave the same store, however their ratios are
written. -/
theorem Ledger.run_alike (l : Ledger) {requests others : List Request}
    (alike : List.Forall₂ Request.Alike requests others) (b : Backend) :
    (l.run b requests).1.map Prod.snd = (l.run b others).1.map Prod.snd ∧
      (l.run b requests).2 = (l.run b others).2 := by
  induction alike generalizing b with
  | nil => exact ⟨rfl, rfl⟩
  | cons head tail ih =>
    obtain ⟨answers, store⟩ := ih (l.serve b _).2
    simp only [run, head.serve_eq, List.map_cons] at answers store ⊢
    exact ⟨congrArg _ answers, store⟩

/-- A ratio of two numbers, the second of which is not zero, is brought to lowest terms, with the
same worth. It then takes the same share of any amount as before: their exact product, rounded down,
or an overflow if that leaves the range; and the products on the way fit in 128 bits, in lowest
terms or not.

At ratios of one worth a message costs the same and a charge does the same, in memory and as a
program on a store. Two messages that spell checks of capacity at such ratios, in whatever way, are
read, answered alike, and leave the same store. Nor do answers or stores differ over requests one
after another. -/
theorem Ledger.charged_by_worth :
    (∀ num den : Word64, 0 < den.val → ∃ r,
      Ratio.reduced num den = .ok r ∧
        (0 < r.den.val ∧ r.num.val.Coprime r.den.val ∧ r.worth = num.val / den.val) ∧
        ∀ amount : Word64,
          r.shareOf amount = Ratio.shareOf ⟨num, den⟩ amount ∧
            Ratio.IsShare (num.val / den.val) amount (r.shareOf amount) ∧
            r.strictShareOf amount = some (r.shareOf amount) ∧
            Ratio.strictShareOf ⟨num, den⟩ amount = some (Ratio.shareOf ⟨num, den⟩ amount)) ∧
    (∀ r s : Ratio, r.Alike s →
      (∀ (t : Throttle) (u : Username) (usage : Usage) (ceiling : Coin) (now : Seconds),
        t.cost r = t.cost s ∧ t.charge u usage ceiling r now = t.charge u usage ceiling s now) ∧
      ∀ (l : Ledger) (u : Username) (now : Seconds),
        l.charge u r now = l.charge u s now ∧
          ∀ v w : Json,
            (Message.checkCapacity u r).Spells v → (Message.checkCapacity u s).Spells w →
            ∃ m m', Message.ofJson? v = some m ∧ Message.ofJson? w = some m' ∧
              ∀ b, l.deliver b m now = l.deliver b m' now) ∧
    ∀ (l : Ledger) (requests others : List Request), List.Forall₂ Request.Alike requests others →
      ∀ b, (l.run b requests).1.map Prod.snd = (l.run b others).1.map Prod.snd ∧
        (l.run b requests).2 = (l.run b others).2 := by
  refine ⟨fun num den pos => ?_, fun r s alike => ⟨fun t u usage ceiling now => ?_,
    fun l u now => ⟨alike.ledger_charge_eq l u now, fun v w spells spells' => ?_⟩⟩,
    fun l requests others alike => l.run_alike alike⟩
  · obtain ⟨r, reduced, lowest, alike⟩ := Ratio.exists_reduced num pos.ne'
    have due := Ratio.isShare_shareOf alike.left_valued
    rw [show r.worth = num.val / den.val from alike.worth_eq] at due
    exact ⟨r, reduced, ⟨Nat.pos_of_ne_zero alike.left_valued, lowest, alike.worth_eq⟩,
      fun amount => ⟨alike.shareOf_eq amount, due amount, r.strictShareOf_eq amount,
        Ratio.strictShareOf_eq _ amount⟩⟩
  · exact ⟨alike.cost_eq t, alike.charge_eq t u usage ceiling now⟩
  · have same := Message.Alike.checkCapacity u alike
    exact ⟨_, _, spells.ofJson?_eq, spells'.ofJson?_eq, fun b => same.deliver_eq l b now⟩

/-- Both terms of the ratio of 2 ^ 64 - 2 to 2 ^ 64 - 4 are even. In lowest terms its share of
2 ^ 64 - 4 is 2 ^ 64 - 2, and its share of the largest amount leaves the range. And an account with
a stake of one coin checks its capacity for a tenth of a coin, spelled as five fiftieths with the
fields in reverse order, or in lowest terms. Nine tenths remain, and after a second check eight. -/
theorem Ledger.charged_by_worth_tenth :
    let num : Word64 := ⟨2 ^ 64 - 2, by decide⟩
    let den : Word64 := ⟨2 ^ 64 - 4, by decide⟩
    let l : Ledger := ⟨.standard, by decide⟩
    let alice : Username := ⟨"alice", by decide⟩
    let x : Address := ⟨"x", by decide⟩
    let coin : Coin := ⟨100000, by decide⟩
    let c := Table.usages.put .empty alice ⟨.zero64, .zero, coin⟩
    let c' := Table.registrations.put c alice ⟨alice, .zero, x, ""⟩
    let b : Backend := ⟨Table.banks.put c' x ⟨x, coin, coin, none⟩, [], []⟩
    let fiftieths : Ratio := ⟨⟨5, by decide⟩, ⟨50, by decide⟩⟩
    let tenth : Ratio := ⟨⟨1, by decide⟩, ⟨10, by decide⟩⟩
    let v : Json := record [("CheckCapacity", record [
      ("ratio", record [("den", Json.ofNat 50), ("num", Json.ofNat 5)]),
      ("username", ofUsername alice)])]
    0 < den.val ∧
      (∃ r, Ratio.reduced num den = .ok r ∧ r.num.val.Coprime r.den.val ∧
        r.shareOf den = .ok ⟨2 ^ 64 - 2, by decide⟩ ∧
        r.shareOf ⟨2 ^ 64 - 1, by decide⟩ = .error (.overflow "ratio")) ∧
      fiftieths.Alike tenth ∧
      ∃ m m', Message.ofJson? v = some m ∧
        Message.ofJson? (Message.checkCapacity alice tenth).toJson = some m' ∧
        (l.deliver b m' .zero).1 = .ok (.capacityRemaining ⟨90000, by decide⟩) ∧
        l.deliver b m .zero = l.deliver b m' .zero ∧
        (l.run b [.deliver m .zero, .deliver m' .zero]).1.map Prod.snd =
          [.ok (.capacityRemaining ⟨90000, by decide⟩),
            .ok (.capacityRemaining ⟨80000, by decide⟩)] := by
  intro num den l alice x coin c c' b fiftieths tenth v
  have pos : 0 < den.val := by decide
  have alike : fiftieths.Alike tenth := Ratio.alike_iff.2 (by decide)
  have ratio : fiftieths.Spells (record [("den", Json.ofNat 50), ("num", Json.ofNat 5)]) :=
    ⟨[], _, nofun, List.reverse_perm _, rfl⟩
  have spells : (Message.checkCapacity alice fiftieths).Spells v :=
    ⟨_, _, .checkCapacity alice ratio, ⟨[], _, nofun, List.reverse_perm _, rfl⟩, rfl⟩
  have spells' := (Message.checkCapacity alice tenth).spells_toJson
  let check : Request := .deliver (.checkCapacity alice tenth) .zero
  have remains : (l.run b [check, check]).1.map Prod.snd =
      [.ok (.capacityRemaining ⟨90000, by decide⟩),
        .ok (.capacityRemaining ⟨80000, by decide⟩)] := by decide +kernel
  clear_value b -- what is stored is not to be read again
  have first : (l.deliver b (.checkCapacity alice tenth) .zero).1 =
      .ok (.capacityRemaining ⟨90000, by decide⟩) := (List.cons.inj remains).1
  obtain ⟨lowestTerms, alikeCharges, alikeRuns⟩ := charged_by_worth
  obtain ⟨r, reduced, ⟨-, lowest, -⟩, share⟩ := lowestTerms num den pos
  obtain ⟨m, m', hm, hm', same⟩ := ((alikeCharges _ _ alike).2 l alice .zero).2 v _ spells spells'
  cases hm.symm.trans spells.ofJson?_eq
  cases hm'.symm.trans spells'.ofJson?_eq
  have twice := alikeRuns l _ [check, check]
    (.cons (.deliver (.checkCapacity alice alike) .zero) (.cons (.deliver (.same _) .zero) .nil)) b
  exact ⟨pos, ⟨r, reduced, lowest, (share den).1.trans (by decide), (share _).1.trans (by decide)⟩,
    alike, _, _, hm, hm', first, same b, twice.1.trans remains⟩

end StakeLedger
