import Mathlib.Algebra.Ring.Int.Defs
import StakeLedger.Proofs.Ledger.Step

/-!
# Effects of requests

An accepted message makes the changes that its kind stands for, and answers accordingly. A message
that is refused makes none, unless it was a check of capacity. A genesis credits the key of each
account and enrols it.

## Main definitions

* `Resolves` — where coin for a receiver goes.
* `Message.Effect` — what an accepted message does to the records.
* `Genesis.Effect` — what an accepted genesis does.
* `Move.gain`, `Message.gain`, `Genesis.gain` — the coin that comes in with a change, a message or a
  genesis.

## Main statements

* `Message.effect_of_script`, `Genesis.effect_of_script` — accepted requests have their effects.
* `Message.Effect.steps`, `Genesis.Effect.steps` — effects are changes one after another, and the
  coin that comes in with them is that of the request.
-/

namespace StakeLedger

open Table

/-- Where coin for a receiver goes, by the registrations in some contents. -/
inductive Resolves (c : Contents) : Receiver → Address → Prop
  | account {u : Username} {fallback : Option Address} {r : Registration}
    (hr : registrations.peek c u = .ok (some r)) : Resolves c ⟨some u, fallback⟩ r.address
  | fallback {account : Option Username} {a : Address}
    (unknown : ∀ u, account = some u → registrations.peek c u = .ok none) :
    Resolves c ⟨account, some a⟩ a

theorem Ledger.resolve_eq_ok {sender : Username} {receiver : Receiver} {c c' : Contents}
    {a : Address} (run : (resolve sender receiver).runPlain c = (.ok a, c')) :
    Resolves c receiver a ∧ c' = c := by
  obtain ⟨account, address⟩ := receiver
  cases account with
  | none =>
    cases address with
    | none => cases run
    | some a =>
      cases run
      exact ⟨.fallback nofun, rfl⟩
  | some u =>
    simp only [resolve, Script.bind_runPlain_eq_ok, load_runPlain, Prod.mk.injEq] at run
    obtain ⟨found, d, ⟨hfound, rfl⟩, run⟩ := run
    cases found with
    | some r =>
      cases run
      exact ⟨.account hfound, rfl⟩
    | none =>
      cases address with
      | none => cases run
      | some a =>
        cases run
        refine ⟨.fallback fun u' same => ?_, rfl⟩
        cases same
        exact hfound

/-! ## Messages -/

/-- What a message does to the records when it is accepted at `now`, and what it answers. -/
inductive Message.Effect (l : Ledger) (now : Seconds) :
    Message → Contents → Outcome → Contents → Prop
  | deposit {a : Address} {x : Coin} {c c' : Contents} (h : Step l now (.credit a x) c c') :
    Effect l now (.deposit a x) c .done c'
  | depositToAccount {u : Username} {x : Coin} {c c' : Contents} {r : Registration}
    (hr : registrations.peek c u = .ok (some r)) (h : Step l now (.credit r.address x) c c') :
    Effect l now (.depositToAccount u x) c .done c'
  | withdraw {u : Username} {x : Coin} {c c' : Contents} {r : Registration}
    (hr : registrations.peek c u = .ok (some r)) (h : Step l now (.debit r.address x) c c') :
    Effect l now (.withdraw u x) c .done c'
  | transfer {s : Username} {receiver : Receiver} {x : Coin} {memo : String} {c d c' : Contents}
    {r : Registration} {target : Address} (hr : registrations.peek c s = .ok (some r))
    (htarget : Resolves c receiver target) (paid : Step l now (.debit r.address x) c d)
    (received : Step l now (.credit target x) d c') :
    Effect l now (.transfer s receiver x memo) c .done c'
  | follow {u v : Username} {c : Contents} {r s : Registration} {theirs own : Option Roster}
    {theirs' own' : Roster} (hr : registrations.peek c u = .ok (some r))
    (hs : registrations.peek c v = .ok (some s)) (htheirs : followers.peek c v = .ok theirs)
    (hown : following.peek c u = .ok own) (hjoin : (theirs.getD .empty).join u = .ok theirs')
    (hjoin' : (own.getD .empty).join v = .ok own') :
    Effect l now (.follow u v) c .done
      (following.edited (followers.edited c v (!(theirs.getD .empty).has u) theirs') u
        (!(own.getD .empty).has v) own')
  | unfollow {u v : Username} {c : Contents} {r s : Registration} {theirs own : Option Roster}
    (hr : registrations.peek c u = .ok (some r)) (hs : registrations.peek c v = .ok (some s))
    (htheirs : followers.peek c v = .ok theirs) (hown : following.peek c u = .ok own) :
    Effect l now (.unfollow u v) c .done
      (following.edited
        (followers.edited c v ((theirs.getD .empty).has u) ((theirs.getD .empty).leave u)) u
        ((own.getD .empty).has v) ((own.getD .empty).leave v))
  | checkCapacity {u : Username} {ratio : Ratio} {c : Contents} {usage usage' : Usage}
    {ceiling left : Coin} (husage : usages.peek c u = .ok (some usage))
    (hstake : (l.stakeOf u now).runPlain c = (.ok ceiling, c))
    (hcharge : l.throttle.charge u usage ceiling ratio now = (usage', .ok left)) :
    Effect l now (.checkCapacity u ratio) c (.capacityRemaining left) (usages.put c u usage')
  | accrueReward {u : Username} {income reward : Coin} {c : Contents} {e e' : Earnings}
    (hearnings : Table.earnings.peek c u = .ok (some e))
    (haccrue : e.accrue income reward = .ok e') :
    Effect l now (.accrueReward u income reward) c .done (Table.earnings.put c u e')
  | accrueFrictionIncome {u : Username} {amount : Coin} {c : Contents} {e e' : Earnings}
    (hearnings : Table.earnings.peek c u = .ok (some e))
    (haccrue : e.accrueFriction amount = .ok e') :
    Effect l now (.accrueFrictionIncome u amount) c .done (Table.earnings.put c u e')
  | claimNothing {u : Username} {c : Contents} {e : Earnings} {r : Registration}
    (hearnings : Table.earnings.peek c u = .ok (some e))
    (hr : registrations.peek c u = .ok (some r)) (zero : e.unclaimed.units = 0) :
    Effect l now (.claimReward u) c (.claimed e.unclaimed) c
  | claimReward {u : Username} {c d : Contents} {e : Earnings} {r : Registration}
    (hearnings : Table.earnings.peek c u = .ok (some e))
    (hr : registrations.peek c u = .ok (some r))
    (received : Step l now (.credit r.address e.unclaimed) c d) :
    Effect l now (.claimReward u) c (.claimed e.unclaimed) (Table.earnings.put d u e.claimed)
  | createAccount {u : Username} {text : String} {key : PublicKey} {c c' : Contents}
    (hkey : PublicKey.require text = .ok key) (h : Step l now (.enrol u key) c c') :
    Effect l now (.createAccount u text) c (.accountCreated key.address) c'
  | increaseSequence {u : Username} {c : Contents} {usage : Usage} {n : Word64}
    (husage : usages.peek c u = .ok (some usage)) (hn : n.val = usage.sequence.val + 1) :
    Effect l now (.increaseSequence u) c (.sequence n)
      (usages.put c u { usage with sequence := n })

theorem Message.effect_of_script {l : Ledger} {m : Message} {now : Seconds} {c c' : Contents}
    {o : Outcome} (run : (m.script l now).runPlain c = (.ok o, c')) : m.Effect l now c o c' := by
  cases m with
  | deposit a x =>
    obtain ⟨_, d, run, last⟩ := Script.bind_runPlain_eq_ok.1 run
    cases last
    exact .deposit (Ledger.deposit_runPlain_eq_ok.1 run)
  | depositToAccount u x =>
    obtain ⟨_, d, run, last⟩ := Script.bind_runPlain_eq_ok.1 run
    cases last
    obtain ⟨a, d, haddress, run⟩ := Script.bind_runPlain_eq_ok.1 run
    obtain ⟨r, hr, rfl, rfl⟩ := addressOf_runPlain_eq_ok.1 haddress
    exact .depositToAccount hr (Ledger.deposit_runPlain_eq_ok.1 run)
  | withdraw u x =>
    obtain ⟨_, d, run, last⟩ := Script.bind_runPlain_eq_ok.1 run
    cases last
    obtain ⟨a, d, haddress, run⟩ := Script.bind_runPlain_eq_ok.1 run
    obtain ⟨r, hr, rfl, rfl⟩ := addressOf_runPlain_eq_ok.1 haddress
    exact .withdraw hr (Ledger.withdrawFrom_runPlain_eq_ok.1 run)
  | transfer s receiver x memo =>
    obtain ⟨_, d, run, last⟩ := Script.bind_runPlain_eq_ok.1 run
    cases last
    obtain ⟨a, d, haddress, run⟩ := Script.bind_runPlain_eq_ok.1 run
    obtain ⟨r, hr, rfl, rfl⟩ := addressOf_runPlain_eq_ok.1 haddress
    obtain ⟨target, d, hresolve, moving⟩ := Script.bind_runPlain_eq_ok.1 run
    obtain ⟨htarget, rfl⟩ := Ledger.resolve_eq_ok hresolve
    obtain ⟨_, d', paid, received⟩ := Script.bind_runPlain_eq_ok.1 moving
    exact .transfer hr htarget (Ledger.withdrawFrom_runPlain_eq_ok.1 paid)
      (Ledger.deposit_runPlain_eq_ok.1 received)
  | follow u v =>
    obtain ⟨_, d, run, last⟩ := Script.bind_runPlain_eq_ok.1 run
    cases last
    rw [Ledger.follow_eq] at run
    obtain ⟨r, s, theirs, own, theirs', own', hr, hs, htheirs, hown, hjoin, hjoin', rfl⟩ :=
      Ledger.editRosters_eq_ok run
    exact .follow hr hs htheirs hown hjoin hjoin'
  | unfollow u v =>
    obtain ⟨_, d, run, last⟩ := Script.bind_runPlain_eq_ok.1 run
    cases last
    rw [Ledger.unfollow_eq] at run
    obtain ⟨r, s, theirs, own, _, _, hr, hs, htheirs, hown, ⟨⟩, ⟨⟩, rfl⟩ :=
      Ledger.editRosters_eq_ok run
    exact .unfollow hr hs htheirs hown
  | checkCapacity u ratio =>
    obtain ⟨left, d, run, last⟩ := Script.bind_runPlain_eq_ok.1 run
    cases last
    obtain ⟨usage, ceiling, usage', husage, hstake, hcharge, rfl⟩ := Ledger.charge_eq_ok run
    exact .checkCapacity husage hstake hcharge
  | accrueReward u income reward =>
    obtain ⟨_, d, run, last⟩ := Script.bind_runPlain_eq_ok.1 run
    cases last
    obtain ⟨e, e', hearnings, haccrue, rfl⟩ := Ledger.accrue_eq_ok run
    exact .accrueReward hearnings haccrue
  | accrueFrictionIncome u amount =>
    obtain ⟨_, d, run, last⟩ := Script.bind_runPlain_eq_ok.1 run
    cases last
    obtain ⟨e, e', hearnings, haccrue, rfl⟩ := Ledger.accrueFriction_eq_ok run
    exact .accrueFrictionIncome hearnings haccrue
  | claimReward u =>
    obtain ⟨x, d, run, last⟩ := Script.bind_runPlain_eq_ok.1 run
    cases last
    obtain ⟨e, r, hearnings, hr, rfl, ⟨zero, rfl⟩ | ⟨d, received, rfl⟩⟩ := Ledger.claim_eq_ok run
    · exact .claimNothing hearnings hr zero
    · exact .claimReward hearnings hr received
  | createAccount u text =>
    obtain ⟨key, d, hkey, run⟩ := Script.bind_runPlain_eq_ok.1 run
    rw [Script.ofExcept_runPlain, Prod.mk.injEq] at hkey
    obtain ⟨hkey, rfl⟩ := hkey
    obtain ⟨a, d, run, last⟩ := Script.bind_runPlain_eq_ok.1 run
    cases last
    obtain ⟨step, rfl⟩ := Ledger.register_eq_ok run
    exact .createAccount hkey step
  | increaseSequence u =>
    obtain ⟨n, d, run, last⟩ := Script.bind_runPlain_eq_ok.1 run
    cases last
    obtain ⟨usage, husage, hn, rfl⟩ := Ledger.nextSequence_eq_ok run
    exact .increaseSequence husage hn

/-! ## Genesis -/

/-- What opening the accounts of a genesis does to the records. -/
inductive Genesis.Effect (l : Ledger) (time : Seconds) :
    List FirstAccount → Contents → Contents → Prop
  | none (c : Contents) : Effect l time [] c c
  | account {a : FirstAccount} {rest : List FirstAccount} {key : PublicKey} {coin : Coin}
    {c d e c' : Contents} (hkey : PublicKey.require a.publicKey = .ok key)
    (hcoin : Coin.ofDecimalText a.coin l.parameters.scale = .ok coin)
    (received : Step l time (.credit key.address coin) c d)
    (opened : Step l time (.enrol a.username key) d e) (later : Effect l time rest e c') :
    Effect l time (a :: rest) c c'

/-- An account is opened exactly if its key and its coin can be read, the coin can be deposited at
the address of the key, and the key can then be registered. -/
theorem FirstAccount.script_runPlain_eq_ok {l : Ledger} {time : Seconds} {a : FirstAccount}
    {c c' : Contents} :
    (a.script l time).runPlain c = (.ok (), c') ↔
      ∃ key coin d address, PublicKey.require a.publicKey = .ok key ∧
        Coin.ofDecimalText a.coin l.parameters.scale = .ok coin ∧
        (l.deposit key.address coin time).runPlain c = (.ok (), d) ∧
        (l.register a.username key time).runPlain d = (.ok address, c') := by
  simp only [script, Script.bind_runPlain_eq_ok, Script.ofExcept_runPlain, Prod.mk.injEq]
  constructor
  · rintro ⟨key, _, ⟨hkey, rfl⟩, coin, _, ⟨hcoin, rfl⟩, _, d, received, address, _, opened, last⟩
    cases last
    exact ⟨key, coin, d, address, hkey, hcoin, received, opened⟩
  · rintro ⟨key, coin, d, address, hkey, hcoin, received, opened⟩
    exact ⟨key, c, ⟨hkey, rfl⟩, coin, c, ⟨hcoin, rfl⟩, (), d, received, address, c', opened, rfl⟩

theorem Genesis.effect_of_script {l : Ledger} {g : Genesis} {c c' : Contents}
    (run : (g.script l).runPlain c = (.ok (), c')) : Effect l g.time g.accounts c c' := by
  unfold script at run
  generalize g.accounts = accounts at run ⊢
  induction accounts generalizing c with
  | nil =>
    cases run
    exact .none _
  | cons a rest ih =>
    obtain ⟨_, e, opening, run⟩ := Script.bind_runPlain_eq_ok.1 run
    obtain ⟨key, coin, d, address, hkey, hcoin, received, opened⟩ :=
      FirstAccount.script_runPlain_eq_ok.1 opening
    exact .account hkey hcoin (Ledger.deposit_runPlain_eq_ok.1 received)
      (Ledger.register_eq_ok opened).1 (ih run)

/-! ## Effects as changes -/

/-- The coin that a change adds to what the ledger holds and owes. -/
def Move.gain : Move → Int
  | credit _ amount => amount.units
  | debit _ amount => -amount.units
  | earn _ before after => after.unclaimed.units - before.unclaimed.units
  | enrol .. | meter .. | followers .. | following .. => 0

/-- The coin that comes in with a message that is accepted. -/
def Message.gain : Message → Int
  | deposit _ amount | depositToAccount _ amount => amount.units
  | withdraw _ amount => -amount.units
  | accrueReward _ _ reward => reward.units
  | transfer .. | follow .. | unfollow .. | checkCapacity .. | accrueFrictionIncome ..
  | claimReward _ | createAccount .. | increaseSequence _ => 0

def FirstAccount.gain (l : Ledger) (a : FirstAccount) : Int :=
  match Coin.ofDecimalText a.coin l.parameters.scale with
  | .ok coin => coin.units
  | .error _ => 0

/-- The coin that comes in with a genesis that is accepted. -/
def Genesis.gain (l : Ledger) (g : Genesis) : Int := (g.accounts.map (FirstAccount.gain l)).sum

theorem Earnings.accrue_eq_ok {e e' : Earnings} {income reward : Coin}
    (h : e.accrue income reward = .ok e') :
    e'.total.units = e.total.units + income.units ∧
      e'.direct.units = e.direct.units + reward.units ∧ e'.friction = e.friction ∧
      e'.unclaimed.units = e.unclaimed.units + reward.units := by
  unfold accrue at h
  split at h
  · rename_i total direct unclaimed htotal hdirect hunclaimed
    cases h
    exact ⟨Coin.plus?_eq_some_iff.1 htotal, Coin.plus?_eq_some_iff.1 hdirect, rfl,
      Coin.plus?_eq_some_iff.1 hunclaimed⟩
  · cases h

theorem Earnings.accrueFriction_eq_ok {e e' : Earnings} {amount : Coin}
    (h : e.accrueFriction amount = .ok e') :
    e'.total.units = e.total.units + amount.units ∧ e'.direct = e.direct ∧
      e'.friction.units = e.friction.units + amount.units ∧ e'.unclaimed = e.unclaimed := by
  unfold accrueFriction at h
  split at h
  · rename_i total friction htotal hfriction
    cases h
    exact ⟨Coin.plus?_eq_some_iff.1 htotal, rfl, Coin.plus?_eq_some_iff.1 hfriction, rfl⟩
  · cases h

variable {l : Ledger} {now : Seconds}

/-- A change without gain that is made in some cases only. -/
theorem Steps.whether {move : Move} {c d : Contents} (h : Step l now move c d)
    (none : move.gain = 0) (p : Bool) :
    ∃ moves, Steps l now moves c (if p then d else c) ∧ (moves.map Move.gain).sum = 0 := by
  cases p with
  | false => exact ⟨[], .done c, rfl⟩
  | true => exact ⟨_, .one h, by simp [none]⟩

theorem Steps.rosters (c : Contents) (u v : Username) (r s : Roster) (p q : Bool) :
    ∃ moves, Steps l now moves c
        (Table.following.edited (Table.followers.edited c v p r) u q s) ∧
      (moves.map Move.gain).sum = 0 := by
  obtain ⟨moves, steps, sum⟩ := Steps.whether (l := l) (Step.followers (c := c)) rfl p
  obtain ⟨more, steps', sum'⟩ := Steps.whether (l := l) Step.following rfl q
  exact ⟨_, steps.trans steps', by simp [sum, sum']⟩

/-- Earnings that were there before coin came in can still be set. -/
theorem Step.earn_of_credit {a : Address} {x : Coin} {u : Username} {e e' : Earnings}
    {c d : Contents} (received : Step l now (.credit a x) c d)
    (hearnings : Table.earnings.peek c u = .ok (some e)) :
    Step l now (.earn u e e') d (Table.earnings.put d u e') := by
  refine .earn ?_
  cases received
  simpa [putHolding] using hearnings

/-- An accepted message makes changes one after another. -/
theorem Message.Effect.steps {m : Message} {c c' : Contents} {o : Outcome}
    (h : m.Effect l now c o c') :
    ∃ moves, Steps l now moves c c' ∧ (moves.map Move.gain).sum = m.gain := by
  cases h with
  | deposit h => exact ⟨_, .one h, by simp [Move.gain, gain]⟩
  | depositToAccount hr h => exact ⟨_, .one h, by simp [Move.gain, gain]⟩
  | withdraw hr h => exact ⟨_, .one h, by simp [Move.gain, gain]⟩
  | transfer hr htarget paid received =>
    refine ⟨_, .step paid (.one received), ?_⟩
    simp only [List.map_cons, List.map_nil, List.sum_cons, List.sum_nil, Move.gain, gain]
    omega
  | follow hr hs htheirs hown hjoin hjoin' => exact Steps.rosters _ _ _ _ _ _ _
  | unfollow hr hs htheirs hown => exact Steps.rosters _ _ _ _ _ _ _
  | checkCapacity husage hstake hcharge => exact ⟨_, .one (.meter husage), rfl⟩
  | accrueReward hearnings haccrue =>
    have unclaimed := (Earnings.accrue_eq_ok haccrue).2.2.2
    refine ⟨_, .one (.earn hearnings), ?_⟩
    simp only [List.map_cons, List.map_nil, List.sum_cons, List.sum_nil, Move.gain, gain]
    omega
  | accrueFrictionIncome hearnings haccrue =>
    have unclaimed := (Earnings.accrueFriction_eq_ok haccrue).2.2.2
    exact ⟨_, .one (.earn hearnings), by simp [Move.gain, gain, unclaimed]⟩
  | claimNothing hearnings hr zero => exact ⟨[], .done _, rfl⟩
  | @claimReward u c d e r hearnings hr received =>
    refine ⟨_, .step received (.one (received.earn_of_credit hearnings)), ?_⟩
    simp only [List.map_cons, List.map_nil, List.sum_cons, List.sum_nil, Move.gain, gain,
      Earnings.claimed, Coin.units_zero]
    omega
  | createAccount hkey h => exact ⟨_, .one h, rfl⟩
  | increaseSequence husage hn => exact ⟨_, .one (.meter husage), rfl⟩

/-- An accepted genesis makes changes one after another. -/
theorem Genesis.Effect.steps {accounts : List FirstAccount} {c c' : Contents}
    (h : Effect l now accounts c c') :
    ∃ moves, Steps l now moves c c' ∧
      (moves.map Move.gain).sum = (accounts.map (FirstAccount.gain l)).sum := by
  induction h with
  | none c => exact ⟨[], .done c, rfl⟩
  | account hkey hcoin received opened later ih =>
    obtain ⟨moves, steps, sum⟩ := ih
    refine ⟨_, .step received (.step opened steps), ?_⟩
    simp [Move.gain, FirstAccount.gain, hcoin, sum]

end StakeLedger
