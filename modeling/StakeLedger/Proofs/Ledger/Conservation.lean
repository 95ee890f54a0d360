import StakeLedger.Ledger.Entry
import StakeLedger.Proofs.Ledger.Holdings

/-!
# Conservation of coin

The ledger holds the balances of all banks and owes the rewards that nobody has claimed. What it
holds and owes together is what has come in: coin never appears or gets lost on the way from one
record to another. `Contents.coin` counts both as one sum over all entries of the store, so that an
update changes it by what it puts in and what it replaces.
-/

namespace StakeLedger

open Table

/-! ## Sums over contents -/

namespace Contents

/-- The sum of a weight over all entries. -/
def weigh (f : Bytes → Bytes → Nat) (c : Contents) : Nat :=
  (c.entries.map fun entry => f entry.1 entry.2).sum

theorem sum_putEntry (f : Bytes → Bytes → Nat) (key value : Bytes) {entries : List (Bytes × Bytes)}
    (ordered : entries.Pairwise fun p q => precedes p.1 q.1 = true) :
    ((putEntry key value entries).map fun entry => f entry.1 entry.2).sum +
        ((findEntry key entries).map (f key)).getD 0 =
      (entries.map fun entry => f entry.1 entry.2).sum + f key value := by
  fun_induction putEntry key value entries with
  | case1 => simp [findEntry]
  | case2 v rest =>
    simp only [findEntry, if_true, List.map_cons, List.sum_cons, Option.map_some, Option.getD_some]
    omega
  | case3 k v rest other first =>
    have absent : findEntry key ((k, v) :: rest) = none := by
      rw [List.pairwise_cons] at ordered
      apply findEntry_eq_none
      intro p hp
      rcases List.mem_cons.1 hp with rfl | hp
      · exact first
      · exact precedes_trans first (ordered.1 p hp)
    simp only [absent, List.map_cons, List.sum_cons, Option.map_none, Option.getD_none]
    omega
  | case4 k v rest other notFirst ih =>
    have later := ih (List.pairwise_cons.1 ordered).2
    simp only [findEntry, if_neg other, List.map_cons, List.sum_cons]
    omega

/-- An update changes a sum by what it puts in and what it replaces. -/
theorem weigh_insert (f : Bytes → Bytes → Nat) (c : Contents) (key value : Bytes) :
    (c.insert key value).weigh f + ((c.get? key).map (f key)).getD 0 = c.weigh f + f key value :=
  sum_putEntry f key value c.ordered

end Contents

/-! ## Entries of tables -/

namespace Entry

variable {ν ρ : Type}

/-- What a value that is kept in a table stands for. -/
def inside (t : Table ν ρ) (wrap : ρ → Entry) (value : Bytes) : Option Entry :=
  match t.codec.decode value with
  | .ok record => some (wrap record)
  | .error _ => none

theorem inTable?_key (t : Table ν ρ) (wrap : ρ → Entry) (name : ν) (value : Bytes) :
    inTable? t wrap (t.key name) value = inside t wrap value := by
  have front : (Text.utf8 t.label).isPrefixOf (t.key name) = true := by
    rw [List.isPrefixOf_iff_prefix, Table.key, Table.keyText, Text.utf8_append]
    exact List.prefix_append _ _
  rw [inTable?, if_pos front]
  rfl

/-- A key belongs to no other table if neither label goes on with the other one. -/
theorem inTable?_key_of_apart {μ σ : Type} {t : Table ν ρ} {t' : Table μ σ}
    (apart : (Text.utf8 t.label).isPrefixOf (Text.utf8 t'.label) = false ∧
      (Text.utf8 t'.label).isPrefixOf (Text.utf8 t.label) = false)
    (wrap : ρ → Entry) (name : μ) (value : Bytes) :
    inTable? t wrap (t'.key name) value = none := by
  apply if_neg
  intro front
  rw [List.isPrefixOf_iff_prefix, Table.key, Table.keyText, Text.utf8_append] at front
  simp only [← Bool.not_eq_true, List.isPrefixOf_iff_prefix] at apart
  rcases List.prefix_or_prefix_of_prefix front (List.prefix_append _ _) with first | second
  · exact apart.1 first
  · exact apart.2 second

/-- What a value at a place stands for. -/
def at? (value : Bytes) : Place → Option Entry
  | .bank _ => inside banks bank value
  | .queue _ => inside queues queue value
  | .usage _ => inside usages usage value
  | .earnings _ => inside Table.earnings earnings value
  | .registration _ => inside registrations registration value
  | .followers _ => inside followers roster value
  | .following _ => inside following roster value

/-- What an entry stands for is decided by the table of its place. -/
theorem ofBytes_key (p : Place) (value : Bytes) :
    ofBytes p.key value = (at? value p).getD (raw value) := by
  cases p
  all_goals
    simp (disch := decide) only [ofBytes, Place.key, inTable?_key, inTable?_key_of_apart,
      Option.none_or, Option.or_none, at?]

end Entry

/-! ## Coin by entries -/

/-- The coin that the ledger holds or owes by a stored entry. -/
def Entry.coin : Entry → Nat
  | bank b => b.balance.units
  | earnings e => e.unclaimed.units
  | queue _ | usage _ | registration _ | roster _ | raw _ => 0

/-- The coin that the ledger holds and owes by all entries. -/
def Contents.coin (c : Contents) : Nat := c.weigh fun key value => (Entry.ofBytes key value).coin

/-- The coin that counts by the record of a name, if there is one. -/
def Table.coinAt {ν ρ : Type} (t : Table ν ρ) (wrap : ρ → Entry) (c : Contents) (name : ν) : Nat :=
  match t.peek c name with
  | .ok (some record) => (wrap record).coin
  | _ => 0

namespace Contents

variable {ν ρ : Type} {t : Table ν ρ} {wrap : ρ → Entry} {name : ν} {record : ρ}

theorem coin_empty : empty.coin = 0 := rfl

/-- Setting a record that is read back replaces what counted by the old one. -/
theorem coin_put (place : ∀ value, Entry.ofBytes (t.key name) value =
      (Entry.inside t wrap value).getD (.raw value))
    (reads : t.codec.Reads record) (c : Contents) :
    (t.put c name record).coin + t.coinAt wrap c name = c.coin + (wrap record).coin := by
  have sums := c.weigh_insert (fun key value => (Entry.ofBytes key value).coin) (t.key name)
    (t.codec.write record)
  have new : Entry.ofBytes (t.key name) (t.codec.write record) = wrap record := by
    rw [place, Entry.inside, reads.decode]
    rfl
  have old :
      ((c.get? (t.key name)).map fun value => (Entry.ofBytes (t.key name) value).coin).getD 0 =
      t.coinAt wrap c name := by
    unfold Table.coinAt peek parse
    cases c.get? (t.key name) with
    | none => rfl
    | some value =>
      simp only [Option.map_some, Option.getD_some, place, Entry.inside]
      cases t.codec.decode value <;> rfl
  rw [new, old] at sums
  exact sums

/-- Setting a record by which no coin counts leaves the coin as it was. -/
theorem coin_put_of_idle (place : ∀ value, Entry.ofBytes (t.key name) value =
      (Entry.inside t wrap value).getD (.raw value))
    (idle : ∀ record, (wrap record).coin = 0) (c : Contents) :
    (t.put c name record).coin = c.coin := by
  have none (value : Bytes) : (Entry.ofBytes (t.key name) value).coin = 0 := by
    rw [place, Entry.inside]
    cases t.codec.decode value with
    | ok found => exact idle found
    | error _ => rfl
  have sums := c.weigh_insert (fun key value => (Entry.ofBytes key value).coin) (t.key name)
    (t.codec.write record)
  have old : ((c.get? (t.key name)).map fun value =>
      (Entry.ofBytes (t.key name) value).coin).getD 0 = 0 := by
    cases c.get? (t.key name) with
    | none => rfl
    | some value => exact none value
  rw [old, none] at sums
  exact sums

variable (c : Contents)

theorem coin_put_bank (a : Address) (b : Bank) :
    (banks.put c a b).coin + banks.coinAt .bank c a = c.coin + b.balance.units :=
  coin_put (Entry.ofBytes_key (.bank a)) (Codec.reads_bank b.address.fits_stored) c

theorem coin_put_earnings (u : Username) (e : Earnings) :
    (Table.earnings.put c u e).coin + Table.earnings.coinAt .earnings c u =
      c.coin + e.unclaimed.units :=
  coin_put (Entry.ofBytes_key (.earnings u)) (Codec.reads_earnings e) c

@[simp] theorem coin_put_queue (a : Address) (q : PendingQueue) :
    (queues.put c a q).coin = c.coin :=
  coin_put_of_idle (Entry.ofBytes_key (.queue a)) (fun _ => rfl) c

@[simp] theorem coin_put_usage (u : Username) (usage : Usage) :
    (usages.put c u usage).coin = c.coin :=
  coin_put_of_idle (Entry.ofBytes_key (.usage u)) (fun _ => rfl) c

@[simp] theorem coin_put_registration (u : Username) (r : Registration) :
    (registrations.put c u r).coin = c.coin :=
  coin_put_of_idle (Entry.ofBytes_key (.registration u)) (fun _ => rfl) c

@[simp] theorem coin_put_followers (u : Username) (r : Roster) :
    (followers.put c u r).coin = c.coin :=
  coin_put_of_idle (Entry.ofBytes_key (.followers u)) (fun _ => rfl) c

@[simp] theorem coin_put_following (u : Username) (r : Roster) :
    (following.put c u r).coin = c.coin :=
  coin_put_of_idle (Entry.ofBytes_key (.following u)) (fun _ => rfl) c

end Contents

/-! ## Coin by changes -/

theorem Kept.coinAt_eq {window : Seconds} {c : Contents} {a : Address} {kept : Option Holding}
    (k : Kept window c a kept) (now : Seconds) :
    banks.coinAt .bank c a = (heldAt a now kept).bank.balance.units := by
  cases k with
  | nothing hbank =>
    simp only [coinAt, hbank]
    rfl
  | holding hbank =>
    simp only [coinAt, hbank]
    rfl

/-- Who is not registered has earned nothing. -/
def Unearned (c : Contents) : Prop :=
  ∀ u, registrations.peek c u = .ok none → Table.earnings.peek c u = .ok none

theorem Contents.coin_putHolding (c : Contents) {a : Address} {h : Holding}
    (address : h.bank.address = a) :
    (putHolding c a h).coin + banks.coinAt .bank c a = c.coin + h.bank.balance.units := by
  subst address
  simpa [putHolding] using c.coin_put_bank h.bank.address h.bank

/-- A new account has earned nothing, and its bank keeps its balance. -/
theorem Contents.coin_putAccount (c : Contents) {u : Username} {key : PublicKey} {bank : Bank}
    {now : Seconds} (hbank : banks.peek c bank.address = .ok (some bank))
    (hearnings : Table.earnings.peek c u = .ok none) :
    ((putAccount c u key bank now).coin : Int) = c.coin + 0 := by
  unfold putAccount
  generalize hd : usages.put (registrations.put
    (banks.put c bank.address { bank with owner := some u }) u _) u _ = d
  have unclaimed : Table.earnings.coinAt .earnings d u = 0 := by
    subst hd
    simp [coinAt, hearnings]
  have earned := d.coin_put_earnings u .empty
  have kept := c.coin_put_bank bank.address { bank with owner := some u }
  have same : d.coin = (banks.put c bank.address { bank with owner := some u }).coin := by
    subst hd
    simp
  have balance : banks.coinAt .bank c bank.address = bank.balance.units := by
    simp only [coinAt, hbank, Entry.coin]
  have nothing : Earnings.empty.unclaimed.units = 0 := rfl
  dsimp only at kept
  omega

/-- A change changes the coin that the ledger holds and owes by its gain. -/
theorem Step.coin {l : Ledger} {now : Seconds} {move : Move} {c d : Contents}
    (h : Step l now move c d) (vested : Vested l.vesting.window c) (unearned : Unearned c) :
    (d.coin : Int) = c.coin + move.gain := by
  cases move with
  | credit a x =>
    obtain ⟨kept, k⟩ := vested a
    obtain ⟨h', credited, -, rfl⟩ := h.credit_kept k
    have coin := c.coin_putHolding (k.address_credited credited)
    have balance := credited.balance_eq
    rw [k.coinAt_eq now] at coin
    simp only [Move.gain]
    omega
  | debit a x =>
    obtain ⟨kept, k⟩ := vested a
    obtain ⟨held, h', rfl, debited, -, rfl⟩ := h.debit_kept k
    have coin := c.coin_putHolding (k.address_debited debited)
    have balance := debited.balance_eq
    rw [k.coinAt_eq now] at coin
    simp only [Move.gain, heldAt, Option.getD_some] at *
    omega
  | enrol u key =>
    cases h with
    | @enrol _ _ _ bank hnew hbank =>
      obtain ⟨kept, k⟩ := vested key.address
      obtain ⟨-, -, address, -⟩ := k.of_bank hbank
      exact c.coin_putAccount (address ▸ hbank) (unearned u hnew)
  | meter u usage =>
    cases h
    simp [Move.gain]
  | earn u e e' =>
    cases h with
    | earn hearnings =>
      have coin := c.coin_put_earnings u e'
      simp only [coinAt, hearnings, Entry.coin] at coin
      simp only [Move.gain]
      omega
  | followers u r =>
    cases h
    simp [Move.gain]
  | following u r =>
    cases h
    simp [Move.gain]

/-- Nobody earns before being registered. -/
theorem Step.unearned {l : Ledger} {now : Seconds} {move : Move} {c d : Contents}
    (h : Step l now move c d) (unearned : Unearned c) : Unearned d := by
  intro u hu
  cases h with
  | credit | debit => simpa [putHolding] using unearned u (by simpa [putHolding] using hu)
  | meter | followers | following => simpa using unearned u (by simpa using hu)
  | @enrol _ v =>
    simp only [putAccount] at hu ⊢
    by_cases same : u = v
    · subst same
      simp [peek_put_ne_none] at hu
    · simpa [same] using unearned u (by simpa [same] using hu)
  | @earn _ v e e' hearnings =>
    rw [peek_put_of_ne (by simp)] at hu
    have none := unearned u hu
    by_cases same : u = v
    · subst same
      rw [hearnings] at none
      cases none
    · simpa [same] using none

/-- Holdings are sound, and nobody earns before being registered. -/
structure Orderly (window : Seconds) (c : Contents) : Prop where
  vested : Vested window c
  unearned : Unearned c

theorem orderly_empty (window : Seconds) : Orderly window .empty :=
  ⟨vested_empty window, fun u _ => peek_empty _ u⟩

theorem Step.orderly {l : Ledger} {now : Seconds} {move : Move} {c d : Contents}
    (h : Step l now move c d) (orderly : Orderly l.vesting.window c) :
    Orderly l.vesting.window d :=
  ⟨(h.vested orderly.vested).1, h.unearned orderly.unearned⟩

/-! ## Coin by runs -/

/-- Changes one after another change the coin by their gains. -/
theorem Steps.coin {l : Ledger} {now : Seconds} {moves : List Move} {c d : Contents}
    (h : Steps l now moves c d) (orderly : Orderly l.vesting.window c) :
    (d.coin : Int) = c.coin + (moves.map Move.gain).sum := by
  induction h with
  | done c => simp
  | step first rest ih =>
    rw [ih (first.orderly orderly), first.coin orderly.vested orderly.unearned]
    simp only [List.map_cons, List.sum_cons]
    omega

/-- A served request changes the coin by what comes in with it, if it is accepted. -/
theorem Served.coin {l : Ledger} {r : Request} {c c' : Contents} {answer : Except Failure Outcome}
    (h : Served l r c answer c') (orderly : Orderly l.vesting.window c) :
    (c'.coin : Int) = c.coin + (if answer.isOk then r.gain l else 0) ∧
      Orderly l.vesting.window c' := by
  obtain ⟨moves, steps, sum⟩ := h.steps
  rw [← sum]
  exact ⟨steps.coin orderly, steps.preserves Step.orderly orderly⟩

/-- What came in by the requests of a journal that were accepted. -/
def incoming (l : Ledger) (journal : List (Request × Except Failure Outcome)) : Int :=
  (journal.map fun entry => if entry.2.isOk then entry.1.gain l else 0).sum

/-- Whether a message only moves coin between records that the ledger already keeps, or none. -/
def Message.isInternal : Message → Bool
  | transfer .. | claimReward _ | createAccount .. | checkCapacity .. | follow .. | unfollow ..
  | increaseSequence _ | accrueFrictionIncome .. => true
  | deposit .. | depositToAccount .. | withdraw .. | accrueReward .. => false

theorem Message.gain_of_isInternal {m : Message} (h : m.isInternal = true) : m.gain = 0 := by
  cases m <;> first | rfl | cases h

namespace Ledger

variable (l : Ledger) {b : Backend}

/-- The coin after a run is the coin before it and what came in. -/
theorem coin_run (reliable : b.Reliable) (orderly : Orderly l.vesting.window b.contents)
    (requests : List Request) :
    ((l.run b requests).2.contents.coin : Int) =
      b.contents.coin + incoming l (l.run b requests).1 := by
  induction requests generalizing b with
  | nil => simp [run, incoming]
  | cons r rest ih =>
    obtain ⟨served, still⟩ := serve_served (l := l) reliable r
    obtain ⟨coin, orderly'⟩ := served.coin orderly
    have later := ih still orderly'
    simp only [run, incoming, List.map_cons, List.sum_cons] at later ⊢
    omega

/-- A message that only moves coin, or that is refused, leaves the coin as it was. -/
theorem coin_deliver (reliable : b.Reliable) (orderly : Orderly l.vesting.window b.contents)
    {m : Message} {now : Seconds}
    (idle : m.isInternal = true ∨ (l.deliver b m now).1.isOk = false) :
    (l.deliver b m now).2.contents.coin = b.contents.coin := by
  have coin := ((deliver_served (l := l) reliable m now).1.coin orderly).1
  rcases idle with internal | refused
  · simp only [Request.gain, Message.gain_of_isInternal internal, ite_self] at coin
    omega
  · simp only [refused, Bool.false_eq_true, if_false] at coin
    omega

/-- Coin is conserved. After any run from an empty store, the balances of all banks and the rewards
that can be claimed add up to what came in with the accepted requests: the coin of a genesis,
deposits and rewards, less withdrawals. A message that only moves coin, or one that is refused,
changes nothing of that. -/
theorem run_coin (requests : List Request) :
    ((l.run .empty requests).2.contents.coin : Int) = incoming l (l.run .empty requests).1 ∧
      ∀ m now, m.isInternal = true ∨ (l.deliver (l.run .empty requests).2 m now).1.isOk = false →
        (l.deliver (l.run .empty requests).2 m now).2.contents.coin =
          (l.run .empty requests).2.contents.coin := by
  obtain ⟨orderly, reliable⟩ := run_preserves (l := l) Step.orderly Backend.reliable_empty
    (orderly_empty l.vesting.window) requests
  refine ⟨?_, fun m now => l.coin_deliver reliable orderly⟩
  have coin := l.coin_run Backend.reliable_empty (orderly_empty l.vesting.window) requests
  rw [coin]
  simp [Backend.empty, Contents.coin_empty]

end Ledger

end StakeLedger
