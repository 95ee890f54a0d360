import StakeLedger.Proofs.Ledger.Run

/-!
# Genesis as messages

A genesis stands for messages: for each of its accounts in turn, a deposit of the coin at the
address of the key, and then the registration of the key. Yet it runs on one buffer, which is
written once all accounts are open, while each message has a buffer of its own. Here both come to
the same: the genesis is accepted exactly if all the messages are, and it leaves the same contents.
Otherwise it leaves nothing at all.
-/

namespace StakeLedger

variable {l : Ledger} {b : Backend} {c c' : Contents} {time : Seconds}

/-! ## The two messages of an account -/

namespace Message

/-- A deposit that its script accepts has passed the check for coin that moves. -/
theorem check_deposit {a : Address} {x : Coin}
    (run : (l.deposit a x time).runPlain c = (.ok (), c')) : (deposit a x).check = .ok () := by
  have pos := (Ledger.deposit_runPlain_eq_ok.1 run).credit_pos
  exact if_neg (by rw [Coin.isZero_iff]; omega)

theorem deposit_runPlain_eq_ok {a : Address} {x : Coin} {o : Outcome} :
    ((deposit a x).script l time).runPlain c = (.ok o, c') ↔
      o = .done ∧ (l.deposit a x time).runPlain c = (.ok (), c') := by
  simp only [script, Script.bind_runPlain_eq_ok, Script.pure_runPlain]
  constructor
  · rintro ⟨_, d, run, last⟩
    cases last
    exact ⟨rfl, run⟩
  · rintro ⟨rfl, run⟩
    exact ⟨(), c', run, rfl⟩

theorem createAccount_runPlain_eq_ok {u : Username} {text : String} {key : PublicKey} {o : Outcome}
    (hkey : PublicKey.require text = .ok key) :
    ((createAccount u text).script l time).runPlain c = (.ok o, c') ↔
      ∃ address, o = .accountCreated address ∧
        (l.register u key time).runPlain c = (.ok address, c') := by
  simp only [script, hkey, Script.ofExcept, Script.done_bind, Script.bind_runPlain_eq_ok,
    Script.pure_runPlain]
  constructor
  · rintro ⟨address, d, run, last⟩
    cases last
    exact ⟨address, rfl, run⟩
  · rintro ⟨address, rfl, run⟩
    exact ⟨address, c', run, rfl⟩

end Message

/-- A message whose check and script accept it is delivered. -/
theorem Ledger.exists_deliver_ok (reliable : b.Reliable) {m : Message} {now : Seconds} {o : Outcome}
    (check : m.check = .ok ()) (run : (m.script l now).runPlain b.contents = (.ok o, c)) :
    ∃ b', l.deliver b m now = (.ok o, b') ∧ b'.contents = c := by
  obtain ⟨answer, -, contents⟩ := Script.commitOn_eq_runPlain reliable (m.script l now)
  rw [run] at answer contents
  refine ⟨((m.script l now).commitOn b).2, ?_, contents⟩
  rw [deliver, check]
  exact Prod.ext answer rfl

/-! ## Accounts as messages -/

/-- An account, delivered as messages: its key and its coin can be read, the coin is deposited at
the address of the key, and then the key is registered. -/
def FirstAccount.Delivered (l : Ledger) (time : Seconds) (a : FirstAccount)
    (b b' : Backend) : Prop :=
  ∃ key coin first second d, PublicKey.require a.publicKey = .ok key ∧
    Coin.ofDecimalText a.coin l.parameters.scale = .ok coin ∧
    l.deliver b (.deposit key.address coin) time = (.ok first, d) ∧
    l.deliver d (.createAccount a.username a.publicKey) time = (.ok second, b')

/-- The accounts of a genesis, delivered as messages one after another. -/
inductive Genesis.Delivered (l : Ledger) (time : Seconds) :
    List FirstAccount → Backend → Backend → Prop
  | none (b : Backend) : Delivered l time [] b b
  | account {a : FirstAccount} {rest : List FirstAccount} {b d b' : Backend}
    (first : a.Delivered l time b d) (later : Delivered l time rest d b') :
    Delivered l time (a :: rest) b b'

namespace FirstAccount

variable {a : FirstAccount}

theorem Delivered.runPlain (reliable : b.Reliable) {b' : Backend} (h : a.Delivered l time b b') :
    (a.script l time).runPlain b.contents = (.ok (), b'.contents) ∧ b'.Reliable := by
  obtain ⟨key, coin, first, second, d, hkey, hcoin, funded, opened⟩ := h
  obtain ⟨-, deposited, between⟩ := Ledger.deliver_ok reliable funded
  obtain ⟨-, created, still⟩ := Ledger.deliver_ok between opened
  obtain ⟨-, received⟩ := Message.deposit_runPlain_eq_ok.1 deposited
  obtain ⟨address, -, registered⟩ := (Message.createAccount_runPlain_eq_ok hkey).1 created
  have run := script_runPlain_eq_ok.2
    ⟨key, coin, d.contents, address, hkey, hcoin, received, registered⟩
  exact ⟨run, still⟩

/-- The messages of an account are accepted exactly if its script succeeds, and leave the same. -/
theorem delivered_iff (reliable : b.Reliable) :
    (∃ b', a.Delivered l time b b' ∧ b'.contents = c) ↔
      (a.script l time).runPlain b.contents = (.ok (), c) := by
  constructor
  · rintro ⟨b', h, rfl⟩
    exact (h.runPlain reliable).1
  · intro run
    obtain ⟨key, coin, _, address, hkey, hcoin, received, registered⟩ := script_runPlain_eq_ok.1 run
    obtain ⟨d, funded, rfl⟩ := Ledger.exists_deliver_ok reliable (Message.check_deposit received)
      (Message.deposit_runPlain_eq_ok.2 ⟨rfl, received⟩)
    obtain ⟨-, -, between⟩ := Ledger.deliver_ok reliable funded
    have known : (Message.createAccount a.username a.publicKey).check = .ok () := by
      rw [Message.check, hkey]
      rfl
    obtain ⟨b', opened, rfl⟩ := Ledger.exists_deliver_ok between known
      ((Message.createAccount_runPlain_eq_ok hkey).2 ⟨address, rfl, registered⟩)
    exact ⟨b', ⟨key, coin, _, _, d, hkey, hcoin, funded, opened⟩, rfl⟩

end FirstAccount

/-- The messages of all accounts are accepted exactly if the script of the genesis succeeds, and
leave the same. -/
theorem Genesis.delivered_iff {g : Genesis} (reliable : b.Reliable) :
    (∃ b', Delivered l g.time g.accounts b b' ∧ b'.contents = c) ↔
      (g.script l).runPlain b.contents = (.ok (), c) := by
  unfold script
  generalize g.accounts = accounts
  induction accounts generalizing b with
  | nil =>
    constructor
    · rintro ⟨b', ⟨⟩, rfl⟩
      rfl
    · intro run
      cases run
      exact ⟨b, .none b, rfl⟩
  | cons a rest ih =>
    rw [script.go, Script.bind_runPlain_eq_ok]
    constructor
    · rintro ⟨b', delivered, contents⟩
      cases delivered with
      | account first later =>
        obtain ⟨run, still⟩ := first.runPlain reliable
        exact ⟨(), _, run, (ih still).1 ⟨b', later, contents⟩⟩
    · rintro ⟨_, e, run, more⟩
      obtain ⟨d, first, rfl⟩ := (FirstAccount.delivered_iff reliable).2 run
      obtain ⟨b', later, contents⟩ := (ih (first.runPlain reliable).2).2 more
      exact ⟨b', .account first later, contents⟩

/-! ## All or nothing -/

namespace Ledger

/-- On a reliable store a genesis is accepted as its script is and leaves the same, or it is refused
and leaves the store alone. -/
theorem start_cases (reliable : b.Reliable) (g : Genesis) :
    ((l.start b g).1 = .ok () ∧
        (g.script l).runPlain b.contents = (.ok (), (l.start b g).2.contents)) ∨
      ∃ f, ((g.script l).runPlain b.contents).1 = .error f ∧ l.start b g = (.error f, b) := by
  unfold start
  rcases hrun : (g.script l).commitOn b with ⟨answer, b'⟩
  cases answer with
  | error f =>
    obtain ⟨-, rfl⟩ := (g.discards_script l).commitOn_error reliable.settable hrun
    have answer := (Script.commitOn_eq_runPlain reliable (g.script l)).1
    rw [hrun] at answer
    exact .inr ⟨f, answer.symm, rfl⟩
  | ok =>
    obtain ⟨accepted, still⟩ := Script.commitOn_ok reliable hrun
    simp only [commit, Backend.flush_of_reliable still]
    exact .inl ⟨trivial, accepted⟩

/-- On a reliable store a genesis is accepted exactly if the messages that it stands for are, one
after another, and then it leaves the same contents. A genesis that is refused leaves the store as
it was, whichever of its accounts cannot be opened. -/
theorem start_eq_delivered (l : Ledger) {b : Backend} (reliable : b.Reliable) (g : Genesis) :
    ((l.start b g).1 = .ok () ↔ ∃ b', Genesis.Delivered l g.time g.accounts b b') ∧
      (∀ b', Genesis.Delivered l g.time g.accounts b b' →
        (l.start b g).2.contents = b'.contents) ∧
      ∀ f, (l.start b g).1 = .error f → (l.start b g).2 = b := by
  rcases start_cases (l := l) reliable g with ⟨ok, run⟩ | ⟨f, failed, refused⟩
  · obtain ⟨b', delivered, -⟩ := (Genesis.delivered_iff reliable).2 run
    refine ⟨iff_of_true ok ⟨b', delivered⟩, fun b' delivered => ?_, fun f failed => ?_⟩
    · have same := (Genesis.delivered_iff reliable).1 ⟨b', delivered, rfl⟩
      rw [run] at same
      exact congrArg Prod.snd same
    · rw [ok] at failed
      cases failed
  · have never (b' : Backend) : ¬Genesis.Delivered l g.time g.accounts b b' := by
      intro delivered
      rw [(Genesis.delivered_iff reliable).1 ⟨b', delivered, rfl⟩] at failed
      cases failed
    rw [refused]
    refine ⟨iff_of_false nofun fun ⟨b', delivered⟩ => never b' delivered,
      fun b' delivered => absurd delivered (never b'), fun _ _ => rfl⟩

/-- Two accounts are to be opened for one key. The first could be, and is where it stands alone;
with the second the genesis is refused, and nothing is kept of the first either. -/
theorem start_eq_delivered_twice :
    let l : Ledger := ⟨.standard, by decide⟩
    let key := "8a88e3dd7409f195fd52db2d3cba5d72ca6709bf1d94121bf3748801b40f6f5c"
    let alice : Username := ⟨"alice", by decide⟩
    let bob : Username := ⟨"bob", by decide⟩
    let owned : Address := ⟨"34750f98bd59fcfc946da45aaabe933be154a4b5", by decide⟩
    let alone : Genesis := ⟨.zero, [⟨alice, key, "5"⟩]⟩
    let both : Genesis := ⟨.zero, [⟨alice, key, "5"⟩, ⟨bob, key, "2.5"⟩]⟩
    Backend.empty.Reliable ∧
      (∃ b', Genesis.Delivered l .zero alone.accounts .empty b') ∧
      (l.start .empty both).1 = .error (.bankRegistered owned alice) ∧
      (l.start .empty both).2 = .empty ∧
      ¬∃ b', Genesis.Delivered l .zero both.accounts .empty b' := by
  intro l key alice bob owned alone both
  have accepted : (l.start .empty alone).1 = .ok () := by decide +kernel
  have refused : (l.start .empty both).1 = .error (.bankRegistered owned alice) := by
    decide +kernel
  obtain ⟨opened, -, -⟩ := start_eq_delivered l Backend.reliable_empty alone
  obtain ⟨same, -, nothing⟩ := start_eq_delivered l Backend.reliable_empty both
  refine ⟨Backend.reliable_empty, opened.1 accepted, refused, nothing _ refused, ?_⟩
  intro delivered
  have answer := same.2 delivered
  rw [refused] at answer
  cases answer

end Ledger

end StakeLedger
