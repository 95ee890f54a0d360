import StakeLedger.Ledger.GenesisText
import StakeLedger.Ledger.MessageText
import StakeLedger.Proofs.Json.Built
import StakeLedger.Proofs.Json.Members

/-!
# Messages and genesis files as text

A message is read back from its text, and so is a genesis. It does not matter in which order the
fields of a message are given, nor what other members stand among them, and what is empty need not
be given: such a text means the same message.
-/

namespace StakeLedger

open Json

/-! ## Records inside messages -/

/-- The ways to give the fields of a receiver: what is null need not be given. -/
inductive Receiver.Gives : Receiver → List (String × Json) → Prop
  | both (u : Option Username) (a : Option Address) :
    Gives ⟨u, a⟩ [("username", ofOption ofUsername u), ("address", ofOption ofAddress a)]
  | account (u : Option Username) : Gives ⟨u, none⟩ [("username", ofOption ofUsername u)]
  | address (a : Option Address) : Gives ⟨none, a⟩ [("address", ofOption ofAddress a)]
  | neither : Gives ⟨none, none⟩ []

/-- The value means the receiver. -/
def Receiver.Spells (r : Receiver) (v : Json) : Prop :=
  ∃ given, r.Gives given ∧ v.Lists ["username", "address"] given

/-- The value means the ratio. -/
def Ratio.Spells (r : Ratio) (v : Json) : Prop :=
  v.Lists ["num", "den"] [("num", Json.ofNat r.num.val), ("den", Json.ofNat r.den.val)]

theorem Receiver.spells_toJson (r : Receiver) : r.Spells r.toJson :=
  ⟨_, .both r.account r.address, lists_record _ _⟩

theorem Ratio.spells_toJson (r : Ratio) : r.Spells r.toJson := lists_record _ _

theorem Receiver.Spells.ofJson?_eq {r : Receiver} {v : Json} (h : r.Spells v) :
    Receiver.ofJson? v = some r := by
  have account := nullable_ofOption username?_ofUsername nofun
  have address := nullable_ofOption address?_ofAddress nofun
  obtain ⟨given, gives, lists⟩ := h
  cases gives <;>
    simp [Receiver.ofJson?, lists.fields?_eq (by simp), List.lookup_cons, account, address]

theorem Ratio.Spells.ofJson?_eq {r : Ratio} {v : Json} (h : r.Spells v) :
    Ratio.ofJson? v = some r := by
  simp [Ratio.ofJson?, h.fields?_eq (by simp), List.lookup_cons]

/-! ## Messages -/

namespace Message

/-- The ways to give the fields of what a message says: as the message is written, or with other
values that mean its receiver or ratio, or without a memo that is empty. -/
inductive Gives : Message → List (String × Json) → Prop
  | written (m : Message) : Gives m m.body
  | transfer (s : Username) {r : Receiver} (x : Coin) (memo : String) {w : Json}
    (spelled : r.Spells w) : Gives (.transfer s r x memo)
      [("sender", ofUsername s), ("receiver", w), ("amount", ofCoin x), ("memo", ofString memo)]
  | withoutMemo (s : Username) {r : Receiver} (x : Coin) {w : Json} (spelled : r.Spells w) :
    Gives (.transfer s r x "") [("sender", ofUsername s), ("receiver", w), ("amount", ofCoin x)]
  | checkCapacity (u : Username) {ratio : Ratio} {w : Json} (spelled : ratio.Spells w) :
    Gives (.checkCapacity u ratio) [("username", ofUsername u), ("ratio", w)]

/-- The value means the message: it names the kind, and gives the fields in any order, with any
other members among them. -/
def Spells (m : Message) (v : Json) : Prop :=
  ∃ given w, m.Gives given ∧ w.Lists (m.body.map Prod.fst) given ∧ v = record [(m.kind, w)]

theorem spells_toJson (m : Message) : m.Spells m.toJson :=
  ⟨m.body, _, .written m, lists_record _ _, rfl⟩

theorem ofBody?_transfer {s : Username} {r : Receiver} {x : Coin} {memo : String} {w v : Json}
    (spelled : r.Spells w)
    (lists : v.Lists ["sender", "receiver", "amount", "memo"] [("sender", ofUsername s),
      ("receiver", w), ("amount", ofCoin x), ("memo", ofString memo)]) :
    ofBody? "Transfer" v = some (.transfer s r x memo) := by
  simp [ofBody?, lists.fields?_eq (by simp), List.lookup_cons, spelled.ofJson?_eq, text?_ofString]

theorem ofBody?_checkCapacity {u : Username} {ratio : Ratio} {w v : Json} (spelled : ratio.Spells w)
    (lists : v.Lists ["username", "ratio"] [("username", ofUsername u), ("ratio", w)]) :
    ofBody? "CheckCapacity" v = some (.checkCapacity u ratio) := by
  simp [ofBody?, lists.fields?_eq (by simp), List.lookup_cons, spelled.ofJson?_eq]

/-- A value that means a message is read as the message. -/
theorem Spells.ofJson?_eq {m : Message} {v : Json} (h : m.Spells v) : ofJson? v = some m := by
  obtain ⟨given, w, gives, lists, rfl⟩ := h
  change ofBody? m.kind w = some m
  cases gives with
  | transfer s x memo spelled => exact ofBody?_transfer spelled lists
  | checkCapacity u spelled => exact ofBody?_checkCapacity spelled lists
  | withoutMemo s x spelled =>
    simp only [body, List.map_cons, List.map_nil] at lists
    simp [kind, ofBody?, lists.fields?_eq (by simp), List.lookup_cons, spelled.ofJson?_eq]
  | written =>
    cases m with
    | transfer s r x memo => exact ofBody?_transfer r.spells_toJson lists
    | checkCapacity u ratio => exact ofBody?_checkCapacity ratio.spells_toJson lists
    | _ =>
      have found := lists.fields?_eq (by simp [body])
      simp only [body, List.map_cons, List.map_nil, List.lookup_cons, BEq.rfl,
        String.reduceBEq] at found
      simp [kind, ofBody?, aboutAmount?, aboutFollowing?, aboutAccount?, found, text?_ofString]

end Message

/-- A message is written in a form that can be read. -/
theorem Message.legal_toJson (m : Message) : m.toJson.Legal := by
  cases m <;> simp [Message.toJson, Message.body, Receiver.toJson, Ratio.toJson]

/-! ## Genesis files -/

theorem FirstAccount.ofJson?_toJson (a : FirstAccount) : ofJson? a.toJson = some a := by
  simp [ofJson?, toJson, fields?_record, List.lookup_cons, text?_ofString]

theorem Genesis.ofJson?_toJson (g : Genesis) : ofJson? g.toJson = some g := by
  have accounts : items? FirstAccount.ofJson? (array (g.accounts.map FirstAccount.toJson)) =
      some g.accounts := by
    rw [items?, List.mapM_map]
    refine (mapM_eq_some_map (g := id) fun a _ => a.ofJson?_toJson).trans ?_
    rw [List.map_id]
  simp [ofJson?, toJson, fields?_record, List.lookup_cons, accounts]

theorem Genesis.legal_toJson (g : Genesis) : g.toJson.Legal := by
  simp [Genesis.toJson, Legal, legalItems_iff, FirstAccount.toJson]

/-- A message is read back from its text. So it is from every text of a value that means it: its
fields in any order, any other members among them, an empty memo or the null fields of a receiver
left out. A genesis is read back from its file. -/
theorem Message.ofText?_spelled :
    (∀ m : Message, ofText? m.toText = some m) ∧
      (∀ (m : Message) (v : Json), m.Spells v →
        (v.Legal → ofText? v.compact = some m ∧ ofText? v.pretty = some m) ∧
          ∀ s, Json.ofText? s = some v → ofText? s = some m) ∧
      ∀ g : Genesis, Genesis.ofText g.toText = .ok g := by
  have spelled (m : Message) (v : Json) (spells : m.Spells v) (s : String)
      (read : Json.ofText? s = some v) : ofText? s = some m := by
    rw [ofText?, read, Option.bind_some, spells.ofJson?_eq]
  refine ⟨fun m => ?_, fun m v spells => ⟨fun legal => ?_, spelled m v spells⟩, fun g => ?_⟩
  · exact spelled m _ m.spells_toJson _ (ofText?_compact m.legal_toJson)
  · exact ⟨spelled m v spells _ (ofText?_compact legal),
      spelled m v spells _ (ofText?_pretty legal)⟩
  · rw [Genesis.ofText, Genesis.toText, ofText?_pretty g.legal_toJson, Option.bind_some,
      g.ofJson?_toJson]

/-- A transfer with its fields in reverse order, a member that is no field in front of them, no memo
and no account for the receiver. -/
theorem Message.ofText?_spelled_transfer :
    let alice : Username := ⟨"alice", by decide⟩
    let x : Address := ⟨"x\n\"", by decide⟩
    let note : Json := array [text none, number ⟨true, 0, ['e', '+', '9', '9', '9']⟩, object []]
    let v : Json := record [("Transfer", record [("note", note), ("amount", ofCoin ⟨5, by decide⟩),
      ("receiver", record [("address", ofAddress x)]), ("sender", ofUsername alice)])]
    ofText? v.compact = some (.transfer alice ⟨none, some x⟩ ⟨5, by decide⟩ "") := by
  intro alice x note v
  have receiver : Receiver.Spells ⟨none, some x⟩ (record [("address", ofAddress x)]) :=
    ⟨_, .address (some x), lists_record _ _⟩
  have spells : Spells (.transfer alice ⟨none, some x⟩ ⟨5, by decide⟩ "") v :=
    ⟨_, _, .withoutMemo alice _ receiver,
      ⟨[("note", note)], _, by simp [body], List.reverse_perm _, rfl⟩, rfl⟩
  have exponent : isTail ['e', '+', '9', '9', '9'] = true := by decide
  have legal : v.Legal := by simp [v, note, Legal, LegalItems, LegalMembers, exponent]
  exact ((ofText?_spelled.2.1 _ v spells).1 legal).1

end StakeLedger
