import StakeLedger.Codec.Basic
import StakeLedger.Codec.Record
import StakeLedger.Curve.Edwards25519
import StakeLedger.Decimal.Amount
import StakeLedger.Decimal.Basic
import StakeLedger.Decimal.Numeral
import StakeLedger.Decimal.Text
import StakeLedger.Digest.Sha256
import StakeLedger.Failure
import StakeLedger.Identity.PublicKey
import StakeLedger.Identity.Username
import StakeLedger.Json.Basic
import StakeLedger.Json.Fields
import StakeLedger.Json.Text
import StakeLedger.Json.Token
import StakeLedger.Json.Tree
import StakeLedger.Ledger.Account
import StakeLedger.Ledger.Basic
import StakeLedger.Ledger.Delivery
import StakeLedger.Ledger.Entry
import StakeLedger.Ledger.FileEntry
import StakeLedger.Ledger.Genesis
import StakeLedger.Ledger.GenesisText
import StakeLedger.Ledger.Message
import StakeLedger.Ledger.MessageText
import StakeLedger.Ledger.Movement
import StakeLedger.Ledger.Parameters
import StakeLedger.Ledger.ParametersText
import StakeLedger.Ledger.Table
import StakeLedger.Number.Bytes
import StakeLedger.Number.Coin
import StakeLedger.Number.Seconds
import StakeLedger.Number.Word
import StakeLedger.Ratio
import StakeLedger.Record.Basic
import StakeLedger.Record.Earnings
import StakeLedger.Record.Roster
import StakeLedger.Store.Backend
import StakeLedger.Store.Contents
import StakeLedger.Store.Layers
import StakeLedger.Store.Script
import StakeLedger.Text.Blank
import StakeLedger.Text.Hex
import StakeLedger.Text.Hidden
import StakeLedger.Text.Quoted
import StakeLedger.Text.Utf8
import StakeLedger.Throttle
import StakeLedger.Toml.Document
import StakeLedger.Toml.Quoted
import StakeLedger.Toml.Scalar
import StakeLedger.Toml.Scope
import StakeLedger.Vesting
import StakeLedger.Proofs.Codec.RoundTrip
import StakeLedger.Proofs.Identity.KeyText
import StakeLedger.Proofs.Store.Plain
import StakeLedger.Proofs.Store.Obeys
import StakeLedger.Proofs.Store.Torn
import StakeLedger.Proofs.Store.Records
import StakeLedger.Proofs.Store.Copies
import StakeLedger.Proofs.Throttle.Budget
import StakeLedger.Proofs.Throttle.Recovery
import StakeLedger.Proofs.Vesting.Sound
import StakeLedger.Proofs.Vesting.Strict
import StakeLedger.Proofs.Vesting.Refused
import StakeLedger.Proofs.Vesting.History
import StakeLedger.Proofs.Ledger.Buffered
import StakeLedger.Proofs.Ledger.Failures
import StakeLedger.Proofs.Ledger.Atomic
import StakeLedger.Proofs.Ledger.Step
import StakeLedger.Proofs.Ledger.Effect
import StakeLedger.Proofs.Ledger.Run
import StakeLedger.Proofs.Ledger.Opening
import StakeLedger.Proofs.Ledger.Interrupted
import StakeLedger.Proofs.Ledger.Holdings
import StakeLedger.Proofs.Ledger.Prepared
import StakeLedger.Proofs.Ledger.Direct
import StakeLedger.Proofs.Ledger.Link
import StakeLedger.Proofs.Ledger.Conservation
import StakeLedger.Proofs.Ledger.Book
import StakeLedger.Proofs.Social.Ties
import StakeLedger.Proofs.Social.Woven
import StakeLedger.Proofs.Social.Graph
import StakeLedger.Proofs.Ledger.Answers
import StakeLedger.Proofs.Ledger.Transfer
import StakeLedger.Proofs.Ledger.Independent
import StakeLedger.Proofs.Codec.Exact
import StakeLedger.Proofs.Codec.Canonical
import StakeLedger.Proofs.Codec.Stored
import StakeLedger.Proofs.Ledger.Touched
import StakeLedger.Proofs.Json.Built
import StakeLedger.Proofs.Json.Members
import StakeLedger.Proofs.Ledger.Spelling
import StakeLedger.Proofs.Vesting.Split
import StakeLedger.Proofs.Vesting.Advance
import StakeLedger.Proofs.Ledger.Usage
import StakeLedger.Proofs.Ledger.Sequence
import StakeLedger.Proofs.Ledger.Clock
import StakeLedger.Proofs.Ledger.Income
import StakeLedger.Proofs.Decimal.Rounding
import StakeLedger.Proofs.Decimal.Written
import StakeLedger.Proofs.Decimal.Digits
import StakeLedger.Proofs.Decimal.Numeral
import StakeLedger.Proofs.Decimal.Amount
import StakeLedger.Proofs.Decimal.Printed
import StakeLedger.Proofs.Vesting.Growth
import StakeLedger.Proofs.Vesting.Newest
import StakeLedger.Proofs.Throttle.Streak
import StakeLedger.Proofs.Ledger.Checked
import StakeLedger.Proofs.Vesting.Moment
import StakeLedger.Proofs.Vesting.InPlace
import StakeLedger.Proofs.Throttle.Worth
import StakeLedger.Proofs.Ledger.Alike
