import LedgerClient.Calendar
import LedgerClient.Client.Boundary
import LedgerClient.Client.Invocation
import LedgerClient.Client.KeyValue
import LedgerClient.Client.Logging
import LedgerClient.CommandLine.Arguments
import LedgerClient.CommandLine.Execution
import LedgerClient.Config.ConnectionText
import LedgerClient.Config.Profile
import LedgerClient.Config.Reader
import LedgerClient.Config.Settings
import LedgerClient.Config.Timeouts
import LedgerClient.Config.Validation
import LedgerClient.Credential.Certificate
import LedgerClient.Credential.Identity
import LedgerClient.Credential.KeyStore
import LedgerClient.Credential.SigningKey
import LedgerClient.Crypto.Ecdsa
import LedgerClient.Crypto.Hmac
import LedgerClient.Crypto.KeyForm
import LedgerClient.Crypto.P256
import LedgerClient.Crypto.Sha256
import LedgerClient.Decimal.Digits
import LedgerClient.Decimal.Shortest
import LedgerClient.Decimal.Style
import LedgerClient.Der.Lenient
import LedgerClient.Der.Strict
import LedgerClient.Document.Found
import LedgerClient.Document.Json.Fault
import LedgerClient.Document.Json.Number
import LedgerClient.Document.Json.Reader
import LedgerClient.Document.Json.Token
import LedgerClient.Document.Json.Writer
import LedgerClient.Document.Toml.Reader
import LedgerClient.Document.Toml.Scalar
import LedgerClient.Document.Toml.Text
import LedgerClient.Document.Toml.Value
import LedgerClient.Error.CallError
import LedgerClient.Error.Phase
import LedgerClient.Error.RpcCode
import LedgerClient.Gateway.Deadline
import LedgerClient.Gateway.Peer
import LedgerClient.Gateway.Proposal
import LedgerClient.Gateway.Session
import LedgerClient.Main
import LedgerClient.Message.Gateway
import LedgerClient.Message.Header
import LedgerClient.Message.Proposal
import LedgerClient.Network.Address
import LedgerClient.Network.Endpoint
import LedgerClient.Network.Transport
import LedgerClient.Storage.FileTree
import LedgerClient.Storage.HomePath
import LedgerClient.Text.Base64
import LedgerClient.Text.Blank
import LedgerClient.Text.Hex
import LedgerClient.Text.Pem
import LedgerClient.Text.Quoted
import LedgerClient.Text.Split
import LedgerClient.Text.Unprintable
import LedgerClient.Text.Utf8
import LedgerClient.Trace.Event
import LedgerClient.Trace.Metric
import LedgerClient.Trace.Run
import LedgerClient.Wire.Field
import LedgerClient.Wire.Schema
import LedgerClient.Wire.Varint
import LedgerClient.X509.Certificate
import LedgerClient.X509.Name
import LedgerClient.X509.Time
import LedgerClient.Proofs.Run
import LedgerClient.Proofs.TwoRuns
import LedgerClient.Proofs.UpToTransaction
import LedgerClient.Proofs.Sequence
import LedgerClient.Proofs.Gateway.Call
import LedgerClient.Proofs.Gateway.Stages
import LedgerClient.Proofs.Gateway.Submission
import LedgerClient.Proofs.Gateway.Progress
import LedgerClient.Proofs.Gateway.Failure
import LedgerClient.Proofs.Gateway.Evaluation
import LedgerClient.Proofs.Gateway.Reports
import LedgerClient.Proofs.Gateway.Cutoff
import LedgerClient.Proofs.Text.Utf8
import LedgerClient.Proofs.Text.Order
import LedgerClient.Proofs.Text.Pem
import LedgerClient.Proofs.Text.Base64
import LedgerClient.Proofs.Text.Armor
import LedgerClient.Proofs.Text.Hex
import LedgerClient.Proofs.Text.Split
import LedgerClient.Proofs.Text.Blank
import LedgerClient.Proofs.Document.Json
import LedgerClient.Proofs.Document.Reading
import LedgerClient.Proofs.Wire.Field
import LedgerClient.Proofs.Wire.Schema
import LedgerClient.Proofs.Message
import LedgerClient.Proofs.Gateway.Proposal
import LedgerClient.Proofs.Gateway.Binding
import LedgerClient.Proofs.Gateway.Cooperation
import LedgerClient.Proofs.Gateway.Query
import LedgerClient.Proofs.Gateway.Pace
import LedgerClient.Proofs.Gateway.Deadline
import LedgerClient.Proofs.Gateway.Lifetime
import LedgerClient.Proofs.Gateway.Blindness
import LedgerClient.Proofs.Client.Boundary
import LedgerClient.Proofs.Client.LocalChecks
import LedgerClient.Proofs.Client.Opening
import LedgerClient.Proofs.Client.Steady
import LedgerClient.Proofs.Client.KeyWarning
import LedgerClient.Proofs.Client.Reports
import LedgerClient.Proofs.Client.Accounting
import LedgerClient.Proofs.Client.FirstCertificate
import LedgerClient.Proofs.Credential.Certificate
import LedgerClient.Proofs.Client.OrderedMap
import LedgerClient.Proofs.Client.HexTable
import LedgerClient.Proofs.Client.HexEntries
import LedgerClient.Proofs.Client.Ledger
import LedgerClient.Proofs.Client.PairLedger
import LedgerClient.Proofs.Client.KeyValue
import LedgerClient.Proofs.Client.Outline
import LedgerClient.Proofs.Client.Deadlines
import LedgerClient.Proofs.Network.Endpoint
import LedgerClient.Proofs.Client.Cutoff
import LedgerClient.Proofs.Storage.OneFile
import LedgerClient.Proofs.Client.Secrecy
import LedgerClient.Proofs.CommandLine.Settings
import LedgerClient.Proofs.Client.Batch
import LedgerClient.Proofs.CommandLine.Printing
import LedgerClient.Proofs.Document.Skipping
import LedgerClient.Proofs.Document.Items
import LedgerClient.Proofs.Config.ConnectionText
import LedgerClient.Proofs.Config.Overrides
import LedgerClient.Proofs.Client.Names
import LedgerClient.Proofs.Credential.SigningKey
import LedgerClient.Proofs.Crypto.Curve
import LedgerClient.Proofs.Crypto.Ecdsa
import LedgerClient.Proofs.Der.Strict
import LedgerClient.Proofs.Credential.Signature
import LedgerClient.Proofs.Credential.KeyFolder
import LedgerClient.Proofs.Text.Digits
import LedgerClient.Proofs.Network.Transport
import LedgerClient.Proofs.Storage.HomePath
import LedgerClient.Proofs.Config.Problems
import LedgerClient.Proofs.Client.HexValue
