import Haptics.Usage
import Haptics.Request
import Haptics.Refusal
import Haptics.Catalog
import Haptics.Arbitration
import Haptics.Motor
import Haptics.Device
import Haptics.Session
import Haptics.Playback
import Haptics.Controller
import Haptics.Mailbox
import Haptics.Decimal
import Haptics.Binary64
import Haptics.Binary64.Shortest
import Haptics.Json.Number
import Haptics.Json.Value
import Haptics.Document.Basic
import Haptics.Json.Token
import Haptics.Json.Reader
import Haptics.Document.Record
import Haptics.Wire
import Haptics.Wire.Domain
import Haptics.Line.Message
import Haptics.Line.Operation
import Haptics.Line.Answer
import Haptics.Config.Basic
import Haptics.Toml.Blank
import Haptics.Toml.Quoted
import Haptics.Toml.Scalar
import Haptics.Toml.Table
import Haptics.Toml.Value
import Haptics.Toml.Reader
import Haptics.Toml.Writer
import Haptics.Config.Text
import Haptics.Config.File
import Haptics.Daemon
import Haptics.Main
import Haptics.Proofs.Course
import Haptics.Proofs.Run
import Haptics.Proofs.Moves
import Haptics.Proofs.Calls
import Haptics.Proofs.Chapters
import Haptics.Proofs.History
import Haptics.Proofs.Endings
import Haptics.Proofs.Delivery
import Haptics.Proofs.Alike
import Haptics.Proofs.Unseen
import Haptics.Proofs.Alone
import Haptics.Proofs.Values
import Haptics.Proofs.Spent
import Haptics.Proofs.Aftermath
import Haptics.Proofs.Replies
import Haptics.Proofs.Spelling
import Haptics.Proofs.Scanning
import Haptics.Proofs.Reading
import Haptics.Proofs.Framing
import Haptics.Proofs.Service
import Haptics.Proofs.Encoding
import Haptics.Proofs.Quoting
import Haptics.Proofs.Words
import Haptics.Proofs.Entries
import Haptics.Proofs.Saving
import Haptics.Proofs.Halting
import Haptics.Proofs.Reporting
import Haptics.Proofs.Rounds
import Haptics.Proofs.Starting
import Haptics.Proofs.Keys
import Haptics.Proofs.Excerpts
import Haptics.Proofs.Arguments
import Haptics.Proofs.Regarded
import Haptics.Proofs.Truncating
import Haptics.Proofs.Keeping
import Haptics.Proofs.Opening
import Haptics.Proofs.Support
import Haptics.Proofs.Precedence
import Haptics.Proofs.Registering
import Haptics.Proofs.Recording
import Haptics.Proofs.Members
