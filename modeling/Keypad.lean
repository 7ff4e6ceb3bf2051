import Keypad.Formula.Failure
import Keypad.Formula.Grammar
import Keypad.Formula.Parse
import Keypad.Formula.Print
import Keypad.Formula.Scan
import Keypad.Formula.Token
import Keypad.Formula.Tree
import Keypad.Json.Lexical
import Keypad.Json.Pass
import Keypad.Json.Read
import Keypad.Json.Record
import Keypad.Json.Value
import Keypad.Keystroke
import Keypad.Log.Entry
import Keypad.Log.Exchange
import Keypad.Log.Journal
import Keypad.Log.Remote
import Keypad.Metrics
import Keypad.Number.Binary64
import Keypad.Number.Decimal
import Keypad.Proofs.Formula.Adjacent
import Keypad.Proofs.Formula.Calls
import Keypad.Proofs.Formula.Chaining
import Keypad.Proofs.Formula.Descent
import Keypad.Proofs.Formula.Evaluate
import Keypad.Proofs.Formula.FirstFault
import Keypad.Proofs.Formula.MissingOperand
import Keypad.Proofs.Formula.Pieces
import Keypad.Proofs.Formula.Postorder
import Keypad.Proofs.Formula.Printing
import Keypad.Proofs.Formula.Progress
import Keypad.Proofs.Formula.Reading
import Keypad.Proofs.Formula.Runs
import Keypad.Proofs.Formula.Spacing
import Keypad.Proofs.Formula.Spelling
import Keypad.Proofs.Formula.Viable
import Keypad.Proofs.Formula.ZeroDivisor
import Keypad.Proofs.Json.Member
import Keypad.Proofs.Json.Passing
import Keypad.Proofs.Json.PlainText
import Keypad.Proofs.Json.Written
import Keypad.Proofs.Log.Addressing
import Keypad.Proofs.Log.Agreement
import Keypad.Proofs.Log.Call
import Keypad.Proofs.Log.Clearing
import Keypad.Proofs.Log.Clients
import Keypad.Proofs.Log.Collection
import Keypad.Proofs.Log.DeleteAll
import Keypad.Proofs.Log.Documents
import Keypad.Proofs.Log.History
import Keypad.Proofs.Log.Keeper
import Keypad.Proofs.Log.Memory
import Keypad.Proofs.Log.Remote
import Keypad.Proofs.Number.Literal
import Keypad.Proofs.Number.Magnitude
import Keypad.Proofs.Number.ZeroSign
import Keypad.Proofs.Session.Contents
import Keypad.Proofs.Session.Eviction
import Keypad.Proofs.Session.Interleaving
import Keypad.Proofs.Session.Isolation
import Keypad.Proofs.Session.Recency
import Keypad.Proofs.Session.Table
import Keypad.Proofs.Text.Blank
import Keypad.Proofs.Text.Utf8
import Keypad.Proofs.Typing.Burst
import Keypad.Proofs.Typing.Candidate
import Keypad.Proofs.Typing.Equals
import Keypad.Proofs.Typing.Faults
import Keypad.Proofs.Typing.Formula
import Keypad.Proofs.Typing.Machine
import Keypad.Proofs.Typing.Position
import Keypad.Proofs.Typing.Press
import Keypad.Proofs.Typing.Retyping
import Keypad.Proofs.Typing.StoredFailure
import Keypad.Proofs.Web.Accounting
import Keypad.Proofs.Web.Below
import Keypad.Proofs.Web.Isolation
import Keypad.Proofs.Web.LogHistory
import Keypad.Proofs.Web.LogIndependence
import Keypad.Proofs.Web.Percent
import Keypad.Proofs.Web.Posting
import Keypad.Proofs.Web.Run
import Keypad.Proofs.Web.Segment
import Keypad.Proofs.Web.Serving
import Keypad.Proofs.Web.Showing
import Keypad.Proofs.Web.Unchanged
import Keypad.Proofs.Web.Url
import Keypad.Session
import Keypad.Session.Recency
import Keypad.Session.Table
import Keypad.Settings
import Keypad.Settings.Merge
import Keypad.Settings.Value
import Keypad.Text.Blank
import Keypad.Text.Utf8
import Keypad.Web.Answer
import Keypad.Web.Form
import Keypad.Web.MediaType
import Keypad.Web.Request
import Keypad.Web.Route
import Keypad.Web.Service
import Keypad.Web.Target
import Keypad.Web.Url
