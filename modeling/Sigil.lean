import Sigil.Library.OrderedDict
import Sigil.Library.Dialogue
import Sigil.Library.Pool
import Sigil.Python.Value
import Sigil.Python.Text
import Sigil.Python.Base64
import Sigil.Revocation.Subscriber
import Sigil.Verify.Local
import Sigil.Verify.Biscuit
import Sigil.Verify.Authorisation
import Sigil.Verify.Expiry
import Sigil.Audit.Store
import Sigil.Redaction
import Sigil.Client.Wire
import Sigil.Client.Client
import Sigil.Gate.Decorators
import Sigil.Gate.Script
import Sigil.Gate.Ruling
import Sigil.Gate.Approval
import Sigil.Gate.Fate
import Sigil.Gate.Decision
import Sigil.Gate.Audit
import Sigil.Gate.KillSwitch
import Sigil.Gate.Conversation.Check
import Sigil.Gate.Conversation.Call
import Sigil.Gate.OneApproval
import Sigil.Library.World
import Sigil.Library.Monitor
import Sigil.Library.Agreement
import Sigil.Python.Json
import Sigil.Python.Tokens
import Sigil.Python.RoundTrip
import Sigil.Python.Utf8
import Sigil.Verify.Legible
import Sigil.Verify.Malformed
import Sigil.Audit.Lines
import Sigil.Audit.Flusher
import Sigil.Audit.Accounting
import Sigil.Audit.Replay
import Sigil.Audit.Solo
import Sigil.Audit.Pipeline
import Sigil.Audit.FinalFlush
import Sigil.Audit.Interleaving
import Sigil.Audit.Ownership
import Sigil.Revocation.Listener
import Sigil.Gate.Conversation.Questions
import Sigil.Gate.Attribution
import Sigil.Gate.Conversation.Protocol
import Sigil.Gate.Conversation.Order
import Sigil.Gate.Counterparts
import Sigil.Gate.Waits
import Sigil.Gate.Wrappers
import Sigil.Session.Task
import Sigil.Session.Credentials
import Sigil.Library.Regex
import Sigil.Library.Substitution
import Sigil.Library.Placeholders
import Sigil.Library.Grouping
import Sigil.Python.Canonical
import Sigil.Python.Balance
import Sigil.Redaction.Classifiers
import Sigil.Redaction.Seams
import Sigil.Redaction.Addresses
import Sigil.Redaction.Secrets
import Sigil.Redaction.Reach
import Sigil.Redaction.Hash
import Sigil.Gate.Polling
import Sigil.Audit.Delivery
import Sigil.Audit.Identity
import Sigil.Audit.Damage
import Sigil.Audit.Torn
import Sigil.Library.Sextets
import Sigil.Library.Blocks
import Sigil.Verify.Codec
import Sigil.Verify.FactOrder
import Sigil.Client.Keyring
import Sigil.Audit.WakeUp
import Sigil.Revocation.Health
import Sigil.Session.Nesting
import Sigil.Library.Shared
import Sigil.Audit.Concurrency
import Sigil.Audit.Desks
import Sigil.Audit.Barrier
import Sigil.Audit.Cap
import Sigil.Session.Arguments
import Sigil.Gate.Conversation.Record
import Sigil.Gate.Envelope
import Sigil.Library.Told
import Sigil.Gate.Trails
import Sigil.Gate.FailModes
import Sigil.Client.Urls
import Sigil.Verify.Rotation
import Sigil.Verify.Legacy
import Sigil.Revocation.Backoff
import Sigil.Session.Flows
import Sigil.Audit.Shutdown
import Sigil.Library.Edges
import Sigil.Redaction.Fields
import Sigil.Library.Shapes
import Sigil.Library.Whole
import Sigil.Redaction.Numbers
