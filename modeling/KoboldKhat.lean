import KoboldKhat.Library.Program
import KoboldKhat.Library.Execution
import KoboldKhat.Library.Interleaving
import KoboldKhat.Library.Trace
import KoboldKhat.Library.TwoRuns
import KoboldKhat.Library.Framing
import KoboldKhat.Library.Utf8
import KoboldKhat.Library.Automaton
import KoboldKhat.Library.Linearization
import KoboldKhat.Library.Users
import KoboldKhat.Messages
import KoboldKhat.DirectCommand
import KoboldKhat.Serializer.Decode
import KoboldKhat.Serializer.Dump
import KoboldKhat.Parser.Lexer
import KoboldKhat.Parser.Numbers
import KoboldKhat.Parser.Strings
import KoboldKhat.Parser.Lexemes
import KoboldKhat.Parser.Machine
import KoboldKhat.Parser.Grammar
import KoboldKhat.Parser.Integers
import KoboldKhat.Parser.RoundTrip
import KoboldKhat.Parser.Documents
import KoboldKhat.Server.Program
import KoboldKhat.Server.State
import KoboldKhat.Server.Execution
import KoboldKhat.Server.Steps
import KoboldKhat.Server.Sessions
import KoboldKhat.Server.ClientInput
import KoboldKhat.Server.LockDiscipline
import KoboldKhat.Server.FailureHandling
import KoboldKhat.Server.Accepting
import KoboldKhat.Server.Shutdown
import KoboldKhat.Server.History
import KoboldKhat.Server.Delivery
import KoboldKhat.Server.Trace
import KoboldKhat.Server.Concurrent
import KoboldKhat.Server.Provenance
import KoboldKhat.Server.Encoding
import KoboldKhat.Server.Identity
import KoboldKhat.Server.Forgery
import KoboldKhat.Server.DirectMessages
import KoboldKhat.Server.TwoRuns
import KoboldKhat.Server.Confidentiality
import KoboldKhat.Server.Removal
import KoboldKhat.Server.FailedWrites
import KoboldKhat.Server.Reports
import KoboldKhat.Server.Answers
import KoboldKhat.Server.Departures
import KoboldKhat.Server.Broadcasting
import KoboldKhat.Server.Capacity
import KoboldKhat.Server.Lines
import KoboldKhat.Server.LineDiscipline
import KoboldKhat.Server.LineOrder
import KoboldKhat.Client.State
import KoboldKhat.Client.Receiving
import KoboldKhat.Client.Queue
import KoboldKhat.Framing
import KoboldKhat.Registration
import KoboldKhat.Client.Sending
import KoboldKhat.Client.Stream
import KoboldKhat.Chat.System
import KoboldKhat.Chat.Calls
import KoboldKhat.Chat.Lines
import KoboldKhat.Chat.Room
import KoboldKhat.Chat.Refinement
import KoboldKhat.Chat.Endings
import KoboldKhat.Tsqueue.Program
import KoboldKhat.Tsqueue.Deadlock
import KoboldKhat.Tsqueue.WakeUp
import KoboldKhat.Tsqueue.Linearization
import KoboldKhat.Tsqueue.Transfer
import KoboldKhat.Client.App
import KoboldKhat.Client.AppRefinement
import KoboldKhat.Client.Typing
import KoboldKhat.Chat.Windows
import KoboldKhat.Chat.AtRest
