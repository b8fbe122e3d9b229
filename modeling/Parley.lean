import Parley.BigEndian
import Parley.Binary
import Parley.Buffer.Basic
import Parley.Buffer.Coupling
import Parley.Buffer.Handles
import Parley.Buffer.Memory
import Parley.Buffer.Pair
import Parley.Buffer.Pipe
import Parley.Buffer.Ring
import Parley.Client
import Parley.Client.Line
import Parley.Client.Session
import Parley.CommandLine.Arguments
import Parley.CommandLine.Client
import Parley.CommandLine.Exit
import Parley.CommandLine.Number
import Parley.CommandLine.Server
import Parley.Config
import Parley.Exchange
import Parley.Exchange.Dialogue
import Parley.Exchange.Wire
import Parley.Failure
import Parley.Field.Basic
import Parley.Field.Decode
import Parley.Field.Encode
import Parley.Frame.Assembly
import Parley.Frame.Basic
import Parley.Frame.Pipe
import Parley.Frame.Sink
import Parley.Frame.Source
import Parley.Handler
import Parley.Instant
import Parley.Main
import Parley.Message.Basic
import Parley.Message.Codec
import Parley.Network
import Parley.Proofs.Buffer.Finality
import Parley.Proofs.Buffer.Memory
import Parley.Proofs.Buffer.Ring
import Parley.Proofs.Buffer.Stream
import Parley.Proofs.Buffer.Turns
import Parley.Proofs.Buffer.Waiting
import Parley.Proofs.Buffer.Weight
import Parley.Proofs.Client.Closing
import Parley.Proofs.Client.Line
import Parley.Proofs.Client.Session
import Parley.Proofs.Client.Weight
import Parley.Proofs.CommandLine.Arguments
import Parley.Proofs.CommandLine.Client
import Parley.Proofs.CommandLine.Schedules
import Parley.Proofs.Exchange.Completion
import Parley.Proofs.Exchange.Correlation
import Parley.Proofs.Exchange.Echo
import Parley.Proofs.Exchange.Flows
import Parley.Proofs.Exchange.Progress
import Parley.Proofs.Exchange.Schedules
import Parley.Proofs.Exchange.Sends
import Parley.Proofs.Exchange.Turns
import Parley.Proofs.Exchange.Wires
import Parley.Proofs.Field.Extension
import Parley.Proofs.Field.Reads
import Parley.Proofs.Frame.Calls
import Parley.Proofs.Frame.Cut
import Parley.Proofs.Frame.Pipe
import Parley.Proofs.Frame.Reassembly
import Parley.Proofs.Frame.Sink
import Parley.Proofs.Inevitable
import Parley.Proofs.Message.Codec
import Parley.Proofs.Message.Concatenation
import Parley.Proofs.Message.Extension
import Parley.Proofs.Message.Queue
import Parley.Proofs.Message.Rounds
import Parley.Proofs.Message.Values
import Parley.Proofs.Server.Advance
import Parley.Proofs.Server.Crew
import Parley.Proofs.Server.Echo
import Parley.Proofs.Server.Fate
import Parley.Proofs.Server.Isolation
import Parley.Proofs.Server.Joining
import Parley.Proofs.Server.Service
import Parley.Proofs.Server.Settings
import Parley.Proofs.Server.Stateless
import Parley.Proofs.Server.Stopping
import Parley.Proofs.Server.Worker
import Parley.Proofs.Transport.Leaving
import Parley.Proofs.Transport.Receiver
import Parley.Proofs.Transport.Reports
import Parley.Rehearsal.Answer
import Parley.Rehearsal.Client
import Parley.Rehearsal.Program
import Parley.Rehearsal.Server
import Parley.Rehearsal.Transport
import Parley.Server.Connection
import Parley.Server.Crew
import Parley.Server.Service
import Parley.Server.Threads
import Parley.Text.Digits
import Parley.Text.Utf8
import Parley.Transport.Error
import Parley.Transport.Intake
import Parley.Transport.Receiver
import Parley.Transport.Setup
