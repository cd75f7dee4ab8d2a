import Switchboard.Main
import Switchboard.Proofs.Text.Lines
import Switchboard.Proofs.Text.Numeral
import Switchboard.Proofs.Text.Utf8
import Switchboard.Proofs.Record
import Switchboard.Proofs.Decimal.ReadBack
import Switchboard.Proofs.File.Path
import Switchboard.Proofs.File.Tree
import Switchboard.Proofs.File.Contents
import Switchboard.Proofs.File.Overlooking
import Switchboard.Proofs.File.Overgrowth
import Switchboard.Proofs.Json.Ascii
import Switchboard.Proofs.Json.Legible
import Switchboard.Proofs.Json.Members
import Switchboard.Proofs.Json.Number
import Switchboard.Proofs.Json.RoundTrip
import Switchboard.Proofs.Json.String
import Switchboard.Proofs.Host
import Switchboard.Proofs.RecordFile.Codec
import Switchboard.Proofs.RecordFile.Operation
import Switchboard.Proofs.RecordFile.Run
import Switchboard.Proofs.RecordFile.Stored
import Switchboard.Proofs.RecordFile.Rewriting
import Switchboard.Proofs.RecordFile.Unreadable
import Switchboard.Proofs.RecordFile.Failing
import Switchboard.Proofs.RecordFile.Recalling
import Switchboard.Proofs.RecordFile.Rereading
import Switchboard.Proofs.RecordFile.Overlooking
import Switchboard.Proofs.WriteQueue.Working
import Switchboard.Proofs.WriteQueue.Serving
import Switchboard.Proofs.WriteQueue.Ledger
import Switchboard.Proofs.WriteQueue.Interleaving
import Switchboard.Proofs.Registry
import Switchboard.Proofs.Registry.Cascade
import Switchboard.Proofs.Registry.Saving
import Switchboard.Proofs.Registry.Ending
import Switchboard.Proofs.Registry.Hearing
import Switchboard.Proofs.Registry.Loading
import Switchboard.Proofs.Registry.Sparing
import Switchboard.Proofs.Registry.Tracing
import Switchboard.Proofs.Registry.Flips
import Switchboard.Proofs.Registry.Confluence
import Switchboard.Proofs.Registry.Overlooking
import Switchboard.Proofs.Registry.Overgrowth
import Switchboard.Proofs.SetCommand
import Switchboard.Proofs.Transcript
import Switchboard.Proofs.Transcript.Writing
import Switchboard.Proofs.Transcript.Overlooking
import Switchboard.Proofs.Transcript.Overgrowth
import Switchboard.Proofs.Transcript.Logger
import Switchboard.Proofs.History
import Switchboard.Proofs.History.Entries
import Switchboard.Proofs.Client
import Switchboard.Proofs.Client.Agreement
import Switchboard.Proofs.Session
import Switchboard.Proofs.Client.Readiness
import Switchboard.Proofs.Client.Startup
import Switchboard.Proofs.Client.Logging
import Switchboard.Proofs.Client.Lifetimes
import Switchboard.Proofs.Client.Teardown
import Switchboard.Proofs.Client.Overlooking
import Switchboard.Proofs.Client.Aftermath
import Switchboard.Proofs.Shell
import Switchboard.Proofs.SetCommand.Listing
import Switchboard.Proofs.History.Recording
import Switchboard.Proofs.History.Reloading
import Switchboard.Proofs.History.Limit
import Switchboard.Proofs.Scrollback
import Switchboard.Proofs.Diagnostics
import Switchboard.Proofs.Diagnostics.Sinks
import Switchboard.Proofs.Descriptor
