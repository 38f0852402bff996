import HttpEngine.Connection.Serve
import HttpEngine.Intake.Inbox
import HttpEngine.Intake.Whole
import HttpEngine.Json.Reader
import HttpEngine.Json.Writer
import HttpEngine.Pipeline.Recipe
import HttpEngine.Server.Basic
import HttpEngine.Proofs.Text.Encoded
import HttpEngine.Proofs.Text.Lines
import HttpEngine.Proofs.Text.MapLookup
import HttpEngine.Proofs.Text.Numeral
import HttpEngine.Proofs.Text.Utf8
import HttpEngine.Proofs.Text.Words
import HttpEngine.Proofs.Message.BuiltFields
import HttpEngine.Proofs.Message.DefaultFields
import HttpEngine.Proofs.Message.Delimited
import HttpEngine.Proofs.Message.DistinctFields
import HttpEngine.Proofs.Message.FieldLookup
import HttpEngine.Proofs.Message.Framed
import HttpEngine.Proofs.Message.Reframed
import HttpEngine.Proofs.Intake.ChunkGrammar
import HttpEngine.Proofs.Intake.ChunkedGrowth
import HttpEngine.Proofs.Intake.CurrentInbox
import HttpEngine.Proofs.Intake.DeclaredSizes
import HttpEngine.Proofs.Intake.DecoderGrowth
import HttpEngine.Proofs.Intake.HeadEnd
import HttpEngine.Proofs.Intake.HeadFields
import HttpEngine.Proofs.Intake.MachineWords
import HttpEngine.Proofs.Intake.Offset
import HttpEngine.Proofs.Intake.Resumption
import HttpEngine.Proofs.Intake.SentHead
import HttpEngine.Proofs.Intake.SentRequest
import HttpEngine.Proofs.Intake.WholeInput
import HttpEngine.Proofs.Pipeline.Steps
import HttpEngine.Proofs.Pipeline.Transcript
import HttpEngine.Proofs.Target.AbsoluteForm
import HttpEngine.Proofs.Target.Escapes
import HttpEngine.Proofs.Target.Query
import HttpEngine.Proofs.Target.Spelling
import HttpEngine.Proofs.Routing.Address
import HttpEngine.Proofs.Routing.Interference
import HttpEngine.Proofs.Routing.Matching
import HttpEngine.Proofs.Routing.Registration
import HttpEngine.Proofs.Routing.Resolution
import HttpEngine.Proofs.Connection.Announcement
import HttpEngine.Proofs.Connection.BufferLimit
import HttpEngine.Proofs.Connection.CleanEnd
import HttpEngine.Proofs.Connection.Containment
import HttpEngine.Proofs.Connection.Conversation
import HttpEngine.Proofs.Connection.Deadline
import HttpEngine.Proofs.Connection.Entries
import HttpEngine.Proofs.Connection.Inheritance
import HttpEngine.Proofs.Connection.Phases
import HttpEngine.Proofs.Connection.Punctual
import HttpEngine.Proofs.Connection.Rounds
import HttpEngine.Proofs.Connection.ServerTemplate
import HttpEngine.Proofs.Connection.TargetForms
import HttpEngine.Proofs.Connection.Transport
import HttpEngine.Proofs.Connection.Undisturbed
import HttpEngine.Proofs.Server.Capacity
import HttpEngine.Proofs.Server.StopSignals
