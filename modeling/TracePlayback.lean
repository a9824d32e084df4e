import TracePlayback.CommandLine
import TracePlayback.Decimal.Basic
import TracePlayback.Decimal.Notation
import TracePlayback.Decimal.Shortest
import TracePlayback.Engine
import TracePlayback.Feed.Wire
import TracePlayback.FileSystem
import TracePlayback.FileTree
import TracePlayback.Graph.Basic
import TracePlayback.Graph.Input
import TracePlayback.Graph.Wire
import TracePlayback.Host
import TracePlayback.Json.Decode
import TracePlayback.Json.Doc
import TracePlayback.Json.Error
import TracePlayback.Json.Numeral
import TracePlayback.Json.Token
import TracePlayback.Json.Writer
import TracePlayback.Layout.Basic
import TracePlayback.Layout.Force
import TracePlayback.Main
import TracePlayback.Path
import TracePlayback.Playback.Channel
import TracePlayback.Playback.Timeline
import TracePlayback.Pulse
import TracePlayback.Random.Basic
import TracePlayback.Random.ChaCha
import TracePlayback.Replay.Basic
import TracePlayback.Replay.Filter
import TracePlayback.Replay.Job
import TracePlayback.Replay.Note
import TracePlayback.Scalar
import TracePlayback.Settings.Basic
import TracePlayback.Settings.File
import TracePlayback.Settings.Toml
import TracePlayback.Text.Quoted
import TracePlayback.Text.Utf8
import TracePlayback.Text.Visible
import TracePlayback.Toml.Document
import TracePlayback.Toml.Number
import TracePlayback.Toml.Text
import TracePlayback.Tone
import TracePlayback.Trace.Basic
import TracePlayback.Trace.Wire
import TracePlayback.Vec3
import TracePlayback.Proofs.Playback.Loop
import TracePlayback.Proofs.Playback.Operation
import TracePlayback.Proofs.Playback.Independence
import TracePlayback.Proofs.Playback.Coherence
import TracePlayback.Proofs.Playback.FrameRate
import TracePlayback.Proofs.Playback.Performance
import TracePlayback.Proofs.Playback.Chronology
import TracePlayback.Proofs.Playback.Unlimited
import TracePlayback.Proofs.Playback.Pace
import TracePlayback.Proofs.Json.Document
import TracePlayback.Proofs.Json.Integer
import TracePlayback.Proofs.Json.Spelling
import TracePlayback.Proofs.Feed.RoundTrip
import TracePlayback.Proofs.Graph.Intake
import TracePlayback.Proofs.Layout.Retarget
import TracePlayback.Proofs.Engine.Operation
import TracePlayback.Proofs.Engine.Alignment
import TracePlayback.Proofs.Playback.Firing
import TracePlayback.Proofs.Playback.Unresolved
import TracePlayback.Proofs.Playback.Instant
import TracePlayback.Proofs.Playback.Tones
import TracePlayback.Proofs.Playback.Finality
import TracePlayback.Proofs.Single.Packing
import TracePlayback.Proofs.Single.Magnitude
import TracePlayback.Proofs.Single.Side
import TracePlayback.Proofs.Layout.Scatter
import TracePlayback.Proofs.Layout.Stability
import TracePlayback.Proofs.Engine.BadFrame
import TracePlayback.Proofs.Safety.Guard
import TracePlayback.Proofs.Safety.Index
import TracePlayback.Proofs.Safety.Table
import TracePlayback.Proofs.Safety.Tick
import TracePlayback.Proofs.Safety.Playback
import TracePlayback.Proofs.Safety.Engine
import TracePlayback.Proofs.Playback.Deadline
import TracePlayback.Proofs.Playback.Progress
import TracePlayback.Proofs.Playback.Programme
import TracePlayback.Proofs.Engine.Halves
import TracePlayback.Proofs.Replay.Frames
import TracePlayback.Proofs.Replay.Ending
import TracePlayback.Proofs.Replay.Limit
import TracePlayback.Proofs.Graph.Catalogue
import TracePlayback.Proofs.Layout.Simultaneous
import TracePlayback.Proofs.Single.Exact
import TracePlayback.Proofs.Single.Order
import TracePlayback.Proofs.Random.Draws
import TracePlayback.Proofs.Random.FirstDraw
import TracePlayback.Proofs.Single.Fraction
import TracePlayback.Proofs.Layout.Survivors
import TracePlayback.Proofs.Graph.Presentation
import TracePlayback.Proofs.Trace.Entries
import TracePlayback.Proofs.CommandLine.Grammar
import TracePlayback.Proofs.Host.Feeds
import TracePlayback.Proofs.Settings.Saving
