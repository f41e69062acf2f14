import DialogueBox.Color
import DialogueBox.Commandline.Arguments
import DialogueBox.Commandline.Check
import DialogueBox.Commandline.Outcome
import DialogueBox.Commandline.Play
import DialogueBox.FileTree
import DialogueBox.Instruction
import DialogueBox.Json.Basic
import DialogueBox.Json.Form
import DialogueBox.Json.Printer
import DialogueBox.Json.Reader
import DialogueBox.Json.Token
import DialogueBox.Lint.Analysis
import DialogueBox.Lint.Finding
import DialogueBox.Lint.Report
import DialogueBox.Main
import DialogueBox.Markup.Compile
import DialogueBox.Markup.Section
import DialogueBox.Markup.Segment
import DialogueBox.Markup.Tag
import DialogueBox.Number.Decimal
import DialogueBox.Number.Double
import DialogueBox.Number.Integer
import DialogueBox.Number.Shortest
import DialogueBox.Playback.Backlog
import DialogueBox.Playback.Player
import DialogueBox.Playback.Playhead
import DialogueBox.Playback.Run
import DialogueBox.Playback.Session
import DialogueBox.Playback.Transcript
import DialogueBox.Proofs.Commandline.Check
import DialogueBox.Proofs.Commandline.Limit
import DialogueBox.Proofs.Commandline.Play
import DialogueBox.Proofs.FileTree
import DialogueBox.Proofs.Json.Grammar
import DialogueBox.Proofs.Json.Lawful
import DialogueBox.Proofs.Json.Numerals
import DialogueBox.Proofs.Json.Objects
import DialogueBox.Proofs.Json.Reading
import DialogueBox.Proofs.Json.Texts
import DialogueBox.Proofs.Lint.Agreement
import DialogueBox.Proofs.Lint.Markers
import DialogueBox.Proofs.Lint.Report
import DialogueBox.Proofs.Markup.Compile
import DialogueBox.Proofs.Markup.ErrorPage
import DialogueBox.Proofs.Markup.Grammar
import DialogueBox.Proofs.Markup.LineEnds
import DialogueBox.Proofs.Markup.Lines
import DialogueBox.Proofs.Markup.Scan
import DialogueBox.Proofs.Markup.Sections
import DialogueBox.Proofs.Markup.Slice
import DialogueBox.Proofs.Markup.Stretch
import DialogueBox.Proofs.Number.Comparison
import DialogueBox.Proofs.Number.Order
import DialogueBox.Proofs.Number.Writing
import DialogueBox.Proofs.Playback.Chronicle
import DialogueBox.Proofs.Playback.Drawing
import DialogueBox.Proofs.Playback.ErrorPage
import DialogueBox.Proofs.Playback.Exhaustion
import DialogueBox.Proofs.Playback.Finishing
import DialogueBox.Proofs.Playback.Forgetting
import DialogueBox.Proofs.Playback.Limit
import DialogueBox.Proofs.Playback.Lockstep
import DialogueBox.Proofs.Playback.Log
import DialogueBox.Proofs.Playback.Mode
import DialogueBox.Proofs.Playback.Move
import DialogueBox.Proofs.Playback.Pace
import DialogueBox.Proofs.Playback.PagesAhead
import DialogueBox.Proofs.Playback.Pagination
import DialogueBox.Proofs.Playback.Reachable
import DialogueBox.Proofs.Playback.Schedule
import DialogueBox.Proofs.Playback.Showing
import DialogueBox.Proofs.Playback.Skip
import DialogueBox.Proofs.Playback.Snapshot
import DialogueBox.Proofs.Playback.Step
import DialogueBox.Proofs.Playback.TimedWait
import DialogueBox.Proofs.Playback.Transcript
import DialogueBox.Proofs.Playback.Wishes
import DialogueBox.Proofs.Saved.PartialSettings
import DialogueBox.Proofs.Saved.RoundTrip
import DialogueBox.Proofs.Text.Cut
import DialogueBox.Proofs.Typesetting.Lines
import DialogueBox.Saved.Player
import DialogueBox.Saved.Script
import DialogueBox.Saved.Settings
import DialogueBox.Script
import DialogueBox.Settings
import DialogueBox.Shake
import DialogueBox.Style
import DialogueBox.Text.Blank
import DialogueBox.Text.Case
import DialogueBox.Text.Lines
import DialogueBox.Typesetting.Geometry
import DialogueBox.Typesetting.Metrics
import DialogueBox.Typesetting.Page
import DialogueBox.Typesetting.Typesetter
