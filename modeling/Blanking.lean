import Blanking.Command.Arguments
import Blanking.Command.Basic
import Blanking.Command.Decode
import Blanking.Command.Files
import Blanking.Command.Listing
import Blanking.Command.Run
import Blanking.Command.Synth
import Blanking.Decoder.Basic
import Blanking.Decoder.Checked
import Blanking.Decoder.Job
import Blanking.Decoder.Pattern
import Blanking.Field
import Blanking.Log
import Blanking.Main
import Blanking.Number.Double
import Blanking.Number.Fixed
import Blanking.Number.Hex
import Blanking.Number.Word
import Blanking.Output.Document
import Blanking.Output.Stream
import Blanking.Output.Time
import Blanking.Output.Writer
import Blanking.Payload.Bits
import Blanking.Payload.Check
import Blanking.Record
import Blanking.Sample.Format
import Blanking.Sample.Level
import Blanking.Sampling.Basic
import Blanking.Sampling.Checked
import Blanking.Sampling.Cover
import Blanking.Sampling.Permit
import Blanking.Service.Basic
import Blanking.Service.Name
import Blanking.Service.Set
import Blanking.Service.Transmission
import Blanking.Settings
import Blanking.Slicer.Basic
import Blanking.Slicer.Checked
import Blanking.Slicer.Config
import Blanking.Slicer.Data
import Blanking.Slicer.Search
import Blanking.Slicer.Target
import Blanking.Standard
import Blanking.Text.Blank
import Blanking.Text.Pad
import Blanking.Waveform
import Blanking.Waveform.Checked
import Blanking.Yaml.Cursor
import Blanking.Yaml.Node
import Blanking.Yaml.Scalar
import Blanking.Yaml.Token
import Blanking.Proofs.Decoder.Pattern
import Blanking.Proofs.Service.Set
import Blanking.Proofs.Decoder.Lines
import Blanking.Proofs.Decoder.Reachable
import Blanking.Proofs.Decoder.Checked
import Blanking.Proofs.Decoder.Registration
import Blanking.Proofs.Sampling.Candidates
import Blanking.Proofs.Sampling.Lines
import Blanking.Proofs.Sampling.Checked
import Blanking.Proofs.Decoder.Jobs
import Blanking.Proofs.Slicer.Packing
import Blanking.Proofs.Sampling.Permit
import Blanking.Proofs.Slicer.Data
import Blanking.Proofs.Decoder.Attribution
import Blanking.Proofs.Slicer.Clock
import Blanking.Proofs.Slicer.Flat
import Blanking.Proofs.Slicer.InPlace
import Blanking.Proofs.Slicer.Recorder
import Blanking.Proofs.Slicer.Config
import Blanking.Proofs.Decoder.Flat
import Blanking.Proofs.Number.Double
import Blanking.Proofs.Number.Word
import Blanking.Proofs.Slicer.Recovery
import Blanking.Proofs.Slicer.Regular
import Blanking.Proofs.Slicer.RoundTrip
import Blanking.Proofs.Service.Group
import Blanking.Proofs.Decoder.Partition
import Blanking.Proofs.Decoder.Capacity
import Blanking.Proofs.Decoder.Acceptance
import Blanking.Proofs.Sample.Level
import Blanking.Proofs.Slicer.Threshold
import Blanking.Proofs.Slicer.Words
import Blanking.Proofs.Slicer.Bounds
import Blanking.Proofs.Slicer.Checked
import Blanking.Proofs.Slicer.Levels
import Blanking.Proofs.Slicer.Points
import Blanking.Proofs.Decoder.Bounds
import Blanking.Proofs.Decoder.Interlaced
import Blanking.Proofs.Decoder.Calls
import Blanking.Proofs.Decoder.History
import Blanking.Proofs.Command.Frames
import Blanking.Proofs.Command.Pipeline
import Blanking.Proofs.Command.Run
import Blanking.Proofs.Output.Stream
import Blanking.Proofs.Output.Writer
import Blanking.Proofs.Payload.Bits
import Blanking.Proofs.Decoder.Probing
import Blanking.Proofs.Command.Decode
import Blanking.Proofs.Slicer.Device
import Blanking.Proofs.Slicer.Transcript
import Blanking.Proofs.Slicer.RunIn
import Blanking.Proofs.Decoder.Learning
import Blanking.Proofs.Decoder.Order
import Blanking.Proofs.Decoder.Truncation
import Blanking.Proofs.Decoder.Removal
import Blanking.Proofs.Decoder.InPlace
import Blanking.Proofs.Decoder.Failure
import Blanking.Proofs.Sampling.Rows
import Blanking.Proofs.Sample.Bytes
import Blanking.Proofs.Waveform.Rows
import Blanking.Proofs.Waveform.Render
import Blanking.Proofs.Waveform.InPlace
import Blanking.Proofs.Waveform.Confinement
import Blanking.Proofs.Waveform.Lines
import Blanking.Proofs.Number.Packing
import Blanking.Proofs.Number.Order
import Blanking.Proofs.Sampling.Strictness
import Blanking.Proofs.Decoder.TrialOrder
import Blanking.Proofs.Payload.RoundTrip
import Blanking.Proofs.Payload.Stream
import Blanking.Proofs.Payload.Check
import Blanking.Proofs.Service.Standard
import Blanking.Proofs.Sampling.Cover
import Blanking.Proofs.Sampling.OnePass
import Blanking.Proofs.Command.Assignment
import Blanking.Proofs.Command.TestData
import Blanking.Proofs.Text.Blank
import Blanking.Proofs.Service.Name
import Blanking.Proofs.Payload.Redundancy
import Blanking.Proofs.Output.Time
import Blanking.Proofs.Sample.Access
