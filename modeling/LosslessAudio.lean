import LosslessAudio.Bits
import LosslessAudio.Bits.Rice
import LosslessAudio.Text.Hex
import LosslessAudio.Log
import LosslessAudio.Wire
import LosslessAudio.Fault
import LosslessAudio.Memory
import LosslessAudio.File.Fault
import LosslessAudio.File.Open
import LosslessAudio.File.Path
import LosslessAudio.File.Source
import LosslessAudio.File.Folder
import LosslessAudio.Wave.Chunk
import LosslessAudio.Wave.Format
import LosslessAudio.Wave.Writer
import LosslessAudio.AudioFile
import LosslessAudio.Text.Decimal
import LosslessAudio.Duration
import LosslessAudio.Command
import LosslessAudio.Stream.Info
import LosslessAudio.Stream.Header
import LosslessAudio.Channel
import LosslessAudio.Predictor
import LosslessAudio.Frame
import LosslessAudio.Stream.Round
import LosslessAudio.Stream.Body
import LosslessAudio.PendingInput
import LosslessAudio.Decoder
import LosslessAudio.Decoder.Feed
import LosslessAudio.Text.Utf8
import LosslessAudio.Text.Formless
import LosslessAudio.Text.Quoted
import LosslessAudio.Failure
import LosslessAudio.File.Surroundings
import LosslessAudio.Decoder.Intake
import LosslessAudio.Transcoding.Delivery
import LosslessAudio.Transcoding.Recorder
import LosslessAudio.Transcoding
import LosslessAudio.Transcoding.Threads
import LosslessAudio.Inspection
import LosslessAudio.Inspection.Printer
import LosslessAudio.CommandLine
import LosslessAudio.Program
import LosslessAudio.Main
import LosslessAudio.Proofs.SelfDelimiting
import LosslessAudio.Proofs.Blocks
import LosslessAudio.Proofs.Codes
import LosslessAudio.Proofs.Encoder
import LosslessAudio.Proofs.Frames
import LosslessAudio.Proofs.Header
import LosslessAudio.Proofs.Lossless
import LosslessAudio.Proofs.Context
import LosslessAudio.Proofs.Rounds
import LosslessAudio.Proofs.Bounds
import LosslessAudio.Proofs.Suspension
import LosslessAudio.Proofs.Refusal
import LosslessAudio.Proofs.Progress
import LosslessAudio.Proofs.Truncation
import LosslessAudio.Proofs.Loops
import LosslessAudio.Proofs.Deliveries
import LosslessAudio.Proofs.Inspection
import LosslessAudio.Proofs.AudioImage
import LosslessAudio.Proofs.Threads
import LosslessAudio.Proofs.Transcoding
import LosslessAudio.Proofs.Extent
import LosslessAudio.Proofs.Findings
import LosslessAudio.Proofs.Strictness
import LosslessAudio.Proofs.Codewords
import LosslessAudio.Proofs.RiceReading
import LosslessAudio.Proofs.Flushing
import LosslessAudio.Proofs.Transmission
import LosslessAudio.Proofs.Averages
import LosslessAudio.Proofs.Residuals
import LosslessAudio.Proofs.WaveGrammar
import LosslessAudio.Proofs.Alignment
import LosslessAudio.Proofs.WaveEditing
import LosslessAudio.Proofs.FormatCommitment
import LosslessAudio.Proofs.Saturation
import LosslessAudio.Proofs.FrameSize
import LosslessAudio.Proofs.Interleaving
import LosslessAudio.Proofs.Handouts
import LosslessAudio.Proofs.Paths
import LosslessAudio.Proofs.JsonGrammar
import LosslessAudio.Proofs.LogMessages
import LosslessAudio.Proofs.LogLines
import LosslessAudio.Proofs.PathText
import LosslessAudio.Proofs.RunLogs
