import LineCode.Capture.Playback
import LineCode.Stream.Device
import LineCode.Stream.Receiver
import LineCode.Stream.Transmitter
import LineCode.Proofs.Balancing
import LineCode.Proofs.BitLevel
import LineCode.Proofs.DataSymbols
import LineCode.Proofs.LineDisparity
import LineCode.Proofs.Requests
import LineCode.Proofs.Capture.Columns
import LineCode.Proofs.Capture.Deviations
import LineCode.Proofs.Capture.Failing
import LineCode.Proofs.Capture.Judging
import LineCode.Proofs.Capture.Numbers
import LineCode.Proofs.Capture.Quoting
import LineCode.Proofs.Capture.Rearranging
import LineCode.Proofs.Capture.Written
import LineCode.Proofs.Stream.Accounting
import LineCode.Proofs.Stream.Advancing
import LineCode.Proofs.Stream.Attempts
import LineCode.Proofs.Stream.Chunking
import LineCode.Proofs.Stream.Consuming
import LineCode.Proofs.Stream.Link
import LineCode.Proofs.Stream.Tearing
import LineCode.Proofs.Log.Entry
import LineCode.Proofs.Table.Cells
import LineCode.Proofs.Table.Grid
import LineCode.Proofs.Text.Width
import LineCode.Proofs.Stream.Telling
import LineCode.Proofs.Capture.Telling
import LineCode.Proofs.Log.Faithful
import LineCode.Proofs.Capture.Overflow
