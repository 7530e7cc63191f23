import Correlator.Main
import Correlator.Proofs.Decoder.Delivery
import Correlator.Proofs.Decoder.Progress
import Correlator.Proofs.Decoder.Resumption
import Correlator.Proofs.Decoder.Successor
import Correlator.Proofs.Recording.Truncation
import Correlator.Proofs.Decoder.Turns
import Correlator.Proofs.Stream.Parallel
import Correlator.Proofs.Tally.Agreement
import Correlator.Proofs.Tally.Parts
import Correlator.Proofs.Decoder.Reuse
import Correlator.Proofs.Decoder.Choices
import Correlator.Proofs.Decoder.Errors
import Correlator.Proofs.Header.Agreement
import Correlator.Proofs.Header.Grammar
import Correlator.Proofs.Fringe.Lags
import Correlator.Proofs.Fringe.Mirror
import Correlator.Proofs.Header.Block
import Correlator.Proofs.Tally.Counts
import Correlator.Proofs.Tally.Sound
import Correlator.Proofs.Decoder.Soundness
import Correlator.Proofs.Calendar.Order
import Correlator.Proofs.Recording.Reencoding
import Correlator.Proofs.Tally.History
import Correlator.Proofs.Command.Agreement
import Correlator.Proofs.Fringe.Maximum
import Correlator.Proofs.Fringe.Extension
import Correlator.Proofs.Fringe.Offset
import Correlator.Proofs.Report.Outline
