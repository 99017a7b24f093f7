import FirmwareUpdate.Main
import FirmwareUpdate.Describe
import FirmwareUpdate.Dfu.Bus
import FirmwareUpdate.Proofs.Permutations
import FirmwareUpdate.Proofs.Rijndael
import FirmwareUpdate.Proofs.RoundLoops
import FirmwareUpdate.Proofs.Chaining
import FirmwareUpdate.Proofs.FirstMatch
import FirmwareUpdate.Proofs.ScannerWindow
import FirmwareUpdate.Proofs.ImageRoundTrip
import FirmwareUpdate.Proofs.Dfu.Moves
import FirmwareUpdate.Proofs.Dfu.Forgetting
import FirmwareUpdate.Proofs.Dfu.Download
import FirmwareUpdate.Proofs.Dfu.Upload
import FirmwareUpdate.Proofs.Dfu.Sessions
import FirmwareUpdate.Proofs.Pieces
import FirmwareUpdate.Proofs.Dfu.Accesses
import FirmwareUpdate.Proofs.Dfu.Exchanges
import FirmwareUpdate.Proofs.Dfu.Consistency
import FirmwareUpdate.Proofs.Dfu.Leaving
import FirmwareUpdate.Proofs.Dfu.Manifestation
import FirmwareUpdate.Proofs.Dfu.ErrorState
import FirmwareUpdate.Proofs.Dfu.ShortFrames
import FirmwareUpdate.Proofs.Dfu.BusReset
import FirmwareUpdate.Proofs.Dfu.Synchronised
import FirmwareUpdate.Proofs.Dfu.Refusals
import FirmwareUpdate.Proofs.ChainFormulas
import FirmwareUpdate.Proofs.CallHistory
import FirmwareUpdate.Proofs.Parameters
import FirmwareUpdate.Proofs.ImageOutcomes
import FirmwareUpdate.Proofs.TableLookup
import FirmwareUpdate.Proofs.ChecksumVariants
import FirmwareUpdate.Proofs.AppendedTrailer
import FirmwareUpdate.Proofs.PartialOperations
import FirmwareUpdate.Proofs.Dfu.Halting
import FirmwareUpdate.Proofs.CounterKeys
import FirmwareUpdate.Proofs.MagmaStandard
import FirmwareUpdate.Proofs.KeystreamPositions
import FirmwareUpdate.Proofs.FileEffects
import FirmwareUpdate.Proofs.OptionGrammar
import FirmwareUpdate.Proofs.CommandLineRuns
