import Mos6502.Board
import Mos6502.Config
import Mos6502.Recorder
import Mos6502.Emulator
import Mos6502.Proofs.Acceptance
import Mos6502.Proofs.Halting
import Mos6502.Proofs.Host
import Mos6502.Proofs.Quiet
import Mos6502.Proofs.InterruptHistory
import Mos6502.Proofs.Replay
import Mos6502.Proofs.StackFrames
import Mos6502.Proofs.Runs
import Mos6502.Proofs.TimeLedger
import Mos6502.Proofs.Disguise
import Mos6502.Proofs.FreshStart
import Mos6502.Proofs.Recording
import Mos6502.Proofs.Observation
import Mos6502.Proofs.Programs
import Mos6502.Proofs.ByteArithmetic
import Mos6502.Proofs.Computations
import Mos6502.Proofs.CarryChains
import Mos6502.Proofs.Composition
import Mos6502.Proofs.Writes
import Mos6502.Proofs.StatusByte
import Mos6502.Proofs.Switches
import Mos6502.Proofs.Lines
import Mos6502.Proofs.Messages
import Mos6502.Proofs.Reporting
import Mos6502.Proofs.RateLimit
import Mos6502.Proofs.Routing
import Mos6502.Proofs.SavedForm
import Mos6502.Proofs.EditedConfig
import Mos6502.Proofs.CycleCosts
import Mos6502.Proofs.Fetching
import Mos6502.Proofs.Footprint
import Mos6502.Proofs.Budget
import Mos6502.Proofs.Overrides
import Mos6502.Proofs.ShiftChains
import Mos6502.Proofs.Loading
import Mos6502.Proofs.Operands
import Mos6502.Proofs.Accesses
import Mos6502.Proofs.StackOrder
