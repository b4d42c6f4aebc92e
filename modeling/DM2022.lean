import DM2022.Word.Field
import DM2022.Instruction.Encoding
import DM2022.Instruction.Name
import DM2022.Instruction.Trap
import DM2022.Assembly.Disassembly
import DM2022.Assembly.Image
import DM2022.Assembly.Object
import DM2022.Machine.Execution
import DM2022.Machine.Inspection
import DM2022.Machine.Loading
import DM2022.Machine.Snapshot
import DM2022.Command.Directory
import DM2022.Command.Outcome
import DM2022.Main
import DM2022.Proofs.ListingPrograms
import DM2022.Proofs.LabelOperands
import DM2022.Proofs.Machine.Completion
import DM2022.Proofs.Machine.Run
import DM2022.Proofs.Machine.Budget
import DM2022.Proofs.Machine.Refusal
import DM2022.Proofs.Machine.Snapshot
import DM2022.Proofs.Machine.Configuration
import DM2022.Proofs.ImageLayout
import DM2022.Proofs.OffsetErrors
import DM2022.Proofs.SourceErrors
import DM2022.Proofs.DisassembledImages
import DM2022.Proofs.Machine.Calls
import DM2022.Proofs.Machine.Histories
import DM2022.Proofs.Machine.Reset
import DM2022.Proofs.Relocation
import DM2022.Proofs.Assembly.ObjectText
import DM2022.Proofs.Command.Directory
import DM2022.Proofs.SavedPrograms
import DM2022.Proofs.Machine.Arithmetic
import DM2022.Proofs.Machine.Addressing
import DM2022.Proofs.Machine.RegisterFile
import DM2022.Proofs.Machine.MemoryHistories
import DM2022.Proofs.Machine.Draining
import DM2022.Proofs.Machine.Comparison
import DM2022.Proofs.SourceEdits
import DM2022.Proofs.ObjectTexts
import DM2022.Proofs.InstructionLines
import DM2022.Proofs.Directives
import DM2022.Proofs.Displacements
import DM2022.Proofs.MissingLabels
import DM2022.Proofs.ResolvingAgain
import DM2022.Proofs.BitFields
import DM2022.Proofs.LabelNames
import DM2022.Proofs.AddressArithmetic
