import Disassembly.Main
import Disassembly.Proofs.ReadFaults
import Disassembly.Proofs.Resumption
import Disassembly.Session
import Disassembly.Proofs.Digits
import Disassembly.Proofs.StringData
import Disassembly.Proofs.Units
import Disassembly.Proofs.RegionBounds
import Disassembly.Proofs.Lines
import Disassembly.Proofs.Instructions
import Disassembly.Proofs.ListingLines
import Disassembly.Proofs.ListingRecord
import Disassembly.Proofs.LegibleRows
import Disassembly.Proofs.AssemblerText
import Disassembly.Proofs.FirstLabels
import Disassembly.Proofs.Fragments
import Disassembly.Proofs.Labelling
import Disassembly.Proofs.FullSinks
import Disassembly.Proofs.Interrupts
import Disassembly.Proofs.KnownModes
import Disassembly.Proofs.Lockstep
import Disassembly.Proofs.UpwardCompatible
import Disassembly.Proofs.Encoding
import Disassembly.Proofs.Presentation
import Disassembly.Proofs.Relocation
import Disassembly.Proofs.PrefixFree
import Disassembly.Proofs.BranchTargets
import Disassembly.Proofs.Definedness
import Disassembly.Proofs.ArgumentSpelling
import Disassembly.Proofs.FrontEnds
import Disassembly.Proofs.Continuation
import Disassembly.Proofs.HiddenOpcodes
import Disassembly.Proofs.SuppliedOperands
import Disassembly.Proofs.MetRegions
import Disassembly.Proofs.AddressFields
import Disassembly.Proofs.DefinitionFiles
import Disassembly.Proofs.SourceCalls
import Disassembly.Proofs.Collisions
import Disassembly.Proofs.OperandDemand
import Disassembly.Proofs.AddressArguments
import Disassembly.Proofs.IndexRegisters
import Disassembly.Proofs.LabelIndex
import Disassembly.Proofs.LabelledOperands
