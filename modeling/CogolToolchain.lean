import CogolToolchain.Compile.Program
import CogolToolchain.Machine.Noise
import CogolToolchain.Main
import CogolToolchain.Proofs.Compile.Reference
import CogolToolchain.Proofs.Peephole.Soundness
import CogolToolchain.Settings.File
import CogolToolchain.Tool.FileTree
import CogolToolchain.Proofs.Grammar.Reference
import CogolToolchain.Proofs.Compile.Condition
import CogolToolchain.Proofs.Structured.Syntax
import CogolToolchain.Proofs.Structured.Semantics
import CogolToolchain.Proofs.Machine.Product
import CogolToolchain.Proofs.Structured.Value
import CogolToolchain.Proofs.Compile.Assignment
import CogolToolchain.Proofs.Structured.Assignment
import CogolToolchain.Proofs.Compile.Session
import CogolToolchain.Proofs.Compile.Statement
import CogolToolchain.Proofs.Compile.Labels
import CogolToolchain.Proofs.Structured.Simulation
import CogolToolchain.Proofs.Structured.Statement
import CogolToolchain.Proofs.Compile.Effect
import CogolToolchain.Proofs.Compile.Call
import CogolToolchain.Proofs.Compile.Expansion
import CogolToolchain.Proofs.Compile.Linking
import CogolToolchain.Proofs.Compile.Orderly
import CogolToolchain.Proofs.Compile.Landing
import CogolToolchain.Proofs.Compile.Pointer
import CogolToolchain.Proofs.Compile.Activation
import CogolToolchain.Proofs.Grammar.Call
import CogolToolchain.Proofs.Compile.Placement
import CogolToolchain.Proofs.Code.Listing
import CogolToolchain.Proofs.Source.Lexer
import CogolToolchain.Proofs.Source.Conservation
import CogolToolchain.Proofs.Source.Canonical
import CogolToolchain.Proofs.Compile.Printable
import CogolToolchain.Proofs.Compile.MemoryMap
import CogolToolchain.Proofs.Compile.Addressing
import CogolToolchain.Proofs.Peephole.Steady
import CogolToolchain.Proofs.Compile.Blocks
import CogolToolchain.Proofs.Compile.FrameSetup
import CogolToolchain.Proofs.Compile.FramePointer
import CogolToolchain.Proofs.Structured.Declaration
import CogolToolchain.Proofs.Structured.Body
import CogolToolchain.Proofs.Structured.Correctness
import CogolToolchain.Proofs.Compile.Decision
import CogolToolchain.Proofs.Compile.Multiplication
import CogolToolchain.Proofs.Compile.Containment
import CogolToolchain.Proofs.Grammar.Acceptance
import CogolToolchain.Proofs.Compile.Bounds
import CogolToolchain.Proofs.Compile.Marks
import CogolToolchain.Proofs.Compile.Tame
import CogolToolchain.Proofs.Compile.Nesting
import CogolToolchain.Proofs.Compile.Flow
import CogolToolchain.Proofs.Compile.Transfer
import CogolToolchain.Proofs.Compile.Steps
import CogolToolchain.Proofs.Compile.CallStack
import CogolToolchain.Proofs.Compile.Progress
import CogolToolchain.Proofs.Compile.Atomicity
import CogolToolchain.Proofs.Layout.Declarations
import CogolToolchain.Proofs.Compile.Labelling
import CogolToolchain.Proofs.Compile.Numbers
import CogolToolchain.Proofs.Compile.Bookkeeping
import CogolToolchain.Proofs.Grammar.Declarator
import CogolToolchain.Proofs.Compile.Range
import CogolToolchain.Proofs.Compile.Truncation
