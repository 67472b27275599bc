import WebAssembly.Types
import WebAssembly.Float.Basic
import WebAssembly.Float.Arithmetic
import WebAssembly.Float.Text
import WebAssembly.Text.Hex
import WebAssembly.Text.Unprintable
import WebAssembly.Text.Quoted
import WebAssembly.Integer
import WebAssembly.Value
import WebAssembly.Bytes
import WebAssembly.Stack
import WebAssembly.Instruction.Numeric
import WebAssembly.Instruction.Basic
import WebAssembly.Instruction.Opcode
import WebAssembly.Instruction.Text
import WebAssembly.Module.Basic
import WebAssembly.Module.Listing
import WebAssembly.Binary.Error
import WebAssembly.Binary.Reader
import WebAssembly.Binary.Leb128
import WebAssembly.Binary.Vector
import WebAssembly.Binary.Instruction
import WebAssembly.Binary.Section
import WebAssembly.Binary.Module
import WebAssembly.Typing.Error
import WebAssembly.Typing.Checker
import WebAssembly.Typing.Body
import WebAssembly.Typing.Module
import WebAssembly.Code
import WebAssembly.Store.Error
import WebAssembly.Store.Memory
import WebAssembly.Store.Table
import WebAssembly.Store.Global
import WebAssembly.Store.Instance
import WebAssembly.Store.Basic
import WebAssembly.Store.Access
import WebAssembly.Machine.Stack
import WebAssembly.Machine.Label
import WebAssembly.Machine.Numeric
import WebAssembly.Machine.Basic
import WebAssembly.Machine.Run
import WebAssembly.Linking
import WebAssembly.Engine
import WebAssembly.Report
import WebAssembly.Main
import WebAssembly.Proofs.Fallible
import WebAssembly.Proofs.Stacks
import WebAssembly.Proofs.Typing.Rules
import WebAssembly.Proofs.Typing.Residue
import WebAssembly.Proofs.Typing.Decision
import WebAssembly.Proofs.Typing.Valid
import WebAssembly.Proofs.Typing.Confinement
import WebAssembly.Proofs.Layout
import WebAssembly.Proofs.Nesting
import WebAssembly.Proofs.Brackets
import WebAssembly.Proofs.Store.Evolution
import WebAssembly.Proofs.Store.Access
import WebAssembly.Proofs.Store.Typed
import WebAssembly.Proofs.Machine.Operations
import WebAssembly.Proofs.Machine.Steady
import WebAssembly.Proofs.Machine.Runs
import WebAssembly.Proofs.Machine.Plain
import WebAssembly.Proofs.Machine.Control
import WebAssembly.Proofs.Machine.Soundness
import WebAssembly.Proofs.Reference
import WebAssembly.Proofs.Flattening
import WebAssembly.Proofs.Machine.Configuration
import WebAssembly.Proofs.Linking.Allocation
import WebAssembly.Proofs.Linking.Typed
import WebAssembly.Proofs.Linking.Segments
import WebAssembly.Proofs.Linking.Outcome
import WebAssembly.Proofs.Histories
import WebAssembly.Proofs.OperandStack
import WebAssembly.Proofs.Linking.Failure
import WebAssembly.Proofs.Lifetimes
import WebAssembly.Proofs.Linking.Effect
import WebAssembly.Proofs.Signatures
import WebAssembly.Proofs.Machine.Local
import WebAssembly.Proofs.Isolation
import WebAssembly.Proofs.Binary.Reading
import WebAssembly.Proofs.Binary.Leb128
import WebAssembly.Proofs.Binary.Numbers
import WebAssembly.Proofs.Binary.Vectors
import WebAssembly.Proofs.Binary.Grammar
import WebAssembly.Proofs.Binary.Encoding
import WebAssembly.Proofs.Binary.InOrder
import WebAssembly.Proofs.Binary.Locality
import WebAssembly.Proofs.Binary.Acceptance
import WebAssembly.Proofs.Binary.Sections
import WebAssembly.Proofs.Binary.RoundTrip
import WebAssembly.Proofs.Binary.Assembly
import WebAssembly.Proofs.Binary.Truncation
import WebAssembly.Proofs.Binary.Bounds
import WebAssembly.Proofs.Binary.Cursor
import WebAssembly.Proofs.Typing.Frames
import WebAssembly.Proofs.Machine.Memory
import WebAssembly.Proofs.Floats
import WebAssembly.Proofs.Machine.Integers
import WebAssembly.Proofs.Machine.FloatToInteger
import WebAssembly.Proofs.Growth
import WebAssembly.Proofs.Text.Numbers
import WebAssembly.Proofs.Text.Hexadecimal
import WebAssembly.Proofs.Text.Trees
