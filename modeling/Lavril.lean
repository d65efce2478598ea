import Lavril.Object
import Lavril.Chain
import Lavril.Table
import Lavril.TableInvariant
import Lavril.TableOperations
import Lavril.TableMap
import Lavril.TableAnswers
import Lavril.TableTraversal
import Lavril.NullKeys
import Lavril.Comparison
import Lavril.Vector
import Lavril.Arrays
import Lavril.ArraySizes
import Lavril.Interpret
import Lavril.Guards
import Lavril.Failures
import Lavril.HeapOrder
import Lavril.HeapSort
import Lavril.Sorted
import Lavril.Opcodes
import Lavril.FuncState
import Lavril.LineInfos
import Lavril.Code
import Lavril.Syntax
import Lavril.CompilerState
import Lavril.Compiler
import Lavril.Emission
import Lavril.Productions
import Lavril.Registers
import Lavril.Allocation
import Lavril.ForLoop
import Lavril.Operators
import Lavril.Machine
import Lavril.Condition
import Lavril.Vm
import Lavril.Call
import Lavril.Frames
import Lavril.CallTarget
import Lavril.Return
import Lavril.Effects
import Lavril.Runs
import Lavril.Bookkeeping
import Lavril.Unwinding
import Lavril.Pending
import Lavril.FailedCalls
import Lavril.Seats
import Lavril.RunningGenerators
import Lavril.Suspension
import Lavril.Released
import Lavril.Captured
import Lavril.Entry
import Lavril.OpenOuters
import Lavril.Relocation
import Lavril.Sharing
import Lavril.TrapCount
import Lavril.Leaving
import Lavril.Opening
import Lavril.Overhead
import Lavril.Potential
import Lavril.Metamethod
import Lavril.Balance
import Lavril.Classes
import Lavril.Layout
import Lavril.Abstract
import Lavril.SlotRef
import Lavril.Delegate
import Lavril.Linked
import Lavril.DoublyLinked
import Lavril.Collector
import Lavril.Fuel
import Lavril.Marking
import Lavril.Counting
import Lavril.Freeing
import Lavril.Sweeping
import Lavril.Collecting
import Lavril.Collectable
import Lavril.Garbage
import Lavril.Mutator
import Lavril.Collection
import Lavril.RefTable
import Lavril.RefQuery
import Lavril.StringTable
import Lavril.Codec
import Lavril.Bytecode
import Lavril.RoundTrip
import Lavril.Lengths
import Lavril.Threads
import Lavril.ThreadCall
import Lavril.Slots
import Lavril.Instructions
import Lavril.Arithmetic
import Lavril.Windows
import Lavril.Parameters
import Lavril.RefCounted
import Lavril.WeakLinks
import Lavril.WeakRefs
import Lavril.WeakRefRuns
import Lavril.Succeeds
import Lavril.Blob
import Lavril.BlobSteps
import Lavril.Blobs
import Lavril.Json
import Lavril.JsonEncoding
import Lavril.JsonStack
import Lavril.JsonText
import Lavril.JsonReading
import Lavril.JsonRoundTrip
import Lavril.JsonCapacity
import Lavril.JsonNumbers
import Lavril.JsonTokens
import Lavril.JsonStrings
import Lavril.JsonValid
import Lavril.BlobStreams
import Lavril.BlobWords
import Lavril.Invariance
import Lavril.Rendering
import Lavril.Renderings
import Lavril.RootFallback
import Lavril.Pieces
import Lavril.Strings
import Lavril.Split
import Lavril.Typemask
import Lavril.Lexer
import Lavril.StringLiterals
import Lavril.Utf8
import Lavril.UnicodeLiterals
import Lavril.Escape
import Lavril.EscapeRoundTrip
import Lavril.Rounding
import Lavril.Numerals
import Lavril.NumericLiterals
import Lavril.Snprintf
import Lavril.Strformat
import Lavril.FormatBounds
import Lavril.Bare
import Lavril.Breaks
import Lavril.Switch
import Lavril.Cells
import Lavril.UrlCode
import Lavril.Exec
import Lavril.Ucs2
import Lavril.Utf8Feed
import Lavril.Base64
import Lavril.Base64RoundTrip
import Lavril.SecureHash
import Lavril.Sha1
import Lavril.Digest
import Lavril.TableProgress
import Lavril.RelativeCode
import Lavril.StructuredCode
import Lavril.Meaning
import Lavril.Emitted
import Lavril.Segments
import Lavril.Expressions
import Lavril.Statements
import Lavril.CompiledFunctions
