import MachineDescription.Bits
import MachineDescription.Constant.Access
import MachineDescription.Constant.Basic
import MachineDescription.Convention.Register
import MachineDescription.Convention.Basic
import MachineDescription.Convention.Role
import MachineDescription.DataType
import MachineDescription.Declared
import MachineDescription.Diagnostic
import MachineDescription.Encoding.Basic
import MachineDescription.Error.Cause
import MachineDescription.Endianness
import MachineDescription.Error.Basic
import MachineDescription.Error.Kind
import MachineDescription.Expr.Basic
import MachineDescription.Expr.Contents
import MachineDescription.Expr.Eval
import MachineDescription.Format.Basic
import MachineDescription.Format.Field
import MachineDescription.Format.FieldAccess
import MachineDescription.Function
import MachineDescription.InstructionSet.Basic
import MachineDescription.InstructionSet.Decode
import MachineDescription.InstructionSet.Definition
import MachineDescription.InstructionSet.Lookup
import MachineDescription.InstructionSet.Verify
import MachineDescription.Literal.Value
import MachineDescription.Name
import MachineDescription.Numeral
import MachineDescription.Pattern.Basic
import MachineDescription.Pattern.Bytes
import MachineDescription.Proofs.Assembling
import MachineDescription.Proofs.BitWrites
import MachineDescription.Proofs.Construction
import MachineDescription.Proofs.Decoding
import MachineDescription.Proofs.DisjointFields
import MachineDescription.Proofs.EncodingPattern
import MachineDescription.Proofs.FieldBits
import MachineDescription.Proofs.PatternBits
import MachineDescription.Proofs.Registration
import MachineDescription.Proofs.SlicePositions
import MachineDescription.Resource.Artificial
import MachineDescription.Resource.Basic
import MachineDescription.Resource.Counter
import MachineDescription.Resource.Kind
import MachineDescription.Resource.Tensor
import MachineDescription.Slice.Basic
import MachineDescription.Slice.Build
import MachineDescription.Slice.Cursor
import MachineDescription.Slice.Range
import MachineDescription.Text
import MachineDescription.Value.Arithmetic
import MachineDescription.Value.Basic
import MachineDescription.Value.Bitwise
import MachineDescription.Value.Convert
import MachineDescription.Value.Fault
import MachineDescription.Value.Render
import MachineDescription.Proofs.WordRoundTrip
import MachineDescription.Proofs.Dependence
import MachineDescription.Proofs.EvaluationErrors
import MachineDescription.Proofs.BarePatterns
import MachineDescription.Proofs.BareEvaluation
import MachineDescription.Proofs.Substitution
import MachineDescription.Proofs.ConditionFlags
import MachineDescription.Proofs.WordPairs
import MachineDescription.Proofs.Registry
import MachineDescription.Proofs.MemberNames
import MachineDescription.Proofs.MemberLookup
import MachineDescription.Proofs.PinnedElements
import MachineDescription.Proofs.Drafting
import MachineDescription.Proofs.Ownership
import MachineDescription.Proofs.Numerals
import MachineDescription.Proofs.RegisterElements
import MachineDescription.Proofs.RenderedValues
import MachineDescription.Proofs.WordBytes
import MachineDescription.Proofs.ExactArithmetic
import MachineDescription.Proofs.NormalSlices
import MachineDescription.Proofs.SliceViews
import MachineDescription.Proofs.NestedSlices
import MachineDescription.Proofs.JoinedSlices
import MachineDescription.Proofs.FieldLens
import MachineDescription.Proofs.BindingOrder
import MachineDescription.Proofs.AcceptedWords
import MachineDescription.Proofs.FindingRules
import MachineDescription.Proofs.Ambiguity
import MachineDescription.Proofs.DecodingOrder
import MachineDescription.Proofs.SpelledNumerals
import MachineDescription.Proofs.LiteralGrammar
import MachineDescription.Proofs.LiteralWidth
import MachineDescription.Proofs.TwosComplement
import MachineDescription.Proofs.CheckedIntegers
import MachineDescription.Proofs.Division
import MachineDescription.Proofs.Products
import MachineDescription.Proofs.Shifts
import MachineDescription.Proofs.WidthChanges
import MachineDescription.Proofs.ShiftAmounts
import MachineDescription.Proofs.DerivedViews
import MachineDescription.Proofs.RegisterNames
import MachineDescription.Proofs.ResultTypes
import MachineDescription.Proofs.StorageShapes
import MachineDescription.Proofs.FormatFindings
import MachineDescription.Proofs.StableNames
import MachineDescription.Proofs.FormatLayouts
import MachineDescription.Proofs.EncodingLedgers
