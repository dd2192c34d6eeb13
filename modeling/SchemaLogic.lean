import SchemaLogic.Builder
import SchemaLogic.Json.Parser
import SchemaLogic.Proofs.Conjunction
import SchemaLogic.Proofs.Correctness
import SchemaLogic.Proofs.Location
import SchemaLogic.Proofs.WellFormed
import SchemaLogic.Proofs.Parts
import SchemaLogic.Proofs.Traversal
import SchemaLogic.Proofs.Unfolding
import SchemaLogic.Proofs.Inlining
import SchemaLogic.Proofs.Idempotence
import SchemaLogic.Proofs.Reuse
import SchemaLogic.Proofs.Agreement
import SchemaLogic.Proofs.Pruning
import SchemaLogic.Proofs.PrunedKeywords
import SchemaLogic.Proofs.ReferenceFree
import SchemaLogic.Proofs.Twins
import SchemaLogic.Proofs.Pairing
import SchemaLogic.Proofs.PairedKeywords
import SchemaLogic.Proofs.PairedSchemas
import SchemaLogic.Proofs.Flags
import SchemaLogic.Proofs.Equality
import SchemaLogic.Proofs.FastAssertions
import SchemaLogic.Proofs.NumberValue
import SchemaLogic.Proofs.EqualValues
import SchemaLogic.Proofs.Interchange
import SchemaLogic.Proofs.Shapes
import SchemaLogic.Proofs.Malformed
import SchemaLogic.Proofs.IdleKeywords
import SchemaLogic.Proofs.MissingValue
import SchemaLogic.Proofs.Layout
import SchemaLogic.Proofs.UnknownMembers
import SchemaLogic.Proofs.Interference
import SchemaLogic.Proofs.ScopeVerdict
import SchemaLogic.Proofs.StructuralEquality
import SchemaLogic.Proofs.DecimalText
import SchemaLogic.Proofs.Divisibility
import SchemaLogic.Proofs.CodeUnits
import SchemaLogic.Proofs.Respelling
import SchemaLogic.Proofs.PatternSequence
import SchemaLogic.Proofs.LiteralPattern
import SchemaLogic.Proofs.SpelledText
import SchemaLogic.Proofs.ClassGrammar
import SchemaLogic.Proofs.ClassReading
import SchemaLogic.Proofs.ClassRespelling
import SchemaLogic.Proofs.ClassMeaning
import SchemaLogic.Proofs.Rounding
import SchemaLogic.Proofs.ShortestDigits
import SchemaLogic.Proofs.RoundedDivision
import SchemaLogic.Proofs.EqualDividends
import SchemaLogic.Proofs.FoldedVerdict
import SchemaLogic.Proofs.UnpairedSurrogates
import SchemaLogic.Proofs.NormalForm
import SchemaLogic.Proofs.NumberText
import SchemaLogic.Proofs.JsonText
import SchemaLogic.Proofs.PoolRuns
import SchemaLogic.Proofs.EntryView
import SchemaLogic.Proofs.DecimalGrammar
import SchemaLogic.Proofs.ReferenceText
import SchemaLogic.Proofs.Fragments
