import BasicScript.Main
import BasicScript.Proofs.Machine.Runs
import BasicScript.Proofs.Machine.Frames
import BasicScript.Proofs.Machine.Termination
import BasicScript.Proofs.Arena.Marking
import BasicScript.Proofs.Arena.Collection
import BasicScript.Proofs.Arena.FreeList
import BasicScript.Proofs.Arena.History
import BasicScript.Proofs.Parser.Grammar
import BasicScript.Proofs.Parser.Steps
import BasicScript.Proofs.Parser.Soundness
import BasicScript.Proofs.Parser.Completeness
import BasicScript.Proofs.Program.Grammar
import BasicScript.Proofs.Program.Steps
import BasicScript.Proofs.Program.Soundness
import BasicScript.Proofs.Program.Completeness
import BasicScript.Proofs.Machine.Mirror
import BasicScript.Proofs.Machine.Unseen
import BasicScript.Proofs.Machine.Locality
import BasicScript.Proofs.Token.Language
import BasicScript.Proofs.Token.LongestMatch
import BasicScript.Proofs.Token.Tokens
import BasicScript.Proofs.Program.Failures
import BasicScript.Proofs.Program.Nesting
import BasicScript.Proofs.Machine.Locations
import BasicScript.Proofs.Machine.EntryAssignments
import BasicScript.Proofs.Value.Numbers
import BasicScript.Proofs.Machine.CountingLoops
import BasicScript.Proofs.Value.Arithmetic
import BasicScript.Proofs.Value.Comparison
import BasicScript.Proofs.Machine.PassCount
import BasicScript.Proofs.Machine.NumericKeys
import BasicScript.Proofs.Arena.KeyOrder
import BasicScript.Proofs.Arena.OrderedMaps
import BasicScript.Proofs.Arena.Unfolding
import BasicScript.Proofs.Token.LetterCase
import BasicScript.Proofs.Machine.Reporting
import BasicScript.Proofs.Token.QuotedTexts
import BasicScript.Proofs.Program.Delimited
import BasicScript.Proofs.Number.Rounding
import BasicScript.Proofs.Number.Decimals
import BasicScript.Proofs.Token.Numerals
import BasicScript.Proofs.Value.IntegerTexts
import BasicScript.Proofs.Number.FixedNotation
import BasicScript.Proofs.Machine.WholeNumbers
import BasicScript.Proofs.Number.SignificantDigits
import BasicScript.Proofs.Arena.Occupancy
