import MathQuery.CommandLine
import MathQuery.Main
import MathQuery.Proofs.Algebra.Meaning
import MathQuery.Proofs.Algebra.Canonical
import MathQuery.Proofs.Algebra.NormalForm
import MathQuery.Proofs.Algebra.Reduction
import MathQuery.Proofs.Query.Grammar
import MathQuery.Proofs.Query.Lexing
import MathQuery.Proofs.Text.Repetition
import MathQuery.Proofs.Query.Soundness
import MathQuery.Proofs.Query.Completeness
import MathQuery.Proofs.Compilation
import MathQuery.Proofs.Query.Relocation
import MathQuery.Proofs.Algebra.Numeral
import MathQuery.Proofs.Query.Arithmetic
import MathQuery.Proofs.Query.Spelling
import MathQuery.Proofs.Algebra.Reading
import MathQuery.Proofs.Interpreter.Reduce
import MathQuery.Proofs.Schema.Paths
import MathQuery.Proofs.Schema.Matching
import MathQuery.Proofs.Interpreter.History
import MathQuery.Proofs.Query.Legibility
import MathQuery.Proofs.Query.Meaning
import MathQuery.Proofs.Query.Rendering
import MathQuery.Proofs.Query.Chaining
import MathQuery.Proofs.Algebra.Printing
import MathQuery.Proofs.Algebra.Towers
import MathQuery.Proofs.Algebra.Origin
import MathQuery.Proofs.Text.Bytes
import MathQuery.Proofs.Schema.Entries
import MathQuery.Proofs.Answer
import MathQuery.Proofs.Schema.Captures
import MathQuery.Proofs.Text.Scanning
import MathQuery.Proofs.Text.Yield
import MathQuery.Proofs.Pattern.Lexing
import MathQuery.Proofs.Pattern.Notation
import MathQuery.Proofs.Algebra.Single
import MathQuery.Proofs.Algebra.Encoding
import MathQuery.Proofs.Schema.Order
import MathQuery.Proofs.Interpreter.Transcript
import MathQuery.Proofs.Text.Agreement
import MathQuery.Proofs.Query.Mirroring
import MathQuery.Proofs.Query.Layout
import MathQuery.Proofs.Algebra.Parts
import MathQuery.Proofs.Algebra.Idempotence
import MathQuery.Proofs.Algebra.ZeroDivision
import MathQuery.Proofs.Arena.Basic
import MathQuery.Proofs.Query.Lossless
import MathQuery.Proofs.Arena.Representation
import MathQuery.Proofs.Arena.Tracking
import MathQuery.Proofs.Arena.Discipline
import MathQuery.Proofs.Algebra.Coefficients
import MathQuery.Proofs.Algebra.Reciprocals
import MathQuery.Proofs.Algebra.Commutation
import MathQuery.Proofs.Algebra.Powers
import MathQuery.Proofs.Algebra.Derivative
import MathQuery.Proofs.Query.Nesting
import MathQuery.Proofs.Schema.Probes
import MathQuery.Proofs.Algebra.Decimal
import MathQuery.Proofs.Calls
import MathQuery.Proofs.Pattern.Lossless
import MathQuery.Proofs.Text.Places
import MathQuery.Proofs.Text.Blame
import MathQuery.Proofs.Query.Blame
import MathQuery.Proofs.Pattern.Blame
import MathQuery.Proofs.Query.Leaves
import MathQuery.Proofs.Positions
import MathQuery.Proofs.Proposals
import MathQuery.Proofs.Integers
import MathQuery.Proofs.Markup.Delimiters
import MathQuery.Proofs.Markup.Formulas
import MathQuery.Proofs.Markup.Groups
import MathQuery.Proofs.Markup.Answers
import MathQuery.Proofs.Arena.Formulas
import MathQuery.Proofs.Arena.Rebuilding
