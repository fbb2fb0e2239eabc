import RelSearch.Calendar.Date
import RelSearch.Calendar.Timestamp
import RelSearch.Compiler.Basic
import RelSearch.Compiler.Fault
import RelSearch.Compiler.Registry
import RelSearch.Compiler.Settings
import RelSearch.Compiler.Trace
import RelSearch.Document
import RelSearch.Json.Basic
import RelSearch.Json.Numeral
import RelSearch.Json.Raw
import RelSearch.Json.Reader
import RelSearch.Json.Writer
import RelSearch.Number.Binary64
import RelSearch.Number.Decimal
import RelSearch.Number.Limbs
import RelSearch.Number.Power
import RelSearch.Number.Shortest
import RelSearch.Proofs.Assembly
import RelSearch.Proofs.Canonical
import RelSearch.Proofs.Carry
import RelSearch.Proofs.Congruence
import RelSearch.Proofs.DayNumber
import RelSearch.Proofs.DecimalEquality
import RelSearch.Proofs.Descent
import RelSearch.Proofs.Digits
import RelSearch.Proofs.Domain
import RelSearch.Proofs.Entry
import RelSearch.Proofs.Equivalence
import RelSearch.Proofs.Faithful
import RelSearch.Proofs.Faults
import RelSearch.Proofs.FloatValue
import RelSearch.Proofs.Grammar
import RelSearch.Proofs.Grouping
import RelSearch.Proofs.InStep
import RelSearch.Proofs.Injectivity
import RelSearch.Proofs.JsonText
import RelSearch.Proofs.Levels
import RelSearch.Proofs.Likeness
import RelSearch.Proofs.Limit
import RelSearch.Proofs.Lineage
import RelSearch.Proofs.Location
import RelSearch.Proofs.Meaning
import RelSearch.Proofs.Naming
import RelSearch.Proofs.Nesting
import RelSearch.Proofs.NullTest
import RelSearch.Proofs.Place
import RelSearch.Proofs.Policy
import RelSearch.Proofs.Relabeling
import RelSearch.Proofs.RoundTrip
import RelSearch.Proofs.ScalarText
import RelSearch.Proofs.SortTerm
import RelSearch.Proofs.SqlLiteral
import RelSearch.Proofs.Steps
import RelSearch.Proofs.Trace
import RelSearch.Proofs.Translation
import RelSearch.Query.Equality
import RelSearch.Query.Node
import RelSearch.Quoting
import RelSearch.Scalar
import RelSearch.Text.Blank
import RelSearch.Text.Digits
import RelSearch.Text.Scan
import RelSearch.Uuid
import RelSearch.Wire.Decode
import RelSearch.Wire.Encode
