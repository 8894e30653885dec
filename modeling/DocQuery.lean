import DocQuery.Main
import DocQuery.Proofs.FromClause
import DocQuery.Proofs.Precedence
import DocQuery.Proofs.Rows
import DocQuery.Proofs.TracedConditions
import DocQuery.Proofs.Machine
import DocQuery.Proofs.ControlFlow
import DocQuery.Proofs.Derivations
import DocQuery.Proofs.Growth
import DocQuery.Proofs.Branches
import DocQuery.Proofs.References
import DocQuery.Proofs.Qualified
import DocQuery.Proofs.Grouping
import DocQuery.Proofs.Refusals
import DocQuery.Proofs.Remainders
import DocQuery.Proofs.StraightLine
import DocQuery.Proofs.Lowerable
import DocQuery.Proofs.Accesses
import DocQuery.Proofs.JsonPaths
import DocQuery.Proofs.PatternTests
import DocQuery.Proofs.Locality
import DocQuery.Proofs.Variables
import DocQuery.Proofs.Moves
import DocQuery.Proofs.Offsets
import DocQuery.Proofs.Disjuncts
import DocQuery.Proofs.Aliases
import DocQuery.Proofs.Composition
import DocQuery.Proofs.Consumption
import DocQuery.Proofs.Stability
import DocQuery.Proofs.Wrapping
import DocQuery.Proofs.Chains
import DocQuery.Proofs.Constants
