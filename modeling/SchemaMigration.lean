import SchemaMigration.Main
import SchemaMigration.Proofs.Catalog.Runs
import SchemaMigration.Proofs.Sql.Schemas
import SchemaMigration.Proofs.Targets
import SchemaMigration.Proofs.Schema.Documents
import SchemaMigration.Proofs.Operation.Documents
import SchemaMigration.Proofs.Execution.PrimaryKeys
import SchemaMigration.Proofs.Execution.UniqueConstraints
import SchemaMigration.Proofs.Execution.ConstraintNames
import SchemaMigration.Proofs.Identifiers
import SchemaMigration.Proofs.Number.Exact
import SchemaMigration.Proofs.Unchanged
import SchemaMigration.Proofs.Sql.Unchanged
import SchemaMigration.Proofs.CommandLine.Arguments
import SchemaMigration.Proofs.CommandLine.Runs
import SchemaMigration.Proofs.Json.Arrangements
import SchemaMigration.Proofs.Schema.Spellings
import SchemaMigration.Proofs.Difference.Emptiness
import SchemaMigration.Proofs.Difference.Reordering
import SchemaMigration.Proofs.Difference.Backward
import SchemaMigration.Proofs.Difference.Locality
import SchemaMigration.Proofs.Difference.Losses
import SchemaMigration.Proofs.Difference.UniqueNames
import SchemaMigration.Proofs.Difference.Modifications
import SchemaMigration.Proofs.Sql.QuotedText
import SchemaMigration.Proofs.Sql.Defaults
import SchemaMigration.Proofs.Sql.TextLength
import SchemaMigration.Proofs.Trail
import SchemaMigration.Proofs.Sql.Numerals
