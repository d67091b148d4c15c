import ZodSchemas.Command.Report
import ZodSchemas.Conversion.Unfolding
import ZodSchemas.Declaration.File
import ZodSchemas.Files.Tree
import ZodSchemas.Main
import ZodSchemas.Node.Equality
import ZodSchemas.Proofs.Conversion.Canonical
import ZodSchemas.Proofs.Conversion.Independence
import ZodSchemas.Proofs.Conversion.Precedence
import ZodSchemas.Proofs.Declaration.Coincidence
import ZodSchemas.Proofs.Declaration.Detection
import ZodSchemas.Proofs.Declaration.Extension
import ZodSchemas.Proofs.Declaration.Identifiers
import ZodSchemas.Proofs.Declaration.Inert
import ZodSchemas.Proofs.Declaration.Layout
import ZodSchemas.Proofs.Declaration.Listed
import ZodSchemas.Proofs.Declaration.Literals
import ZodSchemas.Proofs.Declaration.Names
import ZodSchemas.Proofs.Declaration.Prefix
import ZodSchemas.Proofs.Declaration.Recovery
import ZodSchemas.Proofs.Declaration.Reordering
import ZodSchemas.Proofs.Declaration.Success
import ZodSchemas.Proofs.Declaration.Warnings
import ZodSchemas.Proofs.Dependency.Block
import ZodSchemas.Proofs.Dependency.Order
import ZodSchemas.Proofs.Dependency.PostOrder
import ZodSchemas.Proofs.Dependency.Stability
import ZodSchemas.Proofs.Files.Loading
import ZodSchemas.Proofs.Node.Digests
import ZodSchemas.Proofs.Output.BothWays
import ZodSchemas.Proofs.Output.Command
import ZodSchemas.Proofs.Schema.Conjunction
import ZodSchemas.Proofs.Settings.Ignored
import ZodSchemas.Proofs.Text.Identifier
import ZodSchemas.Proofs.Validation.Composition
import ZodSchemas.Proofs.Validation.Dates
import ZodSchemas.Proofs.Validation.Derivation
import ZodSchemas.Proofs.Validation.Location
import ZodSchemas.Proofs.Validation.Matching
import ZodSchemas.Proofs.Validation.Regular
import ZodSchemas.Proofs.Validation.Remainder
import ZodSchemas.Proofs.Validation.Repetition
import ZodSchemas.Proofs.Validation.Wrapping
