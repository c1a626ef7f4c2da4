import KotlinSchema.Main
import KotlinSchema.Proofs.Builder.References
import KotlinSchema.Proofs.Builder.Warnings
import KotlinSchema.Proofs.Canonical.Arguments
import KotlinSchema.Proofs.Canonical.Documentation
import KotlinSchema.Proofs.Canonical.RawLiterals
import KotlinSchema.Proofs.Canonical.RoundTrip
import KotlinSchema.Proofs.Graph.Admission
import KotlinSchema.Proofs.Graph.Inheritance
import KotlinSchema.Proofs.Json.Reading
import KotlinSchema.Proofs.Parsing.Attribution
import KotlinSchema.Proofs.Parsing.Comments
import KotlinSchema.Proofs.Parsing.Declarations
import KotlinSchema.Proofs.Parsing.DeclaredDefaults
import KotlinSchema.Proofs.Parsing.Flags
import KotlinSchema.Proofs.Pipeline.Sources
import KotlinSchema.Proofs.Schema.Titles
import KotlinSchema.Proofs.Source.Literals
import KotlinSchema.Proofs.Source.Matching
import KotlinSchema.Proofs.Source.NestedComments
