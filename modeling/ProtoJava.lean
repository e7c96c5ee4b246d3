import ProtoJava.Main
import ProtoJava.Proofs.Converter.Conversions
import ProtoJava.Proofs.Java.Imports
import ProtoJava.Proofs.Naming.ClassSpelling
import ProtoJava.Proofs.Paths
import ProtoJava.Proofs.Java.Spans
import ProtoJava.Proofs.Mapping.Faults
import ProtoJava.Proofs.Schema.Building
import ProtoJava.Proofs.Schema.References
import ProtoJava.Schema.FieldType
import ProtoJava.Text.Pieces
import ProtoJava.Proofs.Bean.Programs
import ProtoJava.Proofs.Bean.Scopes
import ProtoJava.Proofs.Naming.Accessors
import ProtoJava.Proofs.Bean.Unions
import ProtoJava.Proofs.Bean.TaggedUnions
import ProtoJava.Proofs.Java.Header
import ProtoJava.Proofs.UnnamedPackage
import ProtoJava.Proofs.Comments
import ProtoJava.Proofs.Order
import ProtoJava.Proofs.Schema.SourcePaths
import ProtoJava.Proofs.Schema.FullNames
import ProtoJava.Proofs.Naming.Locality
import ProtoJava.Proofs.Mapping.Mirroring
import ProtoJava.Proofs.Java.Literals
import ProtoJava.Proofs.Text.ByteEscapes
import ProtoJava.Proofs.Java.Layout
import ProtoJava.Proofs.Java.Matching
import ProtoJava.Proofs.Java.Terminated
import ProtoJava.Proofs.Bean.Enums
import ProtoJava.Proofs.MapEntries
import ProtoJava.Proofs.Naming.Enclosure
import ProtoJava.Proofs.Mapping.FloatLiterals
import ProtoJava.Proofs.Documentation
import ProtoJava.Proofs.Schema.Outcomes
import ProtoJava.Proofs.ReservedSegments
import ProtoJava.Proofs.UtilityClasses
import ProtoJava.Proofs.Naming.Histories
import ProtoJava.Proofs.Options
import ProtoJava.Proofs.Naming.AccessorStems
import ProtoJava.Proofs.Schema.PublicImports
import ProtoJava.Proofs.Naming.SnakeCase
