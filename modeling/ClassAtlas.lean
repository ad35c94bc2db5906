import ClassAtlas.Files.Tree
import ClassAtlas.Json.Edit
import ClassAtlas.Main
import ClassAtlas.Workspace.Words
import ClassAtlas.Proofs.Bytes.Numbers
import ClassAtlas.Proofs.Bytes.Reading
import ClassAtlas.Proofs.Text.ModifiedUtf8
import ClassAtlas.Proofs.Code.Tiling
import ClassAtlas.Proofs.Code.Underflow
import ClassAtlas.Proofs.Code.ControlFlow
import ClassAtlas.Proofs.Code.Growth
import ClassAtlas.Proofs.Code.Termination
import ClassAtlas.Proofs.Calls.Dispatch
import ClassAtlas.Proofs.Calls.Callers
import ClassAtlas.Proofs.Pool.Interning
import ClassAtlas.Proofs.Pool.RoundTrip
import ClassAtlas.Proofs.Pool.Requests
import ClassAtlas.Proofs.ClassFile.RoundTrip
import ClassAtlas.Proofs.Assembler.Layout
import ClassAtlas.Proofs.Assembler.Encoding
import ClassAtlas.Proofs.Assembler.Handlers
import ClassAtlas.Proofs.Assembler.Switch
import ClassAtlas.Proofs.Assembler.RoundTrip
import ClassAtlas.Proofs.Text.Surrogates
import ClassAtlas.Proofs.Pool.Records
import ClassAtlas.Proofs.ClassFile.Rewriting
import ClassAtlas.Proofs.ClassFile.Building
import ClassAtlas.Proofs.ClassFile.Reencoding
import ClassAtlas.Proofs.ClassFile.Idempotence
import ClassAtlas.Proofs.Bytes.Delimiting
import ClassAtlas.Proofs.ClassFile.Delimiting
import ClassAtlas.Proofs.ClassFile.Payload
import ClassAtlas.Proofs.Descriptor.Grammar
import ClassAtlas.Proofs.Descriptor.Names
import ClassAtlas.Proofs.Hierarchy.Construction
import ClassAtlas.Proofs.Hierarchy.Reachability
import ClassAtlas.Proofs.Hierarchy.Dangling
import ClassAtlas.Proofs.Hierarchy.Families
import ClassAtlas.Proofs.Workspace.Freshness
import ClassAtlas.Proofs.Workspace.Reencoding
import ClassAtlas.Proofs.Files.Contents
import ClassAtlas.Proofs.Snapshot.Exporting
import ClassAtlas.Proofs.Calls.Lookup
import ClassAtlas.Proofs.Workspace.Precedence
import ClassAtlas.Proofs.Layer.Contents
import ClassAtlas.Proofs.Layer.Loading
import ClassAtlas.Proofs.Text.Utf8
import ClassAtlas.Proofs.Archive.RoundTrip
import ClassAtlas.Proofs.Snapshot.Restoring
import ClassAtlas.Proofs.Calls.Specificity
import ClassAtlas.Proofs.Calls.FanOut
import ClassAtlas.Proofs.Hierarchy.CommonSuperclass
import ClassAtlas.Proofs.Code.Decoding
import ClassAtlas.Proofs.Code.Partition
import ClassAtlas.Proofs.Code.Exceptions
import ClassAtlas.Proofs.Calls.References
import ClassAtlas.Proofs.ClassFile.Peeking
import ClassAtlas.Proofs.Workspace.SourceNames
import ClassAtlas.Proofs.Snapshot.Fingerprint
import ClassAtlas.Proofs.Calls.Failing
import ClassAtlas.Proofs.Calls.Receivers
import ClassAtlas.Proofs.Hierarchy.Climbing
import ClassAtlas.Proofs.Workspace.Sources
import ClassAtlas.Proofs.Text.PlainUtf8
