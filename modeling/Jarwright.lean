import Jarwright.Archive.Calendar
import Jarwright.Archive.Entry
import Jarwright.Archive.Extraction
import Jarwright.Archive.File
import Jarwright.Archive.Zip
import Jarwright.Bytes
import Jarwright.ClassFile.Attribute
import Jarwright.ClassFile.Basic
import Jarwright.ClassFile.Constant
import Jarwright.ClassFile.ConstantPool
import Jarwright.ClassFile.Descriptor
import Jarwright.ClassFile.Fault
import Jarwright.ClassFile.Reader
import Jarwright.ClassFile.Signature
import Jarwright.Document.Json
import Jarwright.Document.Table
import Jarwright.Document.Toml
import Jarwright.Document.Value
import Jarwright.Hierarchy
import Jarwright.Machine.Command
import Jarwright.Machine.Disk
import Jarwright.Machine.Replacement
import Jarwright.Machine.World
import Jarwright.Mapping.Compact
import Jarwright.Mapping.Csv
import Jarwright.Mapping.Fault
import Jarwright.Mapping.Side
import Jarwright.Patch.Git
import Jarwright.Patch.Workflow
import Jarwright.Path
import Jarwright.Pipeline.Build
import Jarwright.Pipeline.Decompiler
import Jarwright.Pipeline.Fault
import Jarwright.Pipeline.Fetching
import Jarwright.Pipeline.Launcher
import Jarwright.Pipeline.Stage
import Jarwright.Pipeline.Stages
import Jarwright.Pipeline.Temporary
import Jarwright.Proofs.Archive.Calendar
import Jarwright.Proofs.Archive.Enclosure
import Jarwright.Proofs.Archive.Extraction
import Jarwright.Proofs.Associations
import Jarwright.Proofs.ClassFile.Codec
import Jarwright.Proofs.ClassFile.Descriptor
import Jarwright.Proofs.ClassFile.Descriptor.Renaming
import Jarwright.Proofs.ClassFile.Duplicates
import Jarwright.Proofs.ClassFile.Header
import Jarwright.Proofs.ClassFile.History
import Jarwright.Proofs.ClassFile.Interning
import Jarwright.Proofs.ClassFile.Layout
import Jarwright.Proofs.ClassFile.Pool
import Jarwright.Proofs.ClassFile.Reachable
import Jarwright.Proofs.ClassFile.Reading
import Jarwright.Proofs.ClassFile.Request
import Jarwright.Proofs.ClassFile.RoundTrip
import Jarwright.Proofs.ClassFile.Signature
import Jarwright.Proofs.ClassFile.Signature.Reading
import Jarwright.Proofs.ClassFile.Signature.Tree
import Jarwright.Proofs.ClassFile.Structures
import Jarwright.Proofs.Document.Json
import Jarwright.Proofs.Hierarchy
import Jarwright.Proofs.Machine.Action
import Jarwright.Proofs.Machine.Atomicity
import Jarwright.Proofs.Machine.Capture
import Jarwright.Proofs.Machine.Change
import Jarwright.Proofs.Machine.Disk
import Jarwright.Proofs.Machine.Ending
import Jarwright.Proofs.Machine.Growth
import Jarwright.Proofs.Machine.Keeping
import Jarwright.Proofs.Machine.Locality
import Jarwright.Proofs.Machine.Removal
import Jarwright.Proofs.Machine.Replacement
import Jarwright.Proofs.Machine.Walks
import Jarwright.Proofs.Machine.Ways
import Jarwright.Proofs.Mapping.Columns
import Jarwright.Proofs.Mapping.Compact
import Jarwright.Proofs.Mapping.Csv
import Jarwright.Proofs.Patch.Baseline
import Jarwright.Proofs.Patch.Commands
import Jarwright.Proofs.Patch.Safeguard
import Jarwright.Proofs.Patch.Series
import Jarwright.Proofs.Patch.Unversioned
import Jarwright.Proofs.Patch.Writing
import Jarwright.Proofs.Path
import Jarwright.Proofs.Pipeline.Computing
import Jarwright.Proofs.Pipeline.Keys
import Jarwright.Proofs.Pipeline.Misses
import Jarwright.Proofs.Pipeline.Products
import Jarwright.Proofs.Pipeline.Resumption
import Jarwright.Proofs.Pipeline.Runs
import Jarwright.Proofs.Pipeline.Sources
import Jarwright.Proofs.Pipeline.Spelling
import Jarwright.Proofs.Pipeline.Visits
import Jarwright.Proofs.Renaming.AnnotationData
import Jarwright.Proofs.Renaming.Annotations
import Jarwright.Proofs.Renaming.Archive
import Jarwright.Proofs.Renaming.Attributes
import Jarwright.Proofs.Renaming.Class
import Jarwright.Proofs.Renaming.Composition
import Jarwright.Proofs.Renaming.Exchanges
import Jarwright.Proofs.Renaming.Header
import Jarwright.Proofs.Renaming.Hierarchy
import Jarwright.Proofs.Renaming.Inheritance
import Jarwright.Proofs.Renaming.InnerClasses
import Jarwright.Proofs.Renaming.Linkage
import Jarwright.Proofs.Renaming.Order
import Jarwright.Proofs.Renaming.Payloads
import Jarwright.Proofs.Renaming.Signatures
import Jarwright.Proofs.Renaming.Sites
import Jarwright.Proofs.Renaming.Slots
import Jarwright.Proofs.Renaming.Steps
import Jarwright.Proofs.Renaming.Stillness
import Jarwright.Proofs.Renaming.Stripping
import Jarwright.Proofs.Renaming.Structure
import Jarwright.Proofs.Renaming.Symbols
import Jarwright.Proofs.Renaming.Targets
import Jarwright.Proofs.Renaming.Trees
import Jarwright.Proofs.Settings.Template
import Jarwright.Proofs.Source.Access
import Jarwright.Proofs.Source.Coverage
import Jarwright.Proofs.Source.Edits
import Jarwright.Proofs.Source.Headers
import Jarwright.Proofs.Source.Layout
import Jarwright.Proofs.Source.Literals
import Jarwright.Proofs.Source.Matching
import Jarwright.Proofs.Source.Orders
import Jarwright.Proofs.Source.Tokens
import Jarwright.Proofs.Store.Collision
import Jarwright.Proofs.Store.Consistency
import Jarwright.Proofs.Store.Coordinate
import Jarwright.Proofs.Store.Interference
import Jarwright.Proofs.Store.Location
import Jarwright.Proofs.Store.Metadata
import Jarwright.Proofs.Store.Notation
import Jarwright.Proofs.Store.Presence
import Jarwright.Proofs.Store.Repository
import Jarwright.Proofs.Text.Lines
import Jarwright.Proofs.Text.ModifiedUtf8
import Jarwright.Proofs.Text.ModifiedUtf8.Forms
import Jarwright.Proofs.Text.Number
import Jarwright.Proofs.Text.Splitting
import Jarwright.Proofs.Text.Trimming
import Jarwright.Proofs.Text.Utf8
import Jarwright.Rehearsal.Exercise
import Jarwright.Rehearsal.Script
import Jarwright.Rehearsal.Shell
import Jarwright.Rehearsal.Shell.Format
import Jarwright.Rehearsal.Shell.Number
import Jarwright.Rehearsal.Shell.Script
import Jarwright.Rehearsal.Stage
import Jarwright.Renaming.Archive
import Jarwright.Renaming.Attributes
import Jarwright.Renaming.Class
import Jarwright.Renaming.Constants
import Jarwright.Renaming.ElementValue
import Jarwright.Resolver
import Jarwright.Settings.Basic
import Jarwright.Settings.LogFilter
import Jarwright.Settings.Template
import Jarwright.Settings.Version
import Jarwright.Source.AccessMap
import Jarwright.Source.Declaration
import Jarwright.Source.Expression
import Jarwright.Source.Grammar
import Jarwright.Source.Layout
import Jarwright.Source.Letter
import Jarwright.Source.Literal
import Jarwright.Source.Pattern
import Jarwright.Source.Rule
import Jarwright.Source.Token
import Jarwright.Source.Visibility
import Jarwright.Store.Coordinate
import Jarwright.Store.Fingerprint
import Jarwright.Store.Location
import Jarwright.Store.Metadata
import Jarwright.Store.Repository
import Jarwright.Text.Blank
import Jarwright.Text.ModifiedUtf8
import Jarwright.Text.Number
import Jarwright.Text.Quoted
import Jarwright.Text.Shapeless
import Jarwright.Text.Utf16
import Jarwright.Text.Utf8
