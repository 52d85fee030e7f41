import PhpCalls.Analysis
import PhpCalls.Builtin.Basic
import PhpCalls.Builtin.Names
import PhpCalls.Cache
import PhpCalls.CommandLine.Args
import PhpCalls.CommandLine.Run
import PhpCalls.Config
import PhpCalls.Dict
import PhpCalls.Facts.Calls
import PhpCalls.Facts.Declarations
import PhpCalls.Facts.File
import PhpCalls.Facts.Imports
import PhpCalls.Facts.Naming
import PhpCalls.Facts.Scope
import PhpCalls.Facts.Variables
import PhpCalls.Files.Change
import PhpCalls.Files.Disk
import PhpCalls.Files.Path
import PhpCalls.Files.Tree
import PhpCalls.Ident
import PhpCalls.Ignore.Discovery
import PhpCalls.Ignore.Glob
import PhpCalls.Ignore.Rules
import PhpCalls.Job
import PhpCalls.Json.Basic
import PhpCalls.Json.Codec
import PhpCalls.Json.Reader
import PhpCalls.Json.Writer
import PhpCalls.Main
import PhpCalls.Proofs.Cache.Failures
import PhpCalls.Proofs.Cache.Interruption
import PhpCalls.Proofs.Cache.Operations
import PhpCalls.Proofs.Cache.Places
import PhpCalls.Proofs.Cache.Recovery
import PhpCalls.Proofs.Cache.Reload
import PhpCalls.Proofs.Cache.Transparency
import PhpCalls.Proofs.CommandLine.Entries
import PhpCalls.Proofs.Config.Saving
import PhpCalls.Proofs.Config.Search
import PhpCalls.Proofs.Dict
import PhpCalls.Proofs.Facts.Bindings
import PhpCalls.Proofs.Facts.Constructors
import PhpCalls.Proofs.Facts.Losses
import PhpCalls.Proofs.Facts.Names
import PhpCalls.Proofs.Facts.Namespaces
import PhpCalls.Proofs.Facts.Native
import PhpCalls.Proofs.Facts.Owners
import PhpCalls.Proofs.Facts.Parentheses
import PhpCalls.Proofs.Facts.Range
import PhpCalls.Proofs.Files.Disk
import PhpCalls.Proofs.Files.Path
import PhpCalls.Proofs.Files.Removal
import PhpCalls.Proofs.Files.Survival
import PhpCalls.Proofs.Files.Trail
import PhpCalls.Proofs.Files.Tree
import PhpCalls.Proofs.Ident
import PhpCalls.Proofs.Ignore.Flat
import PhpCalls.Proofs.Ignore.Found
import PhpCalls.Proofs.Ignore.Fragments
import PhpCalls.Proofs.Job
import PhpCalls.Proofs.Json.RoundTrip
import PhpCalls.Proofs.List
import PhpCalls.Proofs.Record.Distinctness
import PhpCalls.Proofs.Record.RoundTrip
import PhpCalls.Proofs.Record.Storage
import PhpCalls.Proofs.Report.ByCategory
import PhpCalls.Proofs.Resolve.Cap
import PhpCalls.Proofs.Resolve.Graph
import PhpCalls.Proofs.Resolve.Identity
import PhpCalls.Proofs.Resolve.ImportFilter
import PhpCalls.Proofs.Resolve.ImportHint
import PhpCalls.Proofs.Resolve.Index
import PhpCalls.Proofs.Resolve.Locality
import PhpCalls.Proofs.Resolve.Order
import PhpCalls.Proofs.Resolve.Project
import PhpCalls.Proofs.Resolve.Repetition
import PhpCalls.Proofs.Resolve.Representation
import PhpCalls.Proofs.Resolve.Scan
import PhpCalls.Proofs.Resolve.Soundness
import PhpCalls.Proofs.Resolve.Spelling
import PhpCalls.Proofs.Resolve.Tally
import PhpCalls.Proofs.Syntax.Descent
import PhpCalls.Proofs.Syntax.DocumentOrder
import PhpCalls.Proofs.Syntax.Grammar
import PhpCalls.Proofs.Syntax.Leaves
import PhpCalls.Proofs.Syntax.Lexeme
import PhpCalls.Proofs.Syntax.Page
import PhpCalls.Proofs.Syntax.Places
import PhpCalls.Proofs.Text
import PhpCalls.Proofs.Toml.Document
import PhpCalls.Proofs.Toml.Quote
import PhpCalls.Record.Basic
import PhpCalls.Record.Codec
import PhpCalls.Report
import PhpCalls.Resolve.Graph
import PhpCalls.Resolve.ImportHint
import PhpCalls.Resolve.Index
import PhpCalls.Resolve.Project
import PhpCalls.Resolve.Resolver
import PhpCalls.Resolve.Stamp
import PhpCalls.Syntax.Arguments
import PhpCalls.Syntax.Declarations
import PhpCalls.Syntax.Expressions
import PhpCalls.Syntax.Kind
import PhpCalls.Syntax.Lexeme
import PhpCalls.Syntax.Names
import PhpCalls.Syntax.Parse
import PhpCalls.Syntax.Parser
import PhpCalls.Syntax.Statements
import PhpCalls.Syntax.Token
import PhpCalls.Syntax.Tree
import PhpCalls.Text.Basic
import PhpCalls.Text.Sha256
import PhpCalls.Text.Slice
import PhpCalls.Text.Utf8
import PhpCalls.Toml.Reader
import PhpCalls.Toml.Scalar
import PhpCalls.Toml.Value
import PhpCalls.Toml.Writer
