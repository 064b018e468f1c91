import DeclLang.Main
import DeclLang.Vocab.Reference
import DeclLang.Proofs.Registry.Linearization
import DeclLang.Proofs.Syntax.Files
import DeclLang.Proofs.Collection.Effect
import DeclLang.Proofs.Token.Layout
import DeclLang.Proofs.Token.Lossless
import DeclLang.Proofs.Syntax.Names
import DeclLang.Proofs.Collection.Consing
import DeclLang.Proofs.Collection.Denotation
import DeclLang.Proofs.Collection.Merge
import DeclLang.Proofs.Collection.Uses
import DeclLang.Proofs.Registry.ArrayOf
import DeclLang.Proofs.Collection.Nominal
import DeclLang.Proofs.Collection.Lockstep
import DeclLang.Proofs.Collection.Headers
import DeclLang.Proofs.Collection.Realized
import DeclLang.Proofs.Collection.Waiting
import DeclLang.Proofs.Collection.Clashes
import DeclLang.Proofs.Registry.Visibility
import DeclLang.Proofs.Registry.Persistence
import DeclLang.Proofs.Library.Poisoning
import DeclLang.Proofs.Syntax.Concatenation
import DeclLang.Proofs.Syntax.Blame
import DeclLang.Proofs.Library.Sequence
import DeclLang.Proofs.Files.Extensions
import DeclLang.Proofs.Syntax.Slices
import DeclLang.Proofs.Collection.Printing
import DeclLang.Proofs.Registry.Stability
import DeclLang.Proofs.Collection.Targets
import DeclLang.Proofs.Collection.Linking
import DeclLang.Proofs.Collection.Hierarchy
import DeclLang.Proofs.Registry.Subtyping
import DeclLang.Proofs.Registry.Sharing
import DeclLang.Proofs.Registry.Templates
import DeclLang.Proofs.Collection.Primitives
import DeclLang.Proofs.Token.Canonical
import DeclLang.Proofs.Syntax.PerLine
import DeclLang.Proofs.Collection.Repetition
import DeclLang.Proofs.Token.LineBreaks
import DeclLang.Proofs.Syntax.Primary
import DeclLang.Proofs.Collection.Refusals
import DeclLang.Proofs.Collection.Leftovers
import DeclLang.Proofs.Collection.Culprits
import DeclLang.Proofs.Files.Search
import DeclLang.Proofs.Files.Walks
import DeclLang.Proofs.Library.Enumeration
import DeclLang.Proofs.Command.Manifest
import DeclLang.Proofs.Source.Motions
import DeclLang.Proofs.Syntax.Moves
import DeclLang.Proofs.Token.Returns
import DeclLang.Proofs.Syntax.LineEndings
import DeclLang.Proofs.Source.Offsets
import DeclLang.Proofs.Syntax.Nesting
import DeclLang.Syntax.Cursor
import DeclLang.Proofs.Cursor.Lines
import DeclLang.Proofs.Cursor.Phrases
import DeclLang.Proofs.Cursor.Blocks
import DeclLang.Proofs.Cursor.Runs
