import Reify.Concrete
import Reify.Config
import Reify.Diagnostic
import Reify.Directory
import Reify.Document
import Reify.Document.Schema
import Reify.Glob
import Reify.Lowering.Arguments
import Reify.Lowering.Basic
import Reify.Lowering.Failure
import Reify.Lowering.Function
import Reify.Lowering.Reference
import Reify.Lowering.Template
import Reify.Node.Basic
import Reify.Node.Emit
import Reify.Node.Kind
import Reify.Node.Serialized
import Reify.Node.Traversal
import Reify.Operator
import Reify.Path
import Reify.Project
import Reify.Rewrite.Selector
import Reify.Rewrite.Splice
import Reify.Rewrite.Walk
import Reify.Span
import Reify.SyntaxError
import Reify.Text.Blank
import Reify.Text.Cooked
import Reify.Text.Quoted
import Reify.Text.Slice
import Reify.Toml
import Reify.Toml.DateTime
import Reify.Toml.Number
import Reify.Toml.Scalar
import Reify.Toml.Table
import Reify.Toml.Value
import Reify.Transform
import Reify.Tree.Basic
import Reify.Tree.Kind
import Reify.Types.Basic
import Reify.Types.Declared
import Reify.Types.Oracle
import Reify.Types.Schema
import Reify.Proofs.Tree.Layout
import Reify.Proofs.Rewrite.Outermost
import Reify.Proofs.Concrete.Layout
import Reify.Proofs.Rewrite.Gaps
import Reify.Proofs.Lowering.Form
import Reify.Proofs.Lowering.Parts
import Reify.Proofs.Lowering.Shape
import Reify.Proofs.Lowering.References
import Reify.Proofs.Lowering.Capture
import Reify.Proofs.Text.Quoted
import Reify.Proofs.Text.Delimited
import Reify.Proofs.Node.Value
import Reify.Proofs.Node.Unambiguous
import Reify.Proofs.Node.RoundTrip
import Reify.Proofs.Tree.Grammar
import Reify.Proofs.Lowering.Tokens
import Reify.Proofs.Lowering.Blame
import Reify.Proofs.Lowering.Subset
import Reify.Proofs.Lowering.Unread
import Reify.Proofs.Lowering.Fault
import Reify.Proofs.Concrete.Topmost
import Reify.Proofs.Tree.Redraw
import Reify.Proofs.Lowering.Redraw
import Reify.Proofs.Rewrite.Redraw
import Reify.Proofs.Types.Closed
import Reify.Proofs.Types.Unrelated
import Reify.Proofs.Lowering.Agreement
import Reify.Proofs.Rewrite.Agreement
import Reify.Proofs.Lowering.Accepted
import Reify.Proofs.Text.ByteOrder
import Reify.Proofs.Project.Path
import Reify.Proofs.Project.Listing
import Reify.Proofs.Project.Transform
import Reify.Proofs.Lowering.Template
import Reify.Proofs.Text.Spelling
import Reify.Proofs.Lowering.Binding
import Reify.Proofs.Lowering.Unwrapped
import Reify.Proofs.Text.Continuation
import Reify.Proofs.Text.Closing
import Reify.Proofs.Node.Quoted
import Reify.Proofs.Lowering.Elements
import Reify.Proofs.Lowering.Parameters
import Reify.Proofs.Lowering.Pointing
import Reify.Proofs.Node.Outline
import Reify.Proofs.Tree.Chain
import Reify.Proofs.Concrete.Opening
import Reify.Proofs.Node.Traversal
import Reify.Proofs.Project.Import
