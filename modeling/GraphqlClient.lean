import GraphqlClient.Digest.Sha256
import GraphqlClient.Floating.Format
import GraphqlClient.Floating.Layout
import GraphqlClient.Floating.Literal
import GraphqlClient.Floating.Rounding
import GraphqlClient.Floating.Shortest
import GraphqlClient.Json.Number
import GraphqlClient.Json.Numeral
import GraphqlClient.Json.Tree
import GraphqlClient.Json.Value
import GraphqlClient.Json.Writer
import GraphqlClient.Normalization.Cache
import GraphqlClient.Normalization.Config
import GraphqlClient.Normalization.Fragments
import GraphqlClient.Normalization.Key
import GraphqlClient.Normalization.Normalizer
import GraphqlClient.Normalization.Template
import GraphqlClient.Operation.Basic
import GraphqlClient.Operation.Kind
import GraphqlClient.Operation.Variables
import GraphqlClient.Response.Execution
import GraphqlClient.Response.GraphqlError
import GraphqlClient.Response.Path
import GraphqlClient.Response.StrictError
import GraphqlClient.Result.Basic
import GraphqlClient.Result.CombinedError
import GraphqlClient.Result.Splice
import GraphqlClient.Syntax.Block
import GraphqlClient.Syntax.Document
import GraphqlClient.Syntax.Piece
import GraphqlClient.Syntax.Reader
import GraphqlClient.Syntax.Scan
import GraphqlClient.Syntax.Token
import GraphqlClient.Syntax.Writer
import GraphqlClient.Text.Blank
import GraphqlClient.Text.CodeRange
import GraphqlClient.Text.Escaped
import GraphqlClient.Text.Hex
import GraphqlClient.Text.Hidden
import GraphqlClient.Text.Numeral
import GraphqlClient.Text.Reader
import GraphqlClient.Text.Symbol
import GraphqlClient.Text.Utf8
import GraphqlClient.Proofs.Json.Reordered
import GraphqlClient.Proofs.Result.Walk
import GraphqlClient.Proofs.Result.Reach
import GraphqlClient.Proofs.Result.Frame
import GraphqlClient.Proofs.Result.Commutation
import GraphqlClient.Proofs.Result.ErrorAccount
import GraphqlClient.Proofs.Result.ExtensionAccount
import GraphqlClient.Proofs.Floating.Rounding
import GraphqlClient.Proofs.Floating.Shortest
import GraphqlClient.Proofs.Json.StringText
import GraphqlClient.Proofs.Operation.Encoding
import GraphqlClient.Proofs.Text.NumeralText
import GraphqlClient.Proofs.Digest.HexDigest
import GraphqlClient.Proofs.Json.NumberText
import GraphqlClient.Proofs.Operation.Unambiguous
import GraphqlClient.Proofs.Normalization.History
import GraphqlClient.Proofs.Normalization.Canonical
import GraphqlClient.Proofs.Syntax.Legal
import GraphqlClient.Proofs.Syntax.LiteralText
import GraphqlClient.Proofs.Syntax.TokenText
import GraphqlClient.Proofs.Syntax.Pieces
import GraphqlClient.Proofs.Syntax.Spacing
import GraphqlClient.Proofs.Syntax.ReadsBack
import GraphqlClient.Proofs.Syntax.Grammar
import GraphqlClient.Proofs.Syntax.ReadLegal
import GraphqlClient.Proofs.Syntax.RoundTrip
import GraphqlClient.Proofs.Normalization.Dedupe
import GraphqlClient.Proofs.Normalization.Reading
import GraphqlClient.Proofs.Normalization.Idempotence
import GraphqlClient.Proofs.Normalization.Composition
import GraphqlClient.Proofs.Json.Nodes
import GraphqlClient.Proofs.Result.Growth
import GraphqlClient.Proofs.Result.Batches
import GraphqlClient.Proofs.Result.Stream
import GraphqlClient.Proofs.Result.SameSite
import GraphqlClient.Proofs.Outcome
import GraphqlClient.Proofs.Response.Shape
import GraphqlClient.Proofs.Syntax.Cut
import GraphqlClient.Proofs.Syntax.Respaced
import GraphqlClient.Proofs.Normalization.Formatting
import GraphqlClient.Proofs.Syntax.Headings
import GraphqlClient.Proofs.Normalization.Independence
import GraphqlClient.Proofs.Normalization.Parts
import GraphqlClient.Proofs.Normalization.Firsts
import GraphqlClient.Proofs.Result.Kinds
import GraphqlClient.Proofs.Normalization.Wrapping
import GraphqlClient.Proofs.Response.ErrorShape
import GraphqlClient.Proofs.Result.ResentErrors
import GraphqlClient.Proofs.Result.FirstBatch
import GraphqlClient.Proofs.Response.IndexNames
import GraphqlClient.Proofs.Result.Spelling
