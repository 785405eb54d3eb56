import Hypertext.Main
import Hypertext.Proofs.Document
import Hypertext.Proofs.FreshNames
import Hypertext.Proofs.Lowering
import Hypertext.Proofs.BuiltTree
import Hypertext.Proofs.Bindings
import Hypertext.Proofs.Lexemes
import Hypertext.Proofs.Reading
import Hypertext.Proofs.Spelling
import Hypertext.Proofs.Tiling
import Hypertext.Proofs.Splicing
import Hypertext.Proofs.EditOrder
import Hypertext.Proofs.TokenErrors
import Hypertext.Proofs.MarkupErrors
import Hypertext.Proofs.Compiling
import Hypertext.Proofs.Prologue
import Hypertext.Proofs.Insertion
import Hypertext.Proofs.Hygiene
import Hypertext.Proofs.Printing
import Hypertext.Proofs.PlaceholderOrder
import Hypertext.Proofs.Expressions
import Hypertext.Proofs.SharedValues
import Hypertext.Proofs.Renaming
import Hypertext.Proofs.Barren
import Hypertext.Proofs.RenderedCode
import Hypertext.Proofs.ErrorPositions
import Hypertext.Proofs.Untouched
import Hypertext.Proofs.Wiring
import Hypertext.Proofs.Shifted
import Hypertext.Proofs.ReservedNames
import Hypertext.Proofs.NamesInCode
import Hypertext.Proofs.SingleTemplate
import Hypertext.Proofs.Generations
import Hypertext.Proofs.MemberAccess
import Hypertext.Proofs.Balanced
import Hypertext.Proofs.BalancedScan
import Hypertext.Proofs.Rescanning
import Hypertext.Proofs.Agreement
import Hypertext.Proofs.TrailingComment
import Hypertext.Proofs.Tails
import Hypertext.Proofs.Remarks
import Hypertext.Proofs.NameAllocation
import Hypertext.Proofs.StringLiterals
import Hypertext.Proofs.PlaceholderCodec
import Hypertext.Proofs.StatementBoundary
import Hypertext.Proofs.ComposedText
import Hypertext.Proofs.LifecycleHandlers
import Hypertext.Proofs.LineContinuation
import Hypertext.Proofs.TagReading
import Hypertext.Proofs.TreeShape
import Hypertext.Proofs.StraySlash
import Hypertext.Proofs.NormalChildren
import Hypertext.Proofs.GeneratedNames
import Hypertext.Proofs.NameCounters
import Hypertext.Proofs.UnambiguousValues
import Hypertext.Proofs.EscapeSeams
import Hypertext.Proofs.UnicodeEscapes
import Hypertext.Proofs.BadEscapes
import Hypertext.Proofs.BlankMarkup
import Hypertext.Proofs.QuotedText
import Hypertext.Proofs.ShownValues
import Hypertext.Proofs.Listing
import Hypertext.Proofs.WrittenFiles
import Hypertext.Proofs.FailedAttempts
import Hypertext.Proofs.ControlHeads
import Hypertext.Proofs.UniquePositions
