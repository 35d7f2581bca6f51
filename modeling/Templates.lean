import Templates.Canonical
import Templates.Command.Arguments
import Templates.Command.Format
import Templates.Command.Run
import Templates.Command.Source
import Templates.Diagnostic
import Templates.Discovery
import Templates.Dump
import Templates.Expr
import Templates.Expr.Reader
import Templates.Expr.Text
import Templates.FileError
import Templates.FileSystem
import Templates.IntLiteral
import Templates.Json
import Templates.Layout
import Templates.Lint
import Templates.Lint.Structure
import Templates.Main
import Templates.Parameters
import Templates.Path
import Templates.Position
import Templates.Proofs.CanonicalLines
import Templates.Proofs.CanonicalText
import Templates.Proofs.DeclaredParameters
import Templates.Proofs.DelimitedText
import Templates.Proofs.Descent
import Templates.Proofs.DescentProgress
import Templates.Proofs.DescentReading
import Templates.Proofs.DescentTags
import Templates.Proofs.DiffPatch
import Templates.Proofs.EndToken
import Templates.Proofs.EntryPaths
import Templates.Proofs.ErrorOrder
import Templates.Proofs.ExprGrammar
import Templates.Proofs.ExprReading
import Templates.Proofs.FileTree
import Templates.Proofs.FindingLines
import Templates.Proofs.FormatAgain
import Templates.Proofs.FormatRuns
import Templates.Proofs.FormatVerdicts
import Templates.Proofs.GroupedText
import Templates.Proofs.Lexemes
import Templates.Proofs.LexicalScope
import Templates.Proofs.LineWriter
import Templates.Proofs.LintSchedule
import Templates.Proofs.LiteralText
import Templates.Proofs.LoneTags
import Templates.Proofs.MinusGuard
import Templates.Proofs.NamedTrees
import Templates.Proofs.NodeOrigins
import Templates.Proofs.Outline
import Templates.Proofs.Parentheses
import Templates.Proofs.PathOrder
import Templates.Proofs.PositionErasure
import Templates.Proofs.QuotedText
import Templates.Proofs.ReaderErrors
import Templates.Proofs.ReaderInvariant
import Templates.Proofs.Respacing
import Templates.Proofs.Respelling
import Templates.Proofs.ScopeErasure
import Templates.Proofs.ScopeFrames
import Templates.Proofs.SpellableReading
import Templates.Proofs.StableSorting
import Templates.Proofs.StructureChecks
import Templates.Proofs.SyntaxReports
import Templates.Proofs.TagNesting
import Templates.Proofs.TemplateGrammar
import Templates.Proofs.TemplateReading
import Templates.Proofs.TemplateSearch
import Templates.Proofs.TextLexemes
import Templates.Proofs.TextLines
import Templates.Proofs.TextReading
import Templates.Proofs.TokenOrder
import Templates.Proofs.TokenSense
import Templates.Proofs.TokenTiling
import Templates.Proofs.UnquotedText
import Templates.Proofs.WellFormedTree
import Templates.Reader
import Templates.Scope
import Templates.Stmt
import Templates.StringLiteral
import Templates.SyntaxError
import Templates.Text.Blank
import Templates.Text.Cyrillic
import Templates.Text.Hidden
import Templates.Text.Lines
import Templates.Text.Occurrences
import Templates.Text.Quoted
import Templates.Text.Ranges
import Templates.Token
import Templates.Token.Piece
import Templates.Vocabulary
