import TerraDoc.CommandLine.Request
import TerraDoc.CommandLine.Run
import TerraDoc.Dictionary
import TerraDoc.Docs.Markdown
import TerraDoc.Docs.Publication
import TerraDoc.Docs.Readme
import TerraDoc.Failure
import TerraDoc.Files.Error
import TerraDoc.Files.Listing
import TerraDoc.Files.System
import TerraDoc.Files.Tree
import TerraDoc.Git.History
import TerraDoc.Hcl.Block
import TerraDoc.Hcl.ByteScan
import TerraDoc.Hcl.Cursor
import TerraDoc.Hcl.Exponent
import TerraDoc.Hcl.Grammar
import TerraDoc.Hcl.Heredoc
import TerraDoc.Hcl.Literal
import TerraDoc.Hcl.Quoted
import TerraDoc.Hcl.Syntax
import TerraDoc.Hcl.Template
import TerraDoc.Hcl.Token
import TerraDoc.Hcl.TypeExpr
import TerraDoc.Ignore.Glob
import TerraDoc.Ignore.Rule
import TerraDoc.Json.Basic
import TerraDoc.Json.Decode
import TerraDoc.Json.Reader
import TerraDoc.Main
import TerraDoc.Module.Declaration
import TerraDoc.Module.Folder
import TerraDoc.Module.Header
import TerraDoc.Module.Record
import TerraDoc.Number.Basic
import TerraDoc.Number.Binary64
import TerraDoc.Number.Literal
import TerraDoc.Path
import TerraDoc.Proofs.ArgumentReading
import TerraDoc.Proofs.ByteOrder
import TerraDoc.Proofs.CharacterClasses
import TerraDoc.Proofs.CommaList
import TerraDoc.Proofs.DeclarationReading
import TerraDoc.Proofs.DictionaryOrder
import TerraDoc.Proofs.ExponentElision
import TerraDoc.Proofs.ExponentInsertion
import TerraDoc.Proofs.ExponentLockstep
import TerraDoc.Proofs.ExponentScan
import TerraDoc.Proofs.ExpressionReading
import TerraDoc.Proofs.ExpressionScan
import TerraDoc.Proofs.FileTracking
import TerraDoc.Proofs.GapTracking
import TerraDoc.Proofs.GrammarTracking
import TerraDoc.Proofs.HeaderGrammar
import TerraDoc.Proofs.HeredocScan
import TerraDoc.Proofs.HeredocTracking
import TerraDoc.Proofs.LinkTracking
import TerraDoc.Proofs.LiteralParts
import TerraDoc.Proofs.ModulePlaces
import TerraDoc.Proofs.NameScan
import TerraDoc.Proofs.NumberConstruction
import TerraDoc.Proofs.NumberExponents
import TerraDoc.Proofs.NumberLiteral
import TerraDoc.Proofs.NumberScan
import TerraDoc.Proofs.NumberText
import TerraDoc.Proofs.NumberValue
import TerraDoc.Proofs.PathNames
import TerraDoc.Proofs.QuotedScan
import TerraDoc.Proofs.ReaderRun
import TerraDoc.Proofs.ReaderTracking
import TerraDoc.Proofs.RegularToken
import TerraDoc.Proofs.Results
import TerraDoc.Proofs.RunFrame
import TerraDoc.Proofs.ScanOrder
import TerraDoc.Proofs.ScanPosition
import TerraDoc.Proofs.ScanTracking
import TerraDoc.Proofs.TableRows
import TerraDoc.Proofs.TemplateTracking
import TerraDoc.Proofs.TokenTracking
import TerraDoc.Proofs.TypeGrammar
import TerraDoc.Proofs.TypeReading
import TerraDoc.Proofs.TypeRoundTrip
import TerraDoc.Proofs.ValueExpression
import TerraDoc.Proofs.ValueReading
import TerraDoc.Proofs.ValueRoundTrip
import TerraDoc.Proofs.ValueScan
import TerraDoc.Proofs.ValueSource
import TerraDoc.Reading
import TerraDoc.Scan
import TerraDoc.Settings.Basic
import TerraDoc.Settings.File
import TerraDoc.Text.Blank
import TerraDoc.Text.Letter
import TerraDoc.Text.Line
import TerraDoc.Text.Offset
import TerraDoc.Text.Utf8
import TerraDoc.Value.Basic
import TerraDoc.Value.Json
import TerraDoc.Yaml.Node
import TerraDoc.Yaml.Scalar
import TerraDoc.Yaml.Tag
import TerraDoc.Yaml.Token
import TerraDoc.Proofs.TreePlaces
import TerraDoc.Proofs.PathWalk
import TerraDoc.Proofs.WrittenFiles
import TerraDoc.Proofs.ScanStability
import TerraDoc.Proofs.SecondRun
import TerraDoc.Git.Session
import TerraDoc.Proofs.ReleaseTags
import TerraDoc.Proofs.JsonText
import TerraDoc.Proofs.CatalogueText
import TerraDoc.Proofs.OutputAgreement
import TerraDoc.Proofs.LogRecords
import TerraDoc.Proofs.ValueJson
import TerraDoc.Proofs.CommentLookahead
import TerraDoc.Proofs.FileMirror
import TerraDoc.Proofs.BlockRecords
import TerraDoc.Proofs.ModuleRecord
import TerraDoc.Proofs.NumberDisplay
import TerraDoc.Proofs.PathSights
import TerraDoc.Proofs.VisibleFiles
import TerraDoc.Proofs.CommentRemoval
import TerraDoc.Proofs.CanonicalText
import TerraDoc.Proofs.CollectedEntries
import TerraDoc.Proofs.ElementOrder
import TerraDoc.Proofs.QuotedEscapes
import TerraDoc.Proofs.LineText
import TerraDoc.Proofs.HeaderComment
import TerraDoc.Proofs.HeredocReading
import TerraDoc.Proofs.WorkTreeHistory
import TerraDoc.Proofs.FolderPathspecs
import TerraDoc.Proofs.InlineMarkup
import TerraDoc.Proofs.ReadmeLinks
import TerraDoc.Proofs.FileExtensions
import TerraDoc.Proofs.ByteText
import TerraDoc.Proofs.ByteTokens
import TerraDoc.Proofs.ByteHeredoc
import TerraDoc.Proofs.ScanAlignment
import TerraDoc.Proofs.CodeAlignment
import TerraDoc.Proofs.ScanSafety
import TerraDoc.Proofs.QuotedReading
import TerraDoc.Proofs.QuotedThroughout
