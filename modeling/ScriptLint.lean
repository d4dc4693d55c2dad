import ScriptLint.Config.Json
import ScriptLint.Editor.Sample
import ScriptLint.Editor.Session
import ScriptLint.Main
import ScriptLint.Proofs.Anchors
import ScriptLint.Proofs.BlockGrammar
import ScriptLint.Proofs.BracketGrammar
import ScriptLint.Proofs.BracketPartners
import ScriptLint.Proofs.Concatenation
import ScriptLint.Proofs.Appending
import ScriptLint.Proofs.LineGrammar
import ScriptLint.Proofs.Masking
import ScriptLint.Proofs.DiscoveryOrder
import ScriptLint.Proofs.LineOffsets
import ScriptLint.Proofs.MarkedText
import ScriptLint.Proofs.Notifications
import ScriptLint.Proofs.RuleFilter
import ScriptLint.Proofs.BlankMargins
import ScriptLint.Proofs.JsonText
import ScriptLint.Proofs.CommandRuns
import ScriptLint.Proofs.LanguageOrder
import ScriptLint.Proofs.WholeWords
import ScriptLint.Proofs.BlockAccount
import ScriptLint.Proofs.CommentLines
import ScriptLint.Proofs.ReportLines
import ScriptLint.Proofs.LineTables
import ScriptLint.Proofs.KeywordSearch
import ScriptLint.Proofs.PanelNavigation
import ScriptLint.Proofs.LanguageFaults
import ScriptLint.Proofs.ParameterLists
import ScriptLint.Proofs.CommentStarts
import ScriptLint.Proofs.CommentShortcut
import ScriptLint.Proofs.JsonRecords
import ScriptLint.Proofs.WordColumns
