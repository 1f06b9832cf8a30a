import Lexis.Cursor
import Lexis.Main
import Lexis.Proofs.Agreement
import Lexis.Proofs.Choice
import Lexis.Proofs.Indentation
import Lexis.Proofs.Restart
import Lexis.Proofs.View
import Lexis.Proofs.CodeExtent
import Lexis.Proofs.Extent
import Lexis.Proofs.Lookahead
import Lexis.Proofs.Alone
import Lexis.Proofs.CommentLine
import Lexis.Proofs.LineEnding
import Lexis.Proofs.Mirror
import Lexis.Proofs.Bounds
import Lexis.Proofs.Verdict
import Lexis.Proofs.NumeralRule
import Lexis.Proofs.Quotation
import Lexis.Proofs.LayoutGrammar
import Lexis.Proofs.Spelling
import Lexis.Proofs.Caret
import Lexis.Proofs.Iteration
import Lexis.Proofs.Attribution
import Lexis.Proofs.Reports
import Lexis.Proofs.ListingLine
import Lexis.Proofs.DocumentLine
import Lexis.Proofs.DocumentTable
import Lexis.Proofs.EventLog
import Lexis.Proofs.Storage
import Lexis.Proofs.Window
import Lexis.Proofs.SettingsDocument
