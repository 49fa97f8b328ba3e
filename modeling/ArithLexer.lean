import ArithLexer.Fault
import ArithLexer.Span
import ArithLexer.Text.Unprintable
import ArithLexer.Text.Utf8
import ArithLexer.Text.Quoted
import ArithLexer.Text.View
import ArithLexer.Buffer
import ArithLexer.Arena.Memory
import ArithLexer.Arena.Block
import ArithLexer.Arena.Basic
import ArithLexer.Arena.Request
import ArithLexer.Diagnostic.Code
import ArithLexer.Diagnostic.Basic
import ArithLexer.Token
import ArithLexer.Position
import ArithLexer.Cursor
import ArithLexer.Lexer.Error
import ArithLexer.Lexer.Event
import ArithLexer.Lexer.Lexeme
import ArithLexer.Lexer.Basic
import ArithLexer.Lexer.Scan
import ArithLexer.Toml.Reading
import ArithLexer.Toml.Quoted
import ArithLexer.Toml.Numeral
import ArithLexer.Toml.Moment
import ArithLexer.Toml.Table
import ArithLexer.Toml.Document
import ArithLexer.Config.Basic
import ArithLexer.Config.Error
import ArithLexer.Config.Text
import ArithLexer.Config.File
import ArithLexer.Proofs.Places
import ArithLexer.Proofs.Traversal
import ArithLexer.Proofs.Lexemes
import ArithLexer.Proofs.Contents
import ArithLexer.Proofs.Reading
import ArithLexer.Proofs.Scans
import ArithLexer.Proofs.Histories
import ArithLexer.Proofs.Pulling
import ArithLexer.Proofs.Agreement
import ArithLexer.Proofs.Rescans
import ArithLexer.Proofs.Policies
import ArithLexer.Proofs.Shifts
import ArithLexer.Proofs.Concatenation
import ArithLexer.Proofs.Printing
import ArithLexer.Proofs.Overflows
import ArithLexer.Proofs.Reservations
import ArithLexer.Proofs.Allocations
import ArithLexer.Proofs.Releases
import ArithLexer.Proofs.Accounts
import ArithLexer.Proofs.Shelves
import ArithLexer.Proofs.Capacities
import ArithLexer.Proofs.Moves
import ArithLexer.Proofs.Logs
import ArithLexer.Proofs.Peeking
import ArithLexer.Proofs.Refusals
import ArithLexer.Proofs.Preallocation
import ArithLexer.Proofs.Tiles
import ArithLexer.Proofs.Prefixes
import ArithLexer.Proofs.Joins
import ArithLexer.Proofs.Decoding
import ArithLexer.Proofs.Views
import ArithLexer.Proofs.Statements
import ArithLexer.Proofs.Settings
import ArithLexer.Proofs.Codes
