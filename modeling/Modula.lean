import Modula.Text.Position
import Modula.Text.RangeTable
import Modula.Text.Alphabetic
import Modula.Text.Numeric
import Modula.Text.Extender
import Modula.Text.Ignorable
import Modula.Text.Quoted
import Modula.Text.Utf8
import Modula.Token.Kind
import Modula.Token.KindSet
import Modula.Token
import Modula.Diagnostic
import Modula.IoError
import Modula.Path
import Modula.Event
import Modula.Source
import Modula.Source.Bytes
import Modula.Output.Writer
import Modula.Output.Buffered
import Modula.Output.Sink
import Modula.Output.Transcript
import Modula.Output.Reporter
import Modula.Cursor
import Modula.Token.Scan
import Modula.Grammar
import Modula.Checker
import Modula.FileTree
import Modula.Session
import Modula.Command
import Modula.CommandLine
import Modula.Proofs.Token.KindSet
import Modula.Proofs.Grammar.Goal
import Modula.Proofs.Grammar.Rows
import Modula.Proofs.Grammar.Lookahead
import Modula.Proofs.Grammar.Viability
import Modula.Proofs.Grammar.Expected
import Modula.Proofs.Text
import Modula.Proofs.Token.Lexeme
import Modula.Proofs.Token.Scan
import Modula.Proofs.Token.Tiling
import Modula.Proofs.Descent
import Modula.Proofs.Checker
import Modula.Proofs.Layout
import Modula.Proofs.Text.Utf8
import Modula.Proofs.Text.Lossy
import Modula.Proofs.Path
import Modula.Proofs.Output.Transcript
import Modula.Proofs.Output.Limited
import Modula.Proofs.Cursor
import Modula.Proofs.Echo
import Modula.Proofs.Diagnostic
import Modula.Proofs.Concatenation
import Modula.Proofs.Source.Pieces
import Modula.Proofs.Source.Bytes
import Modula.Proofs.Source.Segments
import Modula.Proofs.Source.Fills
import Modula.Proofs.Online
import Modula.Proofs.FileTree
import Modula.Proofs.Session
import Modula.Proofs.Command
import Modula.Proofs.Output.Reporter
import Modula.Proofs.Independence
import Modula.Proofs.Resumption
import Modula.Proofs.Dump
import Modula.Proofs.Position
import Modula.Proofs.Token.Repetition
import Modula.Proofs.Advance
import Modula.Proofs.Termination
import Modula.Proofs.Context
import Modula.Proofs.Output.Refusing
import Modula.Proofs.Reading
import Modula.Proofs.Device
