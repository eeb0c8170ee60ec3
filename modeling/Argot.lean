import Argot.Builtin
import Argot.Command
import Argot.CommandLine.Config
import Argot.CommandLine.Flags
import Argot.Completion
import Argot.Completion.Ranking
import Argot.Datum.Basic
import Argot.Datum.Codec
import Argot.Datum.Json
import Argot.Datum.MessagePack
import Argot.Digest
import Argot.Document
import Argot.Document.Block
import Argot.Document.Item
import Argot.Document.Lexer
import Argot.Document.Node
import Argot.Document.Quoted
import Argot.Document.Scalar
import Argot.Document.Token
import Argot.Eval.Basic
import Argot.Eval.World
import Argot.Failure
import Argot.Generator
import Argot.Interpreter.Basic
import Argot.Interpreter.Clone
import Argot.Main
import Argot.MessagePack.Basic
import Argot.MessagePack.Value
import Argot.NameMap
import Argot.Number.Arithmetic
import Argot.Number.Binary32
import Argot.Number.Binary64
import Argot.Number.Format
import Argot.Number.Integer
import Argot.Number.Numeral
import Argot.Number.Shortest
import Argot.Outline
import Argot.Output
import Argot.ParseCache
import Argot.Printer
import Argot.Program
import Argot.Proofs.Acts
import Argot.Proofs.Batching
import Argot.Proofs.Caching
import Argot.Proofs.Confinement
import Argot.Proofs.Continuation
import Argot.Proofs.Copying
import Argot.Proofs.Correspondence
import Argot.Proofs.Dictionary
import Argot.Proofs.DynamicClones
import Argot.Proofs.FlatEvaluation
import Argot.Proofs.FlatMachine
import Argot.Proofs.Grammar
import Argot.Proofs.Isolation
import Argot.Proofs.Lexing
import Argot.Proofs.NumberText
import Argot.Proofs.Packing
import Argot.Proofs.PlainData
import Argot.Proofs.Programs
import Argot.Proofs.Renumbering
import Argot.Proofs.RoundTrip
import Argot.Proofs.Rounding
import Argot.Proofs.Run
import Argot.Proofs.Spelling
import Argot.Proofs.Twins
import Argot.Proofs.ValidVocabulary
import Argot.Proofs.Visibility
import Argot.Reader
import Argot.Repl
import Argot.Report
import Argot.Scope
import Argot.Text.Basic
import Argot.Text.Letter
import Argot.Text.Printable
import Argot.Text.Quoted
import Argot.Text.Rune
import Argot.Text.Space
import Argot.Token
import Argot.Value
import Argot.Version
import Argot.Vocabulary.Basic
import Argot.Vocabulary.Document
import Argot.Vocabulary.Validity
import Argot.Proofs.DataShapes
import Argot.Proofs.OwnWords
import Argot.Proofs.Unseen
import Argot.Proofs.Blocks
import Argot.Proofs.Delimiting
import Argot.Proofs.Parts
import Argot.Proofs.Fuel
import Argot.Proofs.EagerChoice
import Argot.Proofs.ScopeTree
import Argot.Proofs.SessionTree
import Argot.Proofs.Producible
import Argot.Proofs.WellScoped
import Argot.Proofs.CacheQueue
import Argot.Proofs.Dialogues
import Argot.Proofs.Tracing
import Argot.Proofs.Relabelling
import Argot.Proofs.Clearing
import Argot.Proofs.Cutting
import Argot.Proofs.Equality
import Argot.Proofs.ReadingBounds
import Argot.Proofs.CopyTours
import Argot.Proofs.Closureless
import Argot.Proofs.RandomNumbers
import Argot.Proofs.Refusals
import Argot.Proofs.Formats
import Argot.Proofs.Arguments
import Argot.Proofs.LastWord
import Argot.Proofs.Shadowing
import Argot.Proofs.Plan
import Argot.Proofs.Likeness
import Argot.Proofs.Renaming
import Argot.Proofs.Readers
