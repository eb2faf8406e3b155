import DigestFilter.Block
import DigestFilter.Filter.Text
import DigestFilter.IdMap
import DigestFilter.IdSet
import DigestFilter.Identifier.Frame
import DigestFilter.Identifier.Json
import DigestFilter.Main
import DigestFilter.Proofs.Bitmap
import DigestFilter.Proofs.Collection.MapRun
import DigestFilter.Proofs.Collection.SetFilter
import DigestFilter.Proofs.Collection.SetRun
import DigestFilter.Proofs.Command.Effects
import DigestFilter.Proofs.Command.FilterFiles
import DigestFilter.Proofs.Command.Flaw
import DigestFilter.Proofs.Command.Job
import DigestFilter.Proofs.Command.Printing
import DigestFilter.Proofs.Command.Session
import DigestFilter.Proofs.Command.Store
import DigestFilter.Proofs.Files.Program
import DigestFilter.Proofs.Files.Settings
import DigestFilter.Proofs.Files.Trace
import DigestFilter.Proofs.Files.Tree
import DigestFilter.Proofs.Filter.BitAccess
import DigestFilter.Proofs.Filter.BooleanRing
import DigestFilter.Proofs.Filter.Folding
import DigestFilter.Proofs.Filter.HeadedLength
import DigestFilter.Proofs.Filter.Header
import DigestFilter.Proofs.Filter.Insertion
import DigestFilter.Proofs.Filter.Merge
import DigestFilter.Proofs.Filter.NoFalseNegatives
import DigestFilter.Proofs.Filter.Occupancy
import DigestFilter.Proofs.Filter.SetAlgebra
import DigestFilter.Proofs.Filter.Truncation
import DigestFilter.Proofs.Json.Document
import DigestFilter.Proofs.Json.Lexeme
import DigestFilter.Proofs.Json.Quote
import DigestFilter.Proofs.Stream.Delivery
import DigestFilter.Proofs.Stream.Item
import DigestFilter.Proofs.Stream.Room
import DigestFilter.Proofs.Stream.Supply
import DigestFilter.Proofs.Text.Alphabet
import DigestFilter.Proofs.Text.Hex
import DigestFilter.Proofs.Text.Numeral
import DigestFilter.Proofs.Text.Padding
import DigestFilter.Proofs.Text.Radix
import DigestFilter.Proofs.Text.Spelling
import DigestFilter.Proofs.Value.Change
import DigestFilter.Proofs.Value.Checked
import DigestFilter.Proofs.Value.Freezing
import DigestFilter.Proofs.Value.HashCodes
import DigestFilter.Proofs.Value.Heap
import DigestFilter.Proofs.Value.InPlace
import DigestFilter.Proofs.Value.Order
import DigestFilter.Proofs.Value.Origin
import DigestFilter.Proofs.Value.Range
import DigestFilter.Stream.Channel
import DigestFilter.Proofs.Json.Document
import DigestFilter.Proofs.Files.Settings
