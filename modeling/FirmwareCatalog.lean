import FirmwareCatalog.Artifacts
import FirmwareCatalog.CalibrationTable
import FirmwareCatalog.Character.Blank
import FirmwareCatalog.Character.DecimalDigit
import FirmwareCatalog.Character.Ranges
import FirmwareCatalog.Character.UpperCase
import FirmwareCatalog.Character.Word
import FirmwareCatalog.CommandLine.Options
import FirmwareCatalog.CommandLine.Request
import FirmwareCatalog.CommandLine.Session
import FirmwareCatalog.ConfigBlock
import FirmwareCatalog.ConfigHeader
import FirmwareCatalog.Decimal.Reading
import FirmwareCatalog.Decimal.Shortest
import FirmwareCatalog.Decimal.Style
import FirmwareCatalog.Document
import FirmwareCatalog.FileTree
import FirmwareCatalog.Files
import FirmwareCatalog.Generation
import FirmwareCatalog.Header.Bracket
import FirmwareCatalog.Header.EnumConstant
import FirmwareCatalog.Header.Include
import FirmwareCatalog.Header.Invocation
import FirmwareCatalog.Header.Literal
import FirmwareCatalog.Header.RawBlock
import FirmwareCatalog.Header.Scan
import FirmwareCatalog.Header.StringMacro
import FirmwareCatalog.Header.StructArray
import FirmwareCatalog.Header.Zone
import FirmwareCatalog.Json.Basic
import FirmwareCatalog.Json.Number
import FirmwareCatalog.Json.Parser
import FirmwareCatalog.Json.Printer
import FirmwareCatalog.Json.Text
import FirmwareCatalog.Main
import FirmwareCatalog.MarkedBlock
import FirmwareCatalog.NameHash
import FirmwareCatalog.Path
import FirmwareCatalog.Proofs.Artifacts
import FirmwareCatalog.Proofs.Artifacts.History
import FirmwareCatalog.Proofs.Artifacts.Written
import FirmwareCatalog.Proofs.Bytewise.Classes
import FirmwareCatalog.Proofs.Bytewise.Comment
import FirmwareCatalog.Proofs.Bytewise.Declaration
import FirmwareCatalog.Proofs.Bytewise.Nesting
import FirmwareCatalog.Proofs.Bytewise.Registry
import FirmwareCatalog.Proofs.CalibrationTable
import FirmwareCatalog.Proofs.Character.Ascii
import FirmwareCatalog.Proofs.Character.Blank
import FirmwareCatalog.Proofs.CommandLine.Refusal
import FirmwareCatalog.Proofs.ConfigBlock.Acceptance
import FirmwareCatalog.Proofs.ConfigBlock.DefineLines
import FirmwareCatalog.Proofs.ConfigBlock.Lines
import FirmwareCatalog.Proofs.ConfigBlock.Reading
import FirmwareCatalog.Proofs.ConfigBlock.Recovery
import FirmwareCatalog.Proofs.ConfigBlock.Words
import FirmwareCatalog.Proofs.ConfigHeader
import FirmwareCatalog.Proofs.Document.RoundTrip
import FirmwareCatalog.Proofs.Files.Place
import FirmwareCatalog.Proofs.Files.ReadOnly
import FirmwareCatalog.Proofs.Files.Writing
import FirmwareCatalog.Proofs.Header.Adjacent
import FirmwareCatalog.Proofs.Header.Argument
import FirmwareCatalog.Proofs.Header.ArrayText
import FirmwareCatalog.Proofs.Header.Bracket
import FirmwareCatalog.Proofs.Header.Comment
import FirmwareCatalog.Proofs.Header.CommentRun
import FirmwareCatalog.Proofs.Header.Depth
import FirmwareCatalog.Proofs.Header.Element
import FirmwareCatalog.Proofs.Header.Enclosed
import FirmwareCatalog.Proofs.Header.Fence
import FirmwareCatalog.Proofs.Header.Field
import FirmwareCatalog.Proofs.Header.Include
import FirmwareCatalog.Proofs.Header.Invocation
import FirmwareCatalog.Proofs.Header.InvocationSource
import FirmwareCatalog.Proofs.Header.InvocationText
import FirmwareCatalog.Proofs.Header.Lexed
import FirmwareCatalog.Proofs.Header.Literal
import FirmwareCatalog.Proofs.Header.Nesting
import FirmwareCatalog.Proofs.Header.Scan
import FirmwareCatalog.Proofs.Header.Span
import FirmwareCatalog.Proofs.Header.StringMacro
import FirmwareCatalog.Proofs.Header.StructArray
import FirmwareCatalog.Proofs.Header.Token
import FirmwareCatalog.Proofs.Header.TopLevel
import FirmwareCatalog.Proofs.Header.Zone
import FirmwareCatalog.Proofs.Json.Number
import FirmwareCatalog.Proofs.Json.RoundTrip
import FirmwareCatalog.Proofs.Json.Text
import FirmwareCatalog.Proofs.MarkedBlock.Decoding
import FirmwareCatalog.Proofs.MarkedBlock.Location
import FirmwareCatalog.Proofs.MarkedBlock.Replacement
import FirmwareCatalog.Proofs.MarkedBlock.Splice
import FirmwareCatalog.Proofs.MarkedBlock.Text
import FirmwareCatalog.Proofs.NameHash
import FirmwareCatalog.Proofs.Path.Ancestors
import FirmwareCatalog.Proofs.Path.Normal
import FirmwareCatalog.Proofs.Registry.Inlining
import FirmwareCatalog.Proofs.Registry.Integer
import FirmwareCatalog.Proofs.Registry.Resolve
import FirmwareCatalog.Proofs.Removal.Announcement
import FirmwareCatalog.Proofs.Removal.Declaration
import FirmwareCatalog.Proofs.Removal.Definition
import FirmwareCatalog.Proofs.Removal.Delimiter
import FirmwareCatalog.Proofs.Removal.Element
import FirmwareCatalog.Proofs.Removal.Field
import FirmwareCatalog.Proofs.Removal.Listing
import FirmwareCatalog.Proofs.Removal.Place
import FirmwareCatalog.Proofs.Removal.Reading
import FirmwareCatalog.Proofs.Removal.Registry
import FirmwareCatalog.Proofs.Removal.Spaces
import FirmwareCatalog.Proofs.Removal.Stripped
import FirmwareCatalog.Proofs.Settings
import FirmwareCatalog.Proofs.Table
import FirmwareCatalog.Proofs.Text.Cut
import FirmwareCatalog.Proofs.Text.Digits
import FirmwareCatalog.Proofs.Text.Infix
import FirmwareCatalog.Proofs.Text.Lossy
import FirmwareCatalog.Proofs.Text.Numeral
import FirmwareCatalog.Proofs.Text.Utf8
import FirmwareCatalog.Proofs.ThinLibrary.BuiltIn
import FirmwareCatalog.Proofs.ThinLibrary.Defined
import FirmwareCatalog.Proofs.ThinLibrary.Entry
import FirmwareCatalog.Proofs.ThinLibrary.Reading
import FirmwareCatalog.Proofs.ThinLibrary.Recompile
import FirmwareCatalog.Proofs.ThinLibrary.Render
import FirmwareCatalog.Proofs.ThinLibrary.Sheet
import FirmwareCatalog.Proofs.ThinLibrary.Symbols
import FirmwareCatalog.Proofs.Timestamp
import FirmwareCatalog.Proofs.Validation.Collisions
import FirmwareCatalog.Proofs.Validation.Consistency
import FirmwareCatalog.Proofs.Validation.Defines
import FirmwareCatalog.Proofs.Validation.Pins
import FirmwareCatalog.Proofs.Validation.Repetition
import FirmwareCatalog.Registry.Basic
import FirmwareCatalog.Registry.Entry
import FirmwareCatalog.Registry.Inlining
import FirmwareCatalog.Registry.Layout
import FirmwareCatalog.Registry.Loading
import FirmwareCatalog.Registry.Resolve
import FirmwareCatalog.Registry.Value
import FirmwareCatalog.Settings
import FirmwareCatalog.Table
import FirmwareCatalog.Text.Numeral
import FirmwareCatalog.Text.Trim
import FirmwareCatalog.Text.Utf8
import FirmwareCatalog.ThinLibrary
import FirmwareCatalog.Timestamp
import FirmwareCatalog.Toml.Basic
import FirmwareCatalog.Toml.Parser
import FirmwareCatalog.Toml.Scalar
import FirmwareCatalog.Toml.Text
import FirmwareCatalog.Validation.Basic
import FirmwareCatalog.Validation.Defines
import FirmwareCatalog.Validation.Finding
import FirmwareCatalog.Validation.Hashes
import FirmwareCatalog.Validation.Pins
import FirmwareCatalog.Validation.References
import FirmwareCatalog.Validation.Repetition
import FirmwareCatalog.Validation.Report
