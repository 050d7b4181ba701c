import Bip138.Rust.Exec
import Bip138.Rust.Loop
import Bip138.Rust.Collect
import Bip138.Rust.Sections
import Bip138.Rust.Json
import Bip138.Rust.FirstSeen
import Bip138.Rust.StableSort
import Bip138.Rust.Bytes
import Bip138.Rust.Capacity
import Bip138.Rust.BTreeSet
import Bip138.Rust.Text
import Bip138.Rust.Base64
import Bip138.Rust.Transition
import Bip138.Wire.Format
import Bip138.Wire.CompactSize
import Bip138.Wire.Counted
import Bip138.Wire.Delimited
import Bip138.Ll.Varint
import Bip138.Ll.Offset
import Bip138.Ll.Content
import Bip138.Ll.Padding
import Bip138.Ll.Geometric
import Bip138.Ll.Plaintext
import Bip138.Ll.Limits
import Bip138.Ll.Container
import Bip138.Ll.ContainerGrammar
import Bip138.Ll.Returns
import Bip138.Ll.Encodings
import Bip138.Ll.Lengths
import Bip138.Ll.Crypto
import Bip138.Ll.Encrypt
import Bip138.Ll.Recipients
import Bip138.Ll.Decrypt
import Bip138.Ll.RustBitcoin
import Bip138.Ll.RoundTrip
import Bip138.Ll.Canonical
import Bip138.Ll.Termination
import Bip138.Ll.Uniform
import Bip138.Ll.Refusals
import Bip138.Ll.SecretSet
import Bip138.Ll.Truncation
import Bip138.Front.Keys
import Bip138.Front.Suffix
import Bip138.Front.WalletPolicy
import Bip138.Front.PolicyText
import Bip138.Front.Descriptor
import Bip138.Front.Payload
import Bip138.Front.Documents
import Bip138.Front.Builder
import Bip138.Front.Operations
import Bip138.Front.Exposure
import Bip138.Front.PolicyKeys
import Bip138.Front.PolicyJson
import Bip138.Front.PolicyRoundTrip
import Bip138.Front.Spelling
import Bip138.Front.PolicySafety
import Bip138.Front.TypedPolicy
import Bip138.Front.PolicyIndices
import Bip138.Front.PlaceholderOrder
import Bip138.Front.Selection
import Bip138.Front.Warnings
import Bip138.Front.ReadBack
import Bip138.Front.Backable
import Bip138.Front.Leakage
import Bip138.Front.WrongKey
import Bip138.Front.Devices
import Bip138.Front.Collector
import Bip138.Front.PathPlan
import Bip138.Front.Collection
import Bip138.Front.Metadata
import Bip138.Front.TextForm
import Bip138.Front.Truncation
import Bip138.Front.Returns
import Bip138.Ffi.Vtable
import Bip138.Ffi.Core
import Bip138.Ffi.Reading
import Bip138.Ffi.Writing
import Bip138.Ffi.Binding
import Bip138.Ffi.Returns
import Bip138.Ffi.Encryption
import Bip138.Cli.Document
import Bip138.Cli.Threads
import Bip138.Cli.Verdicts
import Bip138.Cli.Hearing
import Bip138.Cli.Fetching
import Bip138.Cli.Levels
import Bip138.Cli.KeptPaths
import Bip138.Cli.KeysFile
import Bip138.Cli.DeviceKey
import Bip138.Cli.AppendedKeys
import Bip138.Cli.Unwrap
import Bip138.Cli.Decrypt
import Bip138.Cli.EndToEnd
