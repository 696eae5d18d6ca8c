import FileExchange.Analyzer.Cache
import FileExchange.Analyzer.ControlFlow
import FileExchange.Analyzer.DataFlow
import FileExchange.Analyzer.Issue
import FileExchange.Analyzer.Transparent
import FileExchange.Blake3.ChunkState
import FileExchange.Blake3.Compress
import FileExchange.Blake3.Dispatch
import FileExchange.Blake3.HashMany
import FileExchange.Blake3.Hasher
import FileExchange.Blake3.Lanes
import FileExchange.Blake3.Output
import FileExchange.Blake3.Rounds
import FileExchange.Blake3.Rows
import FileExchange.Blake3.Subtree
import FileExchange.CExpression
import FileExchange.CLibrary
import FileExchange.Client.CommandLine
import FileExchange.Client.Download
import FileExchange.Client.Header
import FileExchange.Client.List
import FileExchange.Connection
import FileExchange.Connection.Framing
import FileExchange.Crypto
import FileExchange.Daemon.Inotify
import FileExchange.Daemon.SingleInstance
import FileExchange.Daemon.Watch
import FileExchange.EndToEnd
import FileExchange.Integrity
import FileExchange.Journal
import FileExchange.Journal.AppendOnly
import FileExchange.Journal.Concurrent
import FileExchange.Journal.FreshKey
import FileExchange.Journal.Names
import FileExchange.Lib.Blocks
import FileExchange.Lib.CTokens
import FileExchange.Lib.Decimal
import FileExchange.Lib.FixedVector
import FileExchange.Lib.Hex
import FileExchange.Lib.Interleaving
import FileExchange.Lib.LeftTree
import FileExchange.Lib.Memory
import FileExchange.Lib.MergeStack
import FileExchange.Lib.OrderedMap
import FileExchange.Lib.Path
import FileExchange.Lib.Printf
import FileExchange.Lib.Scanner
import FileExchange.Lib.Simd
import FileExchange.Lib.TransitionSystem
import FileExchange.Mongo
import FileExchange.MongoOps
import FileExchange.Obfuscator.Arithmetic
import FileExchange.Obfuscator.Arrays
import FileExchange.Obfuscator.Buffers
import FileExchange.Obfuscator.Copying
import FileExchange.Obfuscator.Encryption
import FileExchange.Obfuscator.Nesting
import FileExchange.Obfuscator.Passes
import FileExchange.Obfuscator.Pipeline
import FileExchange.Obfuscator.Templates
import FileExchange.Obfuscator.Text
import FileExchange.Obfuscator.Values
import FileExchange.Protocol
import FileExchange.PythonLibrary
import FileExchange.Server.Acknowledged
import FileExchange.Server.Confidentiality
import FileExchange.Server.Download
import FileExchange.Server.Filename
import FileExchange.Server.Fingerprint
import FileExchange.Server.HandleClient
import FileExchange.Server.Isolation
import FileExchange.Server.List
import FileExchange.Server.Listing
import FileExchange.Server.Offset
import FileExchange.Server.ReadOnly
import FileExchange.Server.Restart
import FileExchange.Server.RoundTrip
import FileExchange.Server.Run
import FileExchange.Server.SameName
import FileExchange.Server.Sharing
import FileExchange.Server.State
import FileExchange.Server.Threads
import FileExchange.Server.Upload
import FileExchange.Tls
import FileExchange.Tls.Transfer
import FileExchange.Tls.Upload
