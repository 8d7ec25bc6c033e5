import ExamplePrograms.Lib.Memory
import ExamplePrograms.Lib.Runs
import ExamplePrograms.Lib.Loops
import ExamplePrograms.Lib.CString
import ExamplePrograms.Lib.Ascent
import ExamplePrograms.Lib.Dyadic
import ExamplePrograms.Lib.Iterator
import ExamplePrograms.Lib.Lifo
import ExamplePrograms.Lib.Rotation
import ExamplePrograms.Lib.Base64
import ExamplePrograms.Java.WrongPassword
import ExamplePrograms.Java.PasswordField
import ExamplePrograms.Lib.Rounding
import ExamplePrograms.Lib.Numerals
import ExamplePrograms.Onethread.Sockbuf.Lifecycle
import ExamplePrograms.Onethread.Sockbuf.Readiness
import ExamplePrograms.Onethread.Sockbuf.Output
import ExamplePrograms.Onethread.Sockbuf.ConnectionEnd
import ExamplePrograms.Onethread.Sockbuf.Dispatch
import ExamplePrograms.Onethread.Sockbuf.FilterChain
import ExamplePrograms.Onethread.Sockbuf.Attachments
import ExamplePrograms.Onethread.Sockbuf.Selection
import ExamplePrograms.Onethread.Sockbuf.Shutdown
import ExamplePrograms.Onethread.Sockbuf.Monitoring
import ExamplePrograms.Onethread.Sockbuf.Accounting
import ExamplePrograms.Onethread.Sockbuf.Snapshots
import ExamplePrograms.Onethread.Sockbuf.Transience
import ExamplePrograms.Onethread.Sockbuf.Interference
import ExamplePrograms.Onethread.Memutil
import ExamplePrograms.Onethread.Mvsprintf
import ExamplePrograms.Onethread.PrintBuffer
import ExamplePrograms.Onethread.Socket.Names
import ExamplePrograms.Onethread.Socket.Create
import ExamplePrograms.Onethread.Socket.Lifecycle
import ExamplePrograms.Onethread.Socket.Dots
import ExamplePrograms.Onethread.Server
import ExamplePrograms.Onethread.Telnet.Segmentation
import ExamplePrograms.Onethread.Telnet.Escaping
import ExamplePrograms.Onethread.Telnet.Lines
import ExamplePrograms.Onethread.Telnet.Negotiation
import ExamplePrograms.Onethread.Telnet.Ownership
import ExamplePrograms.Onethread.Telnet.Deletion
import ExamplePrograms.Onethread.Telnet.BufferDiscipline
import ExamplePrograms.Onethread.Telnet.Decoding
import ExamplePrograms.Onethread.Multiserv
import ExamplePrograms.Onethread.UnbufStreams
import ExamplePrograms.Circ.RoundTrip
import ExamplePrograms.Circ.Hostmask
import ExamplePrograms.Circ.ConnectionData
import ExamplePrograms.Circ.Send
import ExamplePrograms.Circ.SessionIds
import ExamplePrograms.Circ.Delivery
import ExamplePrograms.Other.Cidr
import ExamplePrograms.Csharp.XmlExample
import ExamplePrograms.Ruby.Defer
import ExamplePrograms.Ruby.AddIp6
import ExamplePrograms.Lib.Annuity
import ExamplePrograms.Rust.Loan
import ExamplePrograms.Rust.Instalments
import ExamplePrograms.Rust.ChatServer
import ExamplePrograms.Rust.TraitUsage
import ExamplePrograms.Rust.Palindrome
import ExamplePrograms.Rust.SimpleKv
import ExamplePrograms.Other.CommandResolution
import ExamplePrograms.Other.PollServerEvents
import ExamplePrograms.Other.Netmask
import ExamplePrograms.Other.Shell
import ExamplePrograms.Other.Forwarder
