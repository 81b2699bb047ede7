import BitBeak.Lib.Bytes
import BitBeak.Lib.Exec
import BitBeak.Lib.CarrySum
import BitBeak.Lib.Cursor
import BitBeak.Lib.Runs
import BitBeak.Lib.BoolText
import BitBeak.Lib.BoolTextExact
import BitBeak.Lib.BoolFront
import BitBeak.Lib.ForwardCode
import BitBeak.Lib.OrderedMap
import BitBeak.Lib.Tally
import BitBeak.Lib.Occurrence
import BitBeak.Lib.Utf8
import BitBeak.Lib.ByteText
import BitBeak.Lib.Scan
import BitBeak.Lib.Json
import BitBeak.Lib.Files
import BitBeak.Lib.PercentEncoding
import BitBeak.Lib.LineText
import BitBeak.Lib.Forest
import BitBeak.Lib.Rings
import BitBeak.Lib.Peel
import BitBeak.Lib.Entries
import BitBeak.Lib.Shell
import BitBeak.Framing
import BitBeak.Framing.Stream
import BitBeak.Framing.KeptCodec
import BitBeak.Framing.Remainder
import BitBeak.Framing.NewlineStream
import BitBeak.Framing.Limits
import BitBeak.Dissect.Packet
import BitBeak.Dissect.Tree
import BitBeak.Dissect.VisibleTree
import BitBeak.Dissect.Text
import BitBeak.Dissect.Crates
import BitBeak.Dissect.Dissection
import BitBeak.Dissect.Tls
import BitBeak.Dissect.Web
import BitBeak.Dissect.Services
import BitBeak.Dissect.Quic
import BitBeak.Dissect.L4
import BitBeak.Dissect.Applications
import BitBeak.Dissect.Dispatch
import BitBeak.Dissect.L3
import BitBeak.Dissect.L2
import BitBeak.Dissect.Expert
import BitBeak.Dissect.Dissect
import BitBeak.Dissect.PacketStore
import BitBeak.Capture.CapFilter
import BitBeak.Capture.Bpf
import BitBeak.Capture.FastPath
import BitBeak.Capture.Attach
import BitBeak.Capture.LinuxRing
import BitBeak.Capture.MacBpf
import BitBeak.Workspace
import BitBeak.Session.Capture
import BitBeak.Session.CaptureStop
import BitBeak.Transport
import BitBeak.Frame
import BitBeak.Session.Routing
import BitBeak.Session.Listen
import BitBeak.Transport.Listen
import BitBeak.Session.Reconnect
import BitBeak.Session.Proxy
import BitBeak.Session.ProxyClients
import BitBeak.Dissect.Reassembly
import BitBeak.Dissect.Defrag
import BitBeak.Dissect.Redelivery
import BitBeak.Dissect.Defragged
import BitBeak.Dissect.Network
import BitBeak.Capture.FilterAgreement
import BitBeak.Capture.FileIo
import BitBeak.Capture.DiskRing
import BitBeak.Capture.Rpcap
import BitBeak.Capture.CapParse
import BitBeak.Capture.Sniff
import BitBeak.Capture.DispFilter
import BitBeak.Capture.DispMatch
import BitBeak.Capture.DispCompare
import BitBeak.Capture.FilterBytes
import BitBeak.Capture.LaterFragments
import BitBeak.Capture.EndpointText
import BitBeak.Dissect.KeyLog
import BitBeak.Dissect.TlsRecords
import BitBeak.Dissect.QuicInitial
import BitBeak.Dissect.QuicProtection
import BitBeak.Dissect.QuicShort
import BitBeak.Dissect.Decrypt
import BitBeak.Dissect.TlsCapture
import BitBeak.Dissect.RecordSequence
import BitBeak.Dissect.Account
import BitBeak.Dissect.PayloadSlice
import BitBeak.Dissect.Handover
import BitBeak.Dissect.Highlights
import BitBeak.Pcap
import BitBeak.Dissect.Checksum
import BitBeak.Dissect.Export
import BitBeak.Dissect.ExportedStream
import BitBeak.Capture.SynField
import BitBeak.Capture.DrillDown
import BitBeak.Dissect.Follow
import BitBeak.Dissect.FollowAgreement
import BitBeak.Dissect.FollowTcp
import BitBeak.Dissect.FollowOrder
import BitBeak.Dissect.Analysis
import BitBeak.Dissect.Conserved
import BitBeak.Dissect.EndpointCounts
import BitBeak.Dissect.IoWindow
import BitBeak.Dissect.Lossy
import BitBeak.Dissect.Utf8Text
import BitBeak.TlsMitm
import BitBeak.Dissect.HttpObjects
import BitBeak.Session.ProxyFlag
import BitBeak.Session.Http1Assembler
import BitBeak.Session.Http1Messages
import BitBeak.Http.Text
import BitBeak.Http.Words
import BitBeak.Http.Cookies
import BitBeak.Http.CookieJar
import BitBeak.Http.Assert
import BitBeak.Http.ResponseTests
import BitBeak.Http.OAuth
import BitBeak.Http.OAuthState
import BitBeak.Http.OAuthCode
import BitBeak.Http.Client
import BitBeak.Http.Redirects
import BitBeak.Http.Session
import BitBeak.Http.Credentials
import BitBeak.Http.HopCookies
import BitBeak.Codegen
import BitBeak.Frame.Filter
import BitBeak.Composer
import BitBeak.Composer.Escapes
import BitBeak.Composer.RoundTrip
import BitBeak.Cli
import BitBeak.Inspect
import BitBeak.Inspect.Lossless
import BitBeak.Ui.TextareaUtil
import BitBeak.Session.Stream
import BitBeak.Session.Replay
import BitBeak.Session.Resend
import BitBeak.Http.HeaderBlock
import BitBeak.Collections
import BitBeak.Session.HttpSession
import BitBeak.Session.SavedRequests
import BitBeak.Session.HistoryReplay
import BitBeak.Session.HistoryStore
import BitBeak.Session.CollectionEdits
import BitBeak.Http.HeaderOverride
import BitBeak.Http.Grpc
import BitBeak.Lib.Replace
import BitBeak.Collections.Substitution
import BitBeak.Collections.Saved
import BitBeak.Collections.Import
import BitBeak.Collections.PostmanTree
import BitBeak.Session.CollectionBody
import BitBeak.Http.Scripts
import BitBeak.Lib.InetText
import BitBeak.Cli.Diag
import BitBeak.Http.CookieScope
import BitBeak.Lib.Calendar
import BitBeak.Http.CookieDates
import BitBeak.Lib.UriReference
import BitBeak.Http.Location
import BitBeak.Lib.Multipart
import BitBeak.Http.MultipartBody
import BitBeak.Lib.RustLiterals
import BitBeak.CodegenRust
import BitBeak.Capture.RingFaults
import BitBeak.Lib.Rows
import BitBeak.Session.CaptureTab
import BitBeak.Session.SelectedPacket
import BitBeak.Session.FilterChange
import BitBeak.Session.Focus
import BitBeak.Fuzz
import BitBeak.Session.FormRows
import BitBeak.Dissect.HexText
import BitBeak.Capture.ControlFlow
import BitBeak.Session.PrefixedTcp
import BitBeak.Dissect.QuicFrames
import BitBeak.Lib.Viewport
import BitBeak.Ui.HitMap
import BitBeak.Ui.LogList
import BitBeak.Ui.LogCursor
import BitBeak.Ui.Dialogs
import BitBeak.Lib.Segments
import BitBeak.Ui.Bars
import BitBeak.Lib.Arms
import BitBeak.Ui.Palette
import BitBeak.Ui.Events
import BitBeak.Ui.EventRuns
import BitBeak.Http.OAuthTokens
import BitBeak.Lib.RoundRobin
import BitBeak.Capture.WinCapture
import BitBeak.Transport.Udp
import BitBeak.Inspect.HexDump
