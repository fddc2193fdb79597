import Corehost.Cli.CommandLine
import Corehost.Cli.ConsoleArguments
import Corehost.Cli.HostCommandLine
import Corehost.Input.Accounts
import Corehost.Input.Bridge
import Corehost.Input.Calls
import Corehost.Input.Chunk
import Corehost.Input.Completions
import Corehost.Input.Desk
import Corehost.Input.Disconnect
import Corehost.Input.Events
import Corehost.Input.Fifo
import Corehost.Input.Idle
import Corehost.Input.InitialData
import Corehost.Input.LineCompletion
import Corehost.Input.LineContent
import Corehost.Input.LineEnd
import Corehost.Input.Loop
import Corehost.Input.Model
import Corehost.Input.Process
import Corehost.Input.Queue
import Corehost.Input.ReadEnds
import Corehost.Input.Route
import Corehost.Input.Serve
import Corehost.Input.Steps
import Corehost.Input.Typing
import Corehost.Lib.Base64
import Corehost.Lib.Cpp
import Corehost.Lib.Field
import Corehost.Lib.KeyedList
import Corehost.Lib.Ledger
import Corehost.Lib.LittleEndian
import Corehost.Lib.Margins
import Corehost.Lib.Pipe
import Corehost.Lib.RawBuffer
import Corehost.Lib.Register
import Corehost.Lib.Ring
import Corehost.Lib.Runs
import Corehost.Lib.Search
import Corehost.Lib.Span
import Corehost.Lib.Strip
import Corehost.Lib.Transducer
import Corehost.Lib.Utf16
import Corehost.Lib.Utf8
import Corehost.Lib.Zipper
import Corehost.Parser.Chunks
import Corehost.Parser.Context
import Corehost.Parser.Counts
import Corehost.Parser.Csi
import Corehost.Parser.Feed
import Corehost.Parser.Message
import Corehost.Parser.Model
import Corehost.Row.Acts
import Corehost.Row.Attrs
import Corehost.Row.CharInfo
import Corehost.Row.Copy
import Corehost.Row.CopyEdges
import Corehost.Row.Fill
import Corehost.Row.Glyph
import Corehost.Row.ImportFrame
import Corehost.Row.Invariant
import Corehost.Row.Layout
import Corehost.Row.Measured
import Corehost.Row.Model
import Corehost.Row.Refine
import Corehost.Row.Run
import Corehost.Screen.Columns
import Corehost.Screen.Frame
import Corehost.Screen.History
import Corehost.Screen.Linear
import Corehost.Screen.LinearText
import Corehost.Screen.Lines
import Corehost.Screen.Model
import Corehost.Screen.Output
import Corehost.Screen.PartialScroll
import Corehost.Screen.Rect
import Corehost.Screen.Resize
import Corehost.Screen.Scroll
import Corehost.Screen.TerminalClear
import Corehost.Screen.TerminalResize
import Corehost.Screen.Text
import Corehost.Screen.Viewport
import Corehost.Screen.ViewportMoves
import Corehost.Session.Aliases
import Corehost.Session.CursorQueries
import Corehost.Session.Exports
import Corehost.Session.Gbk
import Corehost.Session.History
import Corehost.Session.Objects
import Corehost.Session.Processes
import Corehost.Session.Sizes
import Corehost.Session.SyncReplies
import Corehost.Session.Transfer
import Corehost.Session.TransferBounds
import Corehost.Signals.Control
import Corehost.Signals.Pty
import Corehost.Terminal.Display
import Corehost.Terminal.LineEcho
import Corehost.Terminal.Mirror
import Corehost.Terminal.PaintRuns
import Corehost.Terminal.Painting
import Corehost.Terminal.StreamEnd
import Corehost.Terminal.Utf8Writes
import Corehost.Terminal.WriteOutput
import Corehost.Threads.VtInput
import Corehost.Vt.AlternateScreen
import Corehost.Vt.CursorOnly
import Corehost.Vt.ImageRows
import Corehost.Vt.ImageSize
import Corehost.Vt.LineFeeds
import Corehost.Vt.Produced
import Corehost.Vt.Repaint
import Corehost.Vt.RoundTrip
import Corehost.Vt.RowWidths
import Corehost.Vt.SameState
import Corehost.Vt.Send
import Corehost.Vt.Sgr
import Corehost.Vt.State
import Corehost.Vt.TabStops
import Corehost.Vt.Titles
import Corehost.Vt.Win32Key
