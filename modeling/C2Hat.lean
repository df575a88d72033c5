import C2Hat.Lib.CString
import C2Hat.Lib.Printf
import C2Hat.Lib.CharArray
import C2Hat.Lib.Decimal
import C2Hat.Lib.FileSystem
import C2Hat.Lib.Links
import C2Hat.Lib.Run
import C2Hat.Lib.WriteLoop
import C2Hat.Lib.MaxSort
import C2Hat.Lib.Monitor
import C2Hat.Lib.Select
import C2Hat.Lib.Terminated
import C2Hat.Lib.LineReader
import C2Hat.Lib.Utf8
import C2Hat.Lib.Window
import C2Hat.Lib.Cells
import C2Hat.Conversions
import C2Hat.Trim
import C2Hat.WTrim
import C2Hat.Message
import C2Hat.MessageBuffer
import C2Hat.Frames
import C2Hat.Codec
import C2Hat.Commands
import C2Hat.Fields
import C2Hat.Payload
import C2Hat.Relay
import C2Hat.Receive
import C2Hat.Compaction
import C2Hat.Draining
import C2Hat.Reassembly
import C2Hat.CList
import C2Hat.ListSort
import C2Hat.ListRuns
import C2Hat.Sorted
import C2Hat.Hash
import C2Hat.HashRuns
import C2Hat.Linked
import C2Hat.Queue
import C2Hat.QueueRuns
import C2Hat.WaitAndPop
import C2Hat.Server.State
import C2Hat.Server.Threads
import C2Hat.Server.Steps
import C2Hat.Server.Effects
import C2Hat.Server.Invariants
import C2Hat.Server.Spawn
import C2Hat.Server.Lifetime
import C2Hat.Server.Session
import C2Hat.Server.MessageOrder
import C2Hat.Server.Broadcaster
import C2Hat.Server.Fanout
import C2Hat.Server.Nicknames
import C2Hat.Server.Framing
import C2Hat.Server.Handshake
import C2Hat.Server.Isolation
import C2Hat.Server.Inbox
import C2Hat.Server.Capacity
import C2Hat.Server.Dropping
import C2Hat.Server.Sending
import C2Hat.Server.Authentication
import C2Hat.Server.Waiting
import C2Hat.Allocations
import C2Hat.Atomicity
import C2Hat.Client.App
import C2Hat.Client.StartUp
import C2Hat.Client.WakeUp
import C2Hat.Client.ChatWin
import C2Hat.Client.Browsing
import C2Hat.Client.ChatLog
import C2Hat.Client.Colors
import C2Hat.Client.InputWin
import C2Hat.Client.InputText
import C2Hat.Client.WideInput
import C2Hat.Client.Lines
import C2Hat.Delivery
import C2Hat.Conversation
import C2Hat.Client.Handshake
import C2Hat.Server.Outbound
import C2Hat.Server.Speakers
import C2Hat.Server.Listener
import C2Hat.Server.Agreement
import C2Hat.Config.Settings
import C2Hat.Config.Handler
import C2Hat.Config.SharedMemory
import C2Hat.Config.Options
import C2Hat.Config.Ports
import C2Hat.Config.Ini
import C2Hat.Config.IniLines
import C2Hat.Config.IniText
import C2Hat.Config.IniFile
import C2Hat.PidFile
import C2Hat.TouchDir
