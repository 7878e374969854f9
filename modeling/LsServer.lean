import LsServer.Lib.Ring
import LsServer.Lib.Run
import LsServer.Lib.Table
import LsServer.Lib.Graph
import LsServer.Lib.Frames
import LsServer.Lib.Fragments
import LsServer.Lib.Loop
import LsServer.Lib.Search
import LsServer.Lib.Slots
import LsServer.Lua.Bytes
import LsServer.Lua.Number
import LsServer.Lua.Value
import LsServer.Lua.Chunk
import LsServer.Lua.Pattern
import LsServer.Lua.Match
import LsServer.Lua.Strings
import LsServer.Lua.Memory
import LsServer.LuaExt.Split
import LsServer.LuaExt.Copy
import LsServer.LuaExt.DeepCopy
import LsServer.LuaExt.Dump
import LsServer.LuaExt.Dumped
import LsServer.LuaExt.Hidden
import LsServer.Sproto.Pack
import LsServer.Sproto.Wire
import LsServer.Sproto.Protocol
import LsServer.Crypt.Base64
import LsServer.Crypt.Hash
import LsServer.Crypt.Dh
import LsServer.Crypt.Des
import LsServer.GameGate.State
import LsServer.GameGate.Auth
import LsServer.GameGate.Request
import LsServer.GameGate.Step
import LsServer.GameGate.Server
import LsServer.GameGate.Replies
import LsServer.GameGate.Served
import LsServer.GameGate.Invariant
import LsServer.GameGate.Live
import LsServer.GameGate.Released
import LsServer.GameGate.Bystander
import LsServer.GameGate.Fencing
import LsServer.GameGate.Authentic
import LsServer.GameGate.Cache
import LsServer.GameGate.Routing
import LsServer.GameGate.AtMostOnce
import LsServer.GameGate.Wedged
import LsServer.GameGate.Retire
import LsServer.GameGate.Retention
import LsServer.GameGate.Conflict
import LsServer.Cluster.SnaxUtil
import LsServer.Cluster.Wire
import LsServer.Cluster.Call
import LsServer.Cluster.Delivery
import LsServer.Cluster.Told
import LsServer.Cluster.Exchange
import LsServer.AccountMgr.Check
import LsServer.AccountMgr.Kick
import LsServer.LoginGate.Auth
import LsServer.LoginGate.Logind
import LsServer.LoginGate.Accept
import LsServer.LoginGate.Lock
import LsServer.LoginGate.Reply
import LsServer.LoginGate.Transcript
import LsServer.Login.Gamed
import LsServer.Login.System
import LsServer.Login.Single
import LsServer.Login.Agreement
import LsServer.Login.FailClosed
import LsServer.Login.Callers
import LsServer.Login.Delivered
import LsServer.Login.Afk
import LsServer.Agent.Request
import LsServer.Client.Common
import LsServer.Client.Request
import LsServer.Client.Response
import LsServer.Client.Stream
import LsServer.Client.Login
import LsServer.Client.Agreement
import LsServer.Skynet.Scheduler
import LsServer.Skynet.Netpack
import LsServer.Skynet.Seri
import LsServer.Skynet.Serialized
import LsServer.Skynet.Timer
import LsServer.Skynet.RunTimeout
import LsServer.Skynet.CriticalSection
import LsServer.Skynet.MessageQueue
import LsServer.Skynet.Dispatch
import LsServer.Monitor.Publish
import LsServer.Monitor.Traversal
import LsServer.Monitor.Agreement
import LsServer.Monitor.Registration
import LsServer.Monitor.Config
import LsServer.Monitor.Received
import LsServer.Monitor.Broadcast
import LsServer.Monitor.Register
import LsServer.Monitor.Undisturbed
import LsServer.Monitor.Raw
import LsServer.Monitor.Texts
import LsServer.Monitor.Subscribe
