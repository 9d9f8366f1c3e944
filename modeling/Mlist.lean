import Mlist.Lib.Run
import Mlist.Lib.Swap
import Mlist.Lib.Heap
import Mlist.Model.Types
import Mlist.Model.Broadcast
import Mlist.Model.State
import Mlist.Model.Member
import Mlist.Member.Atom
import Mlist.Queue.Inv
import Mlist.Member.Registry
import Mlist.Member.Order
import Mlist.Member.Suspects
import Mlist.Member.Timers
import Mlist.Member.SelfDefence
import Mlist.Abstract.View
import Mlist.Member.Converge
import Mlist.Cluster.Ledger
import Mlist.Cluster.World
import Mlist.Cluster.Knowledge
import Mlist.Race.Publish
import Mlist.Race.Leave
import Mlist.Member.Events
import Mlist.Queue.Drain
import Mlist.Queue.Life
import Mlist.Model.LongRun
import Mlist.Race.LongRun
import Mlist.Lib.Outcome
import Mlist.Lib.Wire
import Mlist.Model.Keyring
import Mlist.Model.Wire
import Mlist.Net.Safety
import Mlist.Net.RoundTrip
import Mlist.Model.Gossip
import Mlist.Net.Budget
import Mlist.Member.Departed
import Mlist.Member.Presence
import Mlist.Net.Keyring
import Mlist.Race.PushPull
import Mlist.Lib.Cursor
import Mlist.Member.Probe
import Mlist.Lib.Handles
import Mlist.Net.Transport
import Mlist.Lib.Notify
import Mlist.Race.Ping
import Mlist.Race.Await
import Mlist.Race.Tags
import Mlist.Model.Dispatch
import Mlist.Member.RoundRobin
import Mlist.Member.Reap
import Mlist.Member.Merge
import Mlist.Race.Confirm
import Mlist.Net.Compound
import Mlist.Queue.Serve
import Mlist.Race.Nacks
import Mlist.Queue.Trim
import Mlist.Queue.LongRun
import Mlist.Model.Handlers
import Mlist.Race.Handlers
import Mlist.Lib.Index
import Mlist.Model.Resolve
import Mlist.Net.Resolve
import Mlist.Member.Pick
import Mlist.Cluster.Detect
import Mlist.Cluster.Answers
import Mlist.Model.Exchange
import Mlist.Net.Exchange
import Mlist.Net.Cut
import Mlist.Cluster.Wire
import Mlist.Cluster.Agree
import Mlist.Model.Address
import Mlist.Net.Address
import Mlist.Lib.Fair
import Mlist.Model.Shutdown
import Mlist.Race.Shutdown
import Mlist.Race.ShutdownEnds
import Mlist.Lib.FirstFit
import Mlist.Queue.Load
import Mlist.Net.Room
import Mlist.Member.Silent
