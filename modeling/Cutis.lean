import Cutis.Dict.Walk
import Cutis.Client.Decoding
import Cutis.Connection
import Cutis.System.Numbers
import Cutis.System.Counters
import Cutis.System.Durability
import Cutis.System.Types
import Cutis.System.Replies
import Cutis.System.Maps
import Cutis.Client.Sending
import Cutis.Server.Accept
import Cutis.Heap.Store
import Cutis.Heap.Server
import Cutis.Heap.Clean
import Cutis.System.Ranges
import Cutis.Event.Firing
import Cutis.StringMatch.Grammar
import Cutis.StringMatch.Offsets
import Cutis.Command.Listing
import Cutis.System.Sets
import Cutis.System.Sparse
import Cutis.Sds.Capacity
import Cutis.Sds.Range
import Cutis.Sds.Split
import Cutis.Machine.Recovery
import Cutis.Config.Printing
import Cutis.Serving.Queues
import Cutis.Loop.Pass
import Cutis.Heap.Values.Calls
