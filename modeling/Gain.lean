import Gain.Net.Sockaddr
import Gain.Pool.ByteSlice
import Gain.Pool.Classes
import Gain.Pool.Mapping
import Gain.Buffer.Calls
import Gain.Uring.BatchSubmitter
import Gain.Queue.Linear
import Gain.Queue.Size
import Gain.Process.Blank
import Gain.Process.Conservation
import Gain.Process.Keys
import Gain.Process.Values
import Gain.Worker.Accepting
import Gain.Worker.Deferral
import Gain.Worker.Draining
import Gain.Worker.Engaged
import Gain.Worker.Flushing
import Gain.Worker.Guarding
import Gain.Worker.Replies
import Gain.Worker.Reporting
import Gain.Server.Census
import Gain.Server.Concurrent
import Gain.Server.Delivery
import Gain.Server.Handshake
import Gain.Server.LoadBalancer
import Gain.Server.Mode
import Gain.Server.Shutdowner
import Gain.Stack.Exclusive
import Gain.Stack.KeyLog
