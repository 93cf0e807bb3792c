import EasyDK.InferServer.Package
import EasyDK.InferServer.Cache
import EasyDK.InferServer.Enqueue
import EasyDK.InferServer.Sweep
import EasyDK.InferServer.Run
import EasyDK.InferServer.Order
import EasyDK.InferServer.Discard
import EasyDK.InferServer.Batches
import EasyDK.InferServer.Engine
import EasyDK.InferServer.Pipeline
import EasyDK.InferServer.Server
import EasyDK.InferServer.Accounting
import EasyDK.InferServer.Load
import EasyDK.InferServer.Registry
import EasyDK.InferServer.Sessions
import EasyDK.InferServer.Pool
import EasyDK.InferServer.Wakeup
import EasyDK.InferServer.Sleepers
import EasyDK.InferServer.Request
import EasyDK.EasyCodec.Decode
import EasyDK.EasyCodec.Jpeg
import EasyDK.EasyCodec.Timestamps
import EasyDK.EasyCodec.Buffers
import EasyDK.EasyCodec.Destroy
import EasyDK.EasyCodec.EventLoop
