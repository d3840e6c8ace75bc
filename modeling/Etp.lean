import Etp.Transfer.Refusal
import Etp.Transfer.Opening
import Etp.Transfer.Isolation
import Etp.Session.Handshake
import Etp.Session.CloseConverges
import Etp.Session.Truth
import Etp.Session.Drain
import Etp.Session.Grant
import Etp.Session.Transparent
import Etp.App.Delivery
import Etp.App.Recycle
import Etp.App.Router
import Etp.Streams.Order
import Etp.Streams.Framing
import Etp.Streams.Ownership
import Etp.Wire.Bounds
import Etp.Message.Buffers
import Etp.Transfer.Body
import Etp.Transfer.Acked
import Etp.Transfer.Retries
import Etp.Transfer.ChunkPool
import Etp.Transfer.Completed
import Etp.Session.Authentication
import Etp.Session.RateLimit
import Etp.Writer.Schedule
import Etp.Writer.Wakeup
import Etp.Writer.Ring
import Etp.Frame.Lease
import Etp.Transfer.RetryTimer
import Etp.Transfer.Capacity
import Etp.Transfer.ReceiveBuffer
