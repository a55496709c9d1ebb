import CosmosPC.Ymodem.Agreement
import CosmosPC.Ymodem.Capacity
import CosmosPC.Ymodem.Termination
import CosmosPC.Ymodem.Refusals
import CosmosPC.Ymodem.FrameBuffer
import CosmosPC.Ymodem.ErrorDetection
import CosmosPC.Sync.Completeness
import CosmosPC.Sync.Truncation
import CosmosPC.Sync.Connection
import CosmosPC.Serial.PortLock
import CosmosPC.Sync.Bookkeeping
import CosmosPC.Sync.Progress
import CosmosPC.Sync.Numbering
import CosmosPC.Parser.Alignment
import CosmosPC.Parser.CutOff
import CosmosPC.Serial.CommPort
import CosmosPC.Update.Gating
import CosmosPC.Foundation.Potentials
import CosmosPC.Sync.Effort
import CosmosPC.Sync.Preservation
import CosmosPC.Sync.Interruption
import CosmosPC.Parser.Threads
import CosmosPC.Sync.Harvest
import CosmosPC.Foundation.SelfDelimiting
import CosmosPC.Ymodem.ByteStream
import CosmosPC.Parser.AnyFile
import CosmosPC.Ymodem.Safety
import CosmosPC.Update.Delivery
import CosmosPC.Sync.Quitting
import CosmosPC.Serial.CheckComm
import CosmosPC.Ymodem.Patience
import CosmosPC.Update.Patience
import CosmosPC.Foundation.Sections
import CosmosPC.Sync.Statements
import CosmosPC.Sync.Exclusion
import CosmosPC.Sync.Undisturbed
import CosmosPC.Sync.Interference
