import FrameworkXC32.CoreTimer.Drift
import FrameworkXC32.Lib.Quotients
import FrameworkXC32.SwTimers.Deadlines
import FrameworkXC32.Lib.DeltaList
import FrameworkXC32.SwTimers.Represent
import FrameworkXC32.CoreTimer.Monotone
import FrameworkXC32.Critical.Nesting
import FrameworkXC32.Api.RingBuffer
import FrameworkXC32.Wire.Model
import FrameworkXC32.Wire.Bus
import FrameworkXC32.Wire.Transaction
import FrameworkXC32.Wire.History
import FrameworkXC32.Wire.Release
import FrameworkXC32.Spi.Configuration
import FrameworkXC32.Pins.Irq
import FrameworkXC32.Pins.Calls
import FrameworkXC32.Pins.ChangeNotice
import FrameworkXC32.Pins.Board
import FrameworkXC32.Pins.External
import FrameworkXC32.Api.RingFifo
import FrameworkXC32.Analog.Pwm
import FrameworkXC32.Api.Cbuf
import FrameworkXC32.Api.CbufFifo
import FrameworkXC32.Api.Stream
import FrameworkXC32.Critical.ProcessList
import FrameworkXC32.Critical.Reentrancy
import FrameworkXC32.Lib.CString
import FrameworkXC32.Lib.Wave
import FrameworkXC32.Serial.Buffer
import FrameworkXC32.Serial.Link
import FrameworkXC32.Serial.Slots
import FrameworkXC32.Serial.Streams
import FrameworkXC32.Strings.Calls
import FrameworkXC32.Wifi.Model
import FrameworkXC32.Wifi.WakeUp
import FrameworkXC32.Wire.Reads
import FrameworkXC32.Analog.Frequency
import FrameworkXC32.Api.FindMulti
import FrameworkXC32.Lib.Countdown
import FrameworkXC32.Serial.Baud
import FrameworkXC32.Strings.Leftmost
import FrameworkXC32.SwTimers.Conservation
import FrameworkXC32.CoreTimer.Modular
import FrameworkXC32.Wire.Requests
import FrameworkXC32.Wire.Writes
import FrameworkXC32.Lib.Cells
import FrameworkXC32.Pins.Modes
import FrameworkXC32.Pins.Sources
import FrameworkXC32.Serial.Receive
import FrameworkXC32.Serial.UsbWrite
import FrameworkXC32.Spi.Remap
import FrameworkXC32.Api.IPAddress
import FrameworkXC32.Lib.BitString
import FrameworkXC32.Spi.Transfers
import FrameworkXC32.Lib.Budget
import FrameworkXC32.Lib.CachedRegister
import FrameworkXC32.Lib.Hex
import FrameworkXC32.Strings.Matches
import FrameworkXC32.Wifi.Security
import FrameworkXC32.Wire.Clock
import FrameworkXC32.Wire.Timeouts
import FrameworkXC32.Kernel.Heap
import FrameworkXC32.Kernel.HeapAlloc
import FrameworkXC32.Kernel.HeapContents
import FrameworkXC32.Kernel.HeapService
import FrameworkXC32.Strings.Find
import FrameworkXC32.Strings.Sums
import FrameworkXC32.Api.Readers
import FrameworkXC32.Lib.Interleaving
import FrameworkXC32.Pins.Digital
import FrameworkXC32.Pins.Shift
import FrameworkXC32.Kernel.Queue
import FrameworkXC32.Kernel.QueueTasks
import FrameworkXC32.Kernel.QueueHistory
import FrameworkXC32.Kernel.QueueWakeUp
import FrameworkXC32.Kernel.QueuePort
import FrameworkXC32.Kernel.Mailbox
import FrameworkXC32.Kernel.Semaphore
