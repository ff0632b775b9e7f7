import EspNowEdhoc.Ffi.Language
import EspNowEdhoc.Ffi.Context
import EspNowEdhoc.Transport.Codec
import EspNowEdhoc.Transport.Receive
import EspNowEdhoc.Device.Calls
import EspNowEdhoc.Device.Completion
import EspNowEdhoc.Device.Diagram
import EspNowEdhoc.Device.Driver
import EspNowEdhoc.Device.Duplicates
import EspNowEdhoc.Device.Fragments
import EspNowEdhoc.Device.Install
import EspNowEdhoc.Device.NoAbort
import EspNowEdhoc.Device.Startup
import EspNowEdhoc.Device.Timer
import EspNowEdhoc.Pair.Corruption
import EspNowEdhoc.Pair.Liveness
import EspNowEdhoc.Pair.Overflow
import EspNowEdhoc.Pair.Reboots
import EspNowEdhoc.Host.Arguments
