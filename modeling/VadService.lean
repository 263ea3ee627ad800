import VadService.Lib.FloatFormat
import VadService.Lib.Machine
import VadService.Lib.Lockstep
import VadService.Lib.Window
import VadService.Lib.WordArith
import VadService.Lib.Bits
import VadService.Lib.Segments
import VadService.Lib.Clamp
import VadService.Lib.AtomicObject
import VadService.Lib.ByteStream
import VadService.Lib.Progress
import VadService.Iterator.Coverage
import VadService.Iterator.Silence
import VadService.Iterator.Since
import VadService.Iterator.Unlimited
import VadService.Iterator.History
import VadService.Iterator.Length
import VadService.Iterator.Wrap
import VadService.Iterator.Input
import VadService.Iterator.Restart
import VadService.Engine.Stream
import VadService.Engine.Report
import VadService.Engine.Reset
import VadService.Engine.Fill
import VadService.Sherpa.Frames
import VadService.Sherpa.Refines
import VadService.Sherpa.Utterance
import VadService.Sherpa.Threshold
import VadService.Sherpa.Stream
import VadService.Go.Events
import VadService.Go.Frames
import VadService.Go.Timeouts
import VadService.Base64.Codec
import VadService.Base64.RoundTrip
import VadService.Base64.Decoder
import VadService.Session.Protocol
import VadService.Session.Segment
import VadService.Session.Packets
import VadService.Session.Edges
import VadService.Session.Small
import VadService.Session.Sherpa
import VadService.Queue.Atomic
import VadService.Queue.Progress
import VadService.Server.Isolation
import VadService.Server.Shutdown
import VadService.Server.Text
import VadService.Server.Naming
import VadService.Server.Drain
import VadService.Server.Exit
import VadService.Server.Names
import VadService.Server.Conversation
import VadService.Wav.Layout
import VadService.Wav.Loop
import VadService.Wav.RoundTrip
import VadService.Wav.Service
import VadService.Wav.Copy
