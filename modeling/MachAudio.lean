import MachAudio.Allocations
import MachAudio.Arena
import MachAudio.Arguments
import MachAudio.Audio
import MachAudio.Buffers
import MachAudio.Causality
import MachAudio.Client
import MachAudio.ClientRead
import MachAudio.Companding
import MachAudio.Containment
import MachAudio.Contents
import MachAudio.Control
import MachAudio.Conversation
import MachAudio.CoreMask
import MachAudio.Crosstalk
import MachAudio.Delivery
import MachAudio.Discovery
import MachAudio.Division
import MachAudio.Downsampler
import MachAudio.EndToEnd
import MachAudio.EventLoop
import MachAudio.Exits
import MachAudio.Exponential
import MachAudio.Failure
import MachAudio.Footprint
import MachAudio.Frame
import MachAudio.G711
import MachAudio.Governors
import MachAudio.GruStream
import MachAudio.InputFiles
import MachAudio.Interleaved
import MachAudio.Isolation
import MachAudio.Lib.CString
import MachAudio.Lib.DelayLine
import MachAudio.Lib.Exec
import MachAudio.Lib.Framing
import MachAudio.Lib.GatedUnit
import MachAudio.Lib.Gates
import MachAudio.Lib.Ledger
import MachAudio.Lib.Machine
import MachAudio.Lib.Memory
import MachAudio.Lib.OrderStatistic
import MachAudio.Lib.Overwriting
import MachAudio.Lib.Simd
import MachAudio.Lib.Spans
import MachAudio.Lib.Transition
import MachAudio.Lifetime
import MachAudio.LinearResampler
import MachAudio.Lockstep
import MachAudio.MainLoop
import MachAudio.Mixer
import MachAudio.MonoPipeline
import MachAudio.Network
import MachAudio.NetworkRange
import MachAudio.Overflow
import MachAudio.Parser
import MachAudio.Passthrough
import MachAudio.Progress
import MachAudio.Protocol
import MachAudio.Reachable
import MachAudio.Reassembly
import MachAudio.Reference
import MachAudio.Resampler
import MachAudio.ResamplerLock
import MachAudio.Responses
import MachAudio.Restart
import MachAudio.Samples
import MachAudio.Sending
import MachAudio.SentStream
import MachAudio.Server
import MachAudio.Session
import MachAudio.Shape
import MachAudio.Shutdown
import MachAudio.SingleBuffer
import MachAudio.Slots
import MachAudio.State
import MachAudio.Stereo
import MachAudio.Summary
import MachAudio.Supervisor
import MachAudio.Survival
import MachAudio.Trace
import MachAudio.TrainingData
import MachAudio.Transcode
import MachAudio.Transducer
import MachAudio.Upsampler
import MachAudio.Vad
import MachAudio.VadAllocation
import MachAudio.VadField
import MachAudio.Wire
import MachAudio.Worker
