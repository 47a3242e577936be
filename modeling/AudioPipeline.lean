import AudioPipeline.Lib.Lts
import AudioPipeline.Lib.Window
import AudioPipeline.Lib.Flow
import AudioPipeline.Lib.Places
import AudioPipeline.Ringbuf.Basic
import AudioPipeline.Ringbuf.Equiv.Moves
import AudioPipeline.Ringbuf.Threads
import AudioPipeline.Ringbuf.Equiv.Calls
import AudioPipeline.Ringbuf.Equiv.Fifo
import AudioPipeline.Ringbuf.Equiv.Stall
import AudioPipeline.Ringbuf.Equiv.Wakeup
import AudioPipeline.Element.Basic
import AudioPipeline.Element.Handlers
import AudioPipeline.Element.Api
import AudioPipeline.Element.Sys
import AudioPipeline.Element.Equiv.Rules
import AudioPipeline.Element.Equiv.Handlers
import AudioPipeline.Element.Equiv.Calls
import AudioPipeline.Element.Equiv.Task
import AudioPipeline.Element.Equiv.Api
import AudioPipeline.Element.Equiv.Sys
import AudioPipeline.Element.Equiv.State
import AudioPipeline.Element.Equiv.Callbacks
import AudioPipeline.Element.Equiv.StopRequest
import AudioPipeline.Element.Equiv.WaitForStop
import AudioPipeline.Pipeline.Chain
import AudioPipeline.Pipeline.Equiv.Chain
import AudioPipeline.Pipeline.Equiv.Failure
import AudioPipeline.Pipeline.CopyChain
import AudioPipeline.Element.Equiv.Activity
import AudioPipeline.Element.MultiRings
import AudioPipeline.Element.BufferWait
import AudioPipeline.Element.Equiv.BufferWait
import AudioPipeline.Element.Equiv.MultiRings
import AudioPipeline.Ringbuf.Equiv.Lossless
import AudioPipeline.Event.Basic
import AudioPipeline.Event.Equiv.Delivery
import AudioPipeline.Pipeline.Links
import AudioPipeline.Pipeline.Equiv.Wire
import AudioPipeline.Pipeline.Equiv.Linkers
import AudioPipeline.Pipeline.Equiv.AllOrNothing
import AudioPipeline.Pipeline.Equiv.Dangling
import AudioPipeline.Pipeline.Equiv.Relink
import AudioPipeline.Pipeline.Equiv.Listener
import AudioPipeline.Pipeline.Status
import AudioPipeline.Pipeline.Equiv.Status
import AudioPipeline.Pipeline.Equiv.ListenMore
import AudioPipeline.Pipeline.Control
import AudioPipeline.Element.Equiv.Life
import AudioPipeline.Element.Equiv.Control
import AudioPipeline.Pipeline.Equiv.Cell
import AudioPipeline.Pipeline.Equiv.Asked
import AudioPipeline.Pipeline.Equiv.Control
import AudioPipeline.Pipeline.Equiv.Runs
import AudioPipeline.Pipeline.Equiv.Functions
import AudioPipeline.Pipeline.Equiv.Running
import AudioPipeline.Pipeline.Equiv.Stopping
import AudioPipeline.Element.Equiv.CleanStart
import AudioPipeline.Pipeline.Restart
import AudioPipeline.Sal.Equiv.Url
import AudioPipeline.Sal.Equiv.EventGroups
import AudioPipeline.Ringbuf.Equiv.Results
import AudioPipeline.Ringbuf.Equiv.Drain
import AudioPipeline.Pipeline.Equiv.Undo
import AudioPipeline.Pipeline.Equiv.Breakup
import AudioPipeline.Element.Info
import AudioPipeline.Element.Equiv.Info
import AudioPipeline.Codec.Equiv.Mp3
import AudioPipeline.Codec.Equiv.Sessions
import AudioPipeline.Codec.Equiv.EndOfStream
import AudioPipeline.Codec.Equiv.CarryOver
import AudioPipeline.Codec.Equiv.Divisor
import AudioPipeline.Codec.Equiv.Starve
import AudioPipeline.Codec.Mono
import AudioPipeline.Codec.Equiv.Mono
import AudioPipeline.Http.Equiv.HeaderLoop
import AudioPipeline.Http.Equiv.Scan
import AudioPipeline.Http.Equiv.Fields
import AudioPipeline.Http.Session
import AudioPipeline.Http.ParseUrl
import AudioPipeline.Http.Equiv.ParseUrl
import AudioPipeline.Http.Equiv.Session
import AudioPipeline.Sal.Equiv.Decode
import AudioPipeline.Stream.Equiv.Recording
import AudioPipeline.Stream.Equiv.Ledger
import AudioPipeline.Stream.Equiv.Requests
import AudioPipeline.Stream.Equiv.Copy
import AudioPipeline.Pipeline.Equiv.CopyChain
import AudioPipeline.Pipeline.Equiv.CopyRun
import AudioPipeline.Pipeline.Equiv.Restart
import AudioPipeline.Lib.MinHeap
import AudioPipeline.Log.Levels
import AudioPipeline.Log.Equiv.Levels
import AudioPipeline.Lib.Bits
import AudioPipeline.Codec.Bitstream
import AudioPipeline.Codec.Equiv.Bitstream
import AudioPipeline.Codec.SideInfo
import AudioPipeline.Codec.Equiv.SideInfo
import AudioPipeline.Codec.MainData
import AudioPipeline.Codec.Equiv.MainData
import AudioPipeline.Codec.HuffTabs
import AudioPipeline.Codec.Huffman
import AudioPipeline.Codec.Equiv.HuffCache
import AudioPipeline.Codec.Equiv.HuffPairs
import AudioPipeline.Codec.Scalefact
import AudioPipeline.Codec.Equiv.Scalefact
import AudioPipeline.Codec.Granules
import AudioPipeline.Codec.Equiv.HuffBlock
import AudioPipeline.Codec.Equiv.Granules
import AudioPipeline.Codec.Equiv.Frames
import AudioPipeline.Codec.Equiv.Stream
import AudioPipeline.Lib.CodeTree
import AudioPipeline.Codec.Equiv.HuffCodes
import AudioPipeline.Codec.Equiv.Spectrum
import AudioPipeline.Codec.Equiv.Writer
