import Tmms.Rtmp.Segmentation
import Tmms.Rtmp.PacketSize
import Tmms.Rtmp.ChunkWriter
import Tmms.Rtmp.Overloads
import Tmms.Rtmp.ChunkSync
import Tmms.Rtmp.RoundTrip
import Tmms.Library.Pipe
import Tmms.Network.TcpConnection
import Tmms.Amf.Decode
import Tmms.Amf.Bounds
import Tmms.Amf.Property
import Tmms.Base.Strings
import Tmms.Rtmp.Commands
import Tmms.Http.Request
import Tmms.Http.Context
import Tmms.Http.Termination
import Tmms.Http.Messages
import Tmms.Http.HeaderBlock
import Tmms.Http.Delivery
import Tmms.Library.Crc
import Tmms.Mpegts.Crc32
import Tmms.Library.RingBuffer
import Tmms.Live.Frames
import Tmms.Live.GopMgr
import Tmms.Live.Stream
import Tmms.Live.PlayerOrder
import Tmms.Rtp.Packets
import Tmms.Rtp.Srtp
import Tmms.Live.WebrtcPlayer
import Tmms.Live.RtpHistory
import Tmms.Live.SrtpIndices
import Tmms.Live.Retransmission
import Tmms.Library.RotatingWheel
import Tmms.Network.TimingWheel
import Tmms.Network.WheelHistory
import Tmms.Network.Punctuality
import Tmms.Library.ByteBuffer
import Tmms.Library.TransportStream
import Tmms.Mpegts.PesWriter
import Tmms.Mpegts.Depacketize
import Tmms.Network.WebrtcServer
import Tmms.Live.PullerRelay
import Tmms.Live.RelayIsolation
import Tmms.Live.LiveSession
import Tmms.Live.Publishing
import Tmms.Live.EntryPoints
import Tmms.Rtmp.HandShake
import Tmms.Rtmp.ServerHandShake
import Tmms.Rtmp.ClientHandShake
import Tmms.Amf.Turns
import Tmms.Base.Doubles
import Tmms.Amf.Values
import Tmms.Amf.Encode
import Tmms.Amf.Tree
import Tmms.Flv.FlvContext
import Tmms.Library.ProgramTables
import Tmms.Mpegts.PsiWriter
import Tmms.Base.NalBitStream
import Tmms.Demux.AudioDemux
import Tmms.Demux.VideoDemux
import Tmms.Mpegts.TsEncoder
import Tmms.Hls.Fragment
import Tmms.Hls.HLSMuxer
import Tmms.Hls.Storage
import Tmms.Hls.Owners
import Tmms.Hls.Serving
import Tmms.Mpegts.TsStreams
import Tmms.Hls.SelfDescribing
import Tmms.Live.LiveService
import Tmms.Live.Orphans
import Tmms.Mpegts.Sections
import Tmms.Mpegts.PmtStreams
import Tmms.Library.RtpPayload
import Tmms.Rtp.NalUnits
import Tmms.Library.StunMessage
import Tmms.Webrtc.Stun
import Tmms.Live.WebrtcService
import Tmms.Rtmp.OutQueue
import Tmms.Hls.PlayList
import Tmms.Http.ChunkPosting
import Tmms.Http.MakeHeaders
import Tmms.Mpegts.AccessUnits
import Tmms.Hls.Decodable
import Tmms.Base.NalBits
import Tmms.Demux.Reading
import Tmms.Demux.Bounds
import Tmms.Rtmp.HeaderBuffer
import Tmms.Rtmp.Batches
import Tmms.Library.Memory
import Tmms.Rtmp.Control
import Tmms.Rtmp.ChunkSize
import Tmms.Rtmp.Acknowledgement
import Tmms.Rtmp.ClientCommands
import Tmms.Live.SessionNames
import Tmms.Rtp.AccessUnits
import Tmms.Rtp.ParameterSets
import Tmms.Library.SearchTree
import Tmms.Rtp.Rtpfb
import Tmms.Live.CompoundRtcp
import Tmms.Webrtc.Sdp
import Tmms.Http.Declarations
import Tmms.Http.FirstLine
import Tmms.Network.Endpoints
import Tmms.Mpegts.Timing
import Tmms.Library.Adts
import Tmms.Mpegts.Adts
import Tmms.Demux.AvccUnits
import Tmms.Demux.AnnexbUnits
import Tmms.Demux.FormatProbe
import Tmms.Demux.SequenceHeaders
import Tmms.Live.HeaderHistory
import Tmms.Live.TimeCorrection
import Tmms.Hls.Durations
import Tmms.Hls.Capacity
import Tmms.Hls.Names
import Tmms.Live.StartPoint
import Tmms.Live.RetryBudget
import Tmms.Live.FlvPlayer
import Tmms.Library.Rbsp
import Tmms.Base.UeCodes
import Tmms.Base.Splitters
import Tmms.Network.WriteLoop
import Tmms.Rtmp.Digests
import Tmms.Network.WallClock
import Tmms.Network.SlotIndices
import Tmms.Network.IdleTimeout
import Tmms.Library.Simulation
import Tmms.Network.MsgBuffer
import Tmms.Network.BufferQueues
import Tmms.Network.EventLoop
import Tmms.Network.EventPoll
import Tmms.Network.LoopLocks
import Tmms.Network.TcpServer
import Tmms.Network.WakeUp
import Tmms.Library.Sleeper
import Tmms.Library.Stages
import Tmms.Live.FlvOutput
import Tmms.Live.PlayerWakeUp
import Tmms.Rtmp.Dialogue
import Tmms.Live.RtmpOutput
import Tmms.Hls.Multiplexing
import Tmms.Hls.Seamless
