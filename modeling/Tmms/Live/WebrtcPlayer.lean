import Tmms.Library.RingBuffer
import Tmms.Rtp.Srtp

/-!
# WebRTC players

A `WebrtcPlayerUser` after its first handshake: the keys, the context of libsrtp, the muxer,
and the queues of packets that may be asked for again.  Every further DTLS record runs the
callback of a finished handshake once more, since `is_done_` stays set: it makes a new context
and new encoders.  What OpenSSL exports is given with the record.

A step gives the RTP packets that were handed to `RtpProtect`, each with what became of it.
-/

/-- A packet protected: the master key, the source and the index. -/
structure Protection where
  masterKey : List UInt8
  ssrc : UInt32
  index : Nat
  deriving DecidableEq, Repr

/-- A packet handed to `RtpProtect`, for the first time or again, and how it was protected. -/
structure RtpOutput where
  packet : Packet Unit
  again : Bool
  protection : Option Protection
  deriving DecidableEq, Repr

/-- The size of `video_queue_` and `audio_queue_`. -/
def rtpQueueSize : Nat := 500

instance : NeZero rtpQueueSize := ⟨by decide⟩

/-- What `PostFrames` encodes. -/
inductive MediaCall where
  | video (frame : VideoFrame) (timestamp : UInt32)
  | audio (frames : List OpusFrame)

/-- What reaches a player: a DTLS record, with the keying material exported after it, a STUN
request, media, and a transport feedback message with the sequence numbers it names. -/
inductive WebrtcEvent where
  | dtls (material : List UInt8)
  | stun
  | media (calls : List MediaCall)
  | rtpfb (mediaSsrc : UInt32) (lostSeqs : List UInt16)

structure WebrtcPlayer where
  videoPayloadType : UInt8
  audioPayloadType : UInt8
  audioSsrc : UInt32
  srtp : SrtpContext
  rtpMuxer : RtpMuxer
  videoQueue : RingBuffer (Packet Unit) rtpQueueSize := RingBuffer.empty _ _
  audioQueue : RingBuffer (Packet Unit) rtpQueueSize := RingBuffer.empty _ _

namespace WebrtcPlayer

/-- The video source is set in the constructor. -/
def videoSsrc (w : WebrtcPlayer) : UInt32 := w.audioSsrc + 1

/-! ### Keys -/

/-- `send_key_` after `GetSrtpKey`: the key and the salt of the server. -/
def sendKey (material : List UInt8) : List UInt8 :=
  (material.drop 16).take 16 ++ (material.drop (16 + 16 + 14)).take 14

/-- The master key of a context, without the salt. -/
def masterKey (w : WebrtcPlayer) : List UInt8 := w.srtp.key.take 16

/-- `OnDtlsHandshakeDone`, after `GetSrtpKey`. -/
def onDtlsHandshakeDone (w : WebrtcPlayer) (material : List UInt8) : WebrtcPlayer :=
  { w with
    srtp := SrtpContext.create (sendKey material)
    rtpMuxer :=
      w.rtpMuxer.init w.videoPayloadType w.audioPayloadType w.videoSsrc w.audioSsrc }

/-- A player after its first handshake. -/
def connected (videoPayloadType audioPayloadType : UInt8) (audioSsrc : UInt32)
    (material : List UInt8) : WebrtcPlayer :=
  onDtlsHandshakeDone
    { videoPayloadType := videoPayloadType
      audioPayloadType := audioPayloadType
      audioSsrc := audioSsrc
      srtp := SrtpContext.create []
      rtpMuxer :=
        { audioRtp := { payloadType := audioPayloadType }
          videoRtp := { payloadType := videoPayloadType } } }
    material

/-! ### Queues -/

/-- An index as the unsigned number that is taken modulo the size of a queue. -/
def queueIndex (index : Int) : Nat := (index % 2 ^ 64).toNat

def addVideo (w : WebrtcPlayer) (pkt : Packet Unit) : WebrtcPlayer :=
  { w with videoQueue := w.videoQueue.put (queueIndex pkt.index) pkt }

def addAudio (w : WebrtcPlayer) (pkt : Packet Unit) : WebrtcPlayer :=
  { w with audioQueue := w.audioQueue.put (queueIndex pkt.index) pkt }

/-- The packet in the slot of an index, if it has that index. -/
def getPacket (queue : RingBuffer (Packet Unit) rtpQueueSize) (idx : Int) :
    Option (Packet Unit) :=
  (queue.get (queueIndex idx)).filter fun pkt => pkt.index == idx

def getVideo (w : WebrtcPlayer) (idx : Int) : Option (Packet Unit) := getPacket w.videoQueue idx

def getAudio (w : WebrtcPlayer) (idx : Int) : Option (Packet Unit) := getPacket w.audioQueue idx

/-- The packets `ProcessRtpfb` selects, in the order of the sequence numbers. -/
def lostPackets (w : WebrtcPlayer) (mediaSsrc : UInt32) (lostSeqs : List UInt16) :
    List (Packet Unit) :=
  let isVideo := mediaSsrc == w.rtpMuxer.videoRtp.ssrc
  let isAudio := mediaSsrc == w.rtpMuxer.audioRtp.ssrc
  if !isAudio && !isVideo then
    []
  else if isAudio then
    lostSeqs.filterMap fun l => w.getAudio l.toNat
  else
    lostSeqs.filterMap fun l => w.getVideo l.toNat

/-! ### Sending -/

/-- `RtpProtect` for one packet. -/
def protectPacket (w : WebrtcPlayer) (again : Bool) (p : Packet Unit) :
    WebrtcPlayer × RtpOutput :=
  let (est, srtp) := w.srtp.rtpProtect p
  ({ w with srtp := srtp }, ⟨p, again, est.map fun i => ⟨w.masterKey, p.wireSsrc, i⟩⟩)

/-- The queue a packet is kept in. -/
def addPacket (w : WebrtcPlayer) (p : Packet Unit) : WebrtcPlayer :=
  if p.isAudio then w.addAudio p else w.addVideo p

/-- One turn of the loop of `PostFrames` over the packets. -/
def sendPacket (w : WebrtcPlayer) (p : Packet Unit) : WebrtcPlayer × RtpOutput :=
  (w.addPacket p).protectPacket false p

/-- A loop over packets. -/
def forPackets (f : WebrtcPlayer → Packet Unit → WebrtcPlayer × RtpOutput) :
    WebrtcPlayer → List (Packet Unit) → WebrtcPlayer × List RtpOutput
  | w, [] => (w, [])
  | w, p :: ps =>
      let (w, out) := f w p
      let (w, outs) := forPackets f w ps
      (w, out :: outs)

/-- The calls of the muxer in `PostFrames`. -/
def encodeAll (m : RtpMuxer) : List MediaCall → RtpMuxer × List (Packet Unit)
  | [] => (m, [])
  | call :: calls =>
      let (m, packets) :=
        match call with
        | .video frame timestamp => m.encodeVideo frame timestamp
        | .audio frames => m.encodeAudio frames
      let (m, rest) := encodeAll m calls
      (m, packets ++ rest)

def postFrames (w : WebrtcPlayer) (calls : List MediaCall) : WebrtcPlayer × List RtpOutput :=
  let (m, packets) := encodeAll w.rtpMuxer calls
  forPackets sendPacket { w with rtpMuxer := m } packets

def processRtpfb (w : WebrtcPlayer) (mediaSsrc : UInt32) (lostSeqs : List UInt16) :
    WebrtcPlayer × List RtpOutput :=
  forPackets (protectPacket · true) w (w.lostPackets mediaSsrc lostSeqs)

/-! ### Runs -/

def step (w : WebrtcPlayer) : WebrtcEvent → WebrtcPlayer × List RtpOutput
  | .dtls material => (w.onDtlsHandshakeDone material, [])
  | .stun => (w, [])
  | .media calls => w.postFrames calls
  | .rtpfb mediaSsrc lostSeqs => w.processRtpfb mediaSsrc lostSeqs

/-- The state after a run. -/
def run (w : WebrtcPlayer) (events : List WebrtcEvent) : WebrtcPlayer :=
  events.foldl (fun w e => (w.step e).1) w

/-- The packets handed to `RtpProtect` in a run. -/
def outputs : WebrtcPlayer → List WebrtcEvent → List RtpOutput
  | _, [] => []
  | w, e :: events => (w.step e).2 ++ outputs (w.step e).1 events

end WebrtcPlayer
