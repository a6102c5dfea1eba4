import Tmms.Hls.Fragment

/-!
# The HLS muxer

`HLSMuxer` writes packets to a current fragment, and gives it to a window when it has lasted long
enough.  A `FragmentWindow` keeps the last fragments.  One that leaves the window is reset, and is
the current one again later.

The muxer has the memory of its fragments, and the static variables of the checksum.  What has no
result in one of its parts has none here.  The playlist is left out: nothing here reads it.
-/

structure FragmentWindow where
  windowSize : Nat := 5
  fragments : List FragmentPtr := []
  freeFragments : List FragmentPtr := []
  deriving DecidableEq, Repr

namespace FragmentWindow

/-- The loop in `Shrink`. -/
def shrinkLoop : Nat → FragmentWindow → HlsMemory → FragmentWindow × HlsMemory
  | 0, w, m => (w, m)
  | n + 1, w, m =>
      match w.fragments with
      | [] => (w, m)
      | p :: fragments =>
          shrinkLoop n
            { w with fragments := fragments, freeFragments := w.freeFragments ++ [p] } (m.reset p)

/-- `Shrink`. -/
def shrink (w : FragmentWindow) (m : HlsMemory) : FragmentWindow × HlsMemory :=
  if w.fragments.length ≤ w.windowSize then (w, m)
  else shrinkLoop (w.fragments.length - w.windowSize) w m

/-- `AppendFragment`. -/
def appendFragment (w : FragmentWindow) (m : HlsMemory) (fragment : FragmentPtr) :
    FragmentWindow × HlsMemory :=
  shrink { w with fragments := w.fragments ++ [fragment] } m

/-- `GetIdleFragment`. -/
def getIdleFragment (w : FragmentWindow) (m : HlsMemory) :
    FragmentPtr × FragmentWindow × HlsMemory :=
  match w.freeFragments with
  | [] => (m.nextFragment, w, m.addFragment)
  | p :: freeFragments => (p, { w with freeFragments := freeFragments }, m)

/-- `GetFragmentByName`. -/
def getFragmentByName (w : FragmentWindow) (m : HlsMemory) (name : String) : Option FragmentPtr :=
  w.fragments.find? fun f => (m.fragments f).filename == name

end FragmentWindow

structure HLSMuxer where
  memory : HlsMemory := {}
  statics : TsTool.Globals := {}
  fragmentWindow : FragmentWindow := {}
  encoder : TsEncoder := {}
  currentFragment : Option FragmentPtr := none
  streamName : String := ""
  fragmentSeqNo : Int := 0
  minFragmentSize : Int := 3000
  maxFragmentSize : Int := 12000

namespace HLSMuxer

variable {ε : Type}

/-- `IsCodecHeader`. -/
def isCodecHeader (packet : Packet ε) : Bool :=
  int32 packet.size > 1 && packet.data.getD 1 0 == 0

/-- The current fragment is given to the window before a packet. -/
def switches (m : HLSMuxer) (packet : Packet ε) : Bool :=
  match m.currentFragment with
  | some f =>
      let duration := (m.memory.fragments f).duration
      packet.isKeyFrame && duration ≥ m.minFragmentSize || duration > m.maxFragmentSize
  | none => false

/-- The first part of `OnPacket`: the current fragment is given to the window. -/
def closeFragment (m : HLSMuxer) (packet : Packet ε) : HLSMuxer :=
  match m.currentFragment with
  | some f =>
      if m.switches packet then
        let (window, memory) := m.fragmentWindow.appendFragment m.memory f
        { m with memory := memory, fragmentWindow := window, currentFragment := none }
      else
        m
  | none => m

/-- What the encoder calls is done with a fragment. -/
def perform (m : HLSMuxer) (f : FragmentPtr) (calls : List WriterCall) : Option HLSMuxer :=
  match m.memory.performAll f calls with
  | some memory => some { m with memory := memory }
  | none => none

/-- The second part of `OnPacket`: there is a current fragment. -/
def openFragment (m : HLSMuxer) (now : Int) : Option (HLSMuxer × FragmentPtr) :=
  match m.currentFragment with
  | some f => some (m, f)
  | none =>
      let (f, window, memory) := m.fragmentWindow.getIdleFragment m.memory
      let memory := memory.reset f
      let memory := memory.setFragment f
        (((memory.fragments f).setBaseFileName m.streamName now).setSequenceNo m.fragmentSeqNo)
      let m := { m with
        memory := memory
        fragmentWindow := window
        currentFragment := some f
        fragmentSeqNo := m.fragmentSeqNo + 1 }
      match m.encoder.writePatPmt m.statics with
      | some (encoder, statics, calls) =>
          match { m with encoder := encoder, statics := statics }.perform f calls with
          | some m => some (m, f)
          | none => none
      | none => none

/-- `ParseCodec`. -/
def parseCodec (m : HLSMuxer) (fragment : FragmentPtr) (packet : Packet ε) : Option HLSMuxer :=
  let set (vc ac : UInt8) : Option HLSMuxer :=
    match m.encoder.setStreamType m.statics vc ac with
    | some (encoder, statics, calls) =>
        { m with encoder := encoder, statics := statics }.perform fragment calls
    | none => none
  if packet.isAudio then
    set kVideoCodecIDReserved ((packet.data.getD 0 0 &&& 0xf0) >>> 4)
  else if packet.isVideo then
    set (packet.data.getD 0 0 &&& 0x0f) kAudioCodecIDReserved
  else
    some m

/-- The third part of `OnPacket`: the streams are set by a header. -/
def parseHeader (m : HLSMuxer) (fragment : FragmentPtr) (packet : Packet ε) : Option HLSMuxer :=
  if isCodecHeader packet then m.parseCodec fragment packet else some m

/-- The last part of `OnPacket`: the packet is encoded at its timestamp as an `int64_t`. -/
def encode (m : HLSMuxer) (fragment : FragmentPtr) (packet : Packet ε) : Option HLSMuxer :=
  let v := m.memory.fragments fragment
  match m.encoder.encode v.writer packet packet.timestamp.toBitVec.toInt with
  | some (encoder, writer, calls, _) =>
      { m with
        encoder := encoder
        memory := m.memory.setFragment fragment { v with writer := writer } }.perform fragment
        calls
  | none => none

/-- `OnPacket` at a reading of the clock. -/
def onPacket (m : HLSMuxer) (now : Int) (packet : Packet ε) : Option HLSMuxer :=
  match (m.closeFragment packet).openFragment now with
  | some (m, f) =>
      match m.parseHeader f packet with
      | some m => m.encode f packet
      | none => none
  | none => none

/-- `GetFragment`. -/
def getFragment (m : HLSMuxer) (name : String) : Option FragmentPtr :=
  m.fragmentWindow.getFragmentByName m.memory name

end HLSMuxer
