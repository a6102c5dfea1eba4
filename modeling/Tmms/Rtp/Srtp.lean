import Tmms.Rtp.Packets

/-!
# SRTP

`Srtp` protects packets with libsrtp, whose part for senders is here as far as it decides under
which index a packet is protected: the limit of the key, and for every source the rollover
counter and the sequence number of the last packet, as one index of 48 bits.  Packets may be
sent again (`allow_repeat_tx`), so the window of the replay database refuses a packet only if
it is too old, and its bits are left out.

An index is guessed from the low 16 bits.  It is guessed right while the packet is within
`2 ^ 15` of the last one (`srtpRdbxEstimateIndex_eq`).
-/

/-- `seq_num_median`. -/
def seqNumMedian : Int := 0x8000

/-- `seq_num_max`. -/
def seqNumMax : Int := 0x10000

/-- The rollover counter a sequence number is guessed to belong to, and how far the guess is
from the last index. -/
def guessRoc (localRoc localSeq s : Int) : Int × Int :=
  if localSeq < seqNumMedian then
    if s - localSeq > seqNumMedian then
      (localRoc - 1, s - localSeq - seqNumMax)
    else
      (localRoc, s - localSeq)
  else
    if localSeq - seqNumMedian > s then
      (localRoc + 1, s - localSeq + seqNumMax)
    else
      (localRoc, s - localSeq)

/-- `srtp_index_guess`, the guess, whose rollover counter has 32 bits, and how far it is from
the last index. -/
def srtpIndexGuess (last : Nat) (s : UInt16) : Nat × Int :=
  let guess := guessRoc (last / 65536 : Nat) (last % 65536 : Nat) s.toNat
  (65536 * (guess.1 % 4294967296).toNat + s.toNat, guess.2)

/-- `srtp_rdbx_estimate_index`. -/
def srtpRdbxEstimateIndex (last : Nat) (s : UInt16) : Nat × Int :=
  if last > seqNumMedian then
    srtpIndexGuess last s
  else
    (s.toNat, (s.toNat : Int) - (last % 65536 : Nat))

/-- The window size of `Srtp::Init`. -/
def srtpWindowSize : Int := 4096

/-- `srtp_rdbx_check` finds that a packet is too old. -/
def srtpRdbxTooOld (delta : Int) : Bool :=
  !(delta > 0) && srtpWindowSize - 1 + delta < 0

/-- `srtp_rdbx_add_index`. -/
def srtpRdbxAddIndex (last : Nat) (delta : Int) : Nat :=
  if delta > 0 then last + delta.toNat else last

/-- A sending context: its key, how often the key may still be used, and the last index of
every source. -/
structure SrtpContext where
  key : List UInt8
  numLeft : UInt64
  index : UInt32 → Nat

namespace SrtpContext

/-- `srtp_create` for any outbound source. -/
def create (key : List UInt8) : SrtpContext where
  key := key
  numLeft := 0xffffffffffff
  index _ := 0

/-- `srtp_protect`: the index the packet is protected under, if it is. -/
def protect (ctx : SrtpContext) (packet : Packet Unit) : Option Nat × SrtpContext :=
  if packet.data.length < Rtp.headerSize then
    (none, ctx)
  else
    let ctx := { ctx with numLeft := ctx.numLeft - 1 }
    if ctx.numLeft < 1 then
      (none, ctx)
    else
      let (est, delta) := srtpRdbxEstimateIndex (ctx.index packet.wireSsrc) packet.wireSeq
      if srtpRdbxTooOld delta then
        (none, ctx)
      else
        let last := srtpRdbxAddIndex (ctx.index packet.wireSsrc) delta
        (some est,
          { ctx with index := fun ssrc => if ssrc = packet.wireSsrc then last else ctx.index ssrc })

end SrtpContext

/-- `SRTP_MAX_TRAILER_LEN`. -/
def srtpMaxTrailerLen : Nat := 16 + 128

/-- `kSrtpMaxBufferSize`. -/
def kSrtpMaxBufferSize : Nat := 65535

/-- `Srtp::RtpProtect`: the index the packet is protected under, if it is. -/
def SrtpContext.rtpProtect (ctx : SrtpContext) (packet : Packet Unit) :
    Option Nat × SrtpContext :=
  if int32 packet.size + srtpMaxTrailerLen ≥ kSrtpMaxBufferSize then
    (none, ctx)
  else
    ctx.protect packet

/-! ### Guessing -/

/-- The rollover counter of a packet near to the last one. -/
theorem guessRoc_eq {last i : Nat} (hbefore : last < i + 2 ^ 15) (hafter : i < last + 2 ^ 15) :
  guessRoc (last / 65536 : Nat) (last % 65536 : Nat) (i % 65536 : Nat) =
    (((i / 65536 : Nat) : Int), (i : Int) - last)
  := by
  have hmedian : seqNumMedian = 0x8000 := rfl
  have hmax : seqNumMax = 0x10000 := rfl
  rw [guessRoc, hmedian, hmax]
  split
  · split
    · rw [Prod.mk.injEq]
      omega
    · rw [Prod.mk.injEq]
      omega
  · split
    · rw [Prod.mk.injEq]
      omega
    · rw [Prod.mk.injEq]
      omega

/-- The index of a packet near to the last one is guessed from its low 16 bits. -/
theorem srtpRdbxEstimateIndex_eq {last i : Nat} {s : UInt16} (hs : s.toNat = i % 65536)
    (hi : i < 2 ^ 48) (hbefore : last < i + 2 ^ 15) (hafter : i < last + 2 ^ 15) :
  srtpRdbxEstimateIndex last s = (i, (i : Int) - last)
  := by
  rw [srtpRdbxEstimateIndex]
  split
  · rw [srtpIndexGuess, hs, guessRoc_eq hbefore hafter]
    apply Prod.ext
    · dsimp only
      omega
    · rfl
  · rename_i hlast
    have hmedian : seqNumMedian = 0x8000 := rfl
    rw [hmedian] at hlast
    have hsmall : i % 65536 = i := by omega
    have hwhole : last % 65536 = last := by omega
    rw [hs, hsmall, hwhole]

/-! ### Protecting -/

namespace SrtpContext

/-- The context after a packet has been protected under an index. -/
def advance (ctx : SrtpContext) (ssrc : UInt32) (i : Nat) : SrtpContext :=
  { ctx with
    numLeft := ctx.numLeft - 1
    index := fun s => if s = ssrc then max (ctx.index ssrc) i else ctx.index s }

/-- A packet near to the last one of its source is protected under its index. -/
theorem protect_eq (ctx : SrtpContext) {packet : Packet Unit} {i : Nat}
    (hlen : Rtp.headerSize ≤ packet.data.length) (hseq : packet.wireSeq.toNat = i % 65536)
    (hi : i < 2 ^ 48) (hbefore : ctx.index packet.wireSsrc < i + 4096)
    (hafter : i < ctx.index packet.wireSsrc + 2 ^ 15) (hleft : 1 < ctx.numLeft.toNat) :
  ctx.protect packet = (some i, ctx.advance packet.wireSsrc i)
  := by
  have hone : (ctx.numLeft - 1).toNat = ctx.numLeft.toNat - 1
    := UInt64.toNat_sub_of_le _ _ (by rw [UInt64.le_iff_toNat_le]; exact Nat.le_of_lt hleft)
  have hexpired : ¬ (ctx.numLeft - 1 < 1)
    := by
    rw [UInt64.lt_iff_toNat_lt, hone, show (1 : UInt64).toNat = 1 from rfl]
    omega
  have hestimate := srtpRdbxEstimateIndex_eq hseq hi (by omega) hafter
  have hold : srtpRdbxTooOld ((i : Int) - ctx.index packet.wireSsrc) = false
    := by
    have hwindow : srtpWindowSize = 4096 := rfl
    rw [srtpRdbxTooOld, hwindow, Bool.and_eq_false_iff]
    right
    rw [decide_eq_false_iff_not]
    omega
  have hadd : srtpRdbxAddIndex (ctx.index packet.wireSsrc)
      ((i : Int) - ctx.index packet.wireSsrc) = max (ctx.index packet.wireSsrc) i
    := by
    rw [srtpRdbxAddIndex]
    split
    · omega
    · omega
  rw [protect, if_neg (Nat.not_lt_of_le hlen)]
  dsimp only
  rw [if_neg hexpired, hestimate]
  dsimp only
  rw [hold, hadd]
  rfl

/-- A packet is refused for its size, or goes to libsrtp. -/
theorem rtpProtect_cases (ctx : SrtpContext) (packet : Packet Unit) :
  ctx.rtpProtect packet = (none, ctx) ∨ ctx.rtpProtect packet = ctx.protect packet
  := by
  rw [rtpProtect]
  split
  · exact .inl rfl
  · exact .inr rfl

/-- Small packets go to libsrtp. -/
theorem rtpProtect_of_small (ctx : SrtpContext) {packet : Packet Unit} (h : packet.Small)
    (hsize : packet.size = UInt32.ofNat packet.data.length) :
  ctx.rtpProtect packet = ctx.protect packet
  := by
  have hopus : packet.data.length ≤ 32780 := h
  have hlen : packet.size.toNat = packet.data.length
    := by
    rw [hsize, UInt32.toNat_ofNat']
    exact Nat.mod_eq_of_lt (by omega)
  rw [rtpProtect, if_neg]
  rw [int32_of_lt (by omega), hlen]
  have htrailer : srtpMaxTrailerLen = 144 := rfl
  have hmax : kSrtpMaxBufferSize = 65535 := rfl
  omega

end SrtpContext
