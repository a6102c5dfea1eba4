import Tmms.Demux.AvccUnits

/-!
# NAL units behind start codes

`DecodeAVCNaluAnnexb` finds where a NAL unit and the next one start, but takes the bytes from a
pointer that stays behind by the first start code.  So the first sample begins with the start code,
and every sample has the start code of the next NAL unit in its size: there are as many samples as
units, but none of them is the unit (`decodeAnnexb_framed`, `not_splitsAnnexb`).
-/

open BytesReader

namespace VideoDemux

/-! ### Turns of the loop -/

/-- A turn of the loop refuses a NAL unit, and ends, or takes one. -/
theorem annexbWithin_turn {turns n : Nat} {data : List UInt8} {d : VideoDemux}
    {naluStart pos size : Nat} {outs : List Extent} {ret : Int} (hin : naluStart < data.length)
    {r : VideoDemux × List Extent × Int}
    (h : annexbWithin turns data (n + 1) d naluStart pos size outs ret = .ok r) :
  ∃ next nalu, findWithin data turns (naluStart + 1 + 2) = .ok next ∧
    nalu = toInt32 (next - naluStart) ∧
    ((nalu < 0 ∨ nalu > size ∨ size = 0) ∧ r = (d, outs, -1) ∨
      ¬ (nalu < 0 ∨ nalu > size ∨ size = 0) ∧
      ∃ d', (d.checkNaluType (data.getD naluStart 0)).lookWithin turns (data.drop pos) nalu.toNat =
          .ok d' ∧
        annexbWithin turns data n d' next (pos + nalu.toNat) (subSize size nalu.toNat)
          (outs ++ [⟨pos, nalu.toNat⟩]) 0 = .ok r)
  := by
  rw [annexbWithin, if_pos hin] at h
  cases hfind : findWithin data turns (naluStart + 1 + 2) with
  | error fault =>
      rw [hfind] at h
      cases h
  | ok next =>
      rw [hfind] at h
      refine ⟨next, _, rfl, rfl, ?_⟩
      change (if _ then _ else _) = _ at h
      split at h
      · rename_i hrefused
        cases h
        exact .inl ⟨hrefused, rfl⟩
      · rename_i htaken
        rw [byteAt_of_lt hin] at h
        change (lookWithin turns (d.checkNaluType (data.getD naluStart 0)) (data.drop pos) _ >>= _) =
          _ at h
        cases hlook : (d.checkNaluType (data.getD naluStart 0)).lookWithin turns (data.drop pos)
            (toInt32 (next - naluStart)).toNat with
        | error fault =>
            rw [hlook] at h
            cases h
        | ok d' =>
            rw [hlook] at h
            exact .inr ⟨htaken, d', rfl, h⟩

/-- Behind the last NAL unit the loop ends. -/
theorem annexbWithin_end {turns n : Nat} {data : List UInt8} {d : VideoDemux}
    {naluStart pos size : Nat} {outs : List Extent} {ret : Int} (hin : ¬ naluStart < data.length)
    {r : VideoDemux × List Extent × Int}
    (h : annexbWithin turns data (n + 1) d naluStart pos size outs ret = .ok r) :
  r = (d, outs, ret)
  := by
  rw [annexbWithin, if_neg hin] at h
  cases h
  rfl

/-- Samples are added behind those there are. -/
theorem annexbWithin_adds {turns n : Nat} {data : List UInt8} {d d' : VideoDemux}
    {naluStart pos size : Nat} {outs outs' : List Extent} {ret ret' : Int}
    (h : annexbWithin turns data n d naluStart pos size outs ret = .ok (d', outs', ret')) :
  outs <+: outs'
  := by
  induction n generalizing d naluStart pos size outs ret with
  | zero => cases h
  | succ n ih =>
      by_cases hin : naluStart < data.length
      · obtain ⟨next, nalu, -, -, ⟨-, hr⟩ | ⟨-, d₁, -, hrun⟩⟩ := annexbWithin_turn hin h
        · cases hr
          exact List.prefix_rfl
        · exact (List.prefix_append _ _).trans (ih hrun)
      · cases annexbWithin_end hin h
        exact List.prefix_rfl

end VideoDemux

/-! ### Framing -/

/-- A NAL unit, and if the start code in front of it has four bytes. -/
structure AnnexbUnit where
  long : Bool
  bytes : List UInt8
  nonempty : bytes ≠ []
  free : ∀ b ∈ [(0x00 : UInt8), 0x01, 0x02], ¬ [0x00, 0x00, b] <:+: bytes
  last : bytes.getLast? ≠ some 0x00

namespace AnnexbUnit

/-- The start code. -/
def code (u : AnnexbUnit) : List UInt8 :=
  if u.long then [0x00, 0x00, 0x00, 0x01] else [0x00, 0x00, 0x01]

/-- A start code is two bytes of 0 or more, and 1. -/
theorem code_eq (u : AnnexbUnit) :
  ∃ zeros, u.code = List.replicate (zeros + 2) 0x00 ++ [0x01] ∧ u.code.length = zeros + 3
  := by
  rw [code]
  split
  · exact ⟨1, rfl, rfl⟩
  · exact ⟨0, rfl, rfl⟩

end AnnexbUnit

namespace VideoDemux

/-- NAL units, each behind a start code. -/
def annexb (units : List AnnexbUnit) : List UInt8 :=
  units.flatMap fun u => u.code ++ u.bytes

/-- Where NAL units stand that are behind start codes from a position on. -/
def unitsAt : Nat → List AnnexbUnit → List Extent
  | _, [] => []
  | pos, u :: units =>
      ⟨pos + u.code.length, u.bytes.length⟩ ::
        unitsAt (pos + u.code.length + u.bytes.length) units

/-- The list that is returned without an error is that of the NAL units. -/
def SplitsAnnexb (d : VideoDemux) (units : List AnnexbUnit) : Prop :=
  ∃ turns d', d.decodeAVCNaluAnnexbWithin turns (annexb units) 0 (annexb units).length [] =
    .ok (d', unitsAt 0 units, 0)

theorem annexb_cons (u : AnnexbUnit) (units : List AnnexbUnit) :
  annexb (u :: units) = u.code ++ (u.bytes ++ annexb units)
  := by
  rw [annexb, List.flatMap_cons, List.append_assoc]
  rfl

/-- Without an error there is a sample, and the first one starts where the data does. -/
theorem decodeAnnexb_first {turns : Nat} {d d' : VideoDemux} {data : List UInt8}
    {outs : List Extent}
    (h : d.decodeAVCNaluAnnexbWithin turns data 0 data.length [] = .ok (d', outs, 0)) :
  ∃ size more, outs = ⟨0, size⟩ :: more
  := by
  rw [decodeAVCNaluAnnexbWithin] at h
  split at h
  · cases h
  · cases hfind : findWithin data turns (0 + 2) with
    | error fault =>
        rw [hfind] at h
        cases h
    | ok naluStart =>
        rw [hfind] at h
        change annexbWithin turns data turns d naluStart 0 data.length [] (-1) = _ at h
        cases turns with
        | zero => cases h
        | succ turns =>
            by_cases hin : naluStart < data.length
            · obtain ⟨next, nalu, -, -, ⟨-, hr⟩ | ⟨-, d₁, -, hmore⟩⟩ := annexbWithin_turn hin h
              · cases hr
              · obtain ⟨more, hsamples⟩ := annexbWithin_adds hmore
                exact ⟨nalu.toNat, more, hsamples.symm⟩
            · cases annexbWithin_end hin h

/-! ### Start codes -/

/-- A start code ends at a position. -/
def EndsCode (data : List UInt8) (p : Nat) : Prop :=
  data.getD p 0 = 0x01 ∧ data.getD (p - 1) 0 = 0x00 ∧ data.getD (p - 2) 0 = 0x00

theorem findWithin_succ {data : List UInt8} {p : Nat} (hin : p + 1 < data.length) (n : Nat) :
  (EndsCode data p → findWithin data (n + 1) p = .ok (p + 1)) ∧
    (¬ EndsCode data p → findWithin data (n + 1) p = findWithin data n (p + 1))
  := by
  have hrun : findWithin data (n + 1) p = if data.getD p 0 = 0x01 ∧ data.getD (p - 1) 0 = 0x00 ∧
      data.getD (p - 2) 0 = 0x00 then .ok (p + 1) else findWithin data n (p + 1)
    := by
    rw [findWithin, if_pos hin, byteAt_of_lt (show p < data.length by omega),
      byteAt_of_lt (show p - 1 < data.length by omega),
      byteAt_of_lt (show p - 2 < data.length by omega)]
    rfl
  rw [hrun]
  exact ⟨fun h => if_pos h, fun h => if_neg h⟩

/-- Where no start code ends nothing is found. -/
theorem findWithin_skip {data : List UInt8} {p k : Nat} (hin : p + k < data.length)
    (hnone : ∀ i < k, ¬ EndsCode data (p + i)) (n : Nat) :
  findWithin data (n + k) p = findWithin data n (p + k)
  := by
  induction k generalizing p with
  | zero => rfl
  | succ k ih =>
      have hfirst := hnone 0 (Nat.succ_pos k)
      rw [← Nat.add_assoc, (findWithin_succ (show p + 1 < data.length by omega) (n + k)).2 hfirst,
        ih (by omega)]
      · rw [Nat.add_assoc, Nat.add_comm 1 k]
      · intro i hi
        rw [Nat.add_assoc, Nat.add_comm 1 i]
        exact hnone (i + 1) (Nat.succ_lt_succ hi)

theorem getD_of_drop {data bytes : List UInt8} {s : Nat} (h : data.drop s = bytes) (k : Nat) :
  data.getD (s + k) 0 = bytes.getD k 0
  := by
  rw [← h, List.getD_eq_getElem?_getD, List.getD_eq_getElem?_getD, List.getElem?_drop]

/-- A start code that ends in some bytes is in them. -/
theorem EndsCode.within {data x rest : List UInt8} {s k : Nat} (hdrop : data.drop s = x ++ rest)
    (hk : 2 ≤ k) (hlt : k < x.length) (h : EndsCode data (s + k)) :
  [0x00, 0x00, 0x01] <:+: x
  := by
  have hbyte : ∀ i, (hi : i < x.length) → data.getD (s + i) 0 = x[i]
    := by
    intro i hi
    rw [getD_of_drop hdrop, List.getD_eq_getElem?_getD, List.getElem?_append_left hi,
      List.getElem?_eq_getElem hi]
    rfl
  obtain ⟨j, rfl⟩ : ∃ j, k = j + 2 := ⟨k - 2, by omega⟩
  obtain ⟨hone, hzero, hzero'⟩ := h
  have hsecond : s + (j + 2) - 1 = s + (j + 1) := by omega
  have hfirst : s + (j + 2) - 2 = s + j := by omega
  rw [hbyte (j + 2) hlt] at hone
  rw [hsecond, hbyte (j + 1) (by omega)] at hzero
  rw [hfirst, hbyte j (by omega)] at hzero'
  have hrest : [0x00, 0x00, 0x01] ++ x.drop (j + 3) = x.drop j
    := by
    rw [List.drop_eq_getElem_cons (show j < x.length by omega),
      List.drop_eq_getElem_cons (show j + 1 < x.length by omega), List.drop_eq_getElem_cons hlt,
      hone, hzero, hzero']
    rfl
  refine ⟨x.take j, x.drop (j + 3), ?_⟩
  rw [List.append_assoc, hrest, List.take_append_drop]

/-- The next start code is found, behind bytes that have none. -/
theorem findWithin_code {data x rest : List UInt8} {s p n : Nat} (u : AnnexbUnit)
    (hdrop : data.drop s = x ++ (u.code ++ rest)) (hrest : rest ≠ [])
    (hfree : ¬ [0x00, 0x00, 0x01] <:+: x) (hp : s + 2 ≤ p)
    (hle : p + 1 ≤ s + x.length + u.code.length) (hn : data.length ≤ n) :
  findWithin data n p = .ok (s + x.length + u.code.length)
  := by
  obtain ⟨zeros, hcode, hlength⟩ := u.code_eq
  have hmore := List.length_pos_iff.mpr hrest
  have htotal : data.length - s = x.length + (u.code.length + rest.length)
    := by rw [← List.length_drop, hdrop, List.length_append, List.length_append]
  have hbehind : ∀ k, data.getD (s + (x.length + k)) 0 = (u.code ++ rest).getD k 0
    := by
    intro k
    rw [getD_of_drop hdrop, List.getD_eq_getElem?_getD, List.getElem?_append_right (by omega),
      Nat.add_sub_cancel_left, ← List.getD_eq_getElem?_getD]
  have hzero : ∀ k < zeros + 2, data.getD (s + (x.length + k)) 0 = 0x00
    := by
    intro k hk
    rw [hbehind, hcode, List.append_assoc, List.getD_eq_getElem?_getD,
      List.getElem?_append_left (by rwa [List.length_replicate]), List.getElem?_replicate,
      if_pos hk]
    rfl
  have hone : data.getD (s + (x.length + (zeros + 2))) 0 = 0x01
    := by
    rw [hbehind, hcode, List.append_assoc, List.getD_eq_getElem?_getD,
      List.getElem?_append_right (Nat.le_of_eq List.length_replicate), List.length_replicate,
      Nat.sub_self]
    rfl
  have hends : EndsCode data (s + (x.length + (zeros + 2)))
    := by
    refine ⟨hone, ?_, ?_⟩
    · rw [show s + (x.length + (zeros + 2)) - 1 = s + (x.length + (zeros + 1)) by omega]
      exact hzero (zeros + 1) (by omega)
    · rw [show s + (x.length + (zeros + 2)) - 2 = s + (x.length + zeros) by omega]
      exact hzero zeros (by omega)
  obtain ⟨k, hk⟩ : ∃ k, p + k = s + (x.length + (zeros + 2))
    := ⟨_, Nat.add_sub_of_le (by omega)⟩
  have hnone : ∀ i < k, ¬ EndsCode data (p + i)
    := by
    intro i hi hcode'
    obtain ⟨j, hj⟩ : ∃ j, p + i = s + j := ⟨p + i - s, by omega⟩
    rw [hj] at hcode'
    by_cases hin : j < x.length
    · exact hfree (hcode'.within hdrop (by omega) hin)
    · have hbyte := hzero (j - x.length) (by omega)
      rw [Nat.add_sub_of_le (by omega), hcode'.1] at hbyte
      cases hbyte
  obtain ⟨m, rfl⟩ : ∃ m, n = m + 1 + k := ⟨n - (k + 1), by omega⟩
  rw [findWithin_skip (by omega) hnone, hk, (findWithin_succ (by omega) m).1 hends, hlength]
  apply congrArg Except.ok
  omega

/-- Behind the last NAL unit there is no start code. -/
theorem findWithin_last {data x : List UInt8} {s p n : Nat} (hdrop : data.drop s = x)
    (hfree : ¬ [0x00, 0x00, 0x01] <:+: x) (hp : s + 2 ≤ p) (hn : data.length < n) :
  findWithin data n p = .ok data.length
  := by
  have hlength : x.length = data.length - s := by rw [← hdrop, List.length_drop]
  obtain ⟨k, hk⟩ | hend : (∃ k, p + k + 1 = data.length) ∨ data.length ≤ p
    := by
    by_cases hin : p < data.length
    · exact .inl ⟨data.length - p - 1, by omega⟩
    · exact .inr (by omega)
  · have hnone : ∀ i < k, ¬ EndsCode data (p + i)
      := by
      intro i hi hcode
      obtain ⟨j, hj⟩ : ∃ j, p + i = s + j := ⟨p + i - s, by omega⟩
      rw [hj] at hcode
      exact hfree (hcode.within (hdrop.trans (List.append_nil x).symm) (by omega) (by omega))
    obtain ⟨m, rfl⟩ : ∃ m, n = m + 1 + k := ⟨n - (k + 1), by omega⟩
    rw [findWithin_skip (by omega) hnone, findWithin, if_neg (by omega)]
  · obtain ⟨m, rfl⟩ : ∃ m, n = m + 1 := ⟨n - 1, by omega⟩
    rw [findWithin, if_neg (by omega)]

/-! ### What comes back -/

/-- The samples that come back: each starts before its NAL unit, by the length of the first start
code, and is as long as the NAL unit and the next start code. -/
def lagging (lag : Nat) : Nat → List AnnexbUnit → List Extent
  | _, [] => []
  | start, [u] => [⟨start - lag, u.bytes.length⟩]
  | start, u :: v :: units =>
      ⟨start - lag, u.bytes.length + v.code.length⟩ ::
        lagging lag (start + u.bytes.length + v.code.length) (v :: units)

/-- A NAL unit of a size that an `int32_t` can have is taken, if it is at most what is left. -/
theorem annexbWithin_takes {turns n : Nat} {data : List UInt8} {d : VideoDemux}
    {start pos size next : Nat} {outs : List Extent} {ret : Int} (hin : start < data.length)
    (hfind : findWithin data turns (start + 1 + 2) = .ok next) (hnext : start ≤ next)
    (hfits : next - start < 2 ^ 31) (hsize : next - start ≤ size) (hpos : 0 < size)
    {r : VideoDemux × List Extent × Int}
    (h : annexbWithin turns data (n + 1) d start pos size outs ret = .ok r) :
  ∃ d', annexbWithin turns data n d' next (pos + (next - start)) (size - (next - start))
    (outs ++ [⟨pos, next - start⟩]) 0 = .ok r
  := by
  obtain ⟨next', nalu, hfind', hnalu, hturn⟩ := annexbWithin_turn hin h
  obtain rfl : next = next' := Except.ok.inj (hfind.symm.trans hfind')
  rw [toInt32_of_fits (by omega) (by omega)] at hnalu
  obtain rfl : nalu = (next - start : Nat) := by omega
  obtain ⟨hrefused, -⟩ | ⟨-, d', -, hrun⟩ := hturn
  · omega
  · rw [Int.toNat_natCast, subSize_of_le hsize] at hrun
    exact ⟨d', hrun⟩

/-- A run that ends gives lagging samples. -/
theorem annexbWithin_lags {turns n lag : Nat} {data : List UInt8}
    (hturns : data.length < turns) (hfits : data.length < 2 ^ 31) {d d' : VideoDemux}
    {start pos size : Nat} (u : AnnexbUnit) {units : List AnnexbUnit}
    (hdrop : data.drop start = u.bytes ++ annexb units) (hlag : pos + lag = start)
    (hsize : pos + size = data.length) {outs outs' : List Extent} {ret ret' : Int}
    (h : annexbWithin turns data n d start pos size outs ret = .ok (d', outs', ret')) :
  outs' = outs ++ lagging lag start (u :: units) ∧ ret' = 0
  := by
  have hsome := fun u : AnnexbUnit => List.length_pos_iff.mpr u.nonempty
  have hfree : ∀ u : AnnexbUnit, ¬ [0x00, 0x00, 0x01] <:+: u.bytes
    := fun u => u.free 0x01 (by decide)
  induction units generalizing n d u start pos size outs ret with
  | nil =>
      cases n with
      | zero => cases h
      | succ n =>
          have hlength : data.length - start = u.bytes.length
            := by rw [← List.length_drop, hdrop, annexb, List.flatMap_nil, List.append_nil]
          have hu := hsome u
          rw [annexb, List.flatMap_nil, List.append_nil] at hdrop
          have hfind := findWithin_last hdrop (hfree u) (show start + 2 ≤ start + 1 + 2 by omega)
            hturns
          obtain ⟨d₁, hrun⟩ := annexbWithin_takes (by omega) hfind (by omega) (by omega) (by omega)
            (by omega) h
          cases n with
          | zero => cases hrun
          | succ n =>
              cases annexbWithin_end (Nat.lt_irrefl _) hrun
              rw [hlength, show pos = start - lag by omega]
              exact ⟨rfl, rfl⟩
  | cons v units ih =>
      cases n with
      | zero => cases h
      | succ n =>
          have hu := hsome u
          obtain ⟨zeros, -, hcode⟩ := v.code_eq
          rw [annexb_cons] at hdrop
          have hlength : data.length - start =
              u.bytes.length + (v.code.length + (v.bytes.length + (annexb units).length))
            := by
            rw [← List.length_drop, hdrop, List.length_append, List.length_append,
              List.length_append]
          have hfind := findWithin_code v hdrop (List.append_ne_nil_of_left_ne_nil v.nonempty _)
            (hfree u) (show start + 2 ≤ start + 1 + 2 by omega) (by omega) (Nat.le_of_lt hturns)
          obtain ⟨d₁, hrun⟩ := annexbWithin_takes (by omega) hfind (by omega) (by omega) (by omega)
            (by omega) h
          have hnext : data.drop (start + u.bytes.length + v.code.length) = v.bytes ++ annexb units
            := by
            rw [Nat.add_assoc, ← List.drop_drop, hdrop, ← List.drop_drop, List.drop_left' rfl,
              List.drop_left' rfl]
          obtain ⟨houts, hret⟩ := ih v hnext (by omega) (by omega) hrun
          refine ⟨?_, hret⟩
          rw [houts, List.append_assoc, lagging,
            show start + u.bytes.length + v.code.length - start = u.bytes.length + v.code.length
              by omega, show pos = start - lag by omega]
          rfl

/-- There is a sample for every NAL unit, but it is not the NAL unit. -/
theorem decodeAnnexb_framed (d : VideoDemux) (u : AnnexbUnit) (units : List AnnexbUnit)
    (hfits : (annexb (u :: units)).length < 2 ^ 31) {turns : Nat}
    (hturns : 8 * (annexb (u :: units)).length + 8 < turns) :
  ∃ d', d.decodeAVCNaluAnnexbWithin turns (annexb (u :: units)) 0 (annexb (u :: units)).length [] =
    .ok (d', lagging u.code.length u.code.length (u :: units), 0)
  := by
  obtain ⟨d', outs, ret, hrun, -⟩ :=
    decodeAVCNaluAnnexbWithin_ok hturns d (Nat.zero_add _) (List.forall_mem_nil _)
  obtain ⟨zeros, -, hcode⟩ := u.code_eq
  have hu := List.length_pos_iff.mpr u.nonempty
  have hlength : (annexb (u :: units)).length =
      u.code.length + (u.bytes.length + (annexb units).length)
    := by rw [annexb_cons, List.length_append, List.length_append]
  have hdrop : (annexb (u :: units)).drop 0 = [] ++ (u.code ++ (u.bytes ++ annexb units))
    := annexb_cons u units
  have hfind := findWithin_code u hdrop (List.append_ne_nil_of_left_ne_nil u.nonempty _)
    (fun h => nomatch List.infix_nil.mp h) (Nat.le_refl (0 + 2)) (by rw [List.length_nil]; omega)
    (show (annexb (u :: units)).length ≤ turns by omega)
  rw [List.length_nil, Nat.add_zero, Nat.zero_add] at hfind
  have hfirst : (annexb (u :: units)).drop u.code.length = u.bytes ++ annexb units
    := by
    rw [annexb_cons]
    exact List.drop_left' rfl
  refine ⟨d', hrun.trans ?_⟩
  rw [decodeAVCNaluAnnexbWithin, if_neg (by omega), hfind] at hrun
  obtain ⟨rfl, rfl⟩ := annexbWithin_lags (by omega) hfits u hfirst (Nat.zero_add _)
    (Nat.zero_add _) hrun
  rfl

/-- No NAL units come back, as the first sample starts where the first start code does.  There is a
sample for every unit, which starts too early by the first start code and ends behind the next
one. -/
theorem not_splitsAnnexb (d : VideoDemux) (units : List AnnexbUnit) :
  ¬ d.SplitsAnnexb units ∧
    ∀ u rest, units = u :: rest → (annexb units).length < 2 ^ 31 →
      ∃ turns d', d.decodeAVCNaluAnnexbWithin turns (annexb units) 0 (annexb units).length [] =
        .ok (d', lagging u.code.length u.code.length units, 0)
  := by
  constructor
  · rintro ⟨turns, d', hrun⟩
    obtain ⟨size, more, hsamples⟩ := decodeAnnexb_first hrun
    cases units with
    | nil => cases hsamples
    | cons u units =>
        obtain ⟨zeros, -, hlength⟩ := u.code_eq
        injection hsamples with hfirst
        injection hfirst with hstart
        omega
  · rintro u rest rfl hfits
    exact ⟨_, decodeAnnexb_framed d u rest hfits (Nat.lt_succ_self _)⟩

/-- One NAL unit of two bytes. -/
theorem not_splitsAnnexb_one :
  ¬ SplitsAnnexb {} [⟨false, [0x65, 0x88], by decide, by decide +kernel, by decide⟩]
  := by
  rintro ⟨turns, d', hrun⟩
  obtain ⟨size, more, hsamples⟩ := decodeAnnexb_first hrun
  cases hsamples

end VideoDemux
