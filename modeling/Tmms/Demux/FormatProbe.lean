import Tmms.Demux.AnnexbUnits

/-!
# Probing the format of a payload

While the format is unknown `DecodeAvcNalu` takes NAL units behind lengths first, and when that
fails NAL units behind start codes, with what the first attempt has left in the list and in the
flags.  So the call is that of the second attempt alone if the first one refuses the first length
already (`leavesNoTrace_iff`).  What a second attempt leaves when it fails as well is nothing, but
for a NAL unit of a size that an `int32_t` does not have, behind others that were taken.
-/

open BytesReader

namespace VideoDemux

/-! ### The first attempt -/

/-- The lengths lead to the end: each is whole and at most what is left, and nothing is read
outside. -/
inductive ReadsThrough (d : VideoDemux) : Bool → List UInt8 → Prop
  | done {flag : Bool} {data : List UInt8} : data.length ≤ 1 → ReadsThrough d flag data
  | next {flag : Bool} {data : List UInt8} :
      d.lengthSize < data.length →
      d.naluSize data ≤ (data.drop d.lengthSize).length →
      ¬ (flag = false ∧ d.naluSize data = (data.drop d.lengthSize).length ∧
        CutsShort (data.drop d.lengthSize)) →
      ReadsThrough d (flag || isBFrame (d.naluSize data) (data.drop d.lengthSize))
        (data.drop (d.lengthSize + d.naluSize data)) →
      ReadsThrough d flag data

theorem ReadsThrough.congr {d d' : VideoDemux} {flag : Bool} {data : List UInt8}
    (h : ReadsThrough d flag data) (hunit : d'.naluUnitLength = d.naluUnitLength) :
  ReadsThrough d' flag data
  := by
  have hw : d'.lengthSize = d.lengthSize := congrArg (·.toNat + 1) hunit
  induction h with
  | done hle => exact .done hle
  | next hlt hle hcuts _ ih =>
      rw [← hw] at hlt hle hcuts ih
      rw [← naluSize_congr hunit] at hle hcuts ih
      exact .next hlt hle hcuts ih

/-- A first length that is refused leaves everything as it was. -/
theorem avccWithin_refuses {turns n : Nat} {d : VideoDemux} {data : List UInt8} {pos size : Nat}
    (hsize : pos + size = data.length) (h : d.RefusesFirst (data.drop pos)) (outs : List Extent) :
  avccWithin turns data (n + 1) d pos size outs = .ok (d, outs, -1)
  := by
  have hlength : (data.drop pos).length = size := length_of_drop rfl hsize
  obtain ⟨hmore, hwhole, hend⟩ := h
  rw [hlength] at hmore hwhole hend
  have hw : d.lengthSize = d.naluUnitLength.toNat + 1 := rfl
  obtain ⟨hle, -⟩ | ⟨-, -, hrun⟩ | ⟨hin, hle, -⟩ :=
    avccWithin_succ turns n outs hsize hmore (show pos + d.lengthSize = _ from rfl) rfl
  · omega
  · exact hrun
  · omega

/-- What is behind a NAL unit that is taken. -/
theorem drop_taken {data : List UInt8} {pos w nalu start : Nat} (hstart : start = pos + w) :
  (data.drop pos).drop w = data.drop start ∧
    (data.drop pos).drop (w + nalu) = data.drop (start + nalu)
  := by
  rw [List.drop_drop, List.drop_drop, hstart, Nat.add_assoc]
  exact ⟨rfl, rfl⟩

/-- An attempt that does not fail has read through. -/
theorem readsThrough_of_ok {turns n : Nat} {d d' : VideoDemux} {data : List UInt8}
    {pos size : Nat} {outs outs' : List Extent} (hsize : pos + size = data.length)
    (h : avccWithin turns data n d pos size outs = .ok (d', outs', 0)) :
  ReadsThrough d d.hasBFrame (data.drop pos)
  := by
  induction n generalizing d pos size outs with
  | zero => cases h
  | succ n ih =>
      have hlength : (data.drop pos).length = size := length_of_drop rfl hsize
      rcases avccWithin_cases hsize h with ⟨hend, -⟩ | ⟨-, hr⟩ |
        ⟨d₁, start, nalu, hstart, hnalu, hin, hle, hunit, hflag, hcuts, hrun⟩
      · exact .done (Nat.le_trans (Nat.le_of_eq hlength) hend)
      · cases hr
      · obtain ⟨hunits, hrest⟩ := @drop_taken data _ _ nalu _ hstart
        have hbehind : (data.drop start).length = data.length - start := List.length_drop
        have hmore := (ih (Nat.add_sub_of_le hle) hrun).congr hunit.symm
        rw [hflag, ← hunits, ← hrest] at hmore
        rw [← hunits] at hcuts hbehind
        subst hnalu
        refine .next ?_ ?_ hcuts hmore
        · omega
        · omega

theorem ReadsThrough.not_overruns {d : VideoDemux} {flag : Bool} {data : List UInt8}
    (h : ReadsThrough d flag data) :
  ¬ Overruns d flag data
  := by
  have hw : d.lengthSize = d.naluUnitLength.toNat + 1 := rfl
  induction h with
  | done hle =>
      intro hover
      exact Nat.not_lt_of_le hle hover.one_lt
  | next hlt _ hcuts _ ih =>
      intro hover
      cases hover with
      | length _ hle => omega
      | slice _ hnalu hshort => exact hcuts ⟨rfl, hnalu, hshort⟩
      | next _ _ hmore => exact ih hmore

/-- An attempt that reads through refuses no length. -/
theorem ReadsThrough.ret_eq {turns n : Nat} {d d' : VideoDemux} {data : List UInt8}
    {pos size : Nat} {outs outs' : List Extent} {ret : Int}
    (h : ReadsThrough d d.hasBFrame (data.drop pos)) (hsize : pos + size = data.length)
    (hrun : avccWithin turns data n d pos size outs = .ok (d', outs', ret)) :
  ret = 0
  := by
  induction n generalizing d pos size outs with
  | zero => cases hrun
  | succ n ih =>
      have hlength : (data.drop pos).length = size := length_of_drop rfl hsize
      rcases avccWithin_cases hsize hrun with ⟨-, hr⟩ | ⟨⟨hmore, -, hend⟩, -⟩ |
        ⟨d₁, start, nalu, hstart, hnalu, hin, hle, hunit, hflag, -, hrest⟩
      · cases hr
        rfl
      · cases h with
        | done hshort => omega
        | next hlt hle =>
            rw [List.length_drop] at hle
            omega
      · obtain ⟨hunits, hbehind⟩ := @drop_taken data _ _ nalu _ hstart
        cases h with
        | done hshort =>
            have hw : 0 < d.lengthSize := Nat.succ_pos _
            omega
        | next _ _ _ hthrough =>
            rw [← hnalu, hunits, hbehind, ← hflag] at hthrough
            exact ih (hthrough.congr hunit) (Nat.add_sub_of_le hle) hrest

/-- An attempt that reads through does not fail. -/
theorem ReadsThrough.ok {turns n : Nat} {d : VideoDemux} {data : List UInt8} {pos size : Nat}
    (h : ReadsThrough d d.hasBFrame (data.drop pos)) (hturns : 8 * data.length + 8 < turns)
    (hn : size < n) (hsize : pos + size = data.length) :
  ∃ d' outs', avccWithin turns data n d pos size [] = .ok (d', outs', 0)
  := by
  obtain ⟨d', outs', ret, hrun, -⟩ :=
    avccWithin_ok hturns hn hsize h.not_overruns (List.forall_mem_nil _)
  rw [h.ret_eq hsize hrun] at hrun
  exact ⟨d', outs', hrun⟩

/-- An attempt that fails has refused the first length, or taken samples. -/
theorem avccWithin_failed {turns n : Nat} {d d' : VideoDemux} {data : List UInt8}
    {pos size : Nat} {outs' : List Extent} {ret : Int} (hsize : pos + size = data.length)
    (h : avccWithin turns data n d pos size [] = .ok (d', outs', ret)) (hret : ret ≠ 0) :
  d.RefusesFirst (data.drop pos) ∨ outs' ≠ []
  := by
  cases n with
  | zero => cases h
  | succ n =>
      rcases avccWithin_cases hsize h with ⟨-, hr⟩ | ⟨hrefused, -⟩ |
        ⟨d₁, start, nalu, -, -, -, hle, -, -, -, hrun⟩
      · cases hr
        exact absurd rfl hret
      · exact .inl hrefused
      · right
        rintro rfl
        cases List.prefix_nil.mp (avccWithin_adds (Nat.add_sub_of_le hle) hrun)

/-! ### The second attempt -/

/-- What is found does not depend on the turns. -/
theorem findWithin_eq {data : List UInt8} {n m p q : Nat} (hm : data.length ≤ m + p)
    (h : findWithin data n p = .ok q) :
  q = findLoop data m p
  := by
  induction n generalizing m p with
  | zero => cases h
  | succ n ih =>
      by_cases hin : p + 1 < data.length
      · obtain ⟨m, rfl⟩ : ∃ k, m = k + 1 := ⟨m - 1, by omega⟩
        obtain ⟨hfound, hnext⟩ := findWithin_succ hin n
        rw [findLoop, if_pos hin]
        by_cases hcode : EndsCode data p
        · rw [hfound hcode] at h
          cases h
          exact (if_pos hcode).symm
        · rw [hnext hcode] at h
          exact (ih (by omega) h).trans (if_neg hcode).symm
      · rw [findWithin, if_neg hin] at h
        cases h
        cases m with
        | zero => rfl
        | succ m => exact (if_neg hin).symm

/-- What a turn refuses or takes goes up to the start code that is found behind it. -/
theorem annexbWithin_next {turns n : Nat} {data : List UInt8} (hturns : data.length < turns)
    {d : VideoDemux} {start pos size : Nat} (hin : start < data.length) {outs : List Extent}
    {ret : Int} {r : VideoDemux × List Extent × Int}
    (h : annexbWithin turns data (n + 1) d start pos size outs ret = .ok r) :
  ∃ next nalu, next = findAnnexbNalu data (start + 1) ∧ (start < next ∧ next ≤ data.length) ∧
    nalu = toInt32 (next - start) ∧ nalu ≤ next - start ∧
    ((nalu < 0 ∨ nalu > size ∨ size = 0) ∧ r = (d, outs, -1) ∨
      0 ≤ nalu ∧ nalu ≤ size ∧ ∃ d',
        annexbWithin turns data n d' next (pos + nalu.toNat) (size - nalu.toNat)
          (outs ++ [⟨pos, nalu.toNat⟩]) 0 = .ok r)
  := by
  obtain ⟨next, nalu, hfind, hnalu, hturn⟩ := annexbWithin_turn hin h
  obtain ⟨next', hfind', hnext, hbehind⟩ :=
    findWithin_ok (show data.length < turns + (start + 1 + 2) by omega) (show 0 < turns by omega)
  obtain rfl := Except.ok.inj (hfind.symm.trans hfind')
  have hle := toInt32_le (next - start)
  rw [Int.ofNat_sub (by omega), ← hnalu] at hle
  refine ⟨next, nalu, findWithin_eq (by omega) hfind, ⟨by omega, hnext⟩, hnalu, hle, ?_⟩
  obtain hrefused | ⟨htaken, d', -, hrun⟩ := hturn
  · exact .inl hrefused
  · rw [subSize_of_le (by omega)] at hrun
    exact .inr ⟨by omega, by omega, d', hrun⟩

/-- A NAL unit from a position on is refused: its size is none of an `int32_t`. -/
inductive RefusesAt (data : List UInt8) : Nat → Prop
  | here {start : Nat} : start < data.length →
      toInt32 (findAnnexbNalu data (start + 1) - start) < 0 → RefusesAt data start
  | next {start : Nat} : start < data.length → RefusesAt data (findAnnexbNalu data (start + 1)) →
      RefusesAt data start

/-- A NAL unit is refused behind one that is taken. -/
def RefusesLate (data : List UInt8) (pos : Nat) : Prop :=
  let start := findAnnexbNalu data pos
  start < data.length ∧ 0 ≤ toInt32 (findAnnexbNalu data (start + 1) - start) ∧
    RefusesAt data (findAnnexbNalu data (start + 1))

/-- What a run returns: a NAL unit is refused, or all are taken. -/
theorem annexbWithin_ret {turns n : Nat} {data : List UInt8} (hturns : data.length < turns)
    {d d' : VideoDemux} {start pos size : Nat} (hlag : start < data.length → pos < start)
    (hsize : pos + size = data.length) {outs outs' : List Extent} {ret ret' : Int}
    (h : annexbWithin turns data n d start pos size outs ret = .ok (d', outs', ret')) :
  (RefusesAt data start → ret' = -1) ∧
    (¬ RefusesAt data start → ret' = if start < data.length then 0 else ret)
  := by
  induction n generalizing d start pos size outs ret with
  | zero => cases h
  | succ n ih =>
      by_cases hin : start < data.length
      · have hbefore := hlag hin
        obtain ⟨next, nalu, hfound, hnext, hnalu, hle, hturn⟩ := annexbWithin_next hturns hin h
        obtain ⟨hrefused, hr⟩ | ⟨hpos, hfits, d₁, hrun⟩ := hturn
        · cases hr
          have hhere : RefusesAt data start := .here hin (by rw [← hfound, ← hnalu]; omega)
          exact ⟨fun _ => rfl, fun hnot => absurd hhere hnot⟩
        · obtain ⟨hrefuses, hall⟩ := ih (by omega) (by omega) hrun
          rw [hfound] at hrefuses hall
          constructor
          · rintro (⟨-, hhere⟩ | ⟨-, hmore⟩)
            · rw [← hfound, ← hnalu] at hhere
              omega
            · exact hrefuses hmore
          · intro hnot
            rw [if_pos hin, hall fun hmore => hnot (.next hin hmore)]
            exact ite_self 0
      · cases annexbWithin_end hin h
        rw [if_neg hin]
        refine ⟨?_, fun _ => rfl⟩
        rintro (⟨hlt, -⟩ | ⟨hlt, -⟩)
        · exact absurd hlt hin
        · exact absurd hlt hin

/-- The samples and what is returned do not depend on the state. -/
theorem annexbWithin_same {turns n : Nat} {data : List UInt8} {d₁ d₁' d₂ d₂' : VideoDemux}
    {start pos size : Nat} {outs₁ outs₁' outs₂ outs₂' : List Extent} {ret ret₁ ret₂ : Int}
    (h₁ : annexbWithin turns data n d₁ start pos size outs₁ ret = .ok (d₁', outs₁', ret₁))
    (h₂ : annexbWithin turns data n d₂ start pos size outs₂ ret = .ok (d₂', outs₂', ret₂)) :
  ret₁ = ret₂ ∧ ∃ more, outs₁' = outs₁ ++ more ∧ outs₂' = outs₂ ++ more
  := by
  induction n generalizing d₁ d₂ start pos size outs₁ outs₂ ret with
  | zero => cases h₁
  | succ n ih =>
      by_cases hin : start < data.length
      · obtain ⟨next, nalu, hfind, hnalu, hturn₁⟩ := annexbWithin_turn hin h₁
        obtain ⟨next', nalu', hfind', hnalu', hturn₂⟩ := annexbWithin_turn hin h₂
        obtain rfl := Except.ok.inj (hfind.symm.trans hfind')
        obtain rfl := hnalu.trans hnalu'.symm
        obtain ⟨hrefused, hr₁⟩ | ⟨htaken, _, -, hrun₁⟩ := hturn₁
        · obtain ⟨-, hr₂⟩ | ⟨htaken, -⟩ := hturn₂
          · cases hr₁
            cases hr₂
            exact ⟨rfl, [], (List.append_nil _).symm, (List.append_nil _).symm⟩
          · exact absurd hrefused htaken
        · obtain ⟨hrefused, -⟩ | ⟨-, _, -, hrun₂⟩ := hturn₂
          · exact absurd hrefused htaken
          · obtain ⟨hret, more, hmore₁, hmore₂⟩ := ih hrun₁ hrun₂
            rw [List.append_assoc] at hmore₁ hmore₂
            exact ⟨hret, _, hmore₁, hmore₂⟩
      · cases annexbWithin_end hin h₁
        cases annexbWithin_end hin h₂
        exact ⟨rfl, [], (List.append_nil _).symm, (List.append_nil _).symm⟩

theorem annexb_same {turns : Nat} {data : List UInt8} {d₁ d₁' d₂ d₂' : VideoDemux}
    {pos size : Nat} {outs₁ outs₁' outs₂ outs₂' : List Extent} {ret₁ ret₂ : Int}
    (h₁ : d₁.decodeAVCNaluAnnexbWithin turns data pos size outs₁ = .ok (d₁', outs₁', ret₁))
    (h₂ : d₂.decodeAVCNaluAnnexbWithin turns data pos size outs₂ = .ok (d₂', outs₂', ret₂)) :
  ret₁ = ret₂ ∧ ∃ more, outs₁' = outs₁ ++ more ∧ outs₂' = outs₂ ++ more
  := by
  rw [decodeAVCNaluAnnexbWithin] at h₁ h₂
  split at h₁
  · rename_i hshort
    rw [if_pos hshort] at h₂
    cases h₁
    cases h₂
    exact ⟨rfl, [], (List.append_nil _).symm, (List.append_nil _).symm⟩
  · rename_i hlong
    rw [if_neg hlong] at h₂
    cases hfind : findWithin data turns (pos + 2) with
    | error fault =>
        rw [hfind] at h₁
        cases h₁
    | ok start =>
        rw [hfind] at h₁ h₂
        exact annexbWithin_same h₁ h₂

/-- A second attempt that fails leaves nothing, unless it refuses a NAL unit late. -/
theorem annexb_alone {turns : Nat} {data : List UInt8} (hturns : data.length < turns)
    {d d' : VideoDemux} {pos size : Nat} (hsize : pos + size = data.length) {outs : List Extent}
    {ret : Int} (h : d.decodeAVCNaluAnnexbWithin turns data pos size [] = .ok (d', outs, ret)) :
  (ret = 0 ∨ ret = -1) ∧ (RefusesLate data pos → ret = -1 ∧ outs ≠ []) ∧
    (¬ RefusesLate data pos → ret = -1 → outs = [] ∧ d' = d)
  := by
  rw [decodeAVCNaluAnnexbWithin] at h
  split at h
  · rename_i hshort
    cases h
    refine ⟨.inr rfl, ?_, fun _ _ => ⟨rfl, rfl⟩⟩
    rintro ⟨hin, -⟩
    have hnone := findWithin_eq (show data.length ≤ data.length + (pos + 2) by omega)
      (show findWithin data 1 (pos + 2) = .ok data.length from if_neg (by omega))
    rw [findAnnexbNalu, ← hnone] at hin
    exact absurd hin (Nat.lt_irrefl _)
  · rename_i hlong
    obtain ⟨start, hfind, hstart, hbehind⟩ :=
      findWithin_ok (show data.length < turns + (pos + 2) by omega) (show 0 < turns by omega)
    have hfound : start = findAnnexbNalu data pos := findWithin_eq (by omega) hfind
    rw [hfind] at h
    change annexbWithin turns data turns d start pos size [] (-1) = _ at h
    obtain ⟨n, rfl⟩ : ∃ n, turns = n + 1 := ⟨turns - 1, by omega⟩
    by_cases hin : start < data.length
    · obtain ⟨next, nalu, hfound', hnext, hnalu, hle, hturn⟩ := annexbWithin_next hturns hin h
      have hlate : RefusesLate data pos ↔ 0 ≤ nalu ∧ RefusesAt data next
        := by
        rw [RefusesLate, ← hfound, ← hfound', ← hnalu]
        exact and_iff_right hin
      rw [hlate]
      obtain ⟨hrefused, hr⟩ | ⟨hpos, hfits, d₁, hrun⟩ := hturn
      · cases hr
        exact ⟨.inr rfl, fun hmore => by omega, fun _ _ => ⟨rfl, rfl⟩⟩
      · obtain ⟨hrefuses, hall⟩ :=
          annexbWithin_ret hturns (show next < data.length → _ by omega) (by omega) hrun
        rw [ite_self] at hall
        have hsome : outs ≠ []
          := by
          rintro rfl
          cases List.prefix_nil.mp (annexbWithin_adds hrun)
        by_cases hmore : RefusesAt data next
        · refine ⟨.inr (hrefuses hmore), fun _ => ⟨hrefuses hmore, hsome⟩, fun hnot => ?_⟩
          exact absurd ⟨hpos, hmore⟩ hnot
        · have hret := hall hmore
          refine ⟨.inl hret, fun hboth => absurd hboth.2 hmore, fun _ hfailed => ?_⟩
          rw [hret] at hfailed
          cases hfailed
    · cases annexbWithin_end hin h
      refine ⟨.inr rfl, ?_, fun _ _ => ⟨rfl, rfl⟩⟩
      rintro ⟨hlt, -⟩
      rw [← hfound] at hlt
      exact absurd hlt hin

/-! ### Both -/

/-- The same flags. -/
structure SameFlags (d d' : VideoDemux) : Prop where
  hasIdr : d.hasIdr = d'.hasIdr
  hasAud : d.hasAud = d'.hasAud
  hasSpsPps : d.hasSpsPps = d'.hasSpsPps
  hasBFrame : d.hasBFrame = d'.hasBFrame

/-- If the first attempt fails, the samples, the flags and what is returned are those of the second
attempt alone, and if both fail there are no samples and the flags are as before. -/
def LeavesNoTrace (d : VideoDemux) (data : List UInt8) (pos size : Nat) : Prop :=
  ∀ turns, 8 * data.length + 8 < turns →
    (¬ ∃ d₁ outs₁, d.decodeAVCNaluIAvccWithin turns data pos size [] = .ok (d₁, outs₁, 0)) →
    ∃ d₂ d₃ outs ret, d.decodeAvcNaluWithin turns data pos size = .ok (d₂, outs, ret) ∧
      d.decodeAVCNaluAnnexbWithin turns data pos size [] = .ok (d₃, outs, ret) ∧
      SameFlags d₂ d₃ ∧ (ret ≠ 0 → outs = [] ∧ SameFlags d₂ d)

/-- With an unknown format and a first attempt that fails, the second one starts with what is
left. -/
theorem decodeAvcNaluWithin_failed {turns : Nat} {d d₁ : VideoDemux}
    (hformat : d.payloadFormat = .unknowed) {data : List UInt8} {pos size : Nat}
    {outs₁ : List Extent} {ret₁ : Int}
    (hfirst : d.decodeAVCNaluIAvccWithin turns data pos size [] = .ok (d₁, outs₁, ret₁))
    (hret : ret₁ ≠ 0) :
  d.decodeAvcNaluWithin turns data pos size =
    d₁.decodeAVCNaluAnnexbWithin turns data pos size outs₁ >>= fun r =>
      if r.2.2 = 0 then .ok ({ r.1 with payloadFormat := .annexB }, r.2.1, 0)
      else .ok (r.1, r.2.1, -1)
  := by
  rw [decodeAvcNaluWithin, hformat]
  dsimp only
  rw [hfirst]
  exact if_neg hret

/-- The samples are those of the second attempt behind those of the first. -/
theorem samples_of_failed {turns : Nat} {d d₁ d₂ : VideoDemux}
    (hformat : d.payloadFormat = .unknowed) {data : List UInt8} {pos size : Nat}
    {outs₁ outs : List Extent} {ret₁ ret : Int}
    (hfirst : d.decodeAVCNaluIAvccWithin turns data pos size [] = .ok (d₁, outs₁, ret₁))
    (hret : ret₁ ≠ 0) (hboth : d.decodeAvcNaluWithin turns data pos size = .ok (d₂, outs, ret)) :
  ∃ d₃ ret₃, d₁.decodeAVCNaluAnnexbWithin turns data pos size outs₁ = .ok (d₃, outs, ret₃)
  := by
  rw [decodeAvcNaluWithin_failed hformat hfirst hret] at hboth
  cases hsecond : d₁.decodeAVCNaluAnnexbWithin turns data pos size outs₁ with
  | error fault =>
      rw [hsecond] at hboth
      cases hboth
  | ok r =>
      obtain ⟨d₃, outs₃, ret₃⟩ := r
      rw [hsecond] at hboth
      change (if ret₃ = 0 then _ else _) = _ at hboth
      split at hboth
      · cases hboth
        exact ⟨d₃, ret₃, rfl⟩
      · cases hboth
        exact ⟨d₃, ret₃, rfl⟩

variable {d : VideoDemux} {data : List UInt8} {pos size : Nat}

/-- What the first attempt took before it failed, or the second one, is still there. -/
theorem not_leavesNoTrace (hformat : d.payloadFormat = .unknowed)
    (hsize : pos + size = data.length)
    (hthrough : ¬ ReadsThrough d d.hasBFrame (data.drop pos))
    (hlate : d.RefusesFirst (data.drop pos) → RefusesLate data pos) :
  ¬ d.LeavesNoTrace data pos size
  := by
  intro hclean
  have hno : ¬ ∃ d₁ outs₁, d.decodeAVCNaluIAvccWithin (8 * data.length + 9) data pos size [] =
      .ok (d₁, outs₁, 0)
    := by
    rintro ⟨d₁, outs₁, hrun⟩
    exact hthrough (readsThrough_of_ok hsize hrun)
  obtain ⟨d₂, d₃, outs, ret, hboth, halone, -, hfail⟩ :=
    hclean (8 * data.length + 9) (Nat.lt_succ_self _) hno
  cases hfirst : d.decodeAVCNaluIAvccWithin (8 * data.length + 9) data pos size [] with
  | error fault =>
      rw [decodeAvcNaluWithin, hformat] at hboth
      dsimp only at hboth
      rw [hfirst] at hboth
      cases hboth
  | ok r =>
      obtain ⟨d₁, outs₁, ret₁⟩ := r
      have hret : ret₁ ≠ 0
        := by
        rintro rfl
        exact hno ⟨d₁, outs₁, hfirst⟩
      obtain hrefused | hsome := avccWithin_failed hsize hfirst hret
      · -- the second attempt is the only one, and it fails with samples
        obtain ⟨-, hsamples, -⟩ := annexb_alone (show data.length < _ by omega) hsize halone
        obtain ⟨hfailed, hsome⟩ := hsamples (hlate hrefused)
        exact hsome (hfail (by rw [hfailed]; decide)).1
      · -- the samples of the first attempt are in front of those of the second
        obtain ⟨d₄, ret₄, hsecond⟩ := samples_of_failed hformat hfirst hret hboth
        obtain ⟨-, more, hmore, hmore'⟩ := annexb_same hsecond halone
        rw [hmore', List.nil_append] at hmore
        exact hsome (List.self_eq_append_left.mp hmore)

/-- A first attempt that takes nothing leaves the second one alone. -/
theorem RefusesFirst.leavesNoTrace (h : d.RefusesFirst (data.drop pos))
    (hformat : d.payloadFormat = .unknowed) (hsize : pos + size = data.length)
    (hlate : ¬ RefusesLate data pos) :
  d.LeavesNoTrace data pos size
  := by
  intro turns hturns hno
  obtain ⟨n, rfl⟩ : ∃ n, turns = n + 1 := ⟨turns - 1, by omega⟩
  have hfirst : d.decodeAVCNaluIAvccWithin (n + 1) data pos size [] = .ok (d, [], -1)
    := avccWithin_refuses hsize h []
  obtain ⟨d₃, outs, ret, halone, -⟩ :=
    decodeAVCNaluAnnexbWithin_ok hturns d hsize (List.forall_mem_nil _)
  obtain ⟨hcases, -, hfail⟩ := annexb_alone (show data.length < n + 1 by omega) hsize halone
  rw [decodeAvcNaluWithin_failed hformat hfirst (by decide), halone]
  rcases hcases with rfl | rfl
  · exact ⟨_, d₃, outs, 0, rfl, rfl, ⟨rfl, rfl, rfl, rfl⟩, fun hne => absurd rfl hne⟩
  · obtain ⟨hnone, hsame⟩ := hfail hlate rfl
    subst hsame
    exact ⟨d₃, d₃, outs, -1, rfl, rfl, ⟨rfl, rfl, rfl, rfl⟩,
      fun _ => ⟨hnone, ⟨rfl, rfl, rfl, rfl⟩⟩⟩

/-- The first attempt leaves no trace if it does not fail, or refuses the first length, and the
second one refuses no NAL unit late. -/
theorem leavesNoTrace_iff {d : VideoDemux} (hformat : d.payloadFormat = .unknowed)
    {data : List UInt8} {pos size : Nat} (hsize : pos + size = data.length) :
  d.LeavesNoTrace data pos size ↔
    ReadsThrough d d.hasBFrame (data.drop pos) ∨
      d.RefusesFirst (data.drop pos) ∧ ¬ RefusesLate data pos
  := by
  constructor
  · intro hclean
    by_contra hnot
    rw [not_or, not_and, not_not] at hnot
    exact not_leavesNoTrace hformat hsize hnot.1 hnot.2 hclean
  · rintro (hthrough | ⟨hrefused, hlate⟩)
    · intro turns hturns hno
      exact absurd (hthrough.ok hturns (by omega) hsize) hno
    · exact hrefused.leavesNoTrace hformat hsize hlate

theorem leavesNoTrace_iff_short :
  LeavesNoTrace { naluUnitLength := 3 } [0x00, 0x00, 0x01, 0x65, 0x88] 0 5 ↔
    ReadsThrough { naluUnitLength := 3 } false [0x00, 0x00, 0x01, 0x65, 0x88] ∨
      RefusesFirst { naluUnitLength := 3 } [0x00, 0x00, 0x01, 0x65, 0x88] ∧
        ¬ RefusesLate [0x00, 0x00, 0x01, 0x65, 0x88] 0
  := leavesNoTrace_iff rfl rfl

/-- A delimiter and a slice behind start codes of four bytes: the first attempt takes the first
byte of the delimiter. -/
def delimited : List UInt8 :=
  [0x00, 0x00, 0x00, 0x01, 0x09, 0xf0, 0x00, 0x00, 0x00, 0x01, 0x65, 0x88, 0x84]

theorem not_leavesNoTrace_delimited :
  ¬ LeavesNoTrace { naluUnitLength := 3 } delimited 0 13
  := by
  intro hclean
  have hfirst : ∀ d₁ outs₁, decodeAVCNaluIAvccWithin 113 { naluUnitLength := 3 } delimited 0 13 [] ≠
      .ok (d₁, outs₁, 0)
    := by
    intro d₁ outs₁ hrun
    cases hrun
  have hboth : (decodeAvcNaluWithin 113 { naluUnitLength := 3 } delimited 0 13).toOption.map
      (fun r => r.2.1) = some [⟨4, 1⟩, ⟨0, 6⟩, ⟨6, 3⟩]
    := by decide +kernel
  have halone : (decodeAVCNaluAnnexbWithin 113 { naluUnitLength := 3 } delimited 0 13
      []).toOption.map (fun r => r.2.1) = some [⟨0, 6⟩, ⟨6, 3⟩]
    := by decide +kernel
  obtain ⟨d₂, d₃, outs, ret, hrun, hrun', -⟩ :=
    hclean 113 (by decide) fun ⟨d₁, outs₁, hrun⟩ => hfirst d₁ outs₁ hrun
  rw [hrun] at hboth
  rw [hrun'] at halone
  cases hboth.symm.trans halone

end VideoDemux
