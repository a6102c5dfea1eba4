import Tmms.Base.Strings

/-!
# Offers

`Sdp::Decode` takes an offer line by line, and what it looks for of it is a name and a password of
ICE, a fingerprint, and the payload types of `opus` and `H264`.

Lines are what stands between line feeds.  So where an offer has a carriage return in front of each,
the carriage return belongs to the line, and to the value that goes to the end of it.  A payload
type does not see it, for a slash is behind its name.
-/

namespace StringUtils

/-- `StartsWith`. -/
def startsWith (s sub : List UInt8) : Bool :=
  if sub.isEmpty then true
  else if s.isEmpty then false
  else if s.length < sub.length then false
  else s.take sub.length == sub

theorem startsWith_iff (s sub : List UInt8) :
  startsWith s sub = true ↔ sub <+: s
  := by
  rw [startsWith, List.prefix_iff_eq_take]
  split
  next hsub => simp only [List.isEmpty_iff.mp hsub, List.length_nil, List.take_zero]
  next hsub =>
    split
    next hs =>
      rw [List.isEmpty_iff] at hs hsub
      subst hs
      simp only [Bool.false_eq_true, List.take_nil, hsub]
    next =>
      split
      next hlt =>
        apply iff_of_false Bool.false_ne_true
        intro heq
        have hlength := congrArg List.length heq
        rw [List.length_take] at hlength
        omega
      next => rw [beq_iff_eq, eq_comm]

/-- A character that a string does not have is not seen at the end. -/
theorem startsWith_concat {s sub : List UInt8} {c : UInt8} (h : c ∉ sub) :
  startsWith (s ++ [c]) sub = startsWith s sub
  := by
  rw [Bool.eq_iff_iff, startsWith_iff, startsWith_iff, List.prefix_concat_iff]
  constructor
  · rintro (rfl | hprefix)
    · cases h (List.mem_append_right _ (List.mem_singleton_self c))
    · exact hprefix
  · exact Or.inr

/-- Nor is another character found there. -/
theorem find_concat {s : List UInt8} {c x : UInt8} (h : x ≠ c) :
  find [x] (s ++ [c]) = find [x] s
  := by
  cases hfind : find [x] s with
  | some n => exact find_append_of_find hfind
  | none =>
      induction s with
      | nil =>
          apply find_eq_none
          exact fun hmem => h (List.mem_singleton.mp hmem)
      | cons d s ih =>
          rw [find] at hfind
          split at hfind
          next => cases hfind
          next hprefix =>
            have hprefix' : ¬ [x].isPrefixOf (d :: (s ++ [c]))
              := by
              rw [List.isPrefixOf, Bool.and_eq_true] at hprefix ⊢
              exact fun hx => hprefix ⟨hx.1, rfl⟩
            rw [List.cons_append, find, if_neg hprefix', ih (Option.map_eq_none_iff.mp hfind)]
            rfl

end StringUtils

open StringUtils

/-- What is taken of an offer. -/
structure Sdp where
  audioPayloadType : Int := -1
  videoPayloadType : Int := -1
  remoteUFrag : List UInt8 := []
  remotePasswd : List UInt8 := []
  fingerprint : List UInt8 := []
  deriving DecidableEq, Repr

namespace Sdp

def rtpmapToken : List UInt8 := ascii "a=rtpmap:"

def iceUfragToken : List UInt8 := ascii "a=ice-ufrag:"

def icePwdToken : List UInt8 := ascii "a=ice-pwd:"

def fingerprintToken : List UInt8 := ascii "a=fingerprint:"

/-- What is behind the token of a payload type: a number, a name and a clock rate. -/
def decodeRtpmap (s : Sdp) (content : List UInt8) : Sdp :=
  match find (ascii " ") content with
  | none => s
  | some pos =>
      let pt := atoi (content.take pos)
      match find (ascii "/") (content.drop (pos + 1)) with
      | none => s
      | some behind =>
          let name := (content.drop (pos + 1)).take behind
          if s.audioPayloadType = -1 ∧ name = ascii "opus" then
            { s with audioPayloadType := pt }
          else if s.videoPayloadType = -1 ∧ name = ascii "H264" then
            { s with videoPayloadType := pt }
          else
            s

/-- A line of an offer. -/
def decodeLine (s : Sdp) (line : List UInt8) : Sdp :=
  if startsWith line iceUfragToken then
    { s with remoteUFrag := line.drop iceUfragToken.length }
  else if startsWith line icePwdToken then
    { s with remotePasswd := line.drop icePwdToken.length }
  else if startsWith line fingerprintToken then
    { s with fingerprint := line.drop fingerprintToken.length }
  else if startsWith line rtpmapToken then
    s.decodeRtpmap (line.drop rtpmapToken.length)
  else
    s

/-- `Decode`. -/
def decode (s : Sdp) (sdp : List UInt8) : Sdp × Bool :=
  let list := splitString sdp (ascii "\n")
  if list.length = 0 then (s, false) else (list.foldl decodeLine s, true)

/-! ### Line endings -/

/-- The text with a carriage return in front of every line feed. -/
def crlf (t : List UInt8) : List UInt8 := t.flatMap fun c => if c = 10 then [13, 10] else [c]

/-- No string of an offer has a carriage return. -/
def Clean (s : Sdp) : Prop := 13 ∉ s.remoteUFrag ∧ 13 ∉ s.remotePasswd ∧ 13 ∉ s.fingerprint

instance (s : Sdp) : Decidable s.Clean := inferInstanceAs (Decidable (_ ∧ _ ∧ _))

/-- The line endings of an offer make no difference, and are in no string. -/
def SameEndings (t : List UInt8) : Prop :=
  decode {} t = decode {} (crlf t) ∧ (decode {} t).1.Clean ∧ (decode {} (crlf t)).1.Clean

instance (t : List UInt8) : Decidable (SameEndings t) := inferInstanceAs (Decidable (_ ∧ _ ∧ _))

/-- The lines of a text. -/
def lines (t : List UInt8) : List (List UInt8) := splitString t (ascii "\n")

/-- No line has the token, or the last has it and no line feed is behind it. -/
def LeftOpen (token t : List UInt8) : Prop :=
  (∀ line ∈ lines t, startsWith line token = false) ∨
    t.getLast? ≠ some 10 ∧ ∃ line, (lines t).getLast? = some line ∧ startsWith line token = true

/-- The carriage return of a line. -/
def withReturn (line : List UInt8) : List UInt8 := line ++ [13]

theorem lines_append {a : List UInt8} (ha : 10 ∉ a) (s : List UInt8) :
  lines (a ++ 10 :: s) = a :: lines s
  := @splitString_append _ [] _ ha s

/-- The lines that a line feed ends, and one that none ends. -/
inductive Split : List UInt8 → List (List UInt8) → List (List UInt8) → Prop
  | whole : Split [] [] []
  | left {a : List UInt8} : a ≠ [] → 10 ∉ a → Split a [] [a]
  | line {a t : List UInt8} {ended left : List (List UInt8)} : 10 ∉ a → Split t ended left →
      Split (a ++ 10 :: t) (a :: ended) left

theorem exists_split (t : List UInt8) :
  ∃ ended left, Split t ended left
  := by
  induction hn : t.length using Nat.strongRecOn generalizing t with
  | _ n ih =>
      by_cases hmem : 10 ∈ t
      · obtain ⟨a, s, rfl, ha⟩ := List.eq_append_cons_of_mem hmem
        rw [List.length_append, List.length_cons] at hn
        obtain ⟨ended, left, hsplit⟩ := ih s.length (by omega) s rfl
        exact ⟨a :: ended, left, .line ha hsplit⟩
      · cases t with
        | nil => exact ⟨[], [], .whole⟩
        | cons c t => exact ⟨[], [c :: t], .left nofun hmem⟩

variable {t : List UInt8} {ended left : List (List UInt8)}

theorem Split.lines_eq (h : Split t ended left) :
  lines t = ended ++ left
  := by
  induction h with
  | whole => rfl
  | left hne hmem => exact splitString_of_notMem hmem hne
  | line ha _ ih => rw [lines_append ha, ih, List.cons_append]

theorem crlf_of_notMem {a : List UInt8} (h : 10 ∉ a) :
  crlf a = a
  := by
  induction a with
  | nil => rfl
  | cons c a ih =>
      rw [List.mem_cons, not_or] at h
      rw [crlf, List.flatMap_cons, if_neg (Ne.symm h.1)]
      exact congrArg (c :: ·) (ih h.2)

/-- With carriage returns, every line that is ended has one. -/
theorem Split.lines_crlf (h : Split t ended left) :
  lines (crlf t) = ended.map withReturn ++ left
  := by
  induction h with
  | whole => rfl
  | left hne hmem =>
      rw [crlf_of_notMem hmem]
      exact splitString_of_notMem hmem hne
  | @line a t ended left ha _ ih =>
      have htext : crlf (a ++ 10 :: t) = withReturn a ++ 10 :: crlf t
        := by
        rw [crlf, List.flatMap_append, List.flatMap_cons, ← crlf, ← crlf, crlf_of_notMem ha,
          withReturn, List.append_assoc]
        rfl
      have hline : 10 ∉ withReturn a
        := by
        rw [withReturn, List.mem_append, not_or]
        exact ⟨ha, by decide⟩
      rw [htext, lines_append hline, ih, List.map_cons, List.cons_append]

/-- A line is left exactly if the text does not end with a line feed. -/
theorem Split.left_cases (h : Split t ended left) :
  (left = [] ∧ (t = [] ∨ t.getLast? = some 10)) ∨
    ∃ line c, left = [line] ∧ t.getLast? = some c ∧ c ≠ 10
  := by
  induction h with
  | whole => exact Or.inl ⟨rfl, Or.inl rfl⟩
  | @left a hne hmem =>
      right
      refine ⟨a, a.getLast hne, rfl, List.getLast?_eq_some_getLast hne, ?_⟩
      rintro heq
      apply hmem
      rw [← heq]
      exact List.getLast_mem hne
  | @line a t ended left ha _ ih =>
      have hlast : (a ++ 10 :: t).getLast? = (t.getLast?).or (some 10)
        := by
        rw [List.getLast?_append, List.getLast?_cons]
        cases t.getLast? <;> rfl
      rw [hlast]
      obtain ⟨hleft, rfl | hend⟩ | ⟨line, c, hleft, hend, hne⟩ := ih
      · exact Or.inl ⟨hleft, Or.inr rfl⟩
      · rw [hend]
        exact Or.inl ⟨hleft, Or.inr rfl⟩
      · rw [hend]
        exact Or.inr ⟨line, c, hleft, rfl, hne⟩

/-- In other words: no line that is ended has the token, or the line that is left has it. -/
theorem Split.leftOpen_iff (h : Split t ended left) (token : List UInt8) :
  LeftOpen token t ↔ (∀ line ∈ ended, startsWith line token = false) ∨
    ∃ line, left = [line] ∧ startsWith line token = true
  := by
  rw [LeftOpen, h.lines_eq]
  obtain ⟨rfl, hend⟩ | ⟨last, c, rfl, hend, hne⟩ := h.left_cases
  · rw [List.append_nil]
    constructor
    · rintro (hnone | ⟨hopen, line, hline, -⟩)
      · exact Or.inl hnone
      · obtain rfl | hend := hend
        · have hnil : [] = ended ++ [] := h.lines_eq
          rw [← List.append_nil ended, ← hnil] at hline
          cases hline
        · cases hopen hend
    · rintro (hnone | ⟨line, hline, -⟩)
      · exact Or.inl hnone
      · cases hline
  · rw [hend, List.getLast?_concat]
    constructor
    · rintro (hnone | ⟨-, line, hline, htoken⟩)
      · exact Or.inl fun line hline => hnone line (List.mem_append_left _ hline)
      · cases hline
        exact Or.inr ⟨_, rfl, htoken⟩
    · rintro (hnone | ⟨line, hline, htoken⟩)
      · cases htoken : startsWith last token with
        | true => exact Or.inr ⟨fun heq => hne (Option.some.inj heq), last, rfl, htoken⟩
        | false =>
            left
            intro line hline
            obtain hline | hline := List.mem_append.mp hline
            · exact hnone line hline
            · rw [List.mem_singleton.mp hline]
              exact htoken
      · cases hline
        exact Or.inr ⟨fun heq => hne (Option.some.inj heq), _, rfl, htoken⟩

/-! ### The strings -/

/-- What is behind a token in the last line that has it. -/
def valueIn (token old : List UInt8) (lines : List (List UInt8)) : List UInt8 :=
  lines.foldl (fun old line => if startsWith line token then line.drop token.length else old) old

theorem valueIn_append (token old : List UInt8) (lines lines' : List (List UInt8)) :
  valueIn token old (lines ++ lines') = valueIn token (valueIn token old lines) lines'
  := List.foldl_append

theorem valueIn_singleton (token old line : List UInt8) :
  valueIn token old [line] =
    if startsWith line token then line.drop token.length else old
  := rfl

theorem valueIn_of_none {token : List UInt8} {lines : List (List UInt8)}
    (h : ∀ line ∈ lines, startsWith line token = false) (old : List UInt8) :
  valueIn token old lines = old
  := by
  induction lines with
  | nil => rfl
  | cons line lines ih =>
      rw [valueIn, List.foldl_cons, if_neg (Bool.not_eq_true _ ▸ h line (List.mem_cons_self ..))]
      exact ih fun line' hline => h line' (List.mem_cons_of_mem _ hline)

/-- A character is in a value only if it was in the old one, or in a line. -/
theorem valueIn_clean {token : List UInt8} {lines : List (List UInt8)} {c : UInt8}
    (h : ∀ line ∈ lines, c ∉ line) {old : List UInt8} (hold : c ∉ old) :
  c ∉ valueIn token old lines
  := by
  induction lines generalizing old with
  | nil => exact hold
  | cons line lines ih =>
      rw [valueIn, List.foldl_cons]
      apply ih fun line' hline => h line' (List.mem_cons_of_mem _ hline)
      split
      · exact fun hmem => h line (List.mem_cons_self ..) (List.mem_of_mem_drop hmem)
      · exact hold

/-- The carriage return goes into the value. -/
theorem mem_valueIn_withReturn {token : List UInt8} (htoken : 13 ∉ token)
    {lines : List (List UInt8)} {old : List UInt8}
    (h : 13 ∈ old ∨ ∃ line ∈ lines, startsWith line token = true) :
  13 ∈ valueIn token old (lines.map withReturn)
  := by
  induction lines generalizing old with
  | nil =>
      obtain hold | ⟨line, hline, -⟩ := h
      · exact hold
      · cases hline
  | cons line lines ih =>
      rw [valueIn, List.map_cons, List.foldl_cons, withReturn, startsWith_concat htoken]
      apply ih
      by_cases hline : startsWith line token = true
      · rw [if_pos hline]
        left
        have hle := ((startsWith_iff _ _).mp hline).length_le
        rw [List.drop_append_of_le_length hle]
        exact List.mem_append_right _ (List.mem_singleton_self 13)
      · rw [if_neg hline]
        obtain hold | ⟨line', hmem, hline'⟩ := h
        · exact Or.inl hold
        · obtain rfl | hmem := List.mem_cons.mp hmem
          · cases hline hline'
          · exact Or.inr ⟨line', hmem, hline'⟩

/-- The value behind a token is the same with both line endings, and has none of them. -/
def SameValue (token t : List UInt8) : Prop :=
  valueIn token [] (lines t) = valueIn token [] (lines (crlf t)) ∧
    13 ∉ valueIn token [] (lines t) ∧ 13 ∉ valueIn token [] (lines (crlf t))

theorem Split.notMem (h : Split t ended left) {c : UInt8} (hc : c ∉ t) :
  ∀ line ∈ ended ++ left, c ∉ line
  := by
  induction h with
  | whole => nofun
  | left _ _ =>
      intro line hline
      rw [List.mem_singleton.mp hline]
      exact hc
  | line _ _ ih =>
      rw [List.mem_append, not_or, List.mem_cons, not_or] at hc
      intro line hline
      obtain rfl | hline := List.mem_cons.mp hline
      · exact hc.1
      · exact ih hc.2.2 line hline

theorem sameValue_iff (ht : 13 ∉ t) {token : List UInt8} (htoken : 13 ∉ token) :
  SameValue token t ↔ LeftOpen token t
  := by
  obtain ⟨ended, left, hsplit⟩ := exists_split t
  have hclean := hsplit.notMem ht
  rw [SameValue, hsplit.leftOpen_iff, hsplit.lines_crlf, hsplit.lines_eq, valueIn_append,
    valueIn_append]
  constructor
  · rintro ⟨-, -, hreturn⟩
    by_cases hended : ∃ line ∈ ended, startsWith line token = true
    · right
      have hmem := @mem_valueIn_withReturn token htoken ended [] (Or.inr hended)
      obtain ⟨rfl, -⟩ | ⟨line, -, rfl, -⟩ := hsplit.left_cases
      · cases hreturn hmem
      · refine ⟨line, rfl, ?_⟩
        by_contra hline
        apply hreturn
        rw [valueIn_singleton, if_neg hline]
        exact hmem
    · left
      intro line hline
      rw [← Bool.not_eq_true]
      exact fun hstarts => hended ⟨line, hline, hstarts⟩
  · intro h
    have hsame : valueIn token (valueIn token [] ended) left =
        valueIn token (valueIn token [] (ended.map withReturn)) left
      := by
      obtain hnone | ⟨line, rfl, hline⟩ := h
      · have hreturns : ∀ line ∈ ended.map withReturn, startsWith line token = false
          := by
          rw [List.forall_mem_map]
          intro line hline
          rw [withReturn, startsWith_concat htoken]
          exact hnone line hline
        rw [valueIn_of_none hnone, valueIn_of_none hreturns]
      · rw [valueIn_singleton, valueIn_singleton, if_pos hline, if_pos hline]
    have hno : 13 ∉ valueIn token (valueIn token [] ended) left
      := by
      rw [← valueIn_append]
      exact valueIn_clean hclean List.not_mem_nil
    exact ⟨hsame, hno, hsame ▸ hno⟩

/-! ### Lines one after another -/

theorem decodeRtpmap_eq (s : Sdp) (content : List UInt8) :
  ∃ audioPayloadType videoPayloadType,
    s.decodeRtpmap content = { s with audioPayloadType, videoPayloadType }
  := by
  rw [decodeRtpmap]
  split
  · exact ⟨_, _, rfl⟩
  · dsimp only
    split
    · exact ⟨_, _, rfl⟩
    · split
      · exact ⟨_, _, rfl⟩
      · split
        · exact ⟨_, _, rfl⟩
        · exact ⟨_, _, rfl⟩

/-- Of two tokens of a line one begins with the other. -/
theorem startsWith_eq_false {line token token' : List UInt8} (h : startsWith line token = true)
    (hnone : ¬ token <+: token') (hnone' : ¬ token' <+: token) :
  startsWith line token' = false
  := by
  rw [← Bool.not_eq_true]
  intro h'
  rw [startsWith_iff] at h h'
  obtain hprefix | hprefix := List.prefix_or_prefix_of_prefix h h'
  · exact hnone hprefix
  · exact hnone' hprefix

/-- What a line does to each of the strings. -/
theorem decodeLine_strings (s : Sdp) (line : List UInt8) :
  (s.decodeLine line).remoteUFrag = valueIn iceUfragToken s.remoteUFrag [line] ∧
    (s.decodeLine line).remotePasswd = valueIn icePwdToken s.remotePasswd [line] ∧
    (s.decodeLine line).fingerprint = valueIn fingerprintToken s.fingerprint [line]
  := by
  rw [decodeLine, valueIn_singleton, valueIn_singleton, valueIn_singleton]
  split
  next hfrag =>
    rw [startsWith_eq_false hfrag (by decide) (by decide : ¬ icePwdToken <+: _),
      startsWith_eq_false hfrag (by decide) (by decide : ¬ fingerprintToken <+: _)]
    exact ⟨rfl, rfl, rfl⟩
  next hfrag =>
    split
    next hpwd =>
      rw [startsWith_eq_false hpwd (by decide) (by decide : ¬ fingerprintToken <+: _)]
      exact ⟨rfl, rfl, rfl⟩
    next hpwd =>
      split
      next => exact ⟨rfl, rfl, rfl⟩
      next hprint =>
        split
        next =>
          obtain ⟨audio, video, heq⟩ := s.decodeRtpmap_eq (line.drop rtpmapToken.length)
          rw [heq]
          exact ⟨rfl, rfl, rfl⟩
        next => exact ⟨rfl, rfl, rfl⟩

theorem foldl_strings (s : Sdp) (lines : List (List UInt8)) :
  (lines.foldl decodeLine s).remoteUFrag = valueIn iceUfragToken s.remoteUFrag lines ∧
    (lines.foldl decodeLine s).remotePasswd = valueIn icePwdToken s.remotePasswd lines ∧
    (lines.foldl decodeLine s).fingerprint = valueIn fingerprintToken s.fingerprint lines
  := by
  induction lines generalizing s with
  | nil => exact ⟨rfl, rfl, rfl⟩
  | cons line lines ih =>
      obtain ⟨hfrag, hpwd, hprint⟩ := s.decodeLine_strings line
      have hrest := ih (s.decodeLine line)
      rw [hfrag, hpwd, hprint] at hrest
      exact hrest

/-- The payload types are the same. -/
def SameTypes (s s' : Sdp) : Prop :=
  s'.audioPayloadType = s.audioPayloadType ∧ s'.videoPayloadType = s.videoPayloadType

variable {s s' : Sdp}

theorem SameTypes.decodeRtpmap (h : SameTypes s s') (content : List UInt8) :
  SameTypes (s.decodeRtpmap content) (s'.decodeRtpmap content)
  := by
  obtain ⟨haudio, hvideo⟩ := h
  rw [Sdp.decodeRtpmap, Sdp.decodeRtpmap, haudio, hvideo]
  split
  · exact ⟨haudio, hvideo⟩
  · dsimp only
    split
    · exact ⟨haudio, hvideo⟩
    · split
      · exact ⟨rfl, rfl⟩
      · split
        · exact ⟨rfl, rfl⟩
        · exact ⟨haudio, hvideo⟩

/-- A carriage return behind the slash is not looked at. -/
theorem decodeRtpmap_concat (s : Sdp) (content : List UInt8) :
  s.decodeRtpmap (content ++ [13]) = s.decodeRtpmap content
  := by
  have hspace : find (ascii " ") (content ++ [13]) = find (ascii " ") content
    := find_concat (by decide)
  rw [decodeRtpmap, decodeRtpmap, hspace]
  cases hfind : find (ascii " ") content with
  | none => rfl
  | some pos =>
      have hle : pos + 1 ≤ content.length := le_of_find hfind
      have hslash : find (ascii "/") (content.drop (pos + 1) ++ [13]) =
          find (ascii "/") (content.drop (pos + 1))
        := find_concat (by decide)
      dsimp only
      rw [List.take_append_of_le_length (Nat.le_of_succ_le hle),
        List.drop_append_of_le_length hle, hslash]
      cases hbehind : find (ascii "/") (content.drop (pos + 1)) with
      | none => rfl
      | some behind =>
          have hin : behind + 1 ≤ (content.drop (pos + 1)).length := le_of_find hbehind
          dsimp only
          rw [List.take_append_of_le_length (Nat.le_of_succ_le hin)]

theorem SameTypes.decodeLine (h : SameTypes s s') (line : List UInt8) :
  SameTypes (s.decodeLine line) (s'.decodeLine line)
  := by
  rw [Sdp.decodeLine, Sdp.decodeLine]
  split
  · exact h
  · split
    · exact h
    · split
      · exact h
      · split
        · exact h.decodeRtpmap _
        · exact h

theorem sameTypes_withReturn (s : Sdp) (line : List UInt8) :
  SameTypes (s.decodeLine line) (s.decodeLine (withReturn line))
  := by
  rw [decodeLine, decodeLine, withReturn, startsWith_concat (by decide),
    startsWith_concat (by decide), startsWith_concat (by decide), startsWith_concat (by decide)]
  split
  · exact ⟨rfl, rfl⟩
  · split
    · exact ⟨rfl, rfl⟩
    · split
      · exact ⟨rfl, rfl⟩
      · split
        next hstarts =>
          have hle := ((startsWith_iff _ _).mp hstarts).length_le
          rw [List.drop_append_of_le_length hle, decodeRtpmap_concat]
          exact ⟨rfl, rfl⟩
        next => exact ⟨rfl, rfl⟩

theorem SameTypes.trans {s'' : Sdp} (h : SameTypes s s') (h' : SameTypes s' s'') :
  SameTypes s s''
  := ⟨h'.1.trans h.1, h'.2.trans h.2⟩

theorem SameTypes.foldl (h : SameTypes s s') (lines : List (List UInt8)) :
  SameTypes (lines.foldl Sdp.decodeLine s) (lines.foldl Sdp.decodeLine s')
  := by
  induction lines generalizing s s' with
  | nil => exact h
  | cons line lines ih => exact ih (h.decodeLine line)

theorem SameTypes.foldl_withReturn (h : SameTypes s s') (lines : List (List UInt8)) :
  SameTypes (lines.foldl Sdp.decodeLine s) ((lines.map withReturn).foldl Sdp.decodeLine s')
  := by
  induction lines generalizing s s' with
  | nil => exact h
  | cons line lines ih => exact ih ((h.decodeLine line).trans (s'.sameTypes_withReturn line))

/-- The payload types do not depend on the line endings. -/
theorem sameTypes_crlf (t : List UInt8) :
  SameTypes ((lines t).foldl decodeLine {}) ((lines (crlf t)).foldl decodeLine {})
  := by
  obtain ⟨ended, left, hsplit⟩ := exists_split t
  rw [hsplit.lines_crlf, hsplit.lines_eq, List.foldl_append, List.foldl_append]
  apply SameTypes.foldl
  apply SameTypes.foldl_withReturn ⟨rfl, rfl⟩

theorem decode_eq (s : Sdp) (t : List UInt8) :
  decode s t = ((lines t).foldl decodeLine s, decide (lines t ≠ []))
  := by
  rw [decode, ← lines]
  split
  next hnone =>
    rw [List.length_eq_zero_iff.mp hnone]
    rfl
  next hsome =>
    have hne : lines t ≠ [] := fun hnil => hsome (List.length_eq_zero_iff.mpr hnil)
    rw [decide_eq_true hne]

theorem lines_crlf_eq_nil (t : List UInt8) :
  lines (crlf t) = [] ↔ lines t = []
  := by
  obtain ⟨ended, left, hsplit⟩ := exists_split t
  rw [hsplit.lines_crlf, hsplit.lines_eq, List.append_eq_nil_iff, List.append_eq_nil_iff,
    List.map_eq_nil_iff]

theorem eq_iff (s s' : Sdp) :
  s = s' ↔ SameTypes s s' ∧ s.remoteUFrag = s'.remoteUFrag ∧ s.remotePasswd = s'.remotePasswd ∧
    s.fingerprint = s'.fingerprint
  := by
  constructor
  · rintro rfl
    exact ⟨⟨rfl, rfl⟩, rfl, rfl, rfl⟩
  · rintro ⟨⟨haudio, hvideo⟩, hfrag, hpwd, hprint⟩
    cases s
    cases s'
    cases haudio
    cases hvideo
    cases hfrag
    cases hpwd
    cases hprint
    rfl

theorem sameEndings_iff_values (t : List UInt8) :
  SameEndings t ↔
    SameValue iceUfragToken t ∧ SameValue icePwdToken t ∧ SameValue fingerprintToken t
  := by
  obtain ⟨hfrag, hpwd, hprint⟩ := foldl_strings {} (lines t)
  obtain ⟨hfrag', hpwd', hprint'⟩ := foldl_strings {} (lines (crlf t))
  have hdone : decide (lines t ≠ []) = decide (lines (crlf t) ≠ [])
    := decide_eq_decide.mpr (not_congr (lines_crlf_eq_nil t).symm)
  rw [SameEndings, decode_eq, decode_eq, Prod.mk.injEq, eq_iff, Clean, Clean, hfrag, hpwd, hprint,
    hfrag', hpwd', hprint']
  constructor
  · rintro ⟨⟨⟨-, hfrag, hpwd, hprint⟩, -⟩, ⟨hfrag₁, hpwd₁, hprint₁⟩, hfrag₂, hpwd₂, hprint₂⟩
    exact ⟨⟨hfrag, hfrag₁, hfrag₂⟩, ⟨hpwd, hpwd₁, hpwd₂⟩, hprint, hprint₁, hprint₂⟩
  · rintro ⟨⟨hfrag, hfrag₁, hfrag₂⟩, ⟨hpwd, hpwd₁, hpwd₂⟩, hprint, hprint₁, hprint₂⟩
    exact ⟨⟨⟨sameTypes_crlf t, hfrag, hpwd, hprint⟩, hdone⟩, ⟨hfrag₁, hpwd₁, hprint₁⟩, hfrag₂,
      hpwd₂, hprint₂⟩

/-- Line endings make no difference exactly to offers in which a name, a password and a fingerprint
are nowhere but at the very end. -/
theorem sameEndings_iff (t : List UInt8) (ht : 13 ∉ t) :
  SameEndings t ↔
    LeftOpen iceUfragToken t ∧ LeftOpen icePwdToken t ∧ LeftOpen fingerprintToken t
  := by
  rw [sameEndings_iff_values, sameValue_iff ht (by decide), sameValue_iff ht (by decide),
    sameValue_iff ht (by decide)]

/-- An offer of a payload type, with a password at the end. -/
theorem sameEndings_leftOpen :
  13 ∉ ascii "a=rtpmap:111 opus/48000/2\na=ice-pwd:ab" ∧
    SameEndings (ascii "a=rtpmap:111 opus/48000/2\na=ice-pwd:ab")
  := by
  have ht : 13 ∉ ascii "a=rtpmap:111 opus/48000/2\na=ice-pwd:ab" := by decide
  refine ⟨ht, (sameEndings_iff _ ht).mpr ⟨Or.inl (by decide), Or.inr ⟨by decide, ?_⟩,
    Or.inl (by decide)⟩⟩
  exact ⟨ascii "a=ice-pwd:ab", by decide, by decide⟩

/-- One line with the name of ICE. -/
theorem not_sameEndings_line :
  13 ∉ ascii "a=ice-ufrag:ab\n" ∧ ¬ SameEndings (ascii "a=ice-ufrag:ab\n")
  := by decide

end Sdp
