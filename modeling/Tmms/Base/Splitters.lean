import Tmms.Base.Strings

/-!
# Two ways to split a string

`SplitString` looks for the delimiter from position to position, with a `size_t`.
`SplitStringWithFSM` goes through the characters with a machine of two states and a pending piece.
Both drop what is behind the last delimiter if it is empty, so they agree on what the machine
reads. Its position is an `int`, and behind the last one an `int` has it ends.
-/

namespace StringUtils

/-! ### The machine -/

/-- The states in the loop of `SplitStringWithFSM`. -/
inductive SplitState where
  | normal
  | delimiter
  deriving DecidableEq, Repr

/-- `pos++` of an `int`, as the processor adds; the language leaves it undefined at `INT_MAX`. -/
def nextPos (pos : Int) : Int := truncate32 (pos + 1)

/-- The character the loop goes on at. `pos < s.size()` compares numbers of 64 bits, and as one of
them a negative position is larger than any size. -/
def charAt (s : List UInt8) (pos : Int) : Option UInt8 :=
  if pos < 0 then none else s[pos.toNat]?

/-- The loop of `SplitStringWithFSM`, for some turns, and what is done behind it. -/
def splitFsmLoop (s : List UInt8) (delimiter : UInt8) :
    Nat → SplitState → Int → List UInt8 → List (List UInt8) → Option (List (List UInt8))
  | 0, _, _, _, _ => none
  | turns + 1, state, pos, tmp, result =>
      match charAt s pos with
      | some c =>
          match state with
          | .normal =>
              if c = delimiter then
                splitFsmLoop s delimiter turns .delimiter pos tmp result
              else
                splitFsmLoop s delimiter turns .normal (nextPos pos) (tmp ++ [c]) result
          | .delimiter =>
              splitFsmLoop s delimiter turns .normal (nextPos pos) [] (result ++ [tmp])
      | none => some (if tmp ≠ [] then result ++ [tmp] else result)

/-- `SplitStringWithFSM`. A character takes at most two turns. -/
def splitStringWithFSM (s : List UInt8) (delimiter : UInt8) : Option (List (List UInt8)) :=
  splitFsmLoop s delimiter (2 * s.length + 1) .normal 0 [] []

variable {s before rest beyond tmp : List UInt8} {c d : UInt8} {turns n : Nat}
  {result : List (List UInt8)}

/-! ### Positions -/

/-- The positions of an `int`. -/
def positions : Nat := 2 ^ 31

theorem nextPos_truncate32 (n : Nat) :
  nextPos (truncate32 n) = truncate32 (n + 1 : Nat)
  := by
  rw [nextPos, truncate32, truncate32, truncate32, Int.bmod_add_bmod, Nat.cast_succ]

theorem charAt_of_lt (h : n < positions) : charAt s (truncate32 n) = s[n]?
  := by
  rw [truncate32_of_lt h, charAt, if_neg (by omega), Int.toNat_natCast]

/-- The position behind the last one is a negative one. -/
theorem charAt_positions : charAt s (truncate32 positions) = none := if_pos (by decide)

theorem charAt_behind (h : before.length < positions) :
  charAt (before ++ d :: rest) (truncate32 before.length) = some d
  := by
  rw [charAt_of_lt h, List.getElem?_append_right (Nat.le_refl _), Nat.sub_self]
  rfl

/-- A turn at a character that is not the delimiter. -/
theorem splitFsmLoop_of_ne (hd : d ≠ c) (hlt : before.length < positions) :
  splitFsmLoop (before ++ d :: rest) c (turns + 1) .normal (truncate32 before.length) tmp result =
    splitFsmLoop ((before ++ [d]) ++ rest) c turns .normal (truncate32 (before ++ [d]).length)
      (tmp ++ [d]) result
  := by
  rw [splitFsmLoop, charAt_behind hlt]
  dsimp only
  rw [if_neg hd, nextPos_truncate32, List.append_assoc, List.length_append]
  rfl

/-- The two turns at a delimiter. -/
theorem splitFsmLoop_of_eq (hlt : before.length < positions) :
  splitFsmLoop (before ++ c :: rest) c (turns + 2) .normal (truncate32 before.length) tmp result =
    splitFsmLoop ((before ++ [c]) ++ rest) c turns .normal (truncate32 (before ++ [c]).length) []
      (result ++ [tmp])
  := by
  rw [splitFsmLoop, charAt_behind hlt]
  dsimp only
  rw [if_pos rfl, splitFsmLoop, charAt_behind hlt]
  dsimp only
  rw [nextPos_truncate32, List.append_assoc, List.length_append]
  rfl

/-- The end of the string, or of the positions. -/
theorem charAt_end (hlength : before.length ≤ positions)
    (hend : beyond = [] ∨ before.length = positions) :
  charAt (before ++ beyond) (truncate32 before.length) = none
  := by
  rcases Nat.lt_or_eq_of_le hlength with hlt | heq
  · have hnil : beyond = [] := hend.resolve_right (Nat.ne_of_lt hlt)
    rw [charAt_of_lt hlt, hnil, List.append_nil]
    exact List.getElem?_eq_none (Nat.le_refl _)
  · rw [heq]
    exact charAt_positions

/-- The pending piece and what is not read yet are split as one string. The induction is on what
is not read yet; what is beyond the positions is not read at all. -/
theorem splitFsmLoop_eq (htmp : c ∉ tmp) (hturns : 2 * rest.length < turns)
    (hlength : (before ++ rest).length ≤ positions)
    (hend : beyond = [] ∨ (before ++ rest).length = positions) :
  splitFsmLoop (before ++ (rest ++ beyond)) c turns .normal (truncate32 before.length) tmp result =
    some (result ++ splitString (tmp ++ rest) [c])
  := by
  induction rest generalizing before tmp result turns with
  | nil =>
      obtain ⟨turns, rfl⟩ := Nat.exists_eq_add_of_lt hturns
      rw [List.append_nil] at hlength hend
      rw [List.append_nil tmp, List.nil_append, splitFsmLoop, charAt_end hlength hend]
      dsimp only
      by_cases hne : tmp ≠ []
      · rw [if_pos hne, splitString_of_notMem htmp hne]
      · rw [if_neg hne, not_not.mp hne, splitString]
        exact congrArg _ (List.append_nil result).symm
  | cons d rest ih =>
      have hlt : before.length < positions
        := by
        rw [List.length_append, List.length_cons] at hlength
        omega
      have hread : before ++ d :: rest = (before ++ [d]) ++ rest := by rw [List.append_assoc]; rfl
      rw [List.length_cons] at hturns
      rw [hread] at hlength hend
      by_cases hd : d = c
      · obtain ⟨turns, rfl⟩ : ∃ t, turns = t + 2 := ⟨turns - 2, by omega⟩
        have hpiece : splitString (tmp ++ c :: ([] ++ rest)) [c] = tmp :: splitString rest [c]
          := splitString_append htmp rest
        rw [List.nil_append] at hpiece
        rw [hd] at hlength hend ⊢
        rw [List.cons_append, splitFsmLoop_of_eq hlt,
          ih List.not_mem_nil (by omega) hlength hend, hpiece, List.append_assoc]
        rfl
      · obtain ⟨turns, rfl⟩ : ∃ t, turns = t + 1 := ⟨turns - 1, by omega⟩
        have htmp' : c ∉ tmp ++ [d]
          := by
          rw [List.mem_append, List.mem_singleton]
          exact not_or.mpr ⟨htmp, fun heq => hd heq.symm⟩
        rw [List.cons_append, splitFsmLoop_of_ne hd hlt, ih htmp' (by omega) hlength hend,
          List.append_assoc]
        rfl

/-- The machine splits what it has positions for, as `SplitString` does. -/
theorem splitStringWithFSM_eq (s : List UInt8) (c : UInt8) :
  splitStringWithFSM s c = some (splitString (s.take positions) [c])
  := by
  have hlength : (s.take positions).length ≤ positions
    := by
    rw [List.length_take]
    exact Nat.min_le_left _ _
  have hend : s.drop positions = [] ∨ (s.take positions).length = positions
    := by
    rw [List.drop_eq_nil_iff, List.length_take]
    omega
  have hturns : 2 * (s.take positions).length < 2 * s.length + 1
    := by
    rw [List.length_take]
    omega
  have hloop := @splitFsmLoop_eq [] _ _ [] c _ [] List.not_mem_nil hturns hlength hend
  rw [List.nil_append, List.take_append_drop] at hloop
  exact hloop

/-! ### What the pieces tell of the string -/

/-- The bytes of the pieces, with a delimiter behind each. -/
def weight (pieces : List (List UInt8)) : Nat := (pieces.map fun piece => piece.length + 1).sum

/-- There is a piece behind the last delimiter. -/
def OpenEnd (s : List UInt8) (c : UInt8) : Prop := s ≠ [] ∧ s.getLast? ≠ some c

instance (s : List UInt8) (c : UInt8) : Decidable (OpenEnd s c) :=
  inferInstanceAs (Decidable (_ ∧ _))

/-- A string with a delimiter has an open end if what is behind its first delimiter has one. -/
theorem openEnd_append : OpenEnd (before ++ c :: rest) c ↔ OpenEnd rest c
  := by
  cases rest with
  | nil =>
      refine iff_of_false (fun h => h.2 ?_) (fun h => h.1 rfl)
      exact List.getLast?_concat ..
  | cons d rest =>
      have hlast : (before ++ c :: d :: rest).getLast? = (d :: rest).getLast?
        := by
        rw [List.getLast?_append, List.getLast?_cons_cons]
        rfl
      rw [OpenEnd, OpenEnd, hlast]
      exact and_congr_left fun _ =>
        iff_of_true (List.append_ne_nil_of_right_ne_nil _ (List.cons_ne_nil _ _))
          (List.cons_ne_nil _ _)

/-- All bytes are in the pieces, but the last piece has no delimiter. -/
theorem weight_splitString (s : List UInt8) (c : UInt8) :
  weight (splitString s [c]) = s.length + if OpenEnd s c then 1 else 0
  := by
  induction hn : s.length using Nat.strongRecOn generalizing s with
  | _ n ih =>
      subst hn
      by_cases hmem : c ∈ s
      · obtain ⟨first, rest, rfl, hfirst⟩ := List.eq_append_cons_of_mem hmem
        have hpieces : splitString (first ++ c :: rest) [c] = first :: splitString rest [c]
          := splitString_append hfirst rest
        have hrest := ih rest.length (by rw [List.length_append, List.length_cons]; omega) rest rfl
        rw [weight] at hrest
        rw [hpieces, weight, List.map_cons, List.sum_cons, hrest, List.length_append,
          List.length_cons]
        simp only [openEnd_append]
        omega
      · by_cases hne : s = []
        · rw [hne]
          rfl
        · have hopen : OpenEnd s c := ⟨hne, fun h => hmem (List.mem_of_getLast? h)⟩
          rw [splitString_of_notMem hmem hne, if_pos hopen]
          rfl

/-- A delimiter that closes the last piece changes nothing. -/
theorem splitString_concat (hopen : OpenEnd s c) :
  splitString (s ++ [c]) [c] = splitString s [c]
  := by
  induction hn : s.length using Nat.strongRecOn generalizing s with
  | _ n ih =>
      subst hn
      by_cases hmem : c ∈ s
      · obtain ⟨first, rest, rfl, hfirst⟩ := List.eq_append_cons_of_mem hmem
        have hpieces (t : List UInt8) :
            splitString (first ++ c :: t) [c] = first :: splitString t [c]
          := splitString_append hfirst t
        rw [List.append_assoc, List.cons_append, hpieces, hpieces,
          ih rest.length (by rw [List.length_append, List.length_cons]; omega)
            (openEnd_append.mp hopen) rfl]
      · have hpieces : splitString (s ++ [c]) [c] = s :: splitString [] [c]
          := splitString_append hmem []
        rw [hpieces, splitString_of_notMem hmem hopen.1]
        rfl

/-- How the pieces of a string and of its beginning can be the same. -/
theorem splitString_take_eq_iff (s : List UInt8) (c : UInt8) (n : Nat) :
  splitString (s.take n) [c] = splitString s [c] ↔
    s.length ≤ n ∨ s.drop n = [c] ∧ OpenEnd (s.take n) c
  := by
  constructor
  · intro h
    by_contra hnot
    obtain ⟨hlong, hclosed⟩ := not_or.mp hnot
    have hweight := congrArg weight h
    rw [weight_splitString, weight_splitString, List.length_take] at hweight
    have htake : OpenEnd (s.take n) c
      := by
      by_contra hnot
      rw [if_neg hnot] at hweight
      omega
    have hwhole : ¬ OpenEnd s c
      := by
      intro hs
      rw [if_pos hs, if_pos htake] at hweight
      omega
    rw [if_pos htake, if_neg hwhole] at hweight
    have hdrop : (s.drop n).length = 1
      := by
      rw [List.length_drop]
      omega
    obtain ⟨d, hd⟩ := List.length_eq_one_iff.mp hdrop
    have hs : s = s.take n ++ [d] := by rw [← hd, List.take_append_drop]
    have hdc : d = c
      := by
      by_contra hne
      apply hwhole
      rw [hs]
      refine ⟨List.concat_ne_nil _ _, ?_⟩
      rw [List.getLast?_concat]
      exact fun heq => hne (Option.some.inj heq)
    exact hclosed ⟨by rw [hd, hdc], htake⟩
  · rintro (hshort | ⟨hdrop, hopen⟩)
    · rw [List.take_of_length_le hshort]
    · have hconcat := splitString_concat hopen
      have hs : s.take n ++ [c] = s := by rw [← hdrop, List.take_append_drop]
      rw [hs] at hconcat
      exact hconcat.symm

/-! ### Agreement -/

/-- The machine has positions for the string, but perhaps for a delimiter that closes its last
piece. -/
def Within (s : List UInt8) (c : UInt8) : Prop :=
  s.length ≤ 2 ^ 31 ∨ s.drop (2 ^ 31) = [c] ∧ OpenEnd (s.take (2 ^ 31)) c

/-- The two splitters agree if and only if the machine has positions for the string. -/
theorem splitStringWithFSM_eq_iff (s : List UInt8) (c : UInt8) :
  splitStringWithFSM s c = some (splitString s [c]) ↔ Within s c
  := by
  rw [splitStringWithFSM_eq, Option.some_inj]
  exact splitString_take_eq_iff s c (2 ^ 31)

/-- Of a string of 2 GiB and a byte the machine leaves the last byte out. -/
theorem not_splitStringWithFSM_long :
  ¬ ∀ (s : List UInt8) (c : UInt8), splitStringWithFSM s c = some (splitString s [c])
  := by
  intro h
  have heq := h (List.replicate (positions + 1) 97) 59
  rw [splitStringWithFSM_eq, List.take_replicate, Option.some_inj] at heq
  have hnot (n : Nat) : (59 : UInt8) ∉ List.replicate n 97
    := fun hmem => absurd (List.eq_of_mem_replicate hmem) (by decide)
  have hne (n : Nat) : List.replicate (n + 1) (97 : UInt8) ≠ [] := List.cons_ne_nil _ _
  have hpositions : min positions (positions + 1) = (positions - 1) + 1 := by decide
  rw [hpositions, splitString_of_notMem (hnot _) (hne _),
    splitString_of_notMem (hnot _) (hne _)] at heq
  have hlength := congrArg List.length (List.head_eq_of_cons_eq heq)
  rw [List.length_replicate, List.length_replicate] at hlength
  exact absurd hlength (by decide)

end StringUtils
