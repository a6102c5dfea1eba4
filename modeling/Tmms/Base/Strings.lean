import Mathlib.Data.List.Basic
import Mathlib.Data.List.DropRight
import Mathlib.Tactic.Ring

/-!
# Strings

Strings of the sources are lists of bytes.  Searching and splitting, as `std::string` and
`StringUtils` do it, and the conversions of the standard library from strings to integers.
-/

/-- The bytes of a literal. -/
def ascii (s : String) : List UInt8 := s.toList.map fun c => .ofNat c.toNat

namespace StringUtils

/-! ### Searching and splitting -/

/-- `std::string::find` and `std::search`: where a string occurs first. -/
def find (sub : List UInt8) : List UInt8 → Option Nat
  | [] => if sub.isEmpty then some 0 else none
  | c :: s => if sub.isPrefixOf (c :: s) then some 0 else (find sub s).map (· + 1)

/-- The loop of `SplitString`. -/
def splitLoop (delimiter : List UInt8) : Nat → List UInt8 → List (List UInt8)
  | 0, _ => []
  | fuel + 1, s =>
    match find delimiter s with
    | some next => s.take next :: splitLoop delimiter fuel (s.drop (next + delimiter.length))
    | none => if s.isEmpty then [] else [s]

/-- `SplitString`. What is behind the last delimiter is dropped if it is empty. -/
def splitString (s delimiter : List UInt8) : List (List UInt8) :=
  if delimiter.isEmpty then [] else splitLoop delimiter (s.length + 1) s

/-- A string is not found where its first byte does not occur. -/
theorem find_append {c : UInt8} {sub a s : List UInt8} (h : c ∉ a) :
  find (c :: sub) (a ++ s) = (find (c :: sub) s).map (· + a.length)
  := by
  induction a with
  | nil => simp only [List.nil_append, List.length_nil, Nat.add_zero, Option.map_id']
  | cons d a ih =>
      have hne : ¬ (c :: sub).isPrefixOf (d :: (a ++ s))
        := by
        rw [List.isPrefixOf, Bool.and_eq_true, beq_iff_eq]
        rintro ⟨rfl, -⟩
        apply h (List.mem_cons_self ..)
      rw [List.cons_append, find, if_neg hne, ih (fun hmem => h (List.mem_cons_of_mem _ hmem)),
        Option.map_map, List.length_cons]
      congr 1

/-- A string is found behind bytes that its first byte is not among. -/
theorem find_append_self {c : UInt8} {sub a s : List UInt8} (h : c ∉ a) :
  find (c :: sub) (a ++ c :: (sub ++ s)) = some a.length
  := by
  have hprefix : (c :: sub).isPrefixOf (c :: (sub ++ s))
    := by
    rw [List.isPrefixOf_iff_prefix]
    use s
    rfl
  rw [find_append h, find, if_pos hprefix, Option.map_some, Nat.zero_add]

/-- A string is not found in bytes that its first byte is not among. -/
theorem find_eq_none {c : UInt8} {sub a : List UInt8} (h : c ∉ a) :
  find (c :: sub) a = none
  := by
  rw [← List.append_nil a, find_append h]
  rfl

/-- What is found is there. -/
theorem le_of_find {sub s : List UInt8} {n : Nat} (h : find sub s = some n) :
  n + sub.length ≤ s.length
  := by
  induction s generalizing n with
  | nil =>
      rw [find] at h
      split at h
      next hempty =>
        cases h
        rw [List.isEmpty_iff.mp hempty]
        apply Nat.le_refl
      next => cases h
  | cons c s ih =>
      rw [find] at h
      split at h
      next hprefix =>
        cases h
        rw [Nat.zero_add]
        apply (List.isPrefixOf_iff_prefix.mp hprefix).length_le
      next =>
        obtain ⟨m, hm, rfl⟩ := Option.map_eq_some_iff.mp h
        have hle := ih hm
        rw [List.length_cons]
        omega

/-- What is found stays where it is if something follows. -/
theorem find_append_of_find {sub b c : List UInt8} {n : Nat} (h : find sub b = some n) :
  find sub (b ++ c) = some n
  := by
  induction b generalizing n with
  | nil =>
      rw [find] at h
      split at h
      next hempty =>
        cases h
        obtain rfl := List.isEmpty_iff.mp hempty
        cases c with
        | nil => rfl
        | cons x c => rfl
      next => cases h
  | cons x b ih =>
      rw [find] at h
      rw [List.cons_append, find]
      split at h
      next hprefix =>
        cases h
        rw [if_pos]
        rw [List.isPrefixOf_iff_prefix] at hprefix ⊢
        apply hprefix.trans
        apply List.prefix_append (x :: b) c
      next hprefix =>
        obtain ⟨m, hm, rfl⟩ := Option.map_eq_some_iff.mp h
        have hle := le_of_find hm
        rw [if_neg, ih hm, Option.map_some]
        intro hprefix'
        apply hprefix
        rw [List.isPrefixOf_iff_prefix] at hprefix' ⊢
        apply List.prefix_of_prefix_length_le hprefix' (List.prefix_append (x :: b) c)
        rw [List.length_cons]
        omega

/-- What is found only at the end is not found without the end. -/
theorem find_eq_none_of_append {sub b c : List UInt8} {n : Nat} (h : find sub (b ++ c) = some n)
    (hend : n + sub.length = (b ++ c).length) (hne : c ≠ []) :
  find sub b = none
  := by
  cases hb : find sub b with
  | none => rfl
  | some m =>
      have hle := le_of_find hb
      cases (find_append_of_find hb).symm.trans h
      have hpos := List.length_pos_of_ne_nil hne
      rw [List.length_append] at hend
      omega

/-- Fuel beyond the length of the string changes nothing. -/
theorem splitLoop_eq_splitString {c : UInt8} {sub s : List UInt8} {fuel : Nat}
    (h : s.length < fuel) :
  splitLoop (c :: sub) fuel s = splitString s (c :: sub)
  := by
  rw [splitString, if_neg (by simp only [List.isEmpty_cons, Bool.false_eq_true, not_false_iff])]
  induction hn : s.length using Nat.strongRecOn generalizing s fuel with
  | _ n ih =>
      obtain ⟨fuel, rfl⟩ := Nat.exists_eq_add_one_of_ne_zero (Nat.ne_zero_of_lt h)
      subst hn
      rw [splitLoop, splitLoop]
      cases hfind : find (c :: sub) s with
      | none => rfl
      | some next =>
          have hle := le_of_find hfind
          rw [List.length_cons] at hle
          have hdrop : (s.drop (next + (c :: sub).length)).length < s.length
            := by
            rw [List.length_drop, List.length_cons]
            omega
          dsimp only
          rw [ih _ hdrop (by omega) rfl, ← ih _ hdrop hdrop rfl]

/-- The first piece is what is in front of the first delimiter. -/
theorem splitString_append {c : UInt8} {sub a : List UInt8} (h : c ∉ a) (s : List UInt8) :
  splitString (a ++ c :: (sub ++ s)) (c :: sub) = a :: splitString s (c :: sub)
  := by
  rw [splitString, if_neg (by simp only [List.isEmpty_cons, Bool.false_eq_true, not_false_iff]),
    splitLoop, find_append_self h]
  dsimp only
  rw [List.take_left, ← List.drop_drop, List.drop_left, splitLoop_eq_splitString]
  · rw [← List.cons_append, List.drop_left]
  · rw [← List.cons_append, List.drop_left]
    simp only [List.length_append, List.length_cons]
    omega

/-- Without a delimiter there is one piece. -/
theorem splitString_eq_nil {c : UInt8} {sub s : List UInt8} (h : splitString s (c :: sub) = []) :
  s = []
  := by
  rw [splitString, if_neg (by simp only [List.isEmpty_cons, Bool.false_eq_true, not_false_iff]),
    splitLoop] at h
  split at h
  · cases h
  · split at h
    next hnil => exact List.isEmpty_iff.mp hnil
    next => cases h

theorem splitString_of_notMem {c : UInt8} {sub a : List UInt8} (h : c ∉ a) (ha : a ≠ []) :
  splitString a (c :: sub) = [a]
  := by
  rw [splitString, if_neg (by simp only [List.isEmpty_cons, Bool.false_eq_true, not_false_iff]),
    splitLoop, find_eq_none h]
  dsimp only
  rw [if_neg]
  rw [List.isEmpty_iff]
  apply ha

/-- A text that begins without a delimiter has a first piece that begins so. -/
theorem exists_splitString_append {c : UInt8} {sub a : List UInt8} (h : c ∉ a) (ha : a ≠ [])
    (s : List UInt8) :
  ∃ x rest, splitString (a ++ s) (c :: sub) = (a ++ x) :: rest
  := by
  rw [splitString, if_neg (by simp only [List.isEmpty_cons, Bool.false_eq_true, not_false_iff]),
    splitLoop, find_append h]
  cases find (c :: sub) s with
  | none =>
      refine ⟨s, [], ?_⟩
      dsimp only [Option.map_none]
      rw [if_neg]
      rw [List.isEmpty_iff]
      exact List.append_ne_nil_of_left_ne_nil ha s
  | some n =>
      have htake : (a ++ s).take (n + a.length) = a ++ s.take n := by
        rw [Nat.add_comm, List.take_length_add_append]
      dsimp only [Option.map_some]
      rw [htake]
      exact ⟨_, _, rfl⟩

/-- Lines that are not empty are what a text of them is split into. -/
theorem splitString_intercalate {c : UInt8} {sub : List UInt8} {ls : List (List UInt8)}
    (h : ∀ l ∈ ls, c ∉ l ∧ l ≠ []) :
  splitString ((c :: sub).intercalate ls) (c :: sub) = ls
  := by
  induction ls with
  | nil => rfl
  | cons l ls ih =>
      obtain ⟨hmem, hne⟩ := h l (List.mem_cons_self ..)
      cases ls with
      | nil =>
          rw [List.intercalate_singleton]
          apply splitString_of_notMem hmem hne
      | cons l' ls =>
          rw [List.intercalate_cons_cons, List.append_assoc, List.cons_append,
            splitString_append hmem, ih (fun l'' h'' => h l'' (List.mem_cons_of_mem _ h''))]

/-! ### Names of files -/

/-- `std::string::find_last_of`: where one of some characters occurs last. -/
def findLastOf (chars s : List UInt8) : Option Nat :=
  (s.reverse.findIdx? (chars.contains ·)).map fun behind => s.length - 1 - behind

/-- `FileNameExt`. -/
def fileNameExt (path : List UInt8) : List UInt8 :=
  match findLastOf (ascii "/\\") path with
  | some pos => if pos + 1 < path.length then path.drop (pos + 1) else path
  | none => path

/-- `FileName`. -/
def fileName (path : List UInt8) : List UInt8 :=
  let name := fileNameExt path
  match findLastOf (ascii ".") name with
  | some pos => if pos ≠ 0 then name.take pos else name
  | none => name

/-- `Extension`. -/
def extension (path : List UInt8) : List UInt8 :=
  let name := fileNameExt path
  match findLastOf (ascii ".") name with
  | some pos => if pos ≠ 0 ∧ pos + 1 < name.length then name.drop (pos + 1) else []
  | none => []

end StringUtils

/-! ### Characters -/

/-- `tolower`. -/
def toLower (c : UInt8) : UInt8 := if 65 ≤ c ∧ c ≤ 90 then c + 32 else c

/-- `isspace`. -/
def isSpace (c : UInt8) : Bool := c = 32 ∨ 9 ≤ c ∧ c ≤ 13

/-- A hexadecimal digit in upper case. -/
def hexChar (d : Nat) : UInt8 := UInt8.ofNat (if d < 10 then 48 + d else 55 + d)

/-- The value of a character as a digit. Letters go on from ten. -/
def digitValue (c : UInt8) : Option Nat :=
  if 48 ≤ c ∧ c ≤ 57 then some (c.toNat - 48)
  else if 65 ≤ c ∧ c ≤ 90 then some (c.toNat - 55)
  else if 97 ≤ c ∧ c ≤ 122 then some (c.toNat - 87)
  else none

/-- The character is a digit in the base. -/
def isDigit (base : Nat) (c : UInt8) : Bool := (digitValue c).any (· < base)

/-- `HttpUtils::Trim`. -/
def trim (s : List UInt8) : List UInt8 := (s.rdropWhile isSpace).dropWhile isSpace

/-- A string that does not begin with a space stays as it is. -/
theorem dropWhile_isSpace {s : List UInt8}
    (hhead : ∀ c, s.head? = some c → isSpace c = false) :
  s.dropWhile isSpace = s
  := by
  cases s with
  | nil => rfl
  | cons c s =>
      rw [List.dropWhile_cons_of_neg]
      rw [hhead c rfl]
      apply Bool.false_ne_true

/-- What stands between spaces is left by trimming. -/
theorem trim_append {before s after : List UInt8} (hbefore : ∀ c ∈ before, isSpace c)
    (hafter : ∀ c ∈ after, isSpace c) (hhead : ∀ c, s.head? = some c → isSpace c = false)
    (hlast : ∀ c, s.getLast? = some c → isSpace c = false) :
  trim (before ++ s ++ after) = s
  := by
  rw [trim, List.rdropWhile, List.reverse_append, List.dropWhile_append_of_pos]
  · cases s with
    | nil =>
        have hnil : before.reverse.dropWhile isSpace = []
          := by
          rw [List.dropWhile_eq_nil_iff]
          intro c hc
          apply hbefore c (List.mem_reverse.mp hc)
        rw [List.append_nil, hnil]
        rfl
    | cons c s =>
        have hne : (c :: s).reverse ≠ []
          := by simp only [ne_eq, List.reverse_eq_nil_iff, reduceCtorEq, not_false_iff]
        have hend : (before ++ c :: s).reverse.dropWhile isSpace = (before ++ c :: s).reverse
          := by
          apply dropWhile_isSpace
          intro d hd
          apply hlast
          rw [List.reverse_append, List.head?_append_of_ne_nil _ hne, List.head?_reverse] at hd
          apply hd
        rw [hend, List.reverse_reverse, List.dropWhile_append_of_pos hbefore,
          dropWhile_isSpace hhead]
  · intro c hc
    apply hafter c (List.mem_reverse.mp hc)

/-! ### Numbers -/

/-- The number that digits stand for. -/
def numeral (base : Nat) (s : List UInt8) : Nat :=
  s.foldl (fun n c => n * base + (digitValue c).getD 0) 0

/-- The prefix of a hexadecimal number is skipped if a digit is behind it. -/
def dropHexPrefix : List UInt8 → List UInt8
  | 48 :: x :: d :: s => if toLower x = 120 ∧ isDigit 16 d then d :: s else 48 :: x :: d :: s
  | s => s

/-- The number at the head of a string as the functions of the standard library read it, with
whether it has a minus sign. -/
def leadingNumber (base : Nat) (s : List UInt8) : Option (Bool × Nat) :=
  let s := s.dropWhile isSpace
  let negative := s.head? = some 45
  let s := if s.head? = some 45 ∨ s.head? = some 43 then s.tail else s
  let digits := ((if base = 16 then dropHexPrefix s else s).takeWhile (isDigit base))
  if digits.isEmpty then none else some (negative, numeral base digits)

/-- `strtol`: 0 without a number, and the nearest `long` for one out of range. -/
def strtol (s : List UInt8) (base : Nat) : Int :=
  match leadingNumber base s with
  | none => 0
  | some (true, n) => max (-2 ^ 63) (-n)
  | some (false, n) => min (2 ^ 63 - 1) n

/-- `stoull`, which throws without a number and for one out of range. -/
def stoull (s : List UInt8) : Option Nat :=
  match leadingNumber 10 s with
  | none => none
  | some (negative, n) =>
    if 2 ^ 64 ≤ n then none
    else if negative then some ((2 ^ 64 - n) % 2 ^ 64)
    else some n

/-- The conversion to an `int32_t`. -/
def truncate32 (n : Int) : Int := n.bmod (2 ^ 32)

/-- `atoi`. -/
def atoi (s : List UInt8) : Int := truncate32 (strtol s 10)

/-- Small integers stay as they are. -/
theorem truncate32_of_lt {n : Nat} (h : n < 2 ^ 31) :
  truncate32 n = n
  := by
  apply Int.bmod_eq_of_le
  · omega
  · omega

/-- Sizes do not get larger. -/
theorem truncate32_le (n : Nat) :
  truncate32 n ≤ n
  := by
  rw [truncate32, Int.bmod_def]
  split <;> omega

theorem le_truncate32 (n : Int) :
  -2 ^ 31 ≤ truncate32 n
  := by
  have hle := Int.le_bmod (x := n) (m := 2 ^ 32) (by decide)
  rw [truncate32]
  omega

theorem truncate32_lt (n : Int) :
  truncate32 n < 2 ^ 31
  := by
  have hlt := Int.bmod_lt (x := n) (m := 2 ^ 32) (by decide)
  rw [truncate32]
  omega

/-! ### Reading digits -/

theorem isDigit_mono {b b' : Nat} {c : UInt8} (h : isDigit b c) (hle : b ≤ b') :
  isDigit b' c
  := by
  rw [isDigit, Option.any_eq_true] at h ⊢
  obtain ⟨d, hd, hlt⟩ := h
  use d, hd
  rw [decide_eq_true_iff] at hlt ⊢
  omega

/-- The places of the digits and of the letters. -/
theorem bounds_of_isDigit {base : Nat} {c : UInt8} (h : isDigit base c) :
  (48 ≤ c.toNat ∧ c.toNat ≤ 57) ∨ (65 ≤ c.toNat ∧ c.toNat ≤ 90) ∨
    (97 ≤ c.toNat ∧ c.toNat ≤ 122)
  := by
  rw [isDigit, Option.any_eq_true] at h
  obtain ⟨d, hd, -⟩ := h
  simp only [digitValue, UInt8.le_iff_toNat_le, UInt8.toNat_ofNat] at hd
  split_ifs at hd <;> omega

/-- Digits come behind the signs and the spaces. -/
theorem le_of_isDigit {base : Nat} {c : UInt8} (h : isDigit base c) :
  48 ≤ c.toNat
  := by
  have hbounds := bounds_of_isDigit h
  omega

theorem isSpace_eq_false {c : UInt8} (h : 33 ≤ c.toNat) :
  isSpace c = false
  := by
  simp only [isSpace, decide_eq_false_iff_not, UInt8.le_iff_toNat_le, UInt8.toNat_ofNat,
    ← UInt8.toNat_inj]
  omega

/-- The letter of a hexadecimal prefix. -/
theorem eq_of_toLower_eq {c : UInt8} (h : toLower c = 120) :
  c = 120 ∨ c = 88
  := by
  rw [toLower] at h
  split at h
  · right
    rw [← UInt8.add_left_inj 32, h]
    rfl
  · left
    apply h

/-- The letter is not a hexadecimal digit. -/
theorem toLower_ne_of_isDigit {c : UInt8} (h : isDigit 16 c) :
  toLower c ≠ 120
  := by
  intro hc
  obtain rfl | rfl := eq_of_toLower_eq hc
  · contradiction
  · contradiction

/-- The letter is a digit in base 36. -/
theorem isDigit_of_toLower {c : UInt8} (h : toLower c = 120) :
  isDigit 36 c
  := by
  obtain rfl | rfl := eq_of_toLower_eq h
  · rfl
  · rfl

/-- A string without a letter in the second place has no hexadecimal prefix. -/
theorem dropHexPrefix_of_ne {c x : UInt8} {s : List UInt8} (h : toLower x ≠ 120) :
  dropHexPrefix (c :: x :: s) = c :: x :: s
  := by
  rw [dropHexPrefix.eq_def]
  split
  next heq =>
    cases heq
    rw [if_neg (fun hx => h hx.1)]
  next => rfl

/-- Digits followed by something that is neither a digit nor a letter have no hexadecimal
prefix. -/
theorem dropHexPrefix_digits {ds rest : List UInt8} (hne : ds ≠ [])
    (hds : ∀ d ∈ ds, isDigit 16 d) (hrest : ∀ c, rest.head? = some c → isDigit 36 c = false) :
  dropHexPrefix (ds ++ rest) = ds ++ rest
  := by
  match ds, rest with
  | [], _ => contradiction
  | [d], [] =>
      rw [dropHexPrefix.eq_def]
      split
      next heq => cases heq
      next => rfl
  | [d], c :: rest =>
      apply dropHexPrefix_of_ne
      intro hx
      have hdigit := isDigit_of_toLower hx
      rw [hrest c rfl] at hdigit
      contradiction
  | d :: d' :: ds, rest =>
      apply dropHexPrefix_of_ne
      apply toLower_ne_of_isDigit
      apply hds
      apply List.mem_cons_of_mem _ (List.mem_cons_self ..)

/-- A string of digits, followed by something that is neither a digit nor a letter, is read
whole. -/
theorem leadingNumber_digits {base : Nat} {ds rest : List UInt8} (hne : ds ≠ [])
    (hds : ∀ d ∈ ds, isDigit base d) (hbase : base ≤ 16)
    (hrest : ∀ c, rest.head? = some c → isDigit 36 c = false) :
  leadingNumber base (ds ++ rest) = some (false, numeral base ds)
  := by
  obtain ⟨d, ds', rfl⟩ := List.exists_cons_of_ne_nil hne
  have hd := le_of_isDigit (hds d (List.mem_cons_self ..))
  have hspace : (d :: ds' ++ rest).dropWhile isSpace = d :: ds' ++ rest
    := by
    rw [List.cons_append, List.dropWhile_cons_of_neg]
    rw [isSpace_eq_false (by omega)]
    apply Bool.false_ne_true
  have hminus : ¬ (d :: ds' ++ rest).head? = some 45
    := by
    rw [List.cons_append, List.head?_cons, Option.some.injEq]
    rintro rfl
    contradiction
  have hplus : ¬ (d :: ds' ++ rest).head? = some 43
    := by
    rw [List.cons_append, List.head?_cons, Option.some.injEq]
    rintro rfl
    contradiction
  have hprefix : (if base = 16 then dropHexPrefix (d :: ds' ++ rest) else d :: ds' ++ rest) =
      d :: ds' ++ rest
    := by
    split
    next h16 =>
      subst h16
      apply dropHexPrefix_digits hne hds hrest
    next => rfl
  have hdigits : (d :: ds' ++ rest).takeWhile (isDigit base) = d :: ds'
    := by
    rw [List.takeWhile_append_of_pos hds]
    cases rest with
    | nil => apply List.append_nil
    | cons c rest =>
        rw [List.takeWhile_cons_of_neg, List.append_nil]
        intro hc
        have hdigit := isDigit_mono hc (by omega : base ≤ 36)
        rw [hrest c rfl] at hdigit
        contradiction
  simp only [leadingNumber, hspace, hminus, hplus, or_self, if_false, hprefix, hdigits,
    List.isEmpty_cons, Bool.false_eq_true, decide_false]

/-- `stoull` of digits. -/
theorem stoull_digits {ds : List UInt8} (hne : ds ≠ []) (hds : ∀ d ∈ ds, isDigit 10 d)
    (hlt : numeral 10 ds < 2 ^ 64) :
  stoull ds = some (numeral 10 ds)
  := by
  have hnumber : leadingNumber 10 (ds ++ []) = some (false, numeral 10 ds)
    := by
    apply leadingNumber_digits hne hds (by omega)
    rintro c ⟨⟩
  rw [List.append_nil] at hnumber
  rw [stoull, hnumber]
  dsimp only
  rw [if_neg (Nat.not_le_of_lt hlt), if_neg Bool.false_ne_true]

/-- `strtol` of digits and what follows them. -/
theorem strtol_digits {base : Nat} {ds rest : List UInt8} (hne : ds ≠ [])
    (hds : ∀ d ∈ ds, isDigit base d) (hbase : base ≤ 16)
    (hrest : ∀ c, rest.head? = some c → isDigit 36 c = false) (hlt : numeral base ds < 2 ^ 63) :
  strtol (ds ++ rest) base = numeral base ds
  := by
  rw [strtol, leadingNumber_digits hne hds hbase hrest]
  dsimp only
  omega

/-- `atoi` of digits. -/
theorem atoi_digits {ds : List UInt8} (hne : ds ≠ []) (hds : ∀ d ∈ ds, isDigit 10 d)
    (hlt : numeral 10 ds < 2 ^ 31) :
  atoi ds = numeral 10 ds
  := by
  have hlong : strtol (ds ++ []) 10 = numeral 10 ds
    := by
    apply strtol_digits hne hds (by omega)
    · rintro c ⟨⟩
    · omega
  rw [List.append_nil] at hlong
  rw [atoi, hlong, truncate32_of_lt hlt]

/-- Digits stand for less than the power of the base. -/
theorem numeral_lt {base : Nat} {ds : List UInt8} (hds : ∀ d ∈ ds, isDigit base d) :
  numeral base ds < base ^ ds.length
  := by
  have hfold : ∀ n, ds.foldl (fun n c => n * base + (digitValue c).getD 0) n <
      (n + 1) * base ^ ds.length
    := by
    induction ds with
    | nil =>
        intro n
        rw [List.foldl_nil, List.length_nil, Nat.pow_zero]
        omega
    | cons d ds ih =>
        intro n
        have hd := hds d (List.mem_cons_self ..)
        rw [isDigit, Option.any_eq_true] at hd
        obtain ⟨v, hv, hlt⟩ := hd
        rw [decide_eq_true_iff] at hlt
        have hrest := ih (fun d' h' => hds d' (List.mem_cons_of_mem _ h')) (n * base + v)
        rw [List.foldl_cons, hv, Option.getD_some, List.length_cons, Nat.pow_succ']
        calc ds.foldl (fun n c => n * base + (digitValue c).getD 0) (n * base + v)
            < (n * base + v + 1) * base ^ ds.length := hrest
          _ ≤ (n * base + base) * base ^ ds.length := Nat.mul_le_mul_right _ (by omega)
          _ = (n + 1) * (base * base ^ ds.length) := by ring
  have hzero := hfold 0
  rw [Nat.zero_add, Nat.one_mul] at hzero
  apply hzero
