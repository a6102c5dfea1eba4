import Mathlib.Init

/-!
# Search trees

Red-black trees into which keys are put as `std::set` does it: a search goes down from the root by
a comparison, the key is put where it ends, unless the comparison does not place it behind the key
in front of it, and the tree is rebalanced from there.

Nothing is asked of the comparison.  So a tree is only the list of its keys in order
(`RbTree.toList`), a key is searched at one place of that list (`RbTree.before_append_after`), and
what is in the tree behind some insertions are the keys that were not refused
(`RbTree.mem_insertAll`).
-/

universe u

inductive Colour where
  | red
  | black
  deriving DecidableEq, Repr

/-- A tree with a key in every node. -/
inductive RbTree (α : Type u) where
  | leaf
  | node (colour : Colour) (left : RbTree α) (key : α) (right : RbTree α)
  deriving DecidableEq, Repr

namespace RbTree

variable {α : Type u}

/-- The keys in order. -/
def toList : RbTree α → List α
  | leaf => []
  | node _ left key right => left.toList ++ key :: right.toList

/-! ### Paths -/

/-- A node above a subtree, with its other subtree. -/
structure Turn (α : Type u) where
  /-- The subtree is the left one. -/
  left : Bool
  colour : Colour
  key : α
  sibling : RbTree α

namespace Turn

/-- The node with its subtree. -/
def fill (turn : Turn α) (t : RbTree α) : RbTree α :=
  if turn.left then node turn.colour t turn.key turn.sibling
  else node turn.colour turn.sibling turn.key t

/-- The keys in front of the subtree. -/
def before (turn : Turn α) : List α :=
  if turn.left then [] else turn.sibling.toList ++ [turn.key]

/-- The keys behind the subtree. -/
def after (turn : Turn α) : List α :=
  if turn.left then turn.key :: turn.sibling.toList else []

end Turn

/-- A tree under the nodes above it, the lowest first. -/
def fillAll (t : RbTree α) : List (Turn α) → RbTree α
  | [] => t
  | turn :: path => (turn.fill t).fillAll path

/-- The keys in front of the place that a path leads to. -/
def before : List (Turn α) → List α
  | [] => []
  | turn :: path => before path ++ turn.before

/-- The keys behind it. -/
def after : List (Turn α) → List α
  | [] => []
  | turn :: path => turn.after ++ after path

/-! ### Inserting -/

def blacken : RbTree α → RbTree α
  | leaf => leaf
  | node _ left key right => node .black left key right

/-- The rotations at a red node under a red one whose sibling is black. -/
def rotate (left : RbTree α) (key : α) (right : RbTree α) (parent grandparent : Turn α) : RbTree α :=
  match grandparent.left, parent.left with
  | true, true =>
      node .black (node .red left key right) parent.key
        (node .red parent.sibling grandparent.key grandparent.sibling)
  | true, false =>
      node .black (node .red parent.sibling parent.key left) key
        (node .red right grandparent.key grandparent.sibling)
  | false, true =>
      node .black (node .red grandparent.sibling grandparent.key left) key
        (node .red right parent.key parent.sibling)
  | false, false =>
      node .black (node .red grandparent.sibling grandparent.key parent.sibling) parent.key
        (node .red left key right)

/-- A red node is put at the end of a path. -/
def rebalance (left : RbTree α) (key : α) (right : RbTree α) : List (Turn α) → RbTree α
  | [] => node .black left key right
  | [parent] => (parent.fill (node .red left key right)).blacken
  | parent :: grandparent :: path =>
      match parent.colour, grandparent.sibling with
      | .black, _ =>
          ((node .red left key right).fillAll (parent :: grandparent :: path)).blacken
      | .red, node .red l k r =>
          -- the sibling of the parent is red too, so both become black
          let t := { parent with colour := .black }.fill (node .red left key right)
          if grandparent.left then rebalance t grandparent.key (node .black l k r) path
          else rebalance (node .black l k r) grandparent.key t path
      | .red, _ => ((rotate left key right parent grandparent).fillAll path).blacken

variable (lt : α → α → Bool)

/-- The path of a search, the lowest node first. -/
def search (key : α) : RbTree α → List (Turn α) → List (Turn α)
  | leaf, path => path
  | node colour left k right, path =>
      if lt key k then search key left (⟨true, colour, k, right⟩ :: path)
      else search key right (⟨false, colour, k, left⟩ :: path)

/-- The key in front of the place where a search ends. -/
def position (t : RbTree α) (key : α) : Option α :=
  (before (t.search lt key [])).getLast?

/-- A key is not inserted. -/
def Refuses (t : RbTree α) (key : α) : Prop :=
  ∃ k, t.position lt key = some k ∧ lt k key = false

/-- `std::set::insert`. -/
def insert (t : RbTree α) (key : α) : RbTree α :=
  match t.position lt key with
  | some k => if lt k key then rebalance leaf key leaf (t.search lt key []) else t
  | none => rebalance leaf key leaf (t.search lt key [])

def insertAll (t : RbTree α) (keys : List α) : RbTree α := keys.foldl (insert lt) t

/-! ### Keys in order -/

/-- Keys between those in front of the end of a path and those behind it. -/
def around (path : List (Turn α)) (keys : List α) : List α := before path ++ keys ++ after path

theorem toList_fill (turn : Turn α) (t : RbTree α) :
  (turn.fill t).toList = turn.before ++ t.toList ++ turn.after
  := by
  rw [Turn.fill, Turn.before, Turn.after]
  cases turn.left with
  | true => rfl
  | false =>
      change turn.sibling.toList ++ turn.key :: t.toList =
        turn.sibling.toList ++ [turn.key] ++ t.toList ++ []
      rw [List.append_nil, List.append_assoc, List.singleton_append]

theorem around_cons (turn : Turn α) (path : List (Turn α)) (keys : List α) :
  around (turn :: path) keys = around path (turn.before ++ keys ++ turn.after)
  := by
  simp only [around, before, after, List.append_assoc]

theorem toList_fillAll (t : RbTree α) (path : List (Turn α)) :
  (t.fillAll path).toList = around path t.toList
  := by
  induction path generalizing t with
  | nil => exact (List.append_nil _).symm
  | cons turn path ih => rw [fillAll, ih, toList_fill, around_cons]

theorem toList_blacken (t : RbTree α) :
  t.blacken.toList = t.toList
  := by
  cases t with
  | leaf => rfl
  | node colour left key right => rfl

theorem toList_rotate (left : RbTree α) (key : α) (right : RbTree α) (parent grandparent : Turn α) :
  (rotate left key right parent grandparent).toList =
    (grandparent.fill (parent.fill (node .red left key right))).toList
  := by
  rw [rotate, Turn.fill, Turn.fill]
  cases grandparent.left with
  | true =>
      cases parent.left with
      | true => simp [toList]
      | false => simp [toList]
  | false =>
      cases parent.left with
      | true => simp [toList]
      | false => simp [toList]

/-- Rebalancing keeps the order. -/
theorem toList_rebalance (left : RbTree α) (key : α) (right : RbTree α) (path : List (Turn α)) :
  (rebalance left key right path).toList = around path (left.toList ++ key :: right.toList)
  := by
  fun_induction rebalance left key right path with
  | case1 left key right => exact (List.append_nil _).symm
  | case2 left key right parent =>
      rw [toList_blacken, toList_fill, around_cons]
      exact (List.append_nil _).symm
  | case3 left key right parent grandparent path hblack =>
      rw [toList_blacken, toList_fillAll]
      rfl
  | case4 left key right parent grandparent path l k r huncle hred t hleft ih =>
      have ht : t.toList = parent.before ++ (left.toList ++ key :: right.toList) ++ parent.after
        := toList_fill _ _
      have hbefore : grandparent.before = [] := if_pos hleft
      have hafter : grandparent.after = grandparent.key :: (node .black l k r).toList := by
        rw [Turn.after, if_pos hleft, huncle]
        rfl
      rw [ih, ht, around_cons, around_cons, hbefore, hafter, List.nil_append]
  | case5 left key right parent grandparent path l k r huncle hred t hleft ih =>
      have ht : t.toList = parent.before ++ (left.toList ++ key :: right.toList) ++ parent.after
        := toList_fill _ _
      have hbefore : grandparent.before = (node .black l k r).toList ++ [grandparent.key] := by
        rw [Turn.before, if_neg hleft, huncle]
        rfl
      have hafter : grandparent.after = [] := if_neg hleft
      rw [ih, ht, around_cons, around_cons, hbefore, hafter, List.append_nil, List.append_assoc _ [_],
        List.singleton_append]
  | case6 left key right parent grandparent path hred huncle =>
      rw [toList_blacken, toList_fillAll, toList_rotate, toList_fill, toList_fill, around_cons,
        around_cons]
      rfl

/-! ### Searching -/

/-- A search passes no key by. -/
theorem around_search (key : α) (t : RbTree α) (path : List (Turn α)) :
  around (t.search lt key path) [] = around path t.toList
  := by
  induction t generalizing path with
  | leaf => rfl
  | node colour left k right ihleft ihright =>
      rw [search]
      split
      · rw [ihleft, around_cons]
        rfl
      · rw [ihright, around_cons]
        change around path (left.toList ++ [k] ++ right.toList ++ []) = _
        rw [List.append_nil, List.append_assoc, List.singleton_append]
        rfl

/-- The keys of a tree are those in front of the place where a key is searched and those behind
it. -/
theorem before_append_after (t : RbTree α) (key : α) :
  before (t.search lt key []) ++ after (t.search lt key []) = t.toList
  := by
  have haround := around_search lt key t []
  rw [around, List.append_nil] at haround
  exact haround.trans (List.append_nil _)

variable {lt : α → α → Bool}

/-- A search turns right where the key is not placed in front. -/
theorem lt_of_search {key : α} {t : RbTree α} {path : List (Turn α)}
    (hpath : ∀ turn ∈ path, turn.left = false → lt key turn.key = false) :
  ∀ turn ∈ t.search lt key path, turn.left = false → lt key turn.key = false
  := by
  induction t generalizing path with
  | leaf => exact hpath
  | node colour left k right ihleft ihright =>
      rw [search]
      split
      · apply ihleft
        intro turn hturn hright
        rcases List.mem_cons.mp hturn with rfl | hturn
        · cases hright
        · exact hpath turn hturn hright
      next hlt =>
        apply ihright
        intro turn hturn hright
        rcases List.mem_cons.mp hturn with rfl | hturn
        · exact Bool.eq_false_iff.mpr hlt
        · exact hpath turn hturn hright

/-- The key in front of the end of a path is that of its last turn to the right. -/
theorem getLast?_before {path : List (Turn α)} {k : α} (h : (before path).getLast? = some k) :
  ∃ turn ∈ path, turn.left = false ∧ turn.key = k
  := by
  induction path with
  | nil => cases h
  | cons turn path ih =>
      rw [before, Turn.before] at h
      split at h
      · rw [List.append_nil] at h
        obtain ⟨turn', hturn, hright⟩ := ih h
        exact ⟨turn', List.mem_cons_of_mem _ hturn, hright⟩
      next hleft =>
        rw [← List.append_assoc, List.getLast?_concat] at h
        exact ⟨turn, List.mem_cons_self, Bool.eq_false_iff.mpr hleft, Option.some.inj h⟩

/-- The key in front of the place where a key is searched is in the tree, and the search went past
it. -/
theorem position_eq_some {t : RbTree α} {key k : α} (h : t.position lt key = some k) :
  k ∈ t.toList ∧ lt key k = false
  := by
  constructor
  · rw [← t.before_append_after lt key]
    exact List.mem_append_left _ (List.mem_of_getLast? h)
  · obtain ⟨turn, hturn, hright, rfl⟩ := getLast?_before h
    exact lt_of_search (fun _ hnil => absurd hnil List.not_mem_nil) turn hturn hright

/-! ### Insertions -/

theorem insert_of_refuses {t : RbTree α} {key : α} (h : t.Refuses lt key) :
  t.insert lt key = t
  := by
  obtain ⟨k, hposition, hlt⟩ := h
  rw [insert, hposition]
  dsimp only
  rw [if_neg (Bool.eq_false_iff.mp hlt)]

/-- A key that is not refused comes where it was searched. -/
theorem toList_insert {t : RbTree α} {key : α} (h : ¬ t.Refuses lt key) :
  (t.insert lt key).toList =
    before (t.search lt key []) ++ key :: after (t.search lt key [])
  := by
  have hinsert : t.insert lt key = rebalance leaf key leaf (t.search lt key []) := by
    rw [insert]
    cases hposition : t.position lt key with
    | none => rfl
    | some k =>
        apply if_pos
        apply Bool.not_eq_false _ |>.mp
        exact fun hlt => h ⟨k, hposition, hlt⟩
  rw [hinsert, toList_rebalance, around, List.append_assoc]
  rfl

/-- An insertion adds the key if it is not refused, and nothing else. -/
theorem mem_insert {t : RbTree α} {key x : α} :
  x ∈ (t.insert lt key).toList ↔ x ∈ t.toList ∨ x = key ∧ ¬ t.Refuses lt key
  := by
  by_cases hrefuses : t.Refuses lt key
  · rw [insert_of_refuses hrefuses]
    simp only [hrefuses, not_true_eq_false, and_false, or_false]
  · rw [toList_insert hrefuses, ← t.before_append_after lt key]
    simp only [List.mem_append, List.mem_cons, hrefuses, not_false_eq_true, and_true]
    rw [or_assoc, @or_comm (x = key)]

/-- The keys behind some insertions: those that were there, and those that were once not refused. -/
theorem mem_insertAll {t : RbTree α} {keys : List α} {x : α} :
  x ∈ (t.insertAll lt keys).toList ↔ x ∈ t.toList ∨
    ∃ front back, keys = front ++ x :: back ∧ ¬ (t.insertAll lt front).Refuses lt x
  := by
  induction keys generalizing t with
  | nil =>
      constructor
      · exact .inl
      · rintro (hx | ⟨front, back, hnil, -⟩)
        · exact hx
        · cases front with
          | nil => cases hnil
          | cons _ _ => cases hnil
  | cons key keys ih =>
      rw [insertAll, List.foldl_cons, ← insertAll, ih, mem_insert, or_assoc]
      apply or_congr_right
      constructor
      · rintro (⟨rfl, hplaced⟩ | ⟨front, back, rfl, hplaced⟩)
        · exact ⟨[], keys, rfl, hplaced⟩
        · exact ⟨key :: front, back, rfl, hplaced⟩
      · rintro ⟨front, back, hkeys, hplaced⟩
        cases front with
        | nil =>
            obtain ⟨rfl, rfl⟩ := List.cons.inj hkeys
            exact .inl ⟨rfl, hplaced⟩
        | cons k front =>
            obtain ⟨rfl, rfl⟩ := List.cons.inj hkeys
            exact .inr ⟨front, back, rfl, hplaced⟩

end RbTree
