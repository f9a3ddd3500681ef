/-
`immutable/llrb_node.h`: the nodes of the left-leaning red-black tree that a sorted
map of the Firestore client turns into when it grows.

The functions are those of the header, in its order. A member function that changes
`*this` changes a copy that it or its caller has just made, so it is a function of the
node here. `toList` is the tree in the order of its entries, and what the operations do
to it is what `Lib.OrderedList` does to a list: `innerInsert_spec`, `removeMin_spec` and
`innerErase_spec` say so, each together with the balance it keeps.

The erasing functions move a red link along with them on their way down. `Spare` lists
the four ways in which the node they are at has one to give, each with the balance it
promises of what is left.
-/
import FreeFood.Lib.OrderedList
import Mathlib.Algebra.Group.Nat.Defs
import Mathlib.Data.Nat.Log
import Mathlib.Tactic.SplitIfs

set_option autoImplicit false

namespace FreeFood.Firestore

open Std OrderedList

/-- The colour of a node. -/
inductive Color where
  | black
  | red
deriving DecidableEq

/-- The other colour. -/
def Color.opposite : Color → Color
  | .black => .red
  | .red => .black

@[simp] theorem Color.opposite_black : Color.opposite .black = .red := rfl

@[simp] theorem Color.opposite_red : Color.opposite .red = .black := rfl

@[simp] theorem Color.opposite_opposite (c : Color) : c.opposite.opposite = c := by
  cases c <;> rfl

/-- A node: an empty one, which is the shared representation or a copy of it, or one
with an entry, its colour, the number of entries at and beneath it, and its children. -/
inductive LlrbNode (K V : Type) where
  | empty (color : Color)
  | node (entry : K × V) (color : Color) (size : ℕ) (left right : LlrbNode K V)

namespace LlrbNode

variable {K V : Type}

/-! ## 1. The accessors -/

def isEmpty : LlrbNode K V → Bool
  | empty _ => true
  | node .. => false

def size : LlrbNode K V → ℕ
  | empty _ => 0
  | node _ _ s _ _ => s

def color : LlrbNode K V → Color
  | empty c => c
  | node _ c _ _ _ => c

def red (n : LlrbNode K V) : Bool := n.color == .red

/-- The links of an empty node lead to the shared empty node. -/
def left : LlrbNode K V → LlrbNode K V
  | empty _ => empty .black
  | node _ _ _ l _ => l

def right : LlrbNode K V → LlrbNode K V
  | empty _ => empty .black
  | node _ _ _ _ r => r

section

variable (e : K × V) (c : Color) (s : ℕ) (l r : LlrbNode K V)

@[simp] theorem left_node : (node e c s l r).left = l := rfl

@[simp] theorem right_node : (node e c s l r).right = r := rfl

@[simp] theorem size_node : (node e c s l r).size = s := rfl

@[simp] theorem color_node : (node e c s l r).color = c := rfl

@[simp] theorem red_node : (node e c s l r).red = (c == .red) := rfl

@[simp] theorem isEmpty_node : (node e c s l r).isEmpty = false := rfl

end

/-- The entry of `min()`. -/
def min? : LlrbNode K V → Option (K × V)
  | empty _ => none
  | node e _ _ l _ => if l.isEmpty then some e else l.min?

/-- The entry of `max()`. -/
def max? : LlrbNode K V → Option (K × V)
  | empty _ => none
  | node e _ _ _ r => if r.isEmpty then some e else r.max?

def setColor (c : Color) : LlrbNode K V → LlrbNode K V
  | empty _ => empty c
  | node e _ s l r => node e c s l r

def setLeft : LlrbNode K V → LlrbNode K V → LlrbNode K V
  | empty c, _ => empty c
  | node e c s _ r, l => node e c s l r

def setRight : LlrbNode K V → LlrbNode K V → LlrbNode K V
  | empty c, _ => empty c
  | node e c s l _, r => node e c s l r

/-! ## 2. The rotations -/

/-- `RotateLeft`. It is called where the right child is red, which an empty one never
is. -/
def rotateLeft : LlrbNode K V → LlrbNode K V
  | node e c s l (node e' _ _ l' r') => node e' c s (node e .red (l.size + 1 + l'.size) l l') r'
  | n => n

/-- `RotateRight`. It is called where the left child is red. -/
def rotateRight : LlrbNode K V → LlrbNode K V
  | node e c s (node e' _ _ l' r') r => node e' c s l' (node e .red (r'.size + 1 + r.size) r' r)
  | n => n

/-- `FlipColor`: the colours of the node and of its children. -/
def flipColor : LlrbNode K V → LlrbNode K V
  | node e c s l r =>
      node e c.opposite s (l.setColor l.color.opposite) (r.setColor r.color.opposite)
  | n => n

/-- `FixUp`, after the children of a node have been changed. -/
def fixUp : LlrbNode K V → LlrbNode K V
  | node e c _ l r =>
      let n := node e c (l.size + 1 + r.size) l r
      let n := if n.right.red && !n.left.red then n.rotateLeft else n
      let n := if n.left.red && n.left.left.red then n.rotateRight else n
      if n.left.red && n.right.red then n.flipColor else n
  | n => n

def fixRootColor (n : LlrbNode K V) : LlrbNode K V :=
  if n.red then n.setColor .black else n

def moveRedLeft (n : LlrbNode K V) : LlrbNode K V :=
  let n := n.flipColor
  if n.right.left.red then ((n.setRight n.right.rotateRight).rotateLeft).flipColor else n

def moveRedRight (n : LlrbNode K V) : LlrbNode K V :=
  let n := n.flipColor
  if n.left.left.red then n.rotateRight.flipColor else n

/-- What `RemoveMin` and `InnerErase` do before they go left: a child that is a 2-node
is given a red link. -/
def toLeft (n : LlrbNode K V) : LlrbNode K V :=
  if !n.left.isEmpty && !n.left.red && !n.left.left.red then n.moveRedLeft else n

/-- What `InnerErase` does before it goes right. -/
def toRight (n : LlrbNode K V) : LlrbNode K V :=
  let n := if n.left.red then n.rotateRight else n
  if !n.right.isEmpty && !n.right.red && !n.right.left.red then n.moveRedRight else n

/-! ## 3. The number of nodes, by which the recursions end -/

/-- The nodes with an entry. -/
def count : LlrbNode K V → ℕ
  | empty _ => 0
  | node _ _ _ l r => l.count + 1 + r.count

@[simp] theorem count_setColor (c : Color) (n : LlrbNode K V) : (n.setColor c).count = n.count := by
  cases n <;> rfl

@[simp] theorem count_rotateLeft (n : LlrbNode K V) : n.rotateLeft.count = n.count := by
  rcases n with c | ⟨e, c, s, l, c' | ⟨e', c', s', l', r'⟩⟩
  · rw [rotateLeft]
    exact fun _ _ _ _ _ _ _ _ _ h => by cases h
  · rfl
  · simp only [rotateLeft, count]
    omega

@[simp] theorem count_rotateRight (n : LlrbNode K V) : n.rotateRight.count = n.count := by
  rcases n with c | ⟨e, c, s, c' | ⟨e', c', s', l', r'⟩, r⟩
  · rfl
  · rfl
  · simp only [rotateRight, count]
    omega

@[simp] theorem count_flipColor (n : LlrbNode K V) : n.flipColor.count = n.count := by
  cases n with
  | empty c => rfl
  | node e c s l r => simp only [flipColor, count, count_setColor]

/-- A child in the place of one with as many nodes. -/
theorem count_setRight {n r : LlrbNode K V} (h : r.count = n.right.count) :
    (n.setRight r).count = n.count := by
  cases n with
  | empty c => rfl
  | node e c s l r' =>
      simp only [setRight, count]
      rw [h, right]

@[simp] theorem count_moveRedLeft (n : LlrbNode K V) : n.moveRedLeft.count = n.count := by
  unfold moveRedLeft
  dsimp only
  split
  · rw [count_flipColor, count_rotateLeft, count_setRight (count_rotateRight _), count_flipColor]
  · exact count_flipColor n

@[simp] theorem count_moveRedRight (n : LlrbNode K V) : n.moveRedRight.count = n.count := by
  unfold moveRedRight
  dsimp only
  split
  · rw [count_flipColor, count_rotateRight, count_flipColor]
  · exact count_flipColor n

@[simp] theorem count_toLeft (n : LlrbNode K V) : n.toLeft.count = n.count := by
  unfold toLeft
  split
  · exact count_moveRedLeft n
  · rfl

@[simp] theorem count_toRight (n : LlrbNode K V) : n.toRight.count = n.count := by
  simp only [toRight]
  split_ifs <;> simp only [count_moveRedRight, count_rotateRight]

theorem count_left_lt {n : LlrbNode K V} (h : 0 < n.count) : n.left.count < n.count := by
  cases n with
  | empty c => exact absurd h (Nat.lt_irrefl 0)
  | node e c s l r =>
      simp only [left, count]
      omega

theorem count_right_lt {n : LlrbNode K V} (h : 0 < n.count) : n.right.count < n.count := by
  cases n with
  | empty c => exact absurd h (Nat.lt_irrefl 0)
  | node e c s l r =>
      simp only [right, count]
      omega

theorem count_pos {n : LlrbNode K V} (h : n.isEmpty = false) : 0 < n.count := by
  cases n with
  | empty c => exact Bool.noConfusion h
  | node e c s l r =>
      simp only [count]
      omega

theorem isEmpty_of_left {n : LlrbNode K V} (h : n.left.isEmpty = false) : n.isEmpty = false := by
  cases n with
  | empty c => exact Bool.noConfusion h
  | node e c s l r => rfl

/-! ## 4. The operations -/

/-- `RemoveMin`. -/
def removeMin (n : LlrbNode K V) : LlrbNode K V :=
  if _h : n.left.isEmpty then empty .black
  else (n.toLeft.setLeft (removeMin n.toLeft.left)).fixUp
termination_by n.count
decreasing_by
  have hpos : 0 < n.count := count_pos (isEmpty_of_left (Bool.not_eq_true _ ▸ _h))
  rw [← count_toLeft n] at hpos ⊢
  exact count_left_lt hpos

variable (cmp : K → K → Ordering)

/-- `InnerInsert`. -/
def innerInsert (k : K) (v : V) : LlrbNode K V → LlrbNode K V
  | empty _ => node (k, v) .red 1 (empty .black) (empty .black)
  | node e c s l r =>
      match cmp e.1 k with
      | .gt => (node e c s (innerInsert k v l) r).fixUp
      | .lt => (node e c s l (innerInsert k v r)).fixUp
      | .eq => node (e.1, v) c s l r

/-- `insert`. -/
def insert (k : K) (v : V) (n : LlrbNode K V) : LlrbNode K V :=
  (n.innerInsert cmp k v).fixRootColor

/-- `InnerErase`. Both branches go on in what the moves have made of the node. -/
def innerErase (k : K) : LlrbNode K V → LlrbNode K V
  | empty _ => empty .black
  | node e c s l r =>
      if cmp k e.1 = .lt then
        let n := (node e c s l r).toLeft
        (n.setLeft (innerErase k n.left)).fixUp
      else
        match _h : (node e c s l r).toRight with
        | empty _ => empty .black
        | node e' c' s' l' r' =>
            if cmp k e'.1 = .eq then
              match r'.min? with
              | none => empty .black
              | some smallest => (node smallest c' s' l' r'.removeMin).fixUp
            else (node e' c' s' l' (innerErase k r')).fixUp
termination_by n => n.count
decreasing_by
  · have hcount := count_toLeft (node e c s l r)
    rw [← hcount]
    apply count_left_lt
    rw [hcount]
    exact count_pos (n := node e c s l r) rfl
  · have hcount := count_toRight (node e c s l r)
    rw [_h] at hcount
    rw [← hcount]
    exact count_right_lt (count_pos (n := node e' c' s' l' r') rfl)

/-- `erase`. -/
def erase (k : K) (n : LlrbNode K V) : LlrbNode K V := (n.innerErase cmp k).fixRootColor

/-! ## 5. The order of the entries -/

/-- The entries in their order. -/
def toList : LlrbNode K V → List (K × V)
  | empty _ => []
  | node e _ _ l r => l.toList ++ e :: r.toList

@[simp] theorem toList_empty (c : Color) : (empty c : LlrbNode K V).toList = [] := rfl

@[simp] theorem toList_node (e : K × V) (c : Color) (s : ℕ) (l r : LlrbNode K V) :
    (node e c s l r).toList = l.toList ++ e :: r.toList := rfl

@[simp] theorem toList_setColor (c : Color) (n : LlrbNode K V) :
    (n.setColor c).toList = n.toList := by
  cases n <;> rfl

@[simp] theorem toList_flipColor (n : LlrbNode K V) : n.flipColor.toList = n.toList := by
  cases n with
  | empty c => rfl
  | node e c s l r => simp only [flipColor, toList_node, toList_setColor]

@[simp] theorem toList_rotateLeft (n : LlrbNode K V) : n.rotateLeft.toList = n.toList := by
  rcases n with c | ⟨e, c, s, l, c' | ⟨e', c', s', l', r'⟩⟩
  · rfl
  · rfl
  · simp only [rotateLeft, toList_node, List.append_assoc, List.cons_append]

@[simp] theorem toList_rotateRight (n : LlrbNode K V) : n.rotateRight.toList = n.toList := by
  rcases n with c | ⟨e, c, s, c' | ⟨e', c', s', l', r'⟩, r⟩
  · rfl
  · rfl
  · simp only [rotateRight, toList_node, List.append_assoc, List.cons_append]

@[simp] theorem toList_fixRootColor (n : LlrbNode K V) : n.fixRootColor.toList = n.toList := by
  unfold fixRootColor
  split
  · exact toList_setColor _ n
  · rfl

/-- Whatever `FixUp` turns, the entries stay in their order. -/
@[simp] theorem toList_fixUp (n : LlrbNode K V) : n.fixUp.toList = n.toList := by
  cases n with
  | empty c => rfl
  | node e c s l r =>
      simp only [fixUp]
      split_ifs <;> simp only [toList_flipColor, toList_rotateRight, toList_rotateLeft, toList_node]

@[simp] theorem toList_moveRedLeft (n : LlrbNode K V) : n.moveRedLeft.toList = n.toList := by
  have hright : (n.flipColor.setRight n.flipColor.right.rotateRight).toList
      = n.flipColor.toList := by
    cases n with
    | empty c => rfl
    | node e c s l r =>
        simp only [flipColor, setRight, right, toList_node, toList_rotateRight]
  simp only [moveRedLeft]
  split_ifs
  · rw [toList_flipColor, toList_rotateLeft, hright, toList_flipColor]
  · exact toList_flipColor n

@[simp] theorem toList_moveRedRight (n : LlrbNode K V) : n.moveRedRight.toList = n.toList := by
  simp only [moveRedRight]
  split_ifs <;> simp only [toList_flipColor, toList_rotateRight]

theorem toList_toLeft (n : LlrbNode K V) : n.toLeft.toList = n.toList := by
  simp only [toLeft]
  split_ifs <;> simp only [toList_moveRedLeft]

theorem toList_toRight (n : LlrbNode K V) : n.toRight.toList = n.toList := by
  simp only [toRight]
  split_ifs <;> simp only [toList_moveRedRight, toList_rotateRight]

/-- What `insert` writes: a new entry, or the value of the one that is there. -/
def written (k : K) (v : V) : Option (K × V) → K × V
  | none => (k, v)
  | some e => (e.1, v)

/-- `InnerInsert` puts the entry in where it belongs. -/
theorem toList_innerInsert [TransCmp cmp] (k : K) (v : V) (n : LlrbNode K V)
    (hs : Sorted cmp n.toList) :
    (n.innerInsert cmp k v).toList = OrderedList.insert cmp (written k v) k n.toList := by
  induction n with
  | empty c => rfl
  | node e c s l r ihl ihr =>
      rw [toList_node] at hs ⊢
      rw [innerInsert]
      cases h : cmp e.1 k with
      | lt =>
          rw [toList_fixUp, toList_node, ihr (sorted_append_cons_iff.mp hs).2.1, insert_of_lt _ hs h]
      | eq => rw [toList_node, insert_of_eq _ hs h, written]
      | gt => rw [toList_fixUp, toList_node, ihl hs.left, insert_of_gt _ hs h]

/-! ## 6. Balance -/

/-- A red-black tree of black height `h` that leans to the left, with the number of its
entries at each node. -/
inductive Balanced : Color → ℕ → LlrbNode K V → Prop
  | empty : Balanced .black 0 (empty .black)
  | red {h : ℕ} {e : K × V} {s : ℕ} {l r : LlrbNode K V} (hl : Balanced .black h l)
      (hr : Balanced .black h r) (hs : s = l.size + 1 + r.size) :
      Balanced .red h (node e .red s l r)
  | black {c : Color} {h : ℕ} {e : K × V} {s : ℕ} {l r : LlrbNode K V} (hl : Balanced c h l)
      (hr : Balanced .black h r) (hs : s = l.size + 1 + r.size) :
      Balanced .black (h + 1) (node e .black s l r)

/-- Balanced but for a red child of a red root, if `p` allows it. -/
inductive Nearly (p : Prop) : ℕ → LlrbNode K V → Prop
  | balanced {c : Color} {h : ℕ} {n : LlrbNode K V} (hn : Balanced c h n) : Nearly p h n
  | leftRed {h : ℕ} {e : K × V} {s : ℕ} {l r : LlrbNode K V} (hp : p) (hl : Balanced .red h l)
      (hr : Balanced .black h r) (hs : s = l.size + 1 + r.size) : Nearly p h (node e .red s l r)

/-- The children of a balanced node are balanced. -/
theorem Balanced.children {c c' : Color} {h : ℕ} {e : K × V} {s : ℕ} {l r : LlrbNode K V}
    (hn : Balanced c h (node e c' s l r)) :
    (∃ c h, Balanced c h l) ∧ ∃ c h, Balanced c h r := by
  cases hn with
  | red hl hr _ => exact ⟨⟨_, _, hl⟩, ⟨_, _, hr⟩⟩
  | black hl hr _ => exact ⟨⟨_, _, hl⟩, ⟨_, _, hr⟩⟩

theorem Balanced.color_eq {c : Color} {h : ℕ} {n : LlrbNode K V} (hn : Balanced c h n) :
    n.color = c := by
  cases hn <;> rfl

theorem Balanced.size_eq {c : Color} {h : ℕ} {n : LlrbNode K V} (hn : Balanced c h n) :
    n.size = n.toList.length := by
  induction hn with
  | empty => rfl
  | red _ _ hs ihl ihr =>
      rw [size, hs, toList_node, List.length_append, List.length_cons, ihl, ihr]
      omega
  | black _ _ hs ihl ihr =>
      rw [size, hs, toList_node, List.length_append, List.length_cons, ihl, ihr]
      omega

/-- Without the condition there is no red child of a red root. -/
theorem Nearly.balanced_of_not {p : Prop} {h : ℕ} {n : LlrbNode K V} (hn : Nearly p h n)
    (hp : ¬ p) : ∃ c, Balanced c h n := by
  cases hn with
  | balanced hn => exact ⟨_, hn⟩
  | leftRed hp' => exact absurd hp' hp

theorem Nearly.imp {p q : Prop} (hpq : p → q) {h : ℕ} {n : LlrbNode K V} (hn : Nearly p h n) :
    Nearly q h n := by
  cases hn with
  | balanced hn => exact .balanced hn
  | leftRed hp hl hr hs => exact .leftRed (hpq hp) hl hr hs

/-- A black root makes up for all that is wrong. -/
theorem Nearly.fixRootColor {p : Prop} {h : ℕ} {n : LlrbNode K V} (hn : Nearly p h n) :
    ∃ h', Balanced .black h' n.fixRootColor := by
  cases hn with
  | balanced hn =>
      cases hn with
      | empty => exact ⟨0, .empty⟩
      | red hl hr hs => exact ⟨_, .black hl hr hs⟩
      | black hl hr hs => exact ⟨_, .black hl hr hs⟩
  | leftRed _ hl hr hs => exact ⟨_, .black hl hr hs⟩

@[simp] theorem size_setColor (c : Color) (n : LlrbNode K V) : (n.setColor c).size = n.size := by
  cases n <;> rfl

theorem Balanced.red_eq_true {h : ℕ} {n : LlrbNode K V} (hn : Balanced .red h n) :
    n.red = true := by rw [LlrbNode.red, hn.color_eq]; rfl

theorem Balanced.isEmpty_eq_false {h : ℕ} {n : LlrbNode K V} (hn : Balanced .red h n) :
    n.isEmpty = false := by
  cases hn with
  | red _ _ _ => rfl

theorem Balanced.red_eq_false {h : ℕ} {n : LlrbNode K V} (hn : Balanced .black h n) :
    n.red = false := by rw [LlrbNode.red, hn.color_eq]; rfl

/-- No balanced tree has two red links in a row. -/
theorem Balanced.left_red_eq_false {h : ℕ} {n : LlrbNode K V} (hn : Balanced .red h n) :
    n.left.red = false := by
  cases hn with
  | red hl _ _ => exact hl.red_eq_false

theorem Balanced.setBlack {h : ℕ} {n : LlrbNode K V} (hn : Balanced .red h n) :
    Balanced .black (h + 1) (n.setColor .black) := by
  cases hn with
  | red hl hr hs => exact .black hl hr hs

section FixUp

/-! The four things `FixUp` does to a node, whatever its colour. -/

variable (e : K × V) (c : Color) (s : ℕ) {l r : LlrbNode K V}

theorem fixUp_of_black (hll : l.red = true → l.left.red = false) (hr : r.red = false) :
    (node e c s l r).fixUp = node e c (l.size + 1 + r.size) l r := by
  have hno : (l.red && l.left.red) = false := by
    cases hred : l.red with
    | false => rfl
    | true => exact hll hred
  simp [fixUp, hr, hno]

theorem fixUp_of_right (hl : l.red = false) {e' : K × V} {s' : ℕ} {l' r' : LlrbNode K V}
    (hr' : r'.red = false) :
    (node e c s l (node e' .red s' l' r')).fixUp
      = node e' c (l.size + 1 + s') (node e .red (l.size + 1 + l'.size) l l') r' := by
  simp [fixUp, rotateLeft, hl, hr']

theorem fixUp_of_both (hl : l.red = true) (hll : l.left.red = false) (hr : r.red = true) :
    (node e c s l r).fixUp
      = node e c.opposite (l.size + 1 + r.size) (l.setColor .black) (r.setColor .black) := by
  have hcl : l.color = .red := beq_iff_eq.mp hl
  have hcr : r.color = .red := beq_iff_eq.mp hr
  simp [fixUp, flipColor, hl, hll, hr, hcl, hcr]

theorem fixUp_of_leftLeft {e' : K × V} {s' : ℕ} {l' r' : LlrbNode K V} (hl' : l'.red = true)
    (hr : r.red = false) :
    (node e c s (node e' .red s' l' r') r).fixUp
      = node e' c.opposite (s' + 1 + r.size) (l'.setColor .black)
          (node e .black (r'.size + 1 + r.size) r' r) := by
  have hcl : l'.color = .red := beq_iff_eq.mp hl'
  simp [fixUp, rotateRight, flipColor, hr, hl', hcl, setColor]

end FixUp

section FixUpBalanced

variable {h : ℕ} {e : K × V} {s : ℕ} {l r : LlrbNode K V} {cl cr : Color}

/-- `FixUp` of a black node with balanced children: it is red afterwards exactly if
both were. -/
theorem fixUp_black (hl : Balanced cl h l) (hr : Balanced cr h r) :
    Balanced (if cl = .red ∧ cr = .red then .red else .black) (h + 1)
      (node e .black s l r).fixUp := by
  cases cr with
  | black =>
      have hleft : l.red = true → l.left.red = false := by
        intro hred
        cases cl with
        | black => rw [hl.red_eq_false] at hred; exact Bool.noConfusion hred
        | red => exact hl.left_red_eq_false
      rw [fixUp_of_black e .black s hleft hr.red_eq_false, if_neg (by simp)]
      exact .black hl hr rfl
  | red =>
      cases cl with
      | black =>
          cases hr with
          | red hrl hrr hs =>
              rw [fixUp_of_right e .black s hl.red_eq_false hrr.red_eq_false, if_neg (by simp)]
              refine .black (.red hl hrl rfl) hrr ?_
              rw [size_node, hs]
              omega
      | red =>
          rw [fixUp_of_both e .black s hl.red_eq_true hl.left_red_eq_false hr.red_eq_true,
            if_pos ⟨rfl, rfl⟩]
          exact .red hl.setBlack hr.setBlack (by rw [size_setColor, size_setColor])

/-- A black node takes up what an insertion on the left has left over. -/
theorem fixUp_black_of_nearly {p : Prop} (hl : Nearly p h l) (hr : Balanced .black h r) :
    ∃ c, Balanced c (h + 1) (node e .black s l r).fixUp := by
  cases hl with
  | balanced hl => exact ⟨_, fixUp_black hl hr⟩
  | leftRed _ hll hlr hs =>
      rw [fixUp_of_leftLeft e .black s hll.red_eq_true hr.red_eq_false]
      refine ⟨.red, .red hll.setBlack (.black hlr hr rfl) ?_⟩
      rw [size_setColor, size, hs]
      omega

/-- `FixUp` of a red node of which at most one child is red. -/
theorem fixUp_red (hl : Balanced cl h l) (hr : Balanced cr h r) (hno : ¬ (cl = .red ∧ cr = .red)) :
    Nearly (cl = .red ∨ cr = .red) h (node e .red s l r).fixUp := by
  cases cr with
  | black =>
      cases cl with
      | black =>
          rw [fixUp_of_black e .red s (by rw [hl.red_eq_false]; exact Bool.noConfusion)
            hr.red_eq_false]
          exact .balanced (.red hl hr rfl)
      | red =>
          rw [fixUp_of_black e .red s (fun _ => hl.left_red_eq_false) hr.red_eq_false]
          exact .leftRed (Or.inl rfl) hl hr rfl
  | red =>
      cases cl with
      | black =>
          cases hr with
          | red hrl hrr hs =>
              rw [fixUp_of_right e .red s hl.red_eq_false hrr.red_eq_false]
              refine .leftRed (Or.inr rfl) (.red hl hrl rfl) hrr ?_
              rw [size, hs]
              omega
      | red => exact absurd ⟨rfl, rfl⟩ hno

/-- Of a red node with two red children, all three colours are changed. -/
theorem fixUp_red_of_red (hl : Balanced .red h l) (hr : Balanced .red h r) :
    Balanced .black (h + 2) (node e .red s l r).fixUp := by
  rw [fixUp_of_both e .red s hl.red_eq_true hl.left_red_eq_false hr.red_eq_true]
  exact .black hl.setBlack hr.setBlack (by rw [size_setColor, size_setColor])

end FixUpBalanced

/-! ## 7. Insertion -/

/-- **`InnerInsert` keeps the balance**, but for a red child it may leave to a red root. -/
theorem balanced_innerInsert (k : K) (v : V) {c : Color} {h : ℕ} {n : LlrbNode K V}
    (hn : Balanced c h n) : Nearly (c = .red) h (n.innerInsert cmp k v) := by
  induction hn with
  | empty => exact .balanced (.red .empty .empty rfl)
  | red hl hr hs ihl ihr =>
      rw [innerInsert]
      split
      · obtain ⟨c, hl'⟩ := ihl.balanced_of_not (by decide)
        exact (fixUp_red hl' hr (by simp)).imp fun _ => rfl
      · obtain ⟨c, hr'⟩ := ihr.balanced_of_not (by decide)
        exact (fixUp_red hl hr' (by simp)).imp fun _ => rfl
      · exact .balanced (.red hl hr hs)
  | black hl hr hs ihl ihr =>
      rw [innerInsert]
      split
      · obtain ⟨c, hn⟩ := fixUp_black_of_nearly (ihl.imp fun _ => trivial) hr
        exact .balanced hn
      · obtain ⟨c, hr'⟩ := ihr.balanced_of_not (by decide)
        exact .balanced (fixUp_black hl hr')
      · exact .balanced (.black hl hr hs)

/-- **`insert` keeps the tree balanced.** -/
theorem balanced_insert (k : K) (v : V) {h : ℕ} {n : LlrbNode K V} (hn : Balanced .black h n) :
    ∃ h', Balanced .black h' (n.insert cmp k v) :=
  (balanced_innerInsert cmp k v hn).fixRootColor

/-! ## 8. Erasure -/

/-- What is left of a node with two black children: for a red one a tree of the same
black height, for a black one, which is the root, any tree that a black root mends. -/
def Promise : Color → ℕ → LlrbNode K V → Prop
  | .red, h, t => ∃ c, Balanced c h t
  | .black, _, t => ∃ h', Nearly True h' t

/-- A node that has a red link to give to its left: it has two black children and is
red or the root, or its left child is red. `Q` is what is promised of what is left. -/
inductive Spare : LlrbNode K V → (LlrbNode K V → Prop) → Prop
  | even {c : Color} {h : ℕ} {e : K × V} {s : ℕ} {l r : LlrbNode K V} (hl : Balanced .black h l)
      (hr : Balanced .black h r) : Spare (node e c s l r) (Promise c h)
  | left {h : ℕ} {e : K × V} {s : ℕ} {l r : LlrbNode K V} (hl : Balanced .red h l)
      (hr : Balanced .black h r) : Spare (node e .black s l r) (Balanced .black (h + 1))

/-- A node that `InnerErase` is at, with a red link to give to the side of the key. A
rotation to the right leaves one on the right, and the key is then not before it. -/
inductive Reached (k : K) : LlrbNode K V → (LlrbNode K V → Prop) → Prop
  | spare {n : LlrbNode K V} {Q : LlrbNode K V → Prop} (hn : Spare n Q) : Reached k n Q
  | right {h : ℕ} {e : K × V} {s : ℕ} {l r : LlrbNode K V} (hl : Balanced .black h l)
      (hr : Balanced .red h r) (hk : cmp k e.1 ≠ .lt) :
      Reached k (node e .black s l r) (Balanced .black (h + 1))

theorem Balanced.spare {h : ℕ} {n : LlrbNode K V} (hn : Balanced .red h n) :
    Spare n (Promise .red h) := by
  cases hn with
  | red hl hr hs => exact .even hl hr

section Continuations

variable {h : ℕ} {e : K × V} {s : ℕ} {l r : LlrbNode K V} {cl cr : Color}

omit e s l r in
theorem promise_empty (c : Color) : Promise c 0 (empty .black : LlrbNode K V) := by
  cases c with
  | black => exact ⟨0, .balanced .empty⟩
  | red => exact ⟨.black, .empty⟩

theorem promise_fixUp (c : Color) (hl : Balanced .black h l) (hr : Balanced .black h r) :
    Promise c h (node e c s l r).fixUp := by
  cases c with
  | black => exact ⟨_, .balanced (fixUp_black hl hr)⟩
  | red => exact (fixUp_red hl hr (by simp)).balanced_of_not (by simp)

/-- After `FlipColor` one of the children is still red. -/
theorem promise_fixUp_opposite (c : Color) (hl : Balanced cl h l) (hr : Balanced cr h r)
    (hred : cl = .red ∨ cr = .red) : Promise c (h + 1) (node e c.opposite s l r).fixUp := by
  cases c with
  | red => exact ⟨_, fixUp_black hl hr⟩
  | black =>
      by_cases hboth : cl = .red ∧ cr = .red
      · obtain ⟨rfl, rfl⟩ := hboth
        exact ⟨_, .balanced (fixUp_red_of_red hl hr)⟩
      · exact ⟨_, (fixUp_red hl hr hboth).imp fun _ => trivial⟩

theorem balanced_fixUp_left (hl : Promise .red h l) (hr : Balanced .black h r) :
    Balanced .black (h + 1) (node e .black s l r).fixUp := by
  obtain ⟨c, hl⟩ := hl
  have hfix := fixUp_black (e := e) (s := s) hl hr
  rwa [if_neg (by simp)] at hfix

theorem balanced_fixUp_right (hl : Balanced .black h l) (hr : Promise .red h r) :
    Balanced .black (h + 1) (node e .black s l r).fixUp := by
  obtain ⟨c, hr⟩ := hr
  have hfix := fixUp_black (e := e) (s := s) hl hr
  rwa [if_neg (by simp)] at hfix

end Continuations

/-- The node has been made ready to go left in, out of one with the entry `e` and the
children `l` and `r`. -/
inductive GoesLeft (e : K × V) (l r : LlrbNode K V) (Q : LlrbNode K V → Prop) :
    LlrbNode K V → Prop
  | leaf {c : Color} {s : ℕ} (hl : l = empty .black) (hr : r = empty .black)
      (hQ : Q (empty .black)) (hfix : Q (node e c s (empty .black) (empty .black)).fixUp) :
      GoesLeft e l r Q (node e c s (empty .black) (empty .black))
  | child {e' : K × V} {c : Color} {s : ℕ} {l' r' : LlrbNode K V} {Q' : LlrbNode K V → Prop}
      (hl : l.isEmpty = false) (he : e' ∈ e :: r.toList) (hl' : Spare l' Q')
      (hfix : ∀ t, Q' t → Q (node e' c s t r').fixUp) : GoesLeft e l r Q (node e' c s l' r')

section Moves

variable (e el er : K × V) (c : Color) (s sl sr : ℕ) {l ll lr r rl rr : LlrbNode K V}

/-- Two 2-nodes are made one with what is between them. -/
theorem toLeft_of_black (hll : ll.red = false) (hrl : rl.red = false) :
    (node e c s (node el .black sl ll lr) (node er .black sr rl rr)).toLeft
      = node e c.opposite s (node el .red sl ll lr) (node er .red sr rl rr) := by
  simp [toLeft, moveRedLeft, flipColor, setColor, hll, hrl]

/-- A 3-node on the right gives its least entry up. -/
theorem toLeft_of_red (hll : ll.red = false) (e' : K × V) (s' : ℕ) (l' r' : LlrbNode K V) :
    (node e c s (node el .black sl ll lr) (node er .black sr (node e' .red s' l' r') rr)).toLeft
      = node e' c s (node e .black (sl + 1 + l'.size) (node el .red sl ll lr) l')
          (node er .black (r'.size + 1 + rr.size) r' rr) := by
  simp [toLeft, moveRedLeft, flipColor, setRight, rotateRight, rotateLeft, setColor, hll]

theorem toRight_of_left_red :
    (node e c s (node el .red sl ll lr) r).toRight
      = node el c s ll (node e .red (lr.size + 1 + r.size) lr r) := by
  simp [toRight, rotateRight]

theorem toRight_of_black (hll : ll.red = false) (hrl : rl.red = false) :
    (node e c s (node el .black sl ll lr) (node er .black sr rl rr)).toRight
      = node e c.opposite s (node el .red sl ll lr) (node er .red sr rl rr) := by
  simp [toRight, moveRedRight, flipColor, setColor, hll, hrl]

/-- A 3-node on the left gives its greatest entry up. -/
theorem toRight_of_red (hll : ll.red = true) (hrl : rl.red = false) :
    (node e c s (node el .black sl ll lr) (node er .black sr rl rr)).toRight
      = node el c s (ll.setColor .black)
          (node e .black (lr.size + 1 + sr) lr (node er .red sr rl rr)) := by
  have hcl : ll.color = .red := beq_iff_eq.mp hll
  simp [toRight, moveRedRight, flipColor, rotateRight, setColor, hll, hrl, hcl]

end Moves

/-- **Going left, there is a red link to give again.** -/
theorem goesLeft_toLeft {e : K × V} {c : Color} {s : ℕ} {l r : LlrbNode K V}
    {Q : LlrbNode K V → Prop} (hn : Spare (node e c s l r) Q) :
    GoesLeft e l r Q (node e c s l r).toLeft := by
  have hself : e ∈ e :: r.toList := List.mem_cons_self ..
  cases hn with
  | left hl hr =>
      have hstay : (node e .black s l r).toLeft = node e .black s l r := by
        simp [toLeft, hl.red_eq_true]
      rw [hstay]
      exact .child hl.isEmpty_eq_false hself hl.spare fun t ht => balanced_fixUp_left ht hr
  | even hl hr =>
      cases hl with
      | empty =>
          cases hr with
          | empty => exact .leaf rfl rfl (promise_empty c) (promise_fixUp c .empty .empty)
      | @black cl h el sl ll lr hll hlr hs =>
          cases cl with
          | red =>
              -- the child is a 3-node itself
              have hstay : (node e c s (node el .black sl ll lr) r).toLeft
                  = node e c s (node el .black sl ll lr) r := by
                simp [toLeft, hll.red_eq_true]
              rw [hstay]
              exact .child rfl hself (.left hll hlr) fun t ht => promise_fixUp c ht hr
          | black =>
              cases hr with
              | @black cr _ er sr rl rr hrl hrr hs' =>
                  cases cr with
                  | black =>
                      rw [toLeft_of_black e el er c s sl sr hll.red_eq_false hrl.red_eq_false]
                      exact .child rfl hself (.even hll hlr) fun t ⟨c', ht⟩ =>
                        promise_fixUp_opposite c ht (.red hrl hrr hs') (Or.inr rfl)
                  | red =>
                      cases hrl with
                      | @red _ e' s' l' r' hl' hr' hs'' =>
                          rw [toLeft_of_red e el er c s sl sr hll.red_eq_false e' s' l' r']
                          refine .child rfl ?_ (.left (.red hll hlr hs) hl') fun t ht =>
                            promise_fixUp c ht (.black hr' hrr rfl)
                          simp

/-- The node has been made ready to go right in, out of one with the entry `e` and the
left child `l`. Its entry may be another now, but then it is one of `l`. -/
inductive GoesRight (k : K) (e : K × V) (l : LlrbNode K V) (Q : LlrbNode K V → Prop) :
    LlrbNode K V → Prop
  | leaf {c : Color} {s : ℕ} (hQ : Q (empty .black))
      (hfix : Q (node e c s (empty .black) (empty .black)).fixUp) :
      GoesRight k e l Q (node e c s (empty .black) (empty .black))
  | child {c : Color} {s : ℕ} {l' r' : LlrbNode K V} {Q' : LlrbNode K V → Prop} (hr : Spare r' Q')
      (hfix : ∀ e' t, Q' t → Q (node e' c s l' t).fixUp) : GoesRight k e l Q (node e c s l' r')
  | after {e' : K × V} {c : Color} {s : ℕ} {l' r' : LlrbNode K V} {Q' : LlrbNode K V → Prop}
      (he : e' ∈ l.toList) (hr : Reached cmp k r' Q')
      (hfix : ∀ t, Q' t → Q (node e' c s l' t).fixUp) : GoesRight k e l Q (node e' c s l' r')

variable {cmp} in
/-- **Going right, there is a red link to give again.** -/
theorem goesRight_toRight {k : K} {e : K × V} {c : Color} {s : ℕ} {l r : LlrbNode K V}
    {Q : LlrbNode K V → Prop} (hn : Reached cmp k (node e c s l r) Q) (hk : cmp k e.1 ≠ .lt) :
    GoesRight cmp k e l Q (node e c s l r).toRight := by
  cases hn with
  | right hl hr _ =>
      have hstay : (node e .black s l r).toRight = node e .black s l r := by
        simp [toRight, hl.red_eq_false, hr.red_eq_true]
      rw [hstay]
      exact .child hr.spare fun e' t ht => balanced_fixUp_right hl ht
  | spare hn =>
      cases hn with
      | left hl hr =>
          cases hl with
          | @red h el sl ll lr hll hlr hs =>
              rw [toRight_of_left_red]
              exact .after (by simp) (.spare (.even hlr hr)) fun t ht => balanced_fixUp_right hll ht
      | even hl hr =>
          cases hr with
          | empty =>
              cases hl with
              | empty => exact .leaf (promise_empty c) (promise_fixUp c .empty .empty)
          | @black cr h er sr rl rr hrl hrr hs' =>
              cases cr with
              | red =>
                  -- the child is a 3-node itself
                  have hstay : (node e c s l (node er .black sr rl rr)).toRight
                      = node e c s l (node er .black sr rl rr) := by
                    simp [toRight, hl.red_eq_false, hrl.red_eq_true]
                  rw [hstay]
                  exact .child (.left hrl hrr) fun e' t ht => promise_fixUp c hl ht
              | black =>
                  cases hl with
                  | @black cl _ el sl ll lr hll hlr hs =>
                      cases cl with
                      | black =>
                          rw [toRight_of_black e el er c s sl sr hll.red_eq_false hrl.red_eq_false]
                          exact .child (.even hrl hrr) fun e' t ⟨c', ht⟩ =>
                            promise_fixUp_opposite c (.red hll hlr hs) ht (Or.inl rfl)
                      | red =>
                          rw [toRight_of_red e el er c s sl sr hll.red_eq_true hrl.red_eq_false]
                          exact .after (by simp) (.right hlr (.red hrl hrr hs') hk) fun t ht =>
                            promise_fixUp c hll.setBlack ht

theorem toList_eq_nil_iff {n : LlrbNode K V} : n.toList = [] ↔ n.isEmpty = true := by
  cases n with
  | empty c => simp [isEmpty]
  | node e c s l r => simp

theorem min?_eq_head? (n : LlrbNode K V) : n.min? = n.toList.head? := by
  induction n with
  | empty c => rfl
  | node e c s l r ih _ =>
      rw [min?, toList_node]
      by_cases hl : l.isEmpty = true
      · rw [if_pos hl, toList_eq_nil_iff.mpr hl, List.nil_append, List.head?_cons]
      · have hne : l.toList ≠ [] := fun h => hl (toList_eq_nil_iff.mp h)
        rw [if_neg hl, ih, List.head?_append_of_ne_nil _ hne]

theorem Spare.exists_node {n : LlrbNode K V} {Q : LlrbNode K V → Prop} (hn : Spare n Q) :
    ∃ e c s l r, n = node e c s l r := by
  cases hn with
  | even hl hr => exact ⟨_, _, _, _, _, rfl⟩
  | left hl hr => exact ⟨_, _, _, _, _, rfl⟩

theorem Reached.exists_node {k : K} {n : LlrbNode K V} {Q : LlrbNode K V → Prop}
    (hn : Reached cmp k n Q) : ∃ e c s l r, n = node e c s l r := by
  cases hn with
  | spare hn => exact hn.exists_node
  | right hl hr hk => exact ⟨_, _, _, _, _, rfl⟩

theorem max?_eq_getLast? (n : LlrbNode K V) : n.max? = n.toList.getLast? := by
  induction n with
  | empty c => rfl
  | node e c s l r _ ih =>
      rw [max?, toList_node]
      by_cases hr : r.isEmpty = true
      · rw [if_pos hr, toList_eq_nil_iff.mpr hr, List.getLast?_append, List.getLast?_singleton]
        rfl
      · have hne : r.toList ≠ [] := fun h => hr (toList_eq_nil_iff.mp h)
        obtain ⟨a, as, has⟩ := List.exists_cons_of_ne_nil hne
        rw [if_neg hr, ih, has, List.getLast?_append, List.getLast?_cons_cons,
          List.getLast?_cons]
        rfl

/-- **`RemoveMin`** takes the first entry out and keeps the promise. -/
theorem removeMin_spec {n : LlrbNode K V} {Q : LlrbNode K V → Prop} (hn : Spare n Q) :
    Q n.removeMin ∧ n.removeMin.toList = n.toList.tail := by
  induction n using removeMin.induct generalizing Q with
  | case1 n hl =>
      rw [removeMin, dif_pos hl]
      obtain ⟨e, c, s, l, r, rfl⟩ := hn.exists_node
      have hleft := goesLeft_toLeft hn
      generalize (node e c s l r).toLeft = m at hleft
      cases hleft with
      | leaf hl' hr hQ _ => exact ⟨hQ, by rw [hl', hr]; rfl⟩
      | child hl' _ _ _ =>
          rw [left_node, hl'] at hl
          exact Bool.noConfusion hl
  | case2 n hl ih =>
      rw [removeMin, dif_neg hl]
      obtain ⟨e, c, s, l, r, rfl⟩ := hn.exists_node
      have hlist := toList_toLeft (node e c s l r)
      have hleft := goesLeft_toLeft hn
      generalize (node e c s l r).toLeft = m at ih hlist hleft ⊢
      cases hleft with
      | leaf hl' _ _ _ => exact absurd (by rw [hl']; rfl) hl
      | @child e' c' s' l' r' Q' _ _ hl' hfix =>
          obtain ⟨hQ', htail⟩ := ih hl'
          rw [left_node] at hQ' htail
          have hne : l'.toList ≠ [] := by
            obtain ⟨e'', c'', s'', l'', r'', rfl⟩ := hl'.exists_node
            simp
          refine ⟨hfix _ hQ', ?_⟩
          rw [toList_fixUp, left_node, setLeft, toList_node, htail, ← hlist, toList_node,
            List.tail_append_of_ne_nil hne]

section Equations

variable {cmp} {k : K} {e : K × V} {c : Color} {s : ℕ} {l r : LlrbNode K V}

theorem innerErase_empty (c : Color) :
    innerErase cmp k (empty c : LlrbNode K V) = empty .black := by
  rw [innerErase]

theorem innerErase_of_lt (hk : cmp k e.1 = .lt) :
    (node e c s l r).innerErase cmp k
      = ((node e c s l r).toLeft.setLeft
          ((node e c s l r).toLeft.left.innerErase cmp k)).fixUp := by
  rw [innerErase, if_pos hk]

variable {e' : K × V} {c' : Color} {s' : ℕ} {l' r' : LlrbNode K V}

theorem innerErase_of_ne (hk : cmp k e.1 ≠ .lt) (h : (node e c s l r).toRight = node e' c' s' l' r')
    (hk' : cmp k e'.1 ≠ .eq) :
    (node e c s l r).innerErase cmp k = (node e' c' s' l' (r'.innerErase cmp k)).fixUp := by
  rw [innerErase, if_neg hk]
  split
  · simp_all
  · rename_i heq
    rw [h] at heq
    cases heq
    rw [if_neg hk']

/-- The entry under the key makes place for the next one, if there is a next one. -/
theorem innerErase_of_eq (hk : cmp k e.1 ≠ .lt) (h : (node e c s l r).toRight = node e' c' s' l' r')
    (hk' : cmp k e'.1 = .eq) :
    (node e c s l r).innerErase cmp k
      = match r'.min? with
        | none => empty .black
        | some smallest => (node smallest c' s' l' r'.removeMin).fixUp := by
  rw [innerErase, if_neg hk]
  split
  · simp_all
  · rename_i heq
    rw [h] at heq
    cases heq
    rw [if_pos hk']

end Equations

section Sides

variable {cmp} [TransCmp cmp] {k : K} {e e' : K × V} {c c' : Color} {s s' : ℕ}
  {l l' r r' : LlrbNode K V}

/-- An entry that has come up from the right is after the key, if the old one was. -/
theorem gt_of_mem_right (hs : Sorted cmp (node e c s l r).toList) (hk : cmp k e.1 = .lt)
    (he : e' ∈ e :: r.toList) : cmp e'.1 k = .gt := by
  rw [toList_node, sorted_append_cons_iff] at hs
  have hlt : cmp k e'.1 = .lt := by
    rcases List.mem_cons.mp he with rfl | he
    · exact hk
    · exact TransCmp.lt_trans hk (hs.2.2.2 e' he)
  exact OrientedCmp.gt_of_lt hlt

/-- One that has come up from the left is before the key, if the key was not before
the old one. -/
theorem lt_of_mem_left (hs : Sorted cmp (node e c s l r).toList) (hk : cmp k e.1 ≠ .lt)
    (he : e' ∈ l.toList) : cmp e'.1 k = .lt := by
  rw [toList_node, sorted_append_cons_iff] at hs
  have hle : (cmp e.1 k).isLE = true := by
    cases h : cmp k e.1 with
    | lt => exact absurd h hk
    | eq => rw [OrientedCmp.eq_symm h]; rfl
    | gt => rw [OrientedCmp.lt_of_gt h]; rfl
  exact TransCmp.lt_of_lt_of_isLE (hs.2.2.1 e' he) hle

theorem lt_of_not_lt_of_ne (hk : cmp k e.1 ≠ .lt) (hne : cmp k e.1 ≠ .eq) :
    cmp e.1 k = .lt := by
  cases h : cmp k e.1 with
  | lt => exact absurd h hk
  | eq => exact absurd h hne
  | gt => exact OrientedCmp.lt_of_gt h

end Sides

variable {cmp} in
/-- **`InnerErase`** takes the entry under the key out and keeps the promise. -/
theorem innerErase_spec [TransCmp cmp] {k : K} {n : LlrbNode K V} {Q : LlrbNode K V → Prop}
    (hn : Reached cmp k n Q) (hs : Sorted cmp n.toList) :
    Q (n.innerErase cmp k) ∧ (n.innerErase cmp k).toList = OrderedList.erase cmp k n.toList := by
  induction hcount : n.count using Nat.strongRecOn generalizing n Q with
  | ind m ih =>
      subst hcount
      obtain ⟨e, c, s, l, r, rfl⟩ := hn.exists_node
      by_cases hk : cmp k e.1 = .lt
      · -- the key is on the left
        have hspare : Spare (node e c s l r) Q := by
          cases hn with
          | spare hn => exact hn
          | right _ _ hk' => exact absurd hk hk'
        have hlist := toList_toLeft (node e c s l r)
        have hcount := count_toLeft (node e c s l r)
        have hleft := goesLeft_toLeft hspare
        have hgt := fun e' (he : e' ∈ e :: r.toList) => gt_of_mem_right hs hk he
        rw [innerErase_of_lt hk]
        generalize (node e c s l r).toLeft = m at hlist hcount hleft ⊢
        rw [← hlist] at hs ⊢
        cases hleft with
        | leaf hl hr hQ hfix =>
            rw [left_node, innerErase_empty, setLeft]
            refine ⟨hfix, ?_⟩
            rw [toList_fixUp, toList_node, erase_of_gt hs (hgt e (List.mem_cons_self ..))]
            rfl
        | @child e' c' s' l' r' Q' hl he hl' hfix =>
            rw [toList_node] at hs ⊢
            have hlt : l'.count < (node e c s l r).count := by
              rw [← hcount]
              exact count_left_lt (count_pos (n := node e' c' s' l' r') rfl)
            obtain ⟨hQ', herase⟩ := ih _ hlt (.spare hl') hs.left rfl
            refine ⟨hfix _ hQ', ?_⟩
            rw [toList_fixUp, left_node, setLeft, toList_node, herase,
              erase_of_gt hs (hgt e' he)]
      · -- the key is not on the left
        have hlist := toList_toRight (node e c s l r)
        have hcount := count_toRight (node e c s l r)
        have hright := goesRight_toRight hn hk
        have hbefore := fun e' (he : e' ∈ l.toList) => lt_of_mem_left hs hk he
        generalize hm : (node e c s l r).toRight = m at hlist hcount hright
        rw [← hlist] at hs ⊢
        -- behind an entry before the key it goes on as here
        have hnext : ∀ e' c' s' l' r' Q', m = node e' c' s' l' r' → cmp e'.1 k = .lt →
            Reached cmp k r' Q' → (∀ t, Q' t → Q (node e' c' s' l' t).fixUp) →
            Q ((node e c s l r).innerErase cmp k)
              ∧ ((node e c s l r).innerErase cmp k).toList
                = OrderedList.erase cmp k m.toList := by
          rintro e' c' s' l' r' Q' rfl hlt hr hfix
          rw [toList_node] at hs ⊢
          have hne : cmp k e'.1 ≠ .eq := by
            rw [OrientedCmp.gt_of_lt hlt]
            decide
          have hless : r'.count < (node e c s l r).count := by
            rw [← hcount]
            exact count_right_lt (count_pos (n := node e' c' s' l' r') rfl)
          obtain ⟨hQ', herase⟩ := ih _ hless hr (sorted_append_cons_iff.mp hs).2.1 rfl
          rw [innerErase_of_ne hk hm hne]
          refine ⟨hfix _ hQ', ?_⟩
          rw [toList_fixUp, toList_node, herase, erase_of_lt hs hlt]
        by_cases heq : cmp k e.1 = .eq
        · cases hright with
          | leaf hQ hfix =>
              rw [innerErase_of_eq hk hm heq]
              refine ⟨hQ, ?_⟩
              rw [toList_node, erase_of_eq hs (OrientedCmp.eq_symm heq)]
              rfl
          | @child c' s' l' r' Q' hr hfix =>
              obtain ⟨hQ', htail⟩ := removeMin_spec hr
              obtain ⟨a, rest, hrest⟩ : ∃ a rest, r'.toList = a :: rest := by
                obtain ⟨e₂, c₂, s₂, l₂, r₂, rfl⟩ := hr.exists_node
                exact List.exists_cons_of_ne_nil (by simp)
              rw [innerErase_of_eq hk hm heq, toList_node,
                erase_of_eq hs (OrientedCmp.eq_symm heq), min?_eq_head?, hrest, List.head?_cons]
              refine ⟨hfix a _ hQ', ?_⟩
              rw [toList_fixUp, toList_node, htail, hrest, List.tail_cons]
          | @after e' c' s' l' r' Q' he hr hfix =>
              exact hnext _ _ _ _ _ _ rfl (hbefore e' he) hr hfix
        · cases hright with
          | leaf hQ hfix =>
              rw [innerErase_of_ne hk hm heq, innerErase_empty]
              refine ⟨hfix, ?_⟩
              rw [toList_fixUp, toList_node, erase_of_lt hs (lt_of_not_lt_of_ne hk heq)]
              rfl
          | child hr hfix =>
              exact hnext _ _ _ _ _ _ rfl (lt_of_not_lt_of_ne hk heq) (.spare hr) (hfix e)
          | @after e' c' s' l' r' Q' he hr hfix =>
              exact hnext _ _ _ _ _ _ rfl (hbefore e' he) hr hfix

variable {cmp} in
/-- **`erase` keeps the tree balanced**, whether the key is there or not. -/
theorem balanced_erase [TransCmp cmp] (k : K) {h : ℕ} {n : LlrbNode K V}
    (hn : Balanced .black h n) (hs : Sorted cmp n.toList) :
    ∃ h', Balanced .black h' (n.erase cmp k) := by
  cases hn with
  | empty =>
      rw [erase, innerErase_empty]
      exact ⟨0, .empty⟩
  | @black c h e s l r hl hr hsize =>
      cases c with
      | black =>
          obtain ⟨⟨h', hnear⟩, -⟩ := innerErase_spec (.spare (.even hl hr)) hs
          exact hnear.fixRootColor
      | red =>
          obtain ⟨hbal, -⟩ := innerErase_spec (k := k) (.spare (.left hl hr)) hs
          exact Nearly.fixRootColor (p := True) (.balanced hbal)

variable {cmp} in
/-- **`erase`** takes the entry under the key out. -/
theorem toList_erase [TransCmp cmp] (k : K) {h : ℕ} {n : LlrbNode K V}
    (hn : Balanced .black h n) (hs : Sorted cmp n.toList) :
    (n.erase cmp k).toList = OrderedList.erase cmp k n.toList := by
  rw [erase, toList_fixRootColor]
  cases hn with
  | empty => rw [innerErase_empty]; rfl
  | @black c h e s l r hl hr hsize =>
      cases c with
      | black => exact (innerErase_spec (.spare (.even hl hr)) hs).2
      | red => exact (innerErase_spec (.spare (.left hl hr)) hs).2

theorem toList_insert [TransCmp cmp] (k : K) (v : V) {n : LlrbNode K V}
    (hs : Sorted cmp n.toList) :
    (n.insert cmp k v).toList = OrderedList.insert cmp (written k v) k n.toList := by
  rw [insert, toList_fixRootColor, toList_innerInsert cmp k v n hs]

/-! ## 9. Height -/

/-- The number of nodes on the longest way down. -/
def height : LlrbNode K V → ℕ
  | empty _ => 0
  | node _ _ _ l r => max l.height r.height + 1

/-- At most every other node on a way down is red. -/
theorem Balanced.height_le {c : Color} {h : ℕ} {n : LlrbNode K V} (hn : Balanced c h n) :
    n.height ≤ 2 * h + (if c = .red then 1 else 0) := by
  induction hn with
  | empty => exact Nat.le_refl 0
  | red _ _ _ ihl ihr =>
      simp only [height, reduceCtorEq, if_true, if_false] at ihl ihr ⊢
      omega
  | @black c h e s l r _ _ _ ihl ihr =>
      have hl : l.height ≤ 2 * h + 1 := by
        split at ihl <;> omega
      simp only [height, reduceCtorEq, if_false] at ihr ⊢
      omega

/-- A tree of black height `h` has all the nodes of the first `h` levels. -/
theorem Balanced.pow_le {c : Color} {h : ℕ} {n : LlrbNode K V} (hn : Balanced c h n) :
    2 ^ h ≤ n.toList.length + 1 := by
  induction hn with
  | empty => exact Nat.le_refl 1
  | red _ _ _ ihl ihr =>
      rw [toList_node, List.length_append, List.length_cons]
      omega
  | black _ _ _ ihl ihr =>
      rw [toList_node, List.length_append, List.length_cons, Nat.pow_succ]
      omega

/-- **A way down is logarithmic in the number of the entries.** -/
theorem Balanced.height_le_log {h : ℕ} {n : LlrbNode K V} (hn : Balanced .black h n) :
    n.height ≤ 2 * Nat.log 2 (n.size + 1) := by
  have hheight := hn.height_le
  have hlog : h ≤ Nat.log 2 (n.size + 1) := by
    apply Nat.le_log_of_pow_le (by decide)
    rw [hn.size_eq]
    exact hn.pow_le
  rw [if_neg (by decide)] at hheight
  omega

end LlrbNode

end FreeFood.Firestore
