import Mathlib
import TreeCluster.Tree.Arena

/-! # Shapes

A shape says what can be seen of a tree by addresses alone: which address is on top, and for each
member its parent, its children in order and its weight.  It knows of no slots.

The chain of addresses up to the top, the way down to a member with room, the shape after an
insertion and the pre-order are relations here, each of which a shape determines (`Line.unique`,
`Descends.unique`, `Inserts.unique`, `Preorder.unique`).  Conversely a pre-order with its heights
determines the top and the children of all in it (`Preorder.children_eq`). -/

namespace TreeCluster

/-- What can be seen of one member. -/
@[ext]
structure Place where
  parent : Option NodeAddress
  children : List NodeAddress
  weight : ℕ

/-- What can be seen of all members. -/
@[ext]
structure Shape where
  top : Option NodeAddress
  place : NodeAddress → Option Place

namespace Shape

variable {s s' : Shape} {fanOut : ℕ} {x y : NodeAddress} {p : Place}

/-! ### Changes -/

/-- The shape with other weights. -/
def reweigh (s : Shape) (w : NodeAddress → ℕ → ℕ) : Shape :=
  { s with place := fun x => (s.place x).map fun p => { p with weight := w x p.weight } }

/-- Adds to the weight of a member as often as it is in a list. -/
def raise (s : Shape) (way : List NodeAddress) : Shape :=
  s.reweigh fun x weight => weight + way.count x

/-- Takes off the weight of a member as often as it is in a list. -/
def lower (s : Shape) (way : List NodeAddress) : Shape :=
  s.reweigh fun x weight => weight - way.count x

/-- A single member. -/
def single (x : NodeAddress) : Shape :=
  ⟨some x, fun y => if y = x then some ⟨none, [], 0⟩ else none⟩

/-- A new last child of a member. -/
def attach (s : Shape) (parent x : NodeAddress) : Shape where
  top := s.top
  place y :=
    if y = x then some ⟨some parent, [], 0⟩
    else (s.place y).map fun p =>
      { p with children := if y = parent then p.children ++ [x] else p.children }

/-- A member less. -/
def cut (s : Shape) (x : NodeAddress) : Shape where
  top := if s.top = some x then none else s.top
  place y :=
    if y = x then none
    else (s.place y).map fun p => { p with children := p.children.filter (· ≠ x) }

theorem raise_raise (first more : List NodeAddress) :
    (s.raise first).raise more = s.raise (more ++ first) := by
  ext1
  · rfl
  · funext x
    simp only [raise, reweigh, Option.map_map, List.count_append]
    congr 1
    funext p
    simp only [Function.comp_apply, Place.mk.injEq, true_and]
    omega

/-! ### Up to the top -/

/-- The addresses from a member up to the top. -/
inductive Line (s : Shape) : NodeAddress → List NodeAddress → Prop
  | top {x : NodeAddress} {p : Place} : s.place x = some p → p.parent = none → Line s x [x]
  | step {x y : NodeAddress} {p : Place} {line : List NodeAddress} :
      s.place x = some p → p.parent = some y → Line s y line → Line s x (x :: line)

theorem Line.unique {line line' : List NodeAddress} (h : s.Line x line) (h' : s.Line x line') :
    line = line' := by
  induction h generalizing line' with
  | top hx root =>
      cases h' with
      | top _ _ => rfl
      | step hx' up _ =>
          obtain rfl := Option.some.inj (hx.symm.trans hx')
          rw [root] at up
          cases up
  | step hx up _ ih =>
      cases h' with
      | top hx' root =>
          obtain rfl := Option.some.inj (hx.symm.trans hx')
          rw [root] at up
          cases up
      | step hx' up' rest =>
          obtain rfl := Option.some.inj (hx.symm.trans hx')
          obtain rfl := Option.some.inj (up.symm.trans up')
          rw [ih rest]

variable {line : List NodeAddress}

theorem Line.exists_eq_cons (h : s.Line x line) : ∃ above, line = x :: above := by
  cases h with
  | top _ _ => exact ⟨[], rfl⟩
  | step _ _ _ => exact ⟨_, rfl⟩

theorem Line.self_mem (h : s.Line x line) : x ∈ line := by
  obtain ⟨above, rfl⟩ := h.exists_eq_cons
  exact List.mem_cons_self

theorem Line.exists_place (h : s.Line x line) (inside : y ∈ line) : ∃ p, s.place y = some p := by
  induction h with
  | top hp _ =>
      obtain rfl := List.mem_singleton.mp inside
      exact ⟨_, hp⟩
  | step hp _ _ ih =>
      rcases List.mem_cons.mp inside with rfl | above
      · exact ⟨_, hp⟩
      · exact ih above

theorem Line.exists_getLast? (h : s.Line x line) :
    ∃ y p, line.getLast? = some y ∧ s.place y = some p ∧ p.parent = none := by
  induction h with
  | top hp root => exact ⟨_, _, rfl, hp, root⟩
  | step _ _ up ih =>
      obtain ⟨y, p, last, hp, root⟩ := ih
      obtain ⟨above, rfl⟩ := up.exists_eq_cons
      exact ⟨y, p, last, hp, root⟩

theorem Line.isChain (h : s.Line x line) :
    line.IsChain fun x y => (s.place x).bind Place.parent = some y := by
  induction h with
  | top _ _ => exact .singleton _
  | step hp up rest ih =>
      obtain ⟨above, rfl⟩ := rest.exists_eq_cons
      refine .cons_cons ?_ ih
      rw [hp]
      exact up

/-! ### Down to a member with room -/

/-- The weight of a member. -/
def weight (s : Shape) (x : NodeAddress) : ℕ :=
  match s.place x with
  | some p => p.weight
  | none => 0

/-- The lightest of some members after `best`; among equals the first one stays. -/
def lighter (s : Shape) (best : NodeAddress) : List NodeAddress → NodeAddress
  | [] => best
  | x :: more => s.lighter (if s.weight x < s.weight best then x else best) more

/-- The first lightest of some members. -/
def lightest (s : Shape) : List NodeAddress → Option NodeAddress
  | [] => none
  | x :: more => some (s.lighter x more)

/-- The members on the way from one down to the first with room for a child, the last one first.
The way goes to the lightest child each time, and one is added to the weight of each member met. -/
inductive Descends (fanOut : ℕ) : Shape → NodeAddress → List NodeAddress → Prop
  | here {s : Shape} {x : NodeAddress} {p : Place} :
      s.place x = some p → p.children.length < fanOut → Descends fanOut s x [x]
  | down {s : Shape} {x child : NodeAddress} {p : Place} {way : List NodeAddress} :
      s.place x = some p → ¬p.children.length < fanOut →
        (s.raise [x]).lightest p.children = some child →
          Descends fanOut (s.raise [x]) child way → Descends fanOut s x (way ++ [x])

theorem Descends.unique {way way' : List NodeAddress} (h : Descends fanOut s x way)
    (h' : Descends fanOut s x way') : way = way' := by
  induction h generalizing way' with
  | here hx room =>
      cases h' with
      | here _ _ => rfl
      | down hx' full _ _ =>
          obtain rfl := Option.some.inj (hx.symm.trans hx')
          exact absurd room full
  | down hx full lightest _ ih =>
      cases h' with
      | here hx' room =>
          obtain rfl := Option.some.inj (hx.symm.trans hx')
          exact absurd room full
      | down hx' _ lightest' rest =>
          obtain rfl := Option.some.inj (hx.symm.trans hx')
          obtain rfl := Option.some.inj (lightest.symm.trans lightest')
          rw [ih rest]

/-- The shape after a new address has been placed. -/
inductive Inserts (fanOut : ℕ) (x : NodeAddress) (s : Shape) : Shape → Prop
  | first : s.top = none → Inserts fanOut x s (single x)
  | below {top parent : NodeAddress} {above : List NodeAddress} :
      s.top = some top → Descends fanOut s top (parent :: above) →
        Inserts fanOut x s ((s.raise (parent :: above)).attach parent x)

theorem Inserts.unique {t t' : Shape} (h : s.Inserts fanOut x t) (h' : s.Inserts fanOut x t') :
    t = t' := by
  cases h with
  | first rootless =>
      cases h' with
      | first _ => rfl
      | below top _ =>
          rw [rootless] at top
          cases top
  | below top way =>
      cases h' with
      | first rootless =>
          rw [rootless] at top
          cases top
      | below top' way' =>
          obtain rfl := Option.some.inj (top.symm.trans top')
          obtain ⟨rfl, rfl⟩ := List.cons.inj (way.unique way')
          rfl

/-! ### Pre-order -/

/-- The members met when some members with their heights are met one after the other, each followed
by those below it. -/
inductive Preorder (s : Shape) : List (NodeAddress × ℕ) → List (NodeAddress × ℕ) → Prop
  | nil : Preorder s [] []
  | cons {x : NodeAddress} {height : ℕ} {p : Place} {rest below after : List (NodeAddress × ℕ)} :
      s.place x = some p → Preorder s (p.children.map (·, height + 1)) below →
        Preorder s rest after → Preorder s ((x, height) :: rest) ((x, height) :: (below ++ after))

variable {stack stack' order order' : List (NodeAddress × ℕ)}

theorem Preorder.unique (h : s.Preorder stack order) (h' : s.Preorder stack order') :
    order = order' := by
  induction h generalizing order' with
  | nil =>
      cases h'
      rfl
  | cons hx _ _ ihb ihr =>
      cases h' with
      | cons hx' hb hr =>
          obtain rfl := Option.some.inj (hx.symm.trans hx')
          rw [ihb hb, ihr hr]

/-- What is met below some height starts there. -/
theorem Preorder.height_le (h : s.Preorder stack order) {height : ℕ}
    (hs : ∀ e ∈ stack, height ≤ e.2) : ∀ e ∈ order, height ≤ e.2 := by
  induction h generalizing height with
  | nil => nofun
  | @cons x own p rest below after _ _ _ ihb ihr =>
      obtain ⟨first, others⟩ := List.forall_mem_cons.mp hs
      refine List.forall_mem_cons.mpr ⟨first, fun e he => ?_⟩
      rcases List.mem_append.mp he with he | he
      · refine ihb (fun e he => ?_) e he
        obtain ⟨child, -, rfl⟩ := List.mem_map.mp he
        exact Nat.le_succ_of_le first
      · exact ihr others e he

/-- What comes after a member and those below it does not start below it. -/
theorem Preorder.takeWhile_eq_nil (h : s.Preorder stack order) {height : ℕ}
    (hs : ∀ e ∈ stack, e.2 ≤ height) : order.takeWhile (height < ·.2) = [] := by
  cases h with
  | nil => rfl
  | cons _ _ _ =>
      have := hs _ List.mem_cons_self
      exact List.takeWhile_cons_of_neg (by simpa using this)

/-- The members below the first one are those that follow as long as the heights stay above its
own. -/
theorem Preorder.takeWhile_append {height : ℕ} {p : Place} {rest below after : List (NodeAddress × ℕ)}
    (hb : s.Preorder (p.children.map (·, height + 1)) below) (hr : s.Preorder rest after)
    (hs : ∀ e ∈ rest, e.2 ≤ height) : (below ++ after).takeWhile (height < ·.2) = below := by
  have deeper : ∀ e ∈ below, decide (height < e.2) = true := by
    intro e he
    refine decide_eq_true (hb.height_le (fun e he => ?_) e he)
    obtain ⟨child, -, rfl⟩ := List.mem_map.mp he
    exact Nat.le_refl (height + 1)
  rw [List.takeWhile_append_of_pos deeper, hr.takeWhile_eq_nil hs, List.append_nil]

/-- Where two shapes have the same pre-order, it starts from the same members, and the children of
all in it are the same. -/
theorem Preorder.children_eq (h : s.Preorder stack order) (h' : s'.Preorder stack' order)
    (falls : stack.Pairwise fun e f => f.2 ≤ e.2) (falls' : stack'.Pairwise fun e f => f.2 ≤ e.2) :
    stack = stack' ∧ ∀ e ∈ order, ∃ p p', s.place e.1 = some p ∧ s'.place e.1 = some p' ∧
      p.children = p'.children := by
  induction h generalizing stack' with
  | nil =>
      cases h'
      exact ⟨rfl, nofun⟩
  | @cons x height p rest below after hx hb hr ihb ihr =>
      generalize whole : (x, height) :: (below ++ after) = order at h'
      cases h' with
      | nil => cases whole
      | @cons x' height' p' rest' below' after' hx' hb' hr' =>
          obtain ⟨same, tail⟩ := List.cons.inj whole
          obtain ⟨rfl, rfl⟩ := Prod.mk.inj same
          obtain ⟨lower, falls⟩ := List.pairwise_cons.mp falls
          obtain ⟨lower', falls'⟩ := List.pairwise_cons.mp falls'
          have first := hb.takeWhile_append hr lower
          have first' := hb'.takeWhile_append hr' lower'
          obtain rfl : below = below' := by rw [← first, tail, first']
          obtain rfl : after = after' := List.append_cancel_left tail
          have level (l : List NodeAddress) :
              (l.map (·, height + 1)).Pairwise fun e f : NodeAddress × ℕ => f.2 ≤ e.2 :=
            List.pairwise_map.mpr (List.pairwise_of_forall fun _ _ => Nat.le_refl _)
          obtain ⟨children, inner⟩ := ihb hb' (level _) (level _)
          obtain ⟨rfl, outer⟩ := ihr hr' falls falls'
          have children : p.children = p'.children := by
            have := congrArg (List.map Prod.fst) children
            simpa only [List.map_map, Function.comp_def, List.map_id'] using this
          refine ⟨rfl, List.forall_mem_cons.mpr ⟨⟨p, p', hx, hx', children⟩, fun e he => ?_⟩⟩
          rcases List.mem_append.mp he with he | he
          · exact inner e he
          · exact outer e he

end Shape
end TreeCluster
