import Abacus.Tree.Basic

/-!
# The nodes of a tree

A name or a literal occurs in a tree when its node is the tree itself or lies anywhere below it, also in a
branch that is never taken and in a place where no such node belongs. Where it matters which of several
occurrences is meant, a node is given by its place: the way to it from the top of the tree.

## Main definitions

* `Node.subtrees`, `Node.subtreesAll` — the nodes of a tree and of several trees
* `Node.label?` — the name that a node itself holds
* `Node.children`, `Node.at?` — the nodes directly below a node, the node at a place
* `Node.Place.LeftOf` — one place is wholly to the left of another

## Main results

* `Node.mem_subtreesAll_iff` — the nodes of several trees are those of each
* `Node.induction_children` — induction from the children of a node
* `Node.eq_or_leftOf` — of two places without anything below them, one is to the left of the other
-/

namespace Abacus.Node

mutual

/-- The nodes below a node. -/
def inner : Node → List Node
  | .gap | .int _ | .unread _ | .bool _ | .name _ => []
  | .many nodes | .block nodes | .list nodes => subtreesAll nodes
  | .expr e | .define _ e | .unary _ e => e :: inner e
  | .branch test yes no => (test :: inner test) ++ (yes :: inner yes) ++ (no :: inner no)
  | .binary _ l r | .logical _ l r | .relational _ l r => (l :: inner l) ++ (r :: inner r)

/-- The nodes of several trees. -/
def subtreesAll : List Node → List Node
  | [] => []
  | node :: nodes => (node :: inner node) ++ subtreesAll nodes

end

/-- The nodes of a tree. -/
def subtrees (node : Node) : List Node :=
  node :: node.inner

@[simp] theorem mem_subtrees_self (node : Node) : node ∈ node.subtrees :=
  List.mem_cons_self

/-- The nodes of several trees are those of each. -/
theorem mem_subtreesAll_iff {node : Node} {nodes : List Node} :
    node ∈ subtreesAll nodes ↔ ∃ tree ∈ nodes, node ∈ tree.subtrees := by
  induction nodes with
  | nil => simp [subtreesAll]
  | cons tree nodes ih => simp [subtreesAll, subtrees, ih, or_assoc]

/-- The name that a node itself holds. -/
def label? : Node → Option Json
  | .define x _ | .name x => some x
  | _ => none

/-! ### Parts of a tree -/

section Parts

variable {P : Node → Prop}

theorem forall_subtreesAll_cons {node : Node} {nodes : List Node}
    (h : ∀ part ∈ subtreesAll (node :: nodes), P part) :
    (∀ part ∈ node.subtrees, P part) ∧ ∀ part ∈ subtreesAll nodes, P part := by
  rw [subtreesAll] at h
  exact List.forall_mem_append.1 h

/-- What holds of all nodes of an operator with two operands holds of those of each operand. -/
theorem forall_subtrees_pair {node : Node} (l r : Node)
    (hinner : node.inner = (l :: inner l) ++ (r :: inner r)) (h : ∀ part ∈ node.subtrees, P part) :
    (∀ part ∈ l.subtrees, P part) ∧ ∀ part ∈ r.subtrees, P part := by
  rw [subtrees, hinner] at h
  exact List.forall_mem_append.1 (List.forall_mem_cons.1 h).2

theorem forall_subtrees_branch {test yes no : Node}
    (h : ∀ part ∈ (branch test yes no).subtrees, P part) :
    (∀ part ∈ test.subtrees, P part) ∧ (∀ part ∈ yes.subtrees, P part) ∧
      ∀ part ∈ no.subtrees, P part := by
  rw [subtrees, inner] at h
  obtain ⟨hfirst, hno⟩ := List.forall_mem_append.1 (List.forall_mem_cons.1 h).2
  obtain ⟨htest, hyes⟩ := List.forall_mem_append.1 hfirst
  exact ⟨htest, hyes, hno⟩

end Parts

/-! ### Places in a tree -/

/-- A place in a tree: the way to it from the top, as the numbers of the children to go to. -/
abbrev Place := List Nat

/-- One place is wholly to the left of another: the ways to them part at a node, where the first goes to an
earlier child than the second. -/
def Place.LeftOf (p q : Place) : Prop :=
  ∃ (way : Place) (i j : Nat) (p' q' : Place), p = way ++ i :: p' ∧ q = way ++ j :: q' ∧ i < j

namespace Place

theorem leftOf_of_lt {i j : Nat} (h : i < j) (p q : Place) : LeftOf (i :: p) (j :: q) :=
  ⟨[], i, j, p, q, rfl, rfl, h⟩

theorem LeftOf.cons {p q : Place} (h : p.LeftOf q) (i : Nat) : LeftOf (i :: p) (i :: q) := by
  obtain ⟨way, j, k, p', q', rfl, rfl, hlt⟩ := h
  exact ⟨i :: way, j, k, p', q', rfl, rfl, hlt⟩

/-- What is to the left of a place is below an earlier child, or below the same one and to the left there. -/
theorem LeftOf.cases_cons {p q : Place} {j : Nat} (h : LeftOf p (j :: q)) :
    ∃ (i : Nat) (p' : Place), p = i :: p' ∧ (i < j ∨ i = j ∧ p'.LeftOf q) := by
  obtain ⟨way, i, k, p', q', rfl, hq, hlt⟩ := h
  cases way with
  | nil =>
    cases hq
    exact ⟨i, p', rfl, .inl hlt⟩
  | cons n way =>
    cases hq
    exact ⟨_, _, rfl, .inr ⟨rfl, way, i, k, p', q', rfl, rfl, hlt⟩⟩

theorem not_leftOf_nil (p : Place) : ¬p.LeftOf [] := by
  rintro ⟨way, i, j, p', q', -, hq, -⟩
  simp at hq

/-- Of two places, one is above the other or to the left of it. -/
theorem isPrefix_or_leftOf (p q : Place) : p <+: q ∨ q <+: p ∨ p.LeftOf q ∨ q.LeftOf p := by
  induction p generalizing q with
  | nil => exact .inl List.nil_prefix
  | cons i p ih =>
    cases q with
    | nil => exact .inr (.inl List.nil_prefix)
    | cons j q =>
      rcases Nat.lt_trichotomy i j with hlt | rfl | hgt
      · exact .inr (.inr (.inl (leftOf_of_lt hlt p q)))
      · rcases ih q with h | h | h | h
        · exact .inl (List.cons_prefix_cons.2 ⟨rfl, h⟩)
        · exact .inr (.inl (List.cons_prefix_cons.2 ⟨rfl, h⟩))
        · exact .inr (.inr (.inl (h.cons i)))
        · exact .inr (.inr (.inr (h.cons i)))
      · exact .inr (.inr (.inr (leftOf_of_lt hgt q p)))

end Place

/-- The nodes directly below a node, from left to right. -/
def children : Node → List Node
  | .gap | .int _ | .unread _ | .bool _ | .name _ => []
  | .many nodes | .block nodes | .list nodes => nodes
  | .expr e | .define _ e | .unary _ e => [e]
  | .branch test yes no => [test, yes, no]
  | .binary _ l r | .logical _ l r | .relational _ l r => [l, r]

theorem sizeOf_lt_of_mem_children {node child : Node} (h : child ∈ node.children) :
    sizeOf child < sizeOf node := by
  cases node with
  | gap | int _ | unread _ | bool _ | name _ => cases h
  | many nodes | block nodes | list nodes =>
    have hlt : sizeOf child < sizeOf nodes := List.sizeOf_lt_of_mem h
    simp only [many.sizeOf_spec, block.sizeOf_spec, list.sizeOf_spec]
    omega
  | _ =>
    simp only [children, List.mem_cons, List.not_mem_nil, or_false] at h
    rcases h with rfl | rfl | rfl <;> simp <;> omega

/-- What holds of a node whenever it holds of its children holds of every node. -/
theorem induction_children {P : Node → Prop}
    (h : ∀ node, (∀ child ∈ node.children, P child) → P node) (node : Node) : P node :=
  h node fun child _ => induction_children h child
termination_by sizeOf node
decreasing_by exact sizeOf_lt_of_mem_children ‹_›

/-- The node at a place. -/
def at? : Node → Place → Option Node
  | node, [] => some node
  | node, i :: place => (node.children[i]?).bind (at? · place)

theorem at?_append (node : Node) (p q : Place) :
    node.at? (p ++ q) = (node.at? p).bind (at? · q) := by
  induction p generalizing node with
  | nil => rfl
  | cons i p ih => simp [at?, ih, Option.bind_assoc]

/-- There is nothing below a node without children. -/
theorem eq_of_isPrefix {node leaf part : Node} {p q : Place} (hp : node.at? p = some leaf)
    (hleaf : leaf.children = []) (hq : node.at? q = some part) (h : p <+: q) : q = p := by
  obtain ⟨_ | ⟨i, more⟩, rfl⟩ := h
  · exact List.append_nil p
  · simp [at?_append, hp, at?, hleaf] at hq

/-- Of two different places without anything below them, one is to the left of the other. -/
theorem eq_or_leftOf {node leaf leaf' : Node} {p q : Place} (hp : node.at? p = some leaf)
    (hleaf : leaf.children = []) (hq : node.at? q = some leaf') (hleaf' : leaf'.children = []) :
    q = p ∨ p.LeftOf q ∨ q.LeftOf p := by
  rcases Place.isPrefix_or_leftOf p q with h | h | h
  · exact .inl (eq_of_isPrefix hp hleaf hq h)
  · exact .inl (eq_of_isPrefix hq hleaf' hp h).symm
  · exact .inr h

end Abacus.Node
