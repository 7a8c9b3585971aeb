import Abacus.Proofs.Eval.Lookup
import Abacus.Proofs.Tree.Subtree

/-!
# The order of evaluation

All parts of an expression are evaluated, from left to right. So an expression has a value only if all of its
parts have one, the right operands of the logical operators among them. When it fails because a name is
unknown, the name is the leftmost one without a value, and everything to the left of it has a value.

Both are shown for one step first: what a node does with its children. Along a place in the tree, or up from
the children, it follows for the whole expression.

## Main definitions

* `Scope.HasValue` — the name has a value

## Main results

* `Node.eval_children`, `Node.eval_at?` — an expression has a value only if its parts have
* `Node.eval_unknownName_cases` — the children before the one that fails have values
* `Node.exists_place_of_unknownName` — where the unknown name stands
* `Node.eval_strict` — the order of evaluation
-/

namespace Abacus

/-- Whether a name has a value in a scope. A name that is bound to no value has none. -/
def Scope.HasValue (scope : Scope) (x : Json) : Prop :=
  ∃ key ∈ x.key?, ∃ v, scope.lookup key = some v

theorem Scope.hasValue_of_valueOf {scope : Scope} {x : Json} {v : Value}
    (h : scope.valueOf x = .ok v) : scope.HasValue x := by
  unfold valueOf at h
  split at h
  · cases h
  · rename_i key hkey
    split at h
    · rename_i w hlookup
      exact ⟨key, hkey, w, hlookup⟩
    · cases h

theorem Scope.valueOf_eq_unknownName {scope : Scope} {x y : Json}
    (h : scope.valueOf x = .error (.unknownName y)) : x = y ∧ ¬scope.HasValue x := by
  unfold valueOf at h
  split at h
  · cases h
  · rename_i key hkey
    split at h
    · cases h
    · rename_i hlookup
      cases h
      refine ⟨rfl, ?_⟩
      rintro ⟨key', hkey', v, hv⟩
      cases hkey.symm.trans hkey'
      rw [hlookup] at hv
      cases hv

namespace Node

variable {scope : Scope} {e : Node} {x : Json}

/-! ### One step -/

/-- The first of several expressions to fail, with values of all before it. -/
def FailsFirst (scope : Scope) (err : EvalError) (es : List Node) : Prop :=
  ∃ before e after, es = before ++ e :: after ∧ (∀ c ∈ before, ∃ v, eval scope c = .ok v) ∧
    eval scope e = .error err

theorem failsFirst_head {err : EvalError} (h : eval scope e = .error err) (es : List Node) :
    FailsFirst scope err (e :: es) :=
  ⟨[], e, es, rfl, List.forall_mem_nil _, h⟩

theorem FailsFirst.cons {err : EvalError} {es : List Node} (h : FailsFirst scope err es) {v : Value}
    (hv : eval scope e = .ok v) : FailsFirst scope err (e :: es) := by
  obtain ⟨before, e', after, rfl, hbefore, he'⟩ := h
  exact ⟨e :: before, e', after, rfl, List.forall_mem_cons.2 ⟨⟨v, hv⟩, hbefore⟩, he'⟩

/-- Where an operator does not fail itself, one of its two operands does. -/
theorem failsFirst_pair {l r : Node} {err : EvalError} {f : Value → Value → Except EvalError Value}
    (h : (do let v ← eval scope l; let w ← eval scope r; f v w) = .error err)
    (hf : ∀ v w, f v w ≠ .error err) : FailsFirst scope err [l, r] := by
  rcases bind_eq_error_iff.1 h with hl | ⟨v, hv, h⟩
  · exact failsFirst_head hl [r]
  · rcases bind_eq_error_iff.1 h with hr | ⟨w, -, hop⟩
    · exact (failsFirst_head hr []).cons hv
    · exact absurd hop (hf v w)

theorem evalAll_ok {es : List Node} {vs : List Value} (h : evalAll scope es = .ok vs) :
    ∀ e ∈ es, ∃ v, eval scope e = .ok v := by
  induction es generalizing vs with
  | nil => exact List.forall_mem_nil _
  | cons e es ih =>
    rw [evalAll] at h
    obtain ⟨v, hv, h⟩ := bind_eq_ok_iff.1 h
    obtain ⟨ws, hws, -⟩ := bind_eq_ok_iff.1 h
    exact List.forall_mem_cons.2 ⟨⟨v, hv⟩, ih hws⟩

theorem evalAll_error {es : List Node} {err : EvalError} (h : evalAll scope es = .error err) :
    FailsFirst scope err es := by
  induction es with
  | nil =>
    rw [evalAll] at h
    cases h
  | cons e es ih =>
    rw [evalAll] at h
    rcases bind_eq_error_iff.1 h with he | ⟨v, hv, h⟩
    · exact failsFirst_head he es
    · rcases bind_eq_error_iff.1 h with hes | ⟨vs, -, hend⟩
      · exact (ih hes).cons hv
      · cases hend

/-- An expression has a value only if all its children have. -/
theorem eval_children {v : Value} (h : eval scope e = .ok v) :
    ∀ child ∈ e.children, ∃ w, eval scope child = .ok w := by
  cases e with
  | int _ | bool _ | name _ => exact List.forall_mem_nil _
  | list items =>
    rw [eval] at h
    obtain ⟨vs, hvs, -⟩ := bind_eq_ok_iff.1 h
    exact evalAll_ok hvs
  | unary op e =>
    rw [eval] at h
    obtain ⟨w, hw, -⟩ := bind_eq_ok_iff.1 h
    exact List.forall_mem_singleton.2 ⟨w, hw⟩
  | binary op l r | relational op l r =>
    rw [eval] at h
    obtain ⟨w, hw, h⟩ := bind_eq_ok_iff.1 h
    obtain ⟨u, hu, -⟩ := bind_eq_ok_iff.1 h
    exact List.forall_mem_cons.2 ⟨⟨w, hw⟩, List.forall_mem_singleton.2 ⟨u, hu⟩⟩
  | logical op l r =>
    rw [eval] at h
    obtain ⟨w, hw, h⟩ := bind_eq_ok_iff.1 h
    obtain ⟨b, -, h⟩ := bind_eq_ok_iff.1 h
    obtain ⟨u, hu, -⟩ := bind_eq_ok_iff.1 h
    exact List.forall_mem_cons.2 ⟨⟨w, hw⟩, List.forall_mem_singleton.2 ⟨u, hu⟩⟩
  | _ =>
    rw [eval] at h
    · cases h
    all_goals simp

/-- An expression fails because a name is unknown if it is the name, or if one of its children fails so and
all children before that one have values. -/
theorem eval_unknownName_cases (h : eval scope e = .error (.unknownName x)) :
    e = .name x ∧ ¬scope.HasValue x ∨ FailsFirst scope (.unknownName x) e.children := by
  cases e with
  | name y =>
    rw [eval] at h
    obtain ⟨rfl, hy⟩ := Scope.valueOf_eq_unknownName h
    exact .inl ⟨rfl, hy⟩
  | int _ | bool _ =>
    rw [eval] at h
    cases h
  | list items =>
    rw [eval] at h
    rcases bind_eq_error_iff.1 h with hitems | ⟨vs, -, hend⟩
    · exact .inr (evalAll_error hitems)
    · cases hend
  | unary op e =>
    rw [eval] at h
    rcases bind_eq_error_iff.1 h with he | ⟨v, -, hop⟩
    · exact .inr (failsFirst_head he [])
    · exact absurd hop (unary_ne op v x)
  | binary op l r =>
    rw [eval] at h
    exact .inr (failsFirst_pair h fun v w => binary_ne op v w x)
  | relational op l r =>
    rw [eval] at h
    exact .inr (failsFirst_pair h fun v w => relational_ne op v w x)
  | logical op l r =>
    rw [eval] at h
    rcases bind_eq_error_iff.1 h with hl | ⟨v, hv, h⟩
    · exact .inr (failsFirst_head hl [r])
    · -- the truth of the left operand is taken before the right one is evaluated
      rcases bind_eq_error_iff.1 h with hb | ⟨b, -, h⟩
      · exact absurd hb (asTruth_ne v x)
      · rcases bind_eq_error_iff.1 h with hr | ⟨w, -, h⟩
        · exact .inr ((failsFirst_head hr []).cons hv)
        · rcases bind_eq_error_iff.1 h with hc | ⟨c, -, hend⟩
          · exact absurd hc (asTruth_ne w x)
          · cases hend
  | _ =>
    rw [eval] at h
    · cases h
    all_goals simp

/-! ### Whole expressions -/

/-- An expression has a value only if all its parts have. -/
theorem eval_at? {v : Value} (h : eval scope e = .ok v) {place : Place} {part : Node}
    (hpart : e.at? place = some part) : ∃ w, eval scope part = .ok w := by
  -- along the place, since the step from a node to its children is the same for all nodes
  induction place generalizing e v with
  | nil =>
    cases hpart
    exact ⟨v, h⟩
  | cons i place ih =>
    obtain ⟨child, hchild, hpart⟩ := Option.bind_eq_some_iff.1 hpart
    obtain ⟨w, hw⟩ := eval_children h child (List.mem_of_getElem? hchild)
    exact ih hw hpart

/-- An expression that fails because a name is unknown has the name at a place with values of all that is to
the left of it. -/
theorem exists_place_of_unknownName (e : Node) : eval scope e = .error (.unknownName x) →
    ∃ place, e.at? place = some (.name x) ∧ ¬scope.HasValue x ∧
      ∀ other part, e.at? other = some part → other.LeftOf place → ∃ v, eval scope part = .ok v := by
  induction e using induction_children with
  | h e ih =>
    intro h
    rcases eval_unknownName_cases h with ⟨rfl, hx⟩ | ⟨before, child, after, hchildren, hbefore, hchild⟩
    · exact ⟨[], rfl, hx, fun other part _ hleft => absurd hleft other.not_leftOf_nil⟩
    have hmem : child ∈ e.children := by simp [hchildren]
    obtain ⟨place, hplace, hx, hleft⟩ := ih child hmem hchild
    have hat (place : Place) : e.at? (before.length :: place) = child.at? place := by
      simp [at?, hchildren]
    refine ⟨before.length :: place, (hat place).trans hplace, hx, fun other part hpart hother => ?_⟩
    obtain ⟨i, below, rfl, hlt | ⟨rfl, hbelow⟩⟩ := hother.cases_cons
    · -- below a child before the one that fails
      obtain ⟨sibling, hsibling, hpart⟩ := Option.bind_eq_some_iff.1 hpart
      rw [hchildren, List.getElem?_append_left hlt] at hsibling
      obtain ⟨v, hv⟩ := hbefore sibling (List.mem_of_getElem? hsibling)
      exact eval_at? hv hpart
    · exact hleft below part ((hat below).symm.trans hpart) hbelow

/-- Evaluation is strict and goes from left to right. An expression has a value only if all its parts have,
and so all its names. If it fails because a name is unknown, then that name stands at a place in it, all
other names without a value stand to the right of this place, and all parts to the left of it have values. -/
theorem eval_strict (scope : Scope) (e : Node) :
    (∀ v, eval scope e = .ok v →
      (∀ place part, e.at? place = some part → ∃ w, eval scope part = .ok w) ∧
      ∀ place x, e.at? place = some (.name x) → scope.HasValue x) ∧
    ∀ x, eval scope e = .error (.unknownName x) →
      ∃ place, e.at? place = some (.name x) ∧ ¬scope.HasValue x ∧
        (∀ other y, e.at? other = some (.name y) → ¬scope.HasValue y →
          other = place ∨ place.LeftOf other) ∧
        ∀ other part, e.at? other = some part → other.LeftOf place →
          ∃ w, eval scope part = .ok w := by
  -- a name that is evaluated has a value
  have hname : ∀ {y w}, eval scope (.name y) = .ok w → scope.HasValue y := by
    intro y w hw
    rw [eval] at hw
    exact Scope.hasValue_of_valueOf hw
  refine ⟨fun v hv => ⟨fun place part => eval_at? hv, fun place x hx => ?_⟩, fun x hx => ?_⟩
  · obtain ⟨w, hw⟩ := eval_at? hv hx
    exact hname hw
  · obtain ⟨place, hplace, hnone, hleft⟩ := exists_place_of_unknownName e hx
    refine ⟨place, hplace, hnone, fun other y hother hy => ?_, hleft⟩
    rcases eq_or_leftOf hplace rfl hother rfl with heq | hright | hbefore
    · exact .inl heq
    · exact .inr hright
    · obtain ⟨w, hw⟩ := hleft other _ hother hbefore
      exact absurd (hname hw) hy

/-- The right operand of a logical operator is evaluated though the left one decides, and of the two names in
it that have no value the left one is reported. -/
theorem eval_strict_logical :
    let scope : Scope := ⟨[⟨.text "x", .str "x", some (.int 1)⟩, ⟨.text "y", .str "y", none⟩], []⟩
    let e : Node := .logical .or (.bool true)
      (.list [.name (.str "x"), .unary .minus (.name (.str "y")), .name (.str "z")])
    eval scope e = .error (.unknownName (.str "y")) ∧
      ∃ place, e.at? place = some (.name (.str "y")) ∧ ¬scope.HasValue (.str "y") ∧
        (∀ other y, e.at? other = some (.name y) → ¬scope.HasValue y →
          other = place ∨ place.LeftOf other) ∧
        ∀ other part, e.at? other = some part → other.LeftOf place →
          ∃ w, eval scope part = .ok w := by
  intro scope e
  have herror : eval scope e = .error (.unknownName (.str "y")) := rfl
  exact ⟨herror, (eval_strict scope e).2 _ herror⟩

end Node

end Abacus
