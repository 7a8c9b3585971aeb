import Abacus.Proofs.Descent.Calls

/-!
# The rules come to an end

Every rule comes to an end on every token list, and it never goes back: it ends at the position where it
began or after it, whether it succeeds or fails. If it succeeds, it has used up a token, except for the
rule for programs where no token is left.

That a plan comes to an end is said without a depth: its calls and the calls in them make up a finite
derivation. There is one because each call has a cost that is lower than that of the call around it. The
cost counts the tokens that are left and, among calls with as many tokens left, how far the rule is from
taking one.

## Main definitions

* `Descent.Plan.Returns` — a plan comes to an end at a position, with what it has read or with nothing
* `Descent.Call.cost` — a measure of calls that goes down with each call
* `Descent.Plan.Keeps` — a plan makes calls of a lower cost only, and ends where it may
* `Descent.Rule.runAt` — a rule at a position of a token list

## Main results

* `Descent.Plan.Returns.unique` — a plan comes to one end only
* `Descent.Call.keepsPlan` — the plans of all rules keep to their cost
* `Descent.Call.settles` — every call comes to an end, which is that of the rule with enough depth
* `Descent.Rule.runAt_returns` — every rule comes to an end, and where
-/

namespace Abacus

namespace Descent

/-! ### The end of a plan -/

namespace Plan

variable {α : Type} {tokens : List Token} {plan : Plan α} {p q q' : Nat} {read read' : Option α}

/-- A plan that begins at position `p` comes to an end at position `q`, with what it has read or, where it
fails, with nothing. -/
inductive Returns (tokens : List Token) : {α : Type} → Plan α → Nat → Option α → Nat → Prop
  | ret {α : Type} {a : α} {p : Nat} : Returns tokens (.ret a) p (some a) p
  | fail {α : Type} {p : Nat} : Returns tokens (.fail : Plan α) p none p
  | look {α : Type} {next : Option Kind → Plan α} {p q : Nat} {read : Option α}
      (h : Returns tokens (next ((tokens[p]?).map Token.kind)) p read q) :
      Returns tokens (.look next) p read q
  | take {α : Type} {next : Kind → Option Payload → Plan α} {t : Token} {p q : Nat} {read : Option α}
      (ht : tokens[p]? = some t) (h : Returns tokens (next t.kind t.payload) (p + 1) read q) :
      Returns tokens (.take next) p read q
  | takeNone {α : Type} {next : Kind → Option Payload → Plan α} {p : Nat} (ht : tokens[p]? = none) :
      Returns tokens (.take next) p none p
  | call {α : Type} {c : Call} {next : c.Result → Plan α} {b : c.Result} {p m q : Nat}
      {read : Option α} (hc : Returns tokens c.plan p (some b) m)
      (h : Returns tokens (next b) m read q) : Returns tokens (.call c next) p read q
  | callNone {α : Type} {c : Call} {next : c.Result → Plan α} {p q : Nat}
      (hc : Returns tokens c.plan p none q) : Returns tokens (.call c next) p none q

/-- A plan never goes back. -/
theorem Returns.le (h : plan.Returns tokens p read q) : p ≤ q := by
  induction h with
  | ret | fail | takeNone _ => exact Nat.le_refl _
  | look _ ih | callNone _ ih => exact ih
  | take _ _ ih => exact Nat.le_of_succ_le ih
  | call _ _ ihc ih => exact Nat.le_trans ihc ih

/-- A plan comes to one end only. -/
theorem Returns.unique (h : plan.Returns tokens p read q) (h' : plan.Returns tokens p read' q') :
    read' = read ∧ q' = q := by
  induction h generalizing q' with
  | ret | fail =>
    cases h'
    exact ⟨rfl, rfl⟩
  | look _ ih =>
    cases h' with
    | look h' => exact ih h'
  | take ht _ ih =>
    cases h' with
    | take ht' h' =>
      cases ht.symm.trans ht'
      exact ih h'
    | takeNone ht' => cases ht.symm.trans ht'
  | takeNone ht =>
    cases h' with
    | take ht' h' => cases ht.symm.trans ht'
    | takeNone _ => exact ⟨rfl, rfl⟩
  | call _ _ ihc ih =>
    cases h' with
    | call hc' h' =>
      obtain ⟨hb, rfl⟩ := ihc hc'
      cases hb
      exact ih h'
    | callNone hc' => cases (ihc hc').1
  | callNone _ ihc =>
    cases h' with
    | call hc' h' => cases (ihc hc').1
    | callNone hc' => exact ⟨rfl, (ihc hc').2⟩

end Plan

/-! ### The cost of a call -/

namespace Call

/-- How many calls a rule can be from taking a token. -/
def rank : Call → Nat
  | .expr level => 8 - Automaton.tightness level
  | .unary => 2
  | .elements _ | .statement => 9
  | .statements _ | .program => 10
  | .chain _ _ | .primary | .conditional | .definition | .block | .blockTail _ => 1

/-- The cost of a call at a position. -/
def cost (c : Call) (tokens : List Token) (p : Nat) : Nat :=
  12 * (tokens.length - p) + c.rank

/-- Whether a call uses up a token when it succeeds. The operators after an operand may be none, and so may
the statements of a program if no token is left. -/
def uses (tokens : List Token) (p : Nat) : Call → Bool
  | .chain _ _ => false
  | .program => p < tokens.length
  | _ => true

variable {c c' : Call} {tokens : List Token} {p q : Nat}

theorem rank_le (c : Call) : c.rank ≤ 10 := by
  cases c <;> simp only [rank] <;> omega

theorem rank_pos (c : Call) : 0 < c.rank := by
  cases c with
  | expr level => cases level <;> decide
  | _ => simp only [rank]; omega

theorem rank_tighter {level : Level} (loose : level ≠ .power) :
    rank (.expr level.tighter) < rank (.expr level) := by
  cases level <;> first | decide | exact absurd rfl loose

/-- Among calls at one position, those of a lower rank cost less. -/
theorem cost_lt_of_rank (h : c.rank < c'.rank) : c.cost tokens p < c'.cost tokens p :=
  Nat.add_lt_add_left h _

/-- A call after a token has been taken costs less, whatever its rank. -/
theorem cost_lt_of_lt (hpq : p < q) (hq : q ≤ tokens.length) : c.cost tokens q < c'.cost tokens p := by
  have hrank := c.rank_le
  simp only [cost]
  omega

end Call

/-! ### Plans that keep to a cost -/

/-- Where a call that begins at position `p` may end. -/
structure Lands {α : Type} (tokens : List Token) (uses : Bool) (p : Nat) (read : Option α) (q : Nat) :
    Prop where
  le : p ≤ q
  le_length : q ≤ tokens.length
  lt_of_uses : read.isSome → uses = true → p < q

section Lands

variable {α : Type} {tokens : List Token} {uses : Bool} {p q : Nat}

theorem Lands.lt {a : α} (h : Lands tokens true p (some a) q) : p < q :=
  h.lt_of_uses rfl rfl

theorem lands_none (hpq : p ≤ q) (hq : q ≤ tokens.length) :
    Lands tokens uses p (none : Option α) q :=
  ⟨hpq, hq, nofun⟩

end Lands

namespace Plan

variable {α : Type}

/-- From a position on, a plan makes calls of a cost below a bound only, and ends well if they end where they
may. -/
def Keeps (tokens : List Token) (bound : Nat) (good : Option α → Nat → Prop) : Plan α → Nat → Prop
  | .ret a, p => good (some a) p
  | .fail, p => good none p
  | .look next, p => (next ((tokens[p]?).map Token.kind)).Keeps tokens bound good p
  | .take next, p =>
    match tokens[p]? with
    | some t => (next t.kind t.payload).Keeps tokens bound good (p + 1)
    | none => good none p
  | .call c next, p =>
    c.cost tokens p < bound ∧ ∀ read q, Lands tokens (c.uses tokens p) p read q →
      match read with
      | some b => (next b).Keeps tokens bound good q
      | none => good none q

section Keeps

-- a plan that has begun at `start` and has come to `p`
variable {tokens : List Token} {bound start p : Nat} {uses : Bool}

/-- Where there is a kind, there is a token. -/
theorem lt_length_of_kind {kind : Kind} (h : (tokens[p]?).map Token.kind = some kind) :
    p < tokens.length := by
  obtain ⟨t, ht, -⟩ := Option.map_eq_some_iff.1 h
  exact (List.getElem?_eq_some_iff.1 ht).1

theorem keeps_ret {a : α} (hp : start < p) (hlen : p ≤ tokens.length) :
    (ret a).Keeps tokens bound (Lands tokens uses start) p :=
  ⟨Nat.le_of_lt hp, hlen, fun _ _ => hp⟩

theorem keeps_look {next : Option Kind → Plan α} {good : Option α → Nat → Prop}
    (h : (next ((tokens[p]?).map Token.kind)).Keeps tokens bound good p) :
    (look next).Keeps tokens bound good p := h

theorem keeps_ifEnd {yes no : Plan α} {good : Option α → Nat → Prop}
    (hyes : tokens.length ≤ p → yes.Keeps tokens bound good p)
    (hno : p < tokens.length → no.Keeps tokens bound good p) :
    (ifEnd yes no).Keeps tokens bound good p := by
  apply keeps_look
  split
  · rename_i hend
    exact hyes (by simpa using hend)
  · rename_i hend
    exact hno (by simpa using hend)

/-- If a token of a kind comes next, there is a token left. -/
theorem keeps_ifNext {kind : Kind} {yes no : Plan α} {good : Option α → Nat → Prop}
    (hyes : p < tokens.length → yes.Keeps tokens bound good p) (hno : no.Keeps tokens bound good p) :
    (ifNext kind yes no).Keeps tokens bound good p := by
  apply keeps_look
  split
  · rename_i hkind
    exact hyes (lt_length_of_kind hkind)
  · exact hno

theorem keeps_take {next : Kind → Option Payload → Plan α} (hp : start ≤ p) (hlen : p ≤ tokens.length)
    (h : p < tokens.length → ∀ kind payload,
      (next kind payload).Keeps tokens bound (Lands tokens uses start) (p + 1)) :
    (take next).Keeps tokens bound (Lands tokens uses start) p := by
  rw [Keeps]
  split
  · rename_i t ht
    exact h (List.getElem?_eq_some_iff.1 ht).1 t.kind t.payload
  · exact lands_none hp hlen

theorem keeps_skip {next : Plan α} {good : Option α → Nat → Prop} (hlen : p < tokens.length)
    (h : next.Keeps tokens bound good (p + 1)) : next.skip.Keeps tokens bound good p := by
  rw [skip, Keeps, List.getElem?_eq_getElem hlen]
  exact h

theorem keeps_expect {kind : Kind} {next : Option Payload → Plan α} (hp : start ≤ p)
    (hlen : p ≤ tokens.length)
    (h : p < tokens.length → ∀ payload,
      (next payload).Keeps tokens bound (Lands tokens uses start) (p + 1)) :
    (expect kind next).Keeps tokens bound (Lands tokens uses start) p :=
  keeps_ifNext (fun _ => keeps_take hp hlen fun hlt _ payload => h hlt payload) (lands_none hp hlen)

theorem keeps_call {c : Call} {next : c.Result → Plan α} (hp : start ≤ p)
    (hcost : c.cost tokens p < bound)
    (h : ∀ b q, Lands tokens (c.uses tokens p) p (some b) q →
      (next b).Keeps tokens bound (Lands tokens uses start) q) :
    (call c next).Keeps tokens bound (Lands tokens uses start) p := by
  refine ⟨hcost, fun read q hlands => ?_⟩
  cases read with
  | none => exact lands_none (Nat.le_trans hp hlands.le) hlands.le_length
  | some b => exact h b q hlands

/-- A call whose result is returned ends where the plan does. -/
theorem keeps_call_ret {c : Call} (hp : start ≤ p) (hcost : c.cost tokens p < bound)
    (huses : uses = true → c.uses tokens p = true ∨ start < p) :
    (call c .ret).Keeps tokens bound (Lands tokens uses start) p := by
  refine keeps_call hp hcost fun b q h => ⟨Nat.le_trans hp h.le, h.le_length, fun _ hu => ?_⟩
  rcases huses hu with hc | hlt
  · exact Nat.lt_of_le_of_lt hp (h.lt_of_uses rfl hc)
  · exact Nat.lt_of_lt_of_le hlt h.le

end Keeps

end Plan

/-! ### The plans of the rules -/

section Rules

open Plan Call

variable {tokens : List Token} {p : Nat}

/-- The plan of a call keeps to its cost. -/
def Call.KeepsPlan (c : Call) (tokens : List Token) (p : Nat) : Prop :=
  c.plan.Keeps tokens (c.cost tokens p) (Lands tokens (c.uses tokens p) p) p

theorem keepsPlan_expr (level : Level) : KeepsPlan (.expr level) tokens p := by
  by_cases hpower : level = .power
  · subst hpower
    -- the base is read at the same position, and the exponent after two tokens or more
    refine keeps_call (Nat.le_refl p) (cost_lt_of_rank (by decide)) fun base q hbase => ?_
    have hq : p < q := hbase.lt
    refine keeps_ifNext (fun hlen => keeps_skip hlen ?_) (keeps_ret hq hbase.le_length)
    refine keeps_call (by omega) (cost_lt_of_lt (by omega) hlen) fun exponent m hexponent => ?_
    exact keeps_ret (Nat.lt_trans (by omega) hexponent.lt) hexponent.le_length
  · rw [KeepsPlan, plan_expr_of_ne_power hpower]
    refine keeps_call (Nat.le_refl p) (cost_lt_of_rank (rank_tighter hpower)) fun left q hleft => ?_
    exact keeps_call_ret hleft.le (cost_lt_of_lt hleft.lt hleft.le_length) fun _ => .inr hleft.lt

theorem keepsPlan_chain (hp : p ≤ tokens.length) (level : Level) (left : Expr) :
    KeepsPlan (.chain level left) tokens p := by
  apply keeps_look
  split
  · exact ⟨Nat.le_refl p, hp, nofun⟩
  · rename_i join hjoin
    obtain ⟨kind, hkind, -⟩ := Option.bind_eq_some_iff.1 hjoin
    have hlen := lt_length_of_kind hkind
    refine keeps_skip hlen (keeps_call (Nat.le_succ p) (cost_lt_of_lt (Nat.lt_succ_self p) hlen) ?_)
    intro right q hright
    have hq : p < q := Nat.lt_of_succ_lt hright.lt
    exact keeps_call_ret (Nat.le_of_lt hq) (cost_lt_of_lt hq hright.le_length) nofun

theorem keepsPlan_unary : KeepsPlan .unary tokens p := by
  apply keeps_look
  split
  · rename_i op hop
    obtain ⟨kind, hkind, -⟩ := Option.bind_eq_some_iff.1 hop
    have hlen := lt_length_of_kind hkind
    refine keeps_skip hlen (keeps_call (Nat.le_succ p) (cost_lt_of_lt (Nat.lt_succ_self p) hlen) ?_)
    exact fun operand q h => keeps_ret (Nat.lt_of_succ_lt h.lt) h.le_length
  · exact keeps_call_ret (Nat.le_refl p) (cost_lt_of_rank (by decide)) fun _ => .inl rfl

theorem keepsPlan_primary (hp : p ≤ tokens.length) : KeepsPlan .primary tokens p := by
  refine keeps_take (Nat.le_refl p) hp fun hlen kind payload => ?_
  have hlt := Nat.lt_succ_self p
  split
  · exact keeps_ret hlt hlen
  · exact keeps_ret hlt hlen
  · exact keeps_ret hlt hlen
  · exact keeps_ret hlt hlen
  · refine keeps_call (Nat.le_succ p) (cost_lt_of_lt hlt hlen) fun e q h => ?_
    refine keeps_expect (Nat.le_of_succ_le h.le) h.le_length fun hlen' _ => ?_
    exact keeps_ret (Nat.lt_succ_of_lt (Nat.lt_of_succ_lt h.lt)) hlen'
  · refine keeps_call (Nat.le_succ p) (cost_lt_of_lt hlt hlen) fun items q h => ?_
    exact keeps_ret (Nat.lt_of_succ_lt h.lt) h.le_length
  · exact lands_none (Nat.le_succ p) hlen

theorem keepsPlan_elements (done : List Expr) : KeepsPlan (.elements done) tokens p := by
  have hlt := Nat.lt_succ_self p
  refine keeps_ifNext (fun hlen => keeps_skip hlen ?_)
    (keeps_ifNext (fun hlen => keeps_skip hlen (keeps_ret hlt hlen)) ?_)
  · exact keeps_call_ret (Nat.le_succ p) (cost_lt_of_lt hlt hlen) fun _ => .inr hlt
  · -- an item begins where the call does, but its rule has a lower rank
    refine keeps_call (Nat.le_refl p) (cost_lt_of_rank (Nat.lt_succ_self 8)) fun e q h => ?_
    have hq : p < q := h.lt
    refine keeps_ifNext (fun hlen => keeps_skip hlen ?_)
      (keeps_expect h.le h.le_length fun hlen _ => keeps_ret (Nat.lt_succ_of_lt hq) hlen)
    exact keeps_call_ret (by omega) (cost_lt_of_lt (by omega) hlen) fun _ => .inr (by omega)

theorem keepsPlan_statement : KeepsPlan .statement tokens p := by
  -- the rules for the other statements take their first token, so they cost less at the same position
  have hcall (c : Call) (hrank : c.rank < 9) (huses : c.uses tokens p = true) :
      (Plan.call c .ret).Keeps tokens (Call.cost .statement tokens p) (Lands tokens true p) p :=
    keeps_call_ret (Nat.le_refl p) (cost_lt_of_rank hrank) fun _ => .inl huses
  refine keeps_ifNext (fun _ => hcall .conditional (by decide) rfl) <|
    keeps_ifNext (fun _ => hcall .definition (by decide) rfl) <|
    keeps_ifNext (fun _ => hcall .block (by decide) rfl) ?_
  refine keeps_call (Nat.le_refl p) (cost_lt_of_rank (by decide)) fun e q h => ?_
  exact keeps_ret h.lt h.le_length

theorem keepsPlan_conditional (hp : p ≤ tokens.length) : KeepsPlan .conditional tokens p := by
  refine keeps_expect (Nat.le_refl p) hp fun hlen _ => ?_
  refine keeps_call (Nat.le_succ p) (cost_lt_of_lt (Nat.lt_succ_self p) hlen) fun test q htest => ?_
  have hq : p < q := Nat.lt_of_succ_lt htest.lt
  refine keeps_call (Nat.le_of_lt hq) (cost_lt_of_lt hq htest.le_length) fun yes m hyes => ?_
  have hm : p < m := Nat.lt_trans hq hyes.lt
  refine keeps_ifNext (fun hlen' => keeps_skip hlen' ?_) (keeps_ret hm hyes.le_length)
  refine keeps_call (by omega) (cost_lt_of_lt (by omega) hlen') fun no n hno => ?_
  exact keeps_ret (Nat.lt_trans (Nat.lt_succ_of_lt hm) hno.lt) hno.le_length

theorem keepsPlan_definition (hp : p ≤ tokens.length) : KeepsPlan .definition tokens p := by
  refine keeps_expect (Nat.le_refl p) hp fun hword _ => ?_
  refine keeps_expect (by omega) hword fun hname _ => ?_
  refine keeps_expect (by omega) hname fun hsign _ => ?_
  refine keeps_call (by omega) (cost_lt_of_lt (by omega) hsign) fun e q h => ?_
  exact keeps_ret (Nat.lt_trans (by omega) h.lt) h.le_length

theorem keepsPlan_block (hp : p ≤ tokens.length) : KeepsPlan .block tokens p := by
  refine keeps_expect (Nat.le_refl p) hp fun hlen _ => ?_
  refine keeps_ifNext (fun _ => lands_none (Nat.le_succ p) hlen) ?_
  refine keeps_call (Nat.le_succ p) (cost_lt_of_lt (Nat.lt_succ_self p) hlen) fun s q h => ?_
  have hq : p < q := Nat.lt_of_succ_lt h.lt
  exact keeps_call_ret (Nat.le_of_lt hq) (cost_lt_of_lt hq h.le_length) fun _ => .inr hq

theorem keepsPlan_blockTail (hp : p ≤ tokens.length) (done : List Stmt) :
    KeepsPlan (.blockTail done) tokens p := by
  have hlt := Nat.lt_succ_self p
  refine keeps_ifNext (fun hlen => keeps_skip hlen ?_)
    (keeps_expect (Nat.le_refl p) hp fun hlen _ => keeps_ret hlt hlen)
  refine keeps_ifNext (fun hlen' => keeps_skip hlen' (keeps_ret (by omega) hlen')) ?_
  refine keeps_call (Nat.le_succ p) (cost_lt_of_lt hlt hlen) fun s q h => ?_
  have hq : p < q := Nat.lt_of_succ_lt h.lt
  exact keeps_call_ret (Nat.le_of_lt hq) (cost_lt_of_lt hq h.le_length) fun _ => .inr hq

theorem keeps_statementsPlan {uses : Bool} (done : List Stmt) :
    (statementsPlan done).Keeps tokens (Call.cost .program tokens p) (Lands tokens uses p) p := by
  refine keeps_call (Nat.le_refl p) (cost_lt_of_rank (by decide)) fun s q h => ?_
  have hq : p < q := h.lt
  refine keeps_ifEnd (fun _ => keeps_ret hq h.le_length) fun _ => ?_
  refine keeps_ifNext (fun hlen => keeps_skip hlen ?_) (lands_none h.le h.le_length)
  refine keeps_ifEnd (fun _ => keeps_ret (by omega) hlen) fun _ => ?_
  exact keeps_call_ret (by omega) (cost_lt_of_lt (by omega) hlen) fun _ => .inr (by omega)

/-- The plan of every call keeps to the cost of the call. -/
theorem Call.keepsPlan (c : Call) (hp : p ≤ tokens.length) : c.KeepsPlan tokens p := by
  cases c with
  | expr level => exact keepsPlan_expr level
  | chain level left => exact keepsPlan_chain hp level left
  | unary => exact keepsPlan_unary
  | primary => exact keepsPlan_primary hp
  | elements done => exact keepsPlan_elements done
  | statement => exact keepsPlan_statement
  | conditional => exact keepsPlan_conditional hp
  | definition => exact keepsPlan_definition hp
  | block => exact keepsPlan_block hp
  | blockTail done => exact keepsPlan_blockTail hp done
  | statements done => exact keeps_statementsPlan done
  | program =>
    refine keeps_ifEnd (fun hend => ⟨Nat.le_refl p, hp, fun _ huses => ?_⟩)
      fun _ => keeps_statementsPlan []
    exact absurd (of_decide_eq_true huses) (Nat.not_lt.2 hend)

end Rules

/-! ### Every call comes to an end -/

/-- A call at a position comes to an end where it may. With enough depth, the rule ends there too. -/
def Call.Settles (c : Call) (tokens : List Token) (p : Nat) : Prop :=
  ∃ read q, c.plan.Returns tokens p read q ∧ Lands tokens (c.uses tokens p) p read q ∧
    ∀ depth, c.cost tokens p ≤ depth → answer (c.run depth (tokens.drop p)) = (read, tokens.drop q)

/-- A plan that keeps to a bound comes to an end if all calls below the bound do. -/
theorem Plan.Keeps.returns {α : Type} {tokens : List Token} {bound p : Nat}
    {good : Option α → Nat → Prop} {plan : Plan α} (h : plan.Keeps tokens bound good p)
    (hp : p ≤ tokens.length)
    (ih : ∀ (c : Call) p, p ≤ tokens.length → c.cost tokens p < bound → c.Settles tokens p) :
    ∃ read q, plan.Returns tokens p read q ∧ good read q ∧
      ∀ depth, bound ≤ depth + 1 → plan.carry depth (tokens.drop p) = (read, tokens.drop q) := by
  induction plan generalizing p with
  | ret a => exact ⟨some a, p, .ret, h, fun _ _ => rfl⟩
  | fail => exact ⟨none, p, .fail, h, fun _ _ => rfl⟩
  | look next ihp =>
    obtain ⟨read, q, hreturns, hgood, hcarry⟩ := ihp _ h hp
    refine ⟨read, q, .look hreturns, hgood, fun depth hdepth => ?_⟩
    rw [carry_look, List.head?_drop]
    exact hcarry depth hdepth
  | take next ihp =>
    rw [Keeps] at h
    split at h
    · rename_i t ht
      obtain ⟨hlt, rfl⟩ := List.getElem?_eq_some_iff.1 ht
      obtain ⟨read, q, hreturns, hgood, hcarry⟩ := ihp _ _ h hlt
      refine ⟨read, q, .take ht hreturns, hgood, fun depth hdepth => ?_⟩
      rw [List.drop_eq_getElem_cons hlt]
      exact hcarry depth hdepth
    · rename_i ht
      refine ⟨none, p, .takeNone ht, h, fun depth _ => ?_⟩
      rw [List.drop_eq_nil_of_le (List.getElem?_eq_none_iff.1 ht)]
      rfl
  | call c next ihp =>
    obtain ⟨hcost, hnext⟩ := h
    obtain ⟨read, m, hreturns, hlands, hrun⟩ := ih c p hp hcost
    -- the call settles, and what follows it begins where it ends
    cases read with
    | none =>
      refine ⟨none, m, .callNone hreturns, hnext none m hlands, fun depth hdepth => ?_⟩
      rw [carry, hrun depth (by omega)]
    | some b =>
      obtain ⟨read, q, hreturns', hgood, hcarry⟩ := ihp b (hnext (some b) m hlands) hlands.le_length
      refine ⟨read, q, .call hreturns hreturns', hgood, fun depth hdepth => ?_⟩
      rw [carry, hrun depth (by omega)]
      exact hcarry depth hdepth

/-- Every call comes to an end. -/
theorem Call.settles (c : Call) {tokens : List Token} {p : Nat} (hp : p ≤ tokens.length) :
    c.Settles tokens p := by
  -- by induction on the cost, which all calls in the plan of `c` are below
  induction hn : c.cost tokens p using Nat.strongRecOn generalizing c p with
  | _ n ih =>
    subst hn
    obtain ⟨read, q, hreturns, hlands, hcarry⟩ :=
      (c.keepsPlan hp).returns hp fun c' p' hp' hlt => ih _ hlt c' hp' rfl
    refine ⟨read, q, hreturns, hlands, fun depth hdepth => ?_⟩
    obtain ⟨depth, rfl⟩ : ∃ d, depth = d + 1 :=
      ⟨depth - 1, by simp only [cost] at hdepth; have := c.rank_pos; omega⟩
    rw [c.answer_run_succ]
    exact hcarry depth hdepth

/-! ### The rules by name -/

/-- The call that a rule is, and what its result is as a part of a program. -/
def Rule.call : Rule → (c : Call) × (c.Result → Part)
  | .program => ⟨.program, .program⟩
  | .statement => ⟨.statement, .statement⟩
  | .conditional => ⟨.conditional, .statement⟩
  | .definition => ⟨.definition, .statement⟩
  | .block => ⟨.block, .statement⟩
  | .expr level => ⟨.expr level, .expr⟩
  | .unary => ⟨.unary, .expr⟩
  | .primary => ⟨.primary, .expr⟩
  | .elements => ⟨.elements [], .elements⟩

/-- The plan of a rule by its name. -/
def Rule.plan (rule : Rule) : Plan Part :=
  .call rule.call.1 fun b => .ret (rule.call.2 b)

/-- Runs a rule at a position of a token list. An error at the end of the input names the last token of the
whole list. -/
def Rule.runAt (rule : Rule) (tokens : List Token) (start : Nat) :
    Except Failure (Part × List Token) :=
  (rule.run (tokens.drop start)).mapError (Failure.nameLast tokens)

/-- Naming the last token changes nothing but the error. -/
theorem answer_nameLast {α : Type} (tokens : List Token) (x : Except Failure (α × List Token)) :
    answer (x.mapError (Failure.nameLast tokens)) = answer x := by
  cases x with
  | ok _ => rfl
  | error f =>
    obtain ⟨error, rest⟩ := f
    cases error <;> rfl

theorem Rule.run_eq (rule : Rule) (ts : List Token) :
    rule.run ts = ((rule.call.1.run (depthFor ts) ts).map fun (b, rest) =>
      (rule.call.2 b, rest)).mapError (Failure.nameLast ts) := by
  cases rule <;> rfl

/-- What a rule reads at a position is what its plan reads there. -/
theorem Rule.answer_runAt (rule : Rule) (tokens : List Token) (start : Nat) :
    answer (rule.runAt tokens start) =
      rule.plan.carry (depthFor (tokens.drop start)) (tokens.drop start) := by
  rw [runAt, answer_nameLast, run_eq, answer_nameLast, plan, Plan.carry]
  cases rule.call.1.run (depthFor (tokens.drop start)) (tokens.drop start) <;> rfl

/-- A rule comes to an end at a position, which is that of the call that it is. -/
theorem Rule.exists_returns (rule : Rule) (tokens : List Token) {start : Nat}
    (h : start ≤ tokens.length) :
    ∃ read stop, rule.plan.Returns tokens start read stop ∧
      answer (rule.runAt tokens start) = (read, tokens.drop stop) ∧
      Lands tokens (rule.call.1.uses tokens start) start read stop := by
  obtain ⟨read, stop, hreturns, hlands, hrun⟩ := rule.call.1.settles h
  -- twelve calls for each token that is left, and twelve more, are enough for every rank
  have hdepth : rule.call.1.cost tokens start ≤ depthFor (tokens.drop start) := by
    have hrank := rule.call.1.rank_le
    rw [Call.cost, depthFor, List.length_drop]
    omega
  refine ⟨read.map rule.call.2, stop, ?_, ?_, hlands.le, hlands.le_length, fun hread => ?_⟩
  · cases read with
    | none => exact .callNone hreturns
    | some b => exact .call hreturns .ret
  · rw [rule.answer_runAt, plan, Plan.carry, hrun _ hdepth]
    cases read <;> rfl
  · exact hlands.lt_of_uses (by simpa using hread)

/-- All rules but that for programs use up a token, and that one does so unless there is none. -/
theorem Rule.uses_call (rule : Rule) {tokens : List Token} {start : Nat}
    (h : start ≤ tokens.length) :
    rule.call.1.uses tokens start = true ∨ rule = .program ∧ start = tokens.length := by
  cases rule with
  | program =>
    rcases Nat.lt_or_eq_of_le h with hlt | heq
    · exact .inl (decide_eq_true hlt)
    · exact .inr ⟨rfl, heq⟩
  | _ => exact .inl rfl

/-- Every rule comes to an end at every position of every token list, with what it returns there. It ends
where it has begun or later, and not after the last token, whether it succeeds or fails. If it succeeds, it
ends later than it has begun, unless it is the rule for programs and no token is left. -/
theorem Rule.runAt_returns (rule : Rule) (tokens : List Token) {start : Nat}
    (h : start ≤ tokens.length) :
    ∃ read stop, rule.plan.Returns tokens start read stop ∧
      answer (rule.runAt tokens start) = (read, tokens.drop stop) ∧
      start ≤ stop ∧ stop ≤ tokens.length ∧
      (read.isSome → start < stop ∨ rule = .program ∧ start = tokens.length) := by
  obtain ⟨read, stop, hreturns, hanswer, hlands⟩ := rule.exists_returns tokens h
  refine ⟨read, stop, hreturns, hanswer, hlands.le, hlands.le_length, fun hread => ?_⟩
  rcases rule.uses_call h with huses | hend
  · exact .inl (hlands.lt_of_uses hread huses)
  · exact .inr hend

/-- In `[, (` the rule for the items of a list begins after the bracket and runs out of tokens in the
expression that it has begun to read. -/
theorem Rule.runAt_returns_elements :
    let tokens : List Token := [⟨.lbracket, none, ⟨1, 1⟩⟩, ⟨.comma, none, ⟨1, 2⟩⟩, ⟨.lparen, none, ⟨1, 4⟩⟩]
    1 ≤ tokens.length ∧ answer (Rule.elements.runAt tokens 1) = (none, []) ∧
      ∃ stop, Rule.elements.plan.Returns tokens 1 none stop ∧ 1 ≤ stop ∧ stop ≤ 3 ∧
        tokens.drop stop = [] := by
  intro tokens
  have hstart : 1 ≤ tokens.length := by decide
  have hanswer : answer (Rule.elements.runAt tokens 1) = (none, []) := rfl
  obtain ⟨read, stop, hreturns, hread, hle, hlen, -⟩ := Rule.elements.runAt_returns tokens hstart
  obtain ⟨rfl, hrest⟩ := Prod.mk.inj (hanswer.symm.trans hread)
  exact ⟨hstart, hanswer, stop, hreturns, hle, hlen, hrest.symm⟩

end Descent

end Abacus
