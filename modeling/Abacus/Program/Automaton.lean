import Abacus.Program.Basic

/-!
# Reading programs one token at a time

A stack automaton reads a program. Its state is the list of constructs that are open, innermost first,
and what stands complete at the end of the text so far. The state changes with each token; a token that
fits nowhere leaves the automaton without a next state. The automaton never looks ahead, so at any time
it can be asked which tokens it could take.

Two choices are made while reading: an operator after the test of a conditional continues the test, and
a second branch belongs to the nearest conditional.

## Main definitions

* `Automaton.Frame` — an open construct
* `Automaton.State` — the statements read, the open constructs and what stands at the end
* `Automaton.step`, `Automaton.finish` — the next state, and the program read
* `Automaton.accepts` — whether a kind of token can be taken
* `Automaton.blame` — the error about a token that cannot be taken
-/

namespace Abacus.Automaton

/-- A construct that is open. -/
inductive Frame
  /-- A left operand and its operator. -/
  | operator (level : Level) (join : Expr → Expr → Expr) (left : Expr)
  /-- An operator on one operand. -/
  | unary (op : UnaryOp)
  /-- An opening round bracket. -/
  | paren
  /-- An opening square bracket and the items read so far, last first. -/
  | list (done : List Expr)
  /-- The word that begins a definition. -/
  | letWord
  /-- The beginning of a definition up to its name. -/
  | letName (x : Option Payload)
  /-- The beginning of a definition up to the sign after its name. -/
  | letValue (x : Option Payload)
  /-- The word that begins a conditional. -/
  | test
  /-- A conditional up to its test. -/
  | yes (test : Expr)
  /-- A conditional up to the word between its branches. -/
  | no (test : Expr) (yes : Stmt)
  /-- An opening brace and the statements read so far, last first. -/
  | block (done : List Stmt)

/-- What stands at the end of the text so far. -/
inductive Top
  /-- The innermost open construct goes on. -/
  | nothing
  /-- A literal, a name or an expression in brackets is complete. -/
  | operand (e : Expr)
  /-- A block is complete. -/
  | statement (s : Stmt)

/-- The state of the automaton: the statements of the program read so far, last first, the open
constructs, innermost first, and what stands at the end. -/
structure State where
  done : List Stmt
  frames : List Frame
  top : Top

/-- Nothing has been read. -/
def initial : State := ⟨[], [], .nothing⟩

/-! ### Completing expressions and statements -/

/-- How tight a level is. -/
def tightness : Level → Nat
  | .or => 0
  | .and => 1
  | .relational => 2
  | .additive => 3
  | .multiplicative => 4
  | .power => 5

/-- Completes the operators inside which `e` is the last operand and which are at least as tight as
`level`. Operators on one operand are tighter than all levels but the last. -/
def reduce (level : Level) (e : Expr) : List Frame → Expr × List Frame
  | .unary op :: frames => reduce level (.unary op e) frames
  | .operator inner join left :: frames =>
    if tightness level ≤ tightness inner then reduce level (join left e) frames
    else (e, .operator inner join left :: frames)
  | frames => (e, frames)

/-- Completes all operators inside which `e` is the last operand. -/
def reduceAll (e : Expr) (frames : List Frame) : Expr × List Frame :=
  reduce .or e frames

/-- The statement that an expression completes, if it is not inside brackets or a test. -/
def statementOf? (e : Expr) : List Frame → Option (Stmt × List Frame)
  | [] => some (.expr e, [])
  | .letValue x :: frames => some (.define x e, frames)
  | .yes test :: frames => some (.expr e, .yes test :: frames)
  | .no test yes :: frames => some (.expr e, .no test yes :: frames)
  | .block done :: frames => some (.expr e, .block done :: frames)
  | _ => none

/-- Completes the conditionals whose second branch is `s`. -/
def closeSecond (s : Stmt) : List Frame → Stmt × List Frame
  | .no test yes :: frames => closeSecond (.ifElse test yes s) frames
  | frames => (s, frames)

/-- Completes the conditionals that end in `s`. -/
def closeAll (s : Stmt) : List Frame → Stmt × List Frame
  | .no test yes :: frames => closeAll (.ifElse test yes s) frames
  | .yes test :: frames => closeAll (.ifThen test s) frames
  | frames => (s, frames)

/-- The statement that is complete at the end of the text so far. -/
def State.complete? (state : State) : Option (Stmt × List Frame) :=
  match state.top with
  | .nothing => none
  | .operand e =>
    let (e, frames) := reduceAll e state.frames
    statementOf? e frames
  | .statement s => some (s, state.frames)

/-! ### Steps -/

/-- The state after a token that begins an expression. -/
def beginExpr (state : State) (t : Token) : Option State :=
  match t.kind with
  | .integer => some { state with top := .operand (.int t.payload) }
  | .kwTrue => some { state with top := .operand (.bool true) }
  | .kwFalse => some { state with top := .operand (.bool false) }
  | .ident => some { state with top := .operand (.name t.payload) }
  | .lparen => some { state with frames := .paren :: state.frames, top := .nothing }
  | .lbracket => some { state with frames := .list [] :: state.frames, top := .nothing }
  | kind =>
    match UnaryOp.ofKind? kind with
    | some op => some { state with frames := .unary op :: state.frames, top := .nothing }
    | none => none

/-- The state after a token that begins a statement. -/
def beginStmt (state : State) (t : Token) : Option State :=
  match t.kind with
  | .kwIf => some { state with frames := .test :: state.frames, top := .nothing }
  | .kwLet => some { state with frames := .letWord :: state.frames, top := .nothing }
  | .lbrace => some { state with frames := .block [] :: state.frames, top := .nothing }
  | _ => beginExpr state t

/-- The state after a token with which the innermost open construct goes on. -/
def stepOpen (state : State) (t : Token) : Option State :=
  match state.frames with
  | [] | .yes _ :: _ | .no _ _ :: _ => beginStmt state t
  | .block done :: frames =>
    if t.kind = .rbrace then
      if done.isEmpty then none
      else some { state with frames, top := .statement (.block done.reverse) }
    else beginStmt state t
  | .list done :: frames =>
    if t.kind = .comma then some state
    else if t.kind = .rbracket then some { state with frames, top := .operand (.list done.reverse) }
    else beginExpr state t
  | .letWord :: frames =>
    if t.kind = .ident then some { state with frames := .letName t.payload :: frames } else none
  | .letName x :: frames =>
    if t.kind = .assign then some { state with frames := .letValue x :: frames } else none
  | _ => beginExpr state t

/-- The level of the operator that a token of the given kind spells between two operands, and what
it does with them. -/
def operator? (kind : Kind) : Option (Level × (Expr → Expr → Expr)) :=
  [Level.or, .and, .relational, .additive, .multiplicative, .power].findSome? fun level =>
    (level.join? kind).map (level, ·)

/-- The state after a token that follows a complete statement. -/
def stepStatement (state : State) (s : Stmt) (frames : List Frame) (t : Token) : Option State :=
  match t.kind with
  | .kwElse =>
    match closeSecond s frames with
    | (s, .yes test :: frames) => some { state with frames := .no test s :: frames, top := .nothing }
    | _ => none
  | .semicolon =>
    match closeAll s frames with
    | (s, []) => some ⟨s :: state.done, [], .nothing⟩
    | (s, .block done :: frames) =>
      some { state with frames := .block (s :: done) :: frames, top := .nothing }
    | _ => none
  | .rbrace =>
    match closeAll s frames with
    | (s, .block done :: frames) =>
      some { state with frames, top := .statement (.block (s :: done).reverse) }
    | _ => none
  | _ => none

/-- The state after a token that closes a bracket, separates items or ends the expression `e`, all
operators of which are complete. -/
def stepExpr (state : State) (e : Expr) (frames : List Frame) (t : Token) : Option State :=
  match t.kind, frames with
  | .rparen, .paren :: frames => some { state with frames, top := .operand e }
  | .rbracket, .list done :: frames =>
    some { state with frames, top := .operand (.list (e :: done).reverse) }
  | .comma, .list done :: frames =>
    some { state with frames := .list (e :: done) :: frames, top := .nothing }
  | _, .test :: frames => beginStmt { state with frames := .yes e :: frames, top := .nothing } t
  | _, frames =>
    match statementOf? e frames with
    | some (s, frames) => stepStatement state s frames t
    | none => none

/-- The state after a token; there is none if the token fits nowhere. -/
def step (state : State) (t : Token) : Option State :=
  match state.top with
  | .nothing => stepOpen state t
  | .statement s => stepStatement state s state.frames t
  | .operand e =>
    match operator? t.kind with
    | some (.power, join) =>
      some { state with frames := .operator .power join e :: state.frames, top := .nothing }
    | some (level, join) =>
      let (e, frames) := reduce level e state.frames
      some { state with frames := .operator level join e :: frames, top := .nothing }
    | none =>
      let (e, frames) := reduceAll e state.frames
      stepExpr state e frames t

/-- The program read, if the text can end here: after a whole statement, or after a semicolon that
follows one, or at the start. -/
def finish (state : State) : Option (List Stmt) :=
  match state.top, state.frames with
  | .nothing, [] => some state.done.reverse
  | .nothing, _ :: _ => none
  | _, _ =>
    match state.complete? with
    | none => none
    | some (s, frames) =>
      match closeAll s frames with
      | (s, []) => some (s :: state.done).reverse
      | _ => none

/-! ### What can be taken -/

/-- Whether a token of the given kind can be taken; what it carries does not matter. -/
def accepts (state : State) (kind : Kind) : Bool :=
  (step state { kind }).isSome

/-- Whether the text can end. -/
def acceptsEnd (state : State) : Bool :=
  (finish state).isSome

/-- The error about a token that cannot be taken. If one closing bracket can stand there it is
expected, and so is a token that alone can stand there; after a complete statement the token is left
over; otherwise it is unexpected. -/
def blame (state : State) (found : Token) : ParseError :=
  match [Kind.rparen, .rbracket, .rbrace].filter (accepts state) with
  | [kind] => .expected kind found
  | _ =>
    match Kind.all.filter (accepts state), acceptsEnd state with
    | [kind], false => .expected kind found
    | _, canEnd =>
      if canEnd && accepts state .semicolon then .leftover found else .unexpected found

end Abacus.Automaton
