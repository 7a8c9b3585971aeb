import Abacus.Program.Basic

/-!
# Reading programs by recursive descent

There is one rule for each construct. A rule takes the tokens that are left, and returns what it has
read with the tokens after it, or an error with the tokens that were left when it gave up. A rule
looks at one token ahead and never goes back.

Rules call each other on the way down from loose to tight operators without using up a token, at
most eleven times in a row. The first argument of a rule bounds the depth of such calls;
`Descent.depthFor` is enough for every token list.

## Main definitions

* `Descent.expr`, `Descent.unary`, `Descent.primary`, `Descent.elements` — rules for expressions
* `Descent.statement`, `Descent.conditional`, `Descent.definition`, `Descent.block`,
  `Descent.program` — rules for statements
* `Descent.Rule`, `Descent.Rule.run` — a rule chosen by name, on a whole token list
* `parse` — the program that a token list spells
-/

namespace Abacus

namespace Descent

/-- An error with the tokens that were left. Rules do not know the last token of the whole list, so
an error at the end of the input does not name it yet. -/
structure Failure where
  error : ParseError
  rest : List Token

/-- The failure of a rule that runs out of tokens. -/
def atEnd (rest : List Token) : Failure := ⟨.endOfInput none, rest⟩

/-- Whether the next token is of the given kind. -/
def next (kind : Kind) : List Token → Bool
  | [] => false
  | t :: _ => t.kind = kind

/-- Takes a token of the given kind. A token of another kind is left where it is. -/
def expect (kind : Kind) : List Token → Except Failure (Token × List Token)
  | [] => .error (atEnd [])
  | t :: ts => if t.kind = kind then .ok (t, ts) else .error ⟨.expected kind t, t :: ts⟩

mutual

/-- An expression with operators of a level and of the tighter ones. -/
def expr : Nat → Level → List Token → Except Failure (Expr × List Token)
  | 0, _, ts => .error (atEnd ts)
  | depth + 1, .power, ts => do
    let (base, rest) ← unary depth ts
    if next .caret rest then
      let (exponent, rest) ← expr depth .power (rest.drop 1)
      return (.binary .pow base exponent, rest)
    else return (base, rest)
  | depth + 1, level, ts => do
    let (left, rest) ← expr depth level.tighter ts
    chain depth level left rest

/-- The operators of a level that follow a left operand, grouped to the left. -/
def chain : Nat → Level → Expr → List Token → Except Failure (Expr × List Token)
  | 0, _, _, ts => .error (atEnd ts)
  | _ + 1, _, left, [] => .ok (left, [])
  | depth + 1, level, left, t :: ts =>
    match level.join? t.kind with
    | none => .ok (left, t :: ts)
    | some join => do
      let (right, rest) ← expr depth level.tighter ts
      chain depth level (join left right) rest

/-- An operator on one operand, whose operand may be a power, or a primary expression. -/
def unary : Nat → List Token → Except Failure (Expr × List Token)
  | 0, ts => .error (atEnd ts)
  | depth + 1, ts =>
    match ts.head?.bind fun t => UnaryOp.ofKind? t.kind with
    | some op => do
      let (operand, rest) ← expr depth .power (ts.drop 1)
      return (.unary op operand, rest)
    | none => primary depth ts

/-- A literal, a name, or an expression in brackets. The first token is used up even if no
expression begins with it. -/
def primary : Nat → List Token → Except Failure (Expr × List Token)
  | 0, ts => .error (atEnd ts)
  | _ + 1, [] => .error (atEnd [])
  | depth + 1, t :: ts =>
    match t.kind with
    | .integer => .ok (.int t.payload, ts)
    | .kwTrue => .ok (.bool true, ts)
    | .kwFalse => .ok (.bool false, ts)
    | .ident => .ok (.name t.payload, ts)
    | .lparen => do
      let (e, rest) ← expr depth .or ts
      let (_, rest) ← expect .rparen rest
      return (e, rest)
    | .lbracket => do
      let (items, rest) ← elements depth [] ts
      return (.list items, rest)
    | _ => .error ⟨.unexpected t, ts⟩

/-- The items of a list up to its closing bracket; `done` holds those already read, last first.
Any number of commas may stand before, between and after the items. -/
def elements : Nat → List Expr → List Token → Except Failure (List Expr × List Token)
  | 0, _, ts => .error (atEnd ts)
  | depth + 1, done, ts =>
    if next .comma ts then elements depth done (ts.drop 1)
    else if next .rbracket ts then .ok (done.reverse, ts.drop 1)
    else do
      let (e, rest) ← expr depth .or ts
      if next .comma rest then elements depth (e :: done) (rest.drop 1)
      else
        let (_, rest) ← expect .rbracket rest
        return ((e :: done).reverse, rest)

end

mutual

/-- A statement, told apart by its first token. -/
def statement : Nat → List Token → Except Failure (Stmt × List Token)
  | 0, ts => .error (atEnd ts)
  | depth + 1, ts =>
    if next .kwIf ts then conditional depth ts
    else if next .kwLet ts then definition depth ts
    else if next .lbrace ts then block depth ts
    else do
      let (e, rest) ← expr depth .or ts
      return (.expr e, rest)

/-- A test with one or two branches; a second branch belongs to the nearest test. -/
def conditional : Nat → List Token → Except Failure (Stmt × List Token)
  | 0, ts => .error (atEnd ts)
  | depth + 1, ts => do
    let (_, rest) ← expect .kwIf ts
    let (test, rest) ← expr depth .or rest
    let (yes, rest) ← statement depth rest
    if next .kwElse rest then
      let (no, rest) ← statement depth (rest.drop 1)
      return (.ifElse test yes no, rest)
    else return (.ifThen test yes, rest)

/-- The definition of a name. -/
def definition : Nat → List Token → Except Failure (Stmt × List Token)
  | 0, ts => .error (atEnd ts)
  | depth + 1, ts => do
    let (_, rest) ← expect .kwLet ts
    let (name, rest) ← expect .ident rest
    let (_, rest) ← expect .assign rest
    let (e, rest) ← expr depth .or rest
    return (.define name.payload e, rest)

/-- One or more statements in braces. -/
def block : Nat → List Token → Except Failure (Stmt × List Token)
  | 0, ts => .error (atEnd ts)
  | depth + 1, ts => do
    let (brace, rest) ← expect .lbrace ts
    if next .rbrace rest then .error ⟨.emptyBlock brace, rest⟩
    else
      let (s, rest) ← statement depth rest
      blockTail depth [s] rest

/-- The rest of a block after a statement; `done` holds the statements read so far, last first. -/
def blockTail : Nat → List Stmt → List Token → Except Failure (Stmt × List Token)
  | 0, _, ts => .error (atEnd ts)
  | depth + 1, done, ts =>
    if next .semicolon ts && !next .rbrace (ts.drop 1) then do
      let (s, rest) ← statement depth (ts.drop 1)
      blockTail depth (s :: done) rest
    else do
      let (_, rest) ← expect .rbrace (if next .semicolon ts then ts.drop 1 else ts)
      return (.block done.reverse, rest)

end

/-- The statements of a program after those in `done`, the last of which comes first. One semicolon
may follow the last statement. -/
def statements : Nat → List Stmt → List Token → Except Failure (List Stmt × List Token)
  | 0, _, ts => .error (atEnd ts)
  | depth + 1, done, ts => do
    let (s, rest) ← statement depth ts
    match rest with
    | [] => return ((s :: done).reverse, [])
    | t :: ts =>
      if t.kind = .semicolon then
        if ts.isEmpty then return ((s :: done).reverse, []) else statements depth (s :: done) ts
      else .error ⟨.leftover t, rest⟩

/-- A whole program; no tokens are the empty program. -/
def program (depth : Nat) (ts : List Token) : Except Failure (List Stmt × List Token) :=
  if ts.isEmpty then .ok ([], []) else statements depth [] ts

/-- A depth of calls that is enough to read the tokens. -/
def depthFor (ts : List Token) : Nat :=
  12 * (ts.length + 1)

/-- The rules, by name. -/
inductive Rule
  | program
  | statement
  | conditional
  | definition
  | block
  | expr (level : Level)
  | unary
  | primary
  | elements

/-- What a rule reads. -/
inductive Part
  | program (body : List Stmt)
  | statement (s : Stmt)
  | expr (e : Expr)
  | elements (items : List Expr)

/-- Names the last token of the whole list in an error at the end of the input. -/
def Failure.nameLast (tokens : List Token) (f : Failure) : Failure :=
  match f.error with
  | .endOfInput _ => ⟨.endOfInput tokens.getLast?, f.rest⟩
  | _ => f

/-- Runs a rule at the front of a token list. -/
def Rule.run (rule : Rule) (tokens : List Token) : Except Failure (Part × List Token) :=
  let depth := depthFor tokens
  let result : Except Failure (Part × List Token) := match rule with
    | .program => (Descent.program depth tokens).map fun (body, rest) => (.program body, rest)
    | .statement => (Descent.statement depth tokens).map fun (s, rest) => (.statement s, rest)
    | .conditional => (Descent.conditional depth tokens).map fun (s, rest) => (.statement s, rest)
    | .definition => (Descent.definition depth tokens).map fun (s, rest) => (.statement s, rest)
    | .block => (Descent.block depth tokens).map fun (s, rest) => (.statement s, rest)
    | .expr level => (Descent.expr depth level tokens).map fun (e, rest) => (.expr e, rest)
    | .unary => (Descent.unary depth tokens).map fun (e, rest) => (.expr e, rest)
    | .primary => (Descent.primary depth tokens).map fun (e, rest) => (.expr e, rest)
    | .elements => (Descent.elements depth [] tokens).map fun (es, rest) => (.elements es, rest)
  result.mapError (Failure.nameLast tokens)

end Descent

/-- The program that a token list spells. -/
def parse (tokens : List Token) : Except ParseError (List Stmt) :=
  match Descent.program (Descent.depthFor tokens) tokens with
  | .ok (body, _) => .ok body
  | .error failure => .error (failure.nameLast tokens).error

end Abacus
