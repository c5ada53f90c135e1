import CliCompletion.Script.Token

namespace CliCompletion

structure Cursor where
  rest : List Token
  taken : Nat
  indent : Nat
  statement : List Token
  limit : Nat
  deriving Repr

structure Fault where
  statement : List Token
  rest : List Token
  deriving Repr

abbrev Parse := StateT Cursor (Except Fault)

namespace Parse

def fail {α : Type} : Parse α := fun c => .error ⟨c.statement, c.rest⟩

def noToken : Token :=
  ⟨.finish, "", "", 0, 0, []⟩

def peek : Parse Token := fun c => .ok (c.rest.headD noToken, c)

def peekSecond : Parse Token := fun c => .ok (c.rest.tail.headD noToken, c)

def advance : Parse Token := fun c =>
  match c.rest with
  | [] => .error ⟨c.statement, c.rest⟩
  | t :: rest =>
      let indent := match t.kind with
        | .newline n => n
        | _ => c.indent
      .ok (t, { c with rest := rest, taken := c.taken + 1, indent := indent })

def accept (test : Token → Bool) : Parse Bool := do
  if test (← peek) then
    let _ ← advance
    return true
  else return false

def expect (test : Token → Bool) : Parse Unit := do
  if !(← accept test) then fail

def acceptSign (s : String) : Parse Bool :=
  accept (·.isSign s)

def expectSign (s : String) : Parse Unit :=
  expect (·.isSign s)

def acceptWord (s : String) : Parse Bool :=
  accept (·.isWord s)

def expectWord (s : String) : Parse Unit :=
  expect (·.isWord s)

def leading : Parse (List Node) := do
  let t ← peek
  return if t.opensString then t.trivia.filter Node.isComment else t.trivia

def extentFrom (start : Cursor) : Parse Extent := fun c =>
  .ok (Token.extent (start.rest.take (c.taken - start.taken)), c)

def attempt {α : Type} (q : Parse α) : Parse (Option α) := fun c =>
  match q c with
  | .ok (a, c) => .ok (some a, c)
  | .error _ => .ok (none, c)

def iterate {α β : Type} (step : α → Parse (α ⊕ β)) : Nat → α → Parse β
  | 0, _ => fail
  | n + 1, a => do
      match ← step a with
      | .inl a => iterate step n a
      | .inr b => return b

def repeating {α β : Type} (start : α) (step : α → Parse (α ⊕ β)) : Parse β := fun c =>
  iterate step (c.limit + 1) start c

def beginStatement : Parse Unit := fun c => .ok ((), { c with statement := c.rest })

end Parse

end CliCompletion
