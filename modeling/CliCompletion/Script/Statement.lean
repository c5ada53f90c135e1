import CliCompletion.Script.Expression

namespace CliCompletion.Statement

open Parse Expression

def endOfLine : Parse Unit :=
  expect Token.isNewline

def statement (start : Cursor) (parts : List Node) : Parse Node := do
  return .construct .statement (← extentFrom start) parts

def continuesWith (indent : Nat) (word : String) : Parse Bool := fun c =>
  .ok (indent ≤ c.indent && (c.rest.headD noToken).isWord word, c)

def dottedName : Parse Unit := do
  expect (·.kind == .word)
  repeating () fun () => do
    if ← acceptSign "." then
      expect (·.kind == .word)
      return .inl ()
    else return .inr ()

def commaSeparated (item : Parse Unit) : Parse Unit := do
  item
  repeating () fun () => do
    if ← acceptSign "," then
      item
      return .inl ()
    else return .inr ()

def aliased (name : Parse Unit) : Parse Unit := do
  name
  if ← acceptWord "as" then expect (·.kind == .word)

def importNames : Parse Unit := do
  if ← acceptSign "*" then return
  else if ← acceptSign "(" then
    let name := aliased (expect (·.kind == .word))
    name
    repeating () fun () => do
      if ← acceptSign ")" then return .inr ()
      expectSign ","
      if ← acceptSign ")" then return .inr ()
      name
      return .inl ()
  else commaSeparated (aliased (expect (·.kind == .word)))

def importFrom : Parse Unit := do
  let dots ← repeating false fun dots => do
    if (← acceptSign ".") || (← acceptSign "...") then return .inl true
    else return .inr dots
  if !(dots && (← peek).isWord "import") then dottedName
  expectWord "import"
  importNames

def typeParameters (p : Goal → Parse Node) : Parse (List Node) := do
  if !(← acceptSign "[") then return []
  repeating [] fun parts => do
    if ← acceptSign "]" then return .inr parts.reverse
    if !(← acceptSign "*") then
      let _ ← acceptSign "**"
    expect (·.kind == .word)
    let bound ← if ← acceptSign ":" then pure [← p .expression] else pure []
    let default ← if ← acceptSign "=" then pure [← starred p] else pure []
    if !(← peek).isSign "]" then expectSign ","
    return .inl (default ++ bound ++ parts)

def typeAlias (p : Goal → Parse Node) : Parse Node := do
  let start ← get
  expectWord "type"
  expect (·.kind == .word)
  let parts ← typeParameters p
  expectSign "="
  let value ← p .expression
  statement start (parts ++ [value])

def expressions (p : Goal → Parse Node) : Parse Node :=
  bareList (starred p)

def printStatement (p : Goal → Parse Node) : Parse Node := do
  let start ← get
  expectWord "print"
  let values ← bareList (p .expression)
  statement start [values]

def execStatement (p : Goal → Parse Node) : Parse Node := do
  let start ← get
  expectWord "exec"
  let t ← peek
  let code ←
    if t.opensString then oneString p
    else if t.isIdentifier then atom .identifier
    else fail
  let scopes ← if ← acceptWord "in" then pure [← bareList (p .expression)] else pure []
  statement start (code :: scopes)

def endsStatement (t : Token) : Bool :=
  t.isNewline || t.kind == .finish || t.isSign ";"

def whole (q : Parse Node) : Parse Node := do
  let n ← q
  if endsStatement (← peek) then return n else fail

-- A name that also opens a statement is the name wherever an expression makes the whole line.
def preferringExpression (p : Goal → Parse Node) (other : Parse Node) : Parse Node := do
  if let some n ← attempt (whole (p .assigned)) then return n
  if let some n ← attempt (whole other) then return n
  p .assigned

def simple (p : Goal → Parse Node) : Parse Node := do
  beginStatement
  let start ← get
  let t ← peek
  let optional : Parse (List Node) := do
    if startsExpression (← peek) then return [← expressions p] else return []
  if t.kind != .word then p .assigned
  else match t.text with
    | "pass" | "break" | "continue" =>
        let _ ← advance
        statement start []
    | "return" =>
        let _ ← advance
        statement start (← optional)
    | "raise" =>
        let _ ← advance
        let parts ← optional
        let cause ← if ← acceptWord "from" then pure [← p .expression] else pure []
        statement start (parts ++ cause)
    | "del" =>
        let _ ← advance
        statement start [← expressions p]
    | "assert" =>
        let _ ← advance
        statement start [← expressions p]
    | "global" | "nonlocal" =>
        let _ ← advance
        commaSeparated (expect (·.kind == .word))
        statement start []
    | "import" =>
        let _ ← advance
        commaSeparated (aliased dottedName)
        statement start []
    | "from" =>
        let _ ← advance
        importFrom
        statement start []
    | "type" =>
        if (← peekSecond).isIdentifier then typeAlias p else p .assigned
    | "print" => preferringExpression p (printStatement p)
    | "exec" => preferringExpression p (execStatement p)
    | _ => p .assigned

def simpleLine (p : Goal → Parse Node) : Parse Node := do
  let start ← get
  let first ← simple p
  let parts ← repeating [first] fun parts => do
    if ← acceptSign ";" then
      if (← peek).isNewline then return .inr parts.reverse
      let n ← simple p
      return .inl (n :: parts)
    else return .inr parts.reverse
  let n ← statement start parts
  endOfLine
  return n

def suite (p : Goal → Parse Node) (indent : Nat) : Parse Node := do
  let start ← get
  let t ← peek
  match t.kind with
  | .newline inner =>
      let _ ← advance
      if inner ≤ indent then return .construct .part (← extentFrom start) []
      let parts ← repeating [] fun parts => do
        let c ← get
        if c.indent < inner || (c.rest.headD noToken).kind == .finish then
          return .inr parts.reverse
        else
          let n ← p (.statement inner)
          return .inl (n :: parts)
      return .construct .part (← extentFrom start) parts
  | _ => simpleLine p

def colonSuite (p : Goal → Parse Node) (indent : Nat) : Parse Node := do
  expectSign ":"
  p (.suite indent)

def elseSuite (p : Goal → Parse Node) (indent : Nat) : Parse (List Node) := do
  if ← continuesWith indent "else" then
    let _ ← advance
    return [← colonSuite p indent]
  else return []

def ifStatement (p : Goal → Parse Node) (indent : Nat) : Parse (List Node) := do
  let condition ← p .expression
  let body ← colonSuite p indent
  let parts ← repeating [body, condition] fun parts => do
    if ← continuesWith indent "elif" then
      let _ ← advance
      let condition ← p .expression
      let body ← colonSuite p indent
      return .inl (body :: condition :: parts)
    else return .inr parts.reverse
  return parts ++ (← elseSuite p indent)

def whileStatement (p : Goal → Parse Node) (indent : Nat) : Parse (List Node) := do
  let condition ← p .expression
  let body ← colonSuite p indent
  return [condition, body] ++ (← elseSuite p indent)

def forStatement (p : Goal → Parse Node) (indent : Nat) : Parse (List Node) := do
  let target ← targets p
  expectWord "in"
  let source ← expressions p
  let body ← colonSuite p indent
  return [target, source, body] ++ (← elseSuite p indent)

def exceptClause (p : Goal → Parse Node) (indent : Nat) : Parse (List Node) := do
  let _ ← acceptSign "*"
  let cause ← if (← peek).isSign ":" then pure [] else pure [← expressions p]
  let name ← if ← acceptWord "as" then pure [← p (.operand 5)] else pure []
  return cause ++ name ++ [← colonSuite p indent]

def tryStatement (p : Goal → Parse Node) (indent : Nat) : Parse (List Node) := do
  let body ← colonSuite p indent
  let clauses ← repeating [] fun parts => do
    if ← continuesWith indent "except" then
      let _ ← advance
      return .inl (parts ++ (← exceptClause p indent))
    else return .inr parts
  let other ← if clauses.isEmpty then pure [] else elseSuite p indent
  if ← continuesWith indent "finally" then
    let _ ← advance
    return body :: clauses ++ other ++ [← colonSuite p indent]
  else if clauses.isEmpty then fail
  else return body :: clauses ++ other

def withItem (p : Goal → Parse Node) : Parse (List Node) := do
  let value ← p .expression
  if ← acceptWord "as" then return [value, ← p (.operand 5)] else return [value]

def withItems (p : Goal → Parse Node) : Parse (List Node) := do
  let first ← withItem p
  repeating first fun parts => do
    if ← acceptSign "," then return .inl (parts ++ (← withItem p))
    else return .inr parts

def withParentheses (p : Goal → Parse Node) : Parse (List Node) := do
  expectSign "("
  let first ← withItem p
  let parts ← repeating first fun parts => do
    if ← acceptSign ")" then return .inr parts
    expectSign ","
    if ← acceptSign ")" then return .inr parts
    return .inl (parts ++ (← withItem p))
  if (← peek).isSign ":" then return parts else fail

def withStatement (p : Goal → Parse Node) (indent : Nat) : Parse (List Node) := do
  let items ← match ← attempt (withParentheses p) with
    | some items => pure items
    | none => withItems p
  return items ++ [← colonSuite p indent]

def functionDefinition (p : Goal → Parse Node) (indent : Nat) : Parse (List Node) := do
  expect (·.kind == .word)
  let types ← typeParameters p
  expectSign "("
  let parts ← parameters p ")" true
  expectSign ")"
  let result ← if ← acceptSign "->" then pure [← p .expression] else pure []
  return types ++ parts ++ result ++ [← colonSuite p indent]

def classDefinition (p : Goal → Parse Node) (indent : Nat) : Parse (List Node) := do
  expect (·.kind == .word)
  let types ← typeParameters p
  let bases ← if (← peek).isSign "(" then pure [← arguments p] else pure []
  return types ++ bases ++ [← colonSuite p indent]

def depthAfter (t : Token) (depth : Nat) : Nat :=
  if t.isSign "(" || t.isSign "[" || t.isSign "\x7b" then depth + 1
  else if t.isSign ")" || t.isSign "]" || t.isSign "\x7d" then depth - 1
  else depth

def pattern : Parse Unit := do
  if (← peek).isSign ":" then fail
  repeating 0 fun depth => do
    let t ← peek
    if depth = 0 && (t.isSign ":" || t.isWord "if") then return .inr ()
    if t.isNewline || t.kind == .finish || t.kind == .stray then fail
    let _ ← advance
    return .inl (depthAfter t depth)

def caseClause (p : Goal → Parse Node) (indent : Nat) : Parse (List Node) := do
  expectWord "case"
  pattern
  let guard ← if ← acceptWord "if" then pure [← p .expression] else pure []
  return guard ++ [← colonSuite p indent]

def matchSubject (p : Goal → Parse Node) (indent : Nat) : Parse Node := do
  expectWord "match"
  let subject ← expressions p
  expectSign ":"
  endOfLine
  let c ← get
  if indent < c.indent && (c.rest.headD noToken).isWord "case" then return subject else fail

def matchCases (p : Goal → Parse Node) : Parse (List Node) := do
  let inner := (← get).indent
  repeating [] fun parts => do
    if ← continuesWith inner "case" then return .inl (parts ++ (← caseClause p inner))
    else return .inr parts

def asyncRule (t : Token) : Option ((Goal → Parse Node) → Nat → Parse (List Node)) :=
  if t.isWord "def" then some functionDefinition
  else if t.isWord "for" then some forStatement
  else if t.isWord "with" then some withStatement
  else none

def decorated (p : Goal → Parse Node) (indent : Nat) : Parse (List Node) := do
  let decorators ← repeating [] fun parts => do
    if ← acceptSign "@" then
      let n ← p .expression
      endOfLine
      return .inl (n :: parts)
    else return .inr parts.reverse
  if ← acceptWord "class" then return decorators ++ (← classDefinition p indent)
  else
    let _ ← acceptWord "async"
    expectWord "def"
    return decorators ++ (← functionDefinition p indent)

def block (p : Goal → Parse Node) (indent : Nat) : Parse Node := do
  beginStatement
  let start ← get
  let t ← peek
  let under (rule : (Goal → Parse Node) → Nat → Parse (List Node)) : Parse Node := do
    let _ ← advance
    statement start (← rule p indent)
  if t.isSign "@" then statement start (← decorated p indent)
  else if t.kind != .word then simpleLine p
  else match t.text with
    | "if" => under ifStatement
    | "while" => under whileStatement
    | "for" => under forStatement
    | "try" => under tryStatement
    | "with" => under withStatement
    | "def" => under functionDefinition
    | "class" => under classDefinition
    | "async" =>
        match asyncRule (← peekSecond) with
        | some rule =>
            let _ ← advance
            under rule
        | none => simpleLine p
    | "match" =>
        match ← attempt (matchSubject p indent) with
        | some subject => statement start (subject :: (← matchCases p))
        | none => simpleLine p
    | _ => simpleLine p

end CliCompletion.Statement
