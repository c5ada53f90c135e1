import CliCompletion.Script.Cursor

namespace CliCompletion

inductive Goal where
  | expression
  | operand (level : Nat)
  | assigned
  | field
  | statement (indent : Nat)
  | suite (indent : Nat)
  deriving DecidableEq, Repr

namespace Expression

open Parse

def constants : List String :=
  ["False", "None", "True"]

def leadingWords : List String :=
  constants ++ ["lambda", "not"]

def startsOperand (t : Token) : Bool :=
  match t.kind with
  | .word => t.isIdentifier || constants.contains t.text
  | .integer | .float | .string | .stringOpen => true
  | .sign => ["(", "[", "\x7b", "-", "+", "~", "..."].contains t.text
  | _ => false

def startsExpression (t : Token) : Bool :=
  startsOperand t || t.isWord "lambda" || t.isWord "not" || t.isSign "*"

mutual

def isTarget : Node → Bool
  | .atom .identifier _ => true
  | .member _ _ _ => true
  | .construct .subscript _ _ => true
  | .construct .listSplat _ parts => areTargets parts
  | .construct .part _ parts => areTargets parts
  | .group .list _ items => areTargets items
  | .group .tuple _ items => areTargets items
  | .group .parentheses _ items => areTargets items
  | .comment _ => true
  | .join _ => true
  | _ => false

def areTargets : List Node → Bool
  | [] => true
  | n :: ns => isTarget n && areTargets ns

end

def atom (kind : Atom) : Parse Node := do
  let start ← get
  let _ ← advance
  return .atom kind (← extentFrom start)

def starred (p : Goal → Parse Node) : Parse Node := do
  let start ← get
  if ← acceptSign "*" then
    let n ← p (.operand 5)
    return .construct .listSplat (← extentFrom start) [n]
  else p .expression

def bareList (item : Parse Node) : Parse Node := do
  let start ← get
  let first ← item
  if (← peek).isSign "," then
    let items ← repeating [first] fun items => do
      if ← acceptSign "," then
        if startsExpression (← peek) then
          let n ← item
          return .inl (n :: items)
        else return .inl items
      else return .inr items.reverse
    return .construct .part (← extentFrom start) items
  else return first

def targets (p : Goal → Parse Node) : Parse Node := do
  let n ← bareList (do
    let start ← get
    if ← acceptSign "*" then
      let n ← p (.operand 5)
      return .construct .listSplat (← extentFrom start) [n]
    else p (.operand 5))
  if isTarget n then return n else fail

def yielding (p : Goal → Parse Node) : Parse Node := do
  let start ← get
  expectWord "yield"
  if ← acceptWord "from" then
    let n ← p .expression
    return .construct .yield (← extentFrom start) [n]
  else if startsExpression (← peek) then
    let n ← bareList (starred p)
    return .construct .yield (← extentFrom start) [n]
  else return .construct .yield (← extentFrom start) []

def clauses (p : Goal → Parse Node) : Parse (List Node) :=
  repeating [] fun parts => do
    if ← acceptWord "if" then
      let n ← p (.operand 1)
      return .inl (n :: parts)
    else if (← peek).isWord "for" || (← peek).isWord "async" then
      let _ ← acceptWord "async"
      expectWord "for"
      let target ← targets p
      expectWord "in"
      let source ← p (.operand 1)
      return .inl (source :: target :: parts)
    else return .inr parts.reverse

def atClause : Parse Bool := do
  let t ← peek
  return t.isWord "for" || t.isWord "async"

def itemsThrough (close : String) (item : Parse Node) (first : List Node) :
    Parse (List Node × Bool) :=
  repeating (first.reverse, false) fun (items, comma) => do
    let items := (← leading).reverse ++ items
    if ← acceptSign close then return .inr (items.reverse, comma)
    expectSign ","
    let items := (← leading).reverse ++ items
    if ← acceptSign close then return .inr (items.reverse, true)
    let n ← item
    return .inl (n :: items, true)

def brackets (p : Goal → Parse Node) : Parse Node := do
  let start ← get
  expectSign "["
  let before ← leading
  if ← acceptSign "]" then return .group .list (← extentFrom start) before
  let item : Parse Node := do
    if (← peek).isWord "yield" then yielding p else starred p
  let first ← item
  if ← atClause then
    let parts ← clauses p
    expectSign "]"
    return .construct .listComprehension (← extentFrom start) (first :: parts)
  let (items, _) ← itemsThrough "]" item (before ++ [first])
  return .group .list (← extentFrom start) items

def parentheses (p : Goal → Parse Node) : Parse Node := do
  let start ← get
  expectSign "("
  let before ← leading
  if ← acceptSign ")" then return .group .tuple (← extentFrom start) before
  let item : Parse Node := do
    if (← peek).isWord "yield" then yielding p else starred p
  let first ← item
  if ← atClause then
    let parts ← clauses p
    expectSign ")"
    return .construct .generator (← extentFrom start) (first :: parts)
  let (items, comma) ← itemsThrough ")" item (before ++ [first])
  return .group (if comma then .tuple else .parentheses) (← extentFrom start) items

def entry (p : Goal → Parse Node) : Parse (Node × Bool) := do
  let start ← get
  if ← acceptSign "**" then
    let n ← p (.operand 5)
    return (.construct .dictionarySplat (← extentFrom start) [n], true)
  let n ← starred p
  if ← acceptSign ":" then
    let value ← p .expression
    return (.construct .part (← extentFrom start) [n, value], true)
  else return (n, false)

def braces (p : Goal → Parse Node) : Parse Node := do
  let start ← get
  expectSign "\x7b"
  let before ← leading
  if ← acceptSign "\x7d" then return .construct .dictionary (← extentFrom start) []
  let (first, isEntry) ← entry p
  if ← atClause then
    let parts ← clauses p
    expectSign "\x7d"
    let kind : Construct := if isEntry then .dictionaryComprehension else .setComprehension
    return .construct kind (← extentFrom start) (first :: parts)
  let item : Parse Node := do
    let (n, again) ← entry p
    if again == isEntry then return n else fail
  let (items, _) ← itemsThrough "\x7d" item (before ++ [first])
  let x ← extentFrom start
  return if isEntry then .construct .dictionary x items else .group .set x items

def argument (p : Goal → Parse Node) : Parse Node := do
  let start ← get
  let t ← peek
  if t.isSign "*" then
    let _ ← advance
    let n ← p .expression
    return .construct .listSplat (← extentFrom start) [n]
  else if t.isSign "**" then
    let _ ← advance
    let n ← p .expression
    return .construct .dictionarySplat (← extentFrom start) [n]
  else if t.kind == .word && !leadingWords.contains t.text && (← peekSecond).isSign "=" then
    let _ ← advance
    let _ ← advance
    let value ← p .expression
    return .keyword (← extentFrom start) t.text value
  else p .expression

def isMarked : Node → Bool
  | .keyword _ _ _ => true
  | .construct .listSplat _ _ => true
  | .construct .dictionarySplat _ _ => true
  | _ => false

def arguments (p : Goal → Parse Node) : Parse Node := do
  let start ← get
  expectSign "("
  let before ← leading
  if ← acceptSign ")" then return .group .arguments (← extentFrom start) before
  let first ← argument p
  if (← atClause) && !isMarked first then
    let parts ← clauses p
    expectSign ")"
    return .construct .generator (← extentFrom start) (first :: parts)
  let (items, _) ← itemsThrough ")" (argument p) (before ++ [first])
  return .group .arguments (← extentFrom start) items

def index (p : Goal → Parse Node) : Parse Node := do
  let start ← get
  let bound : Parse (List Node) := do
    let t ← peek
    if t.isSign ":" || t.isSign "," || t.isSign "]" then return []
    else return [← starred p]
  let low ← bound
  if ← acceptSign ":" then
    let high ← bound
    let step ← if ← acceptSign ":" then bound else pure []
    return .construct .part (← extentFrom start) (low ++ high ++ step)
  else match low with
    | [n] => return n
    | _ => fail

def subscripts (p : Goal → Parse Node) : Parse (List Node) := do
  expectSign "["
  let first ← index p
  let (items, _) ← itemsThrough "]" (index p) [first]
  return items

def fields (p : Goal → Parse Node) : Parse (List Node) :=
  repeating [] fun fields => do
    let t ← peek
    if t.kind == .stringPiece then
      let _ ← advance
      return .inl fields
    else if t.isSign "\x7b" then
      let n ← p .field
      return .inl (n :: fields)
    else return .inr fields.reverse

def replacementField (p : Goal → Parse Node) : Parse Node := do
  let start ← get
  expectSign "\x7b"
  let value ← if (← peek).isWord "yield" then yielding p else bareList (starred p)
  let _ ← acceptSign "="
  if ← acceptSign "!" then expect (·.kind == .word)
  let inner ← if ← acceptSign ":" then fields p else pure []
  expectSign "\x7d"
  return .construct .replacementField (← extentFrom start) (value :: inner)

def oneString (p : Goal → Parse Node) : Parse Node := do
  let start ← get
  let t ← advance
  if t.kind == .string then return .string (← extentFrom start) []
  else
    let parts ← fields p
    expect (·.kind == .stringClose)
    return .string (← extentFrom start) parts

def strings (p : Goal → Parse Node) : Parse Node := do
  let start ← get
  let first ← oneString p
  if (← peek).opensString then
    let items ← repeating [first] fun items => do
      if (← peek).opensString then
        let items := (← leading).reverse ++ items
        let n ← oneString p
        return .inl (n :: items)
      else return .inr items.reverse
    return .group .adjacentStrings (← extentFrom start) items
  else return first

def simplest (p : Goal → Parse Node) : Parse Node := do
  let t ← peek
  match t.kind with
  | .word =>
      if t.text == "True" then atom .true
      else if t.text == "False" then atom .false
      else if t.text == "None" then atom .none
      else if leadingWords.contains t.text then fail
      else atom .identifier
  | .integer => atom .integer
  | .float => atom .float
  | .string | .stringOpen => strings p
  | .sign =>
      if t.text == "(" then parentheses p
      else if t.text == "[" then brackets p
      else if t.text == "\x7b" then braces p
      else if t.text == "..." then atom .ellipsis
      else fail
  | _ => fail

def primary (p : Goal → Parse Node) : Parse Node := do
  let start ← get
  let n ← simplest p
  repeating n fun n => do
    let t ← peek
    if t.isSign "." then
      let _ ← advance
      let name ← advance
      if name.kind != .word then fail
      return .inl (.member (← extentFrom start) n name.text)
    else if t.isSign "(" then
      let args ← arguments p
      return .inl (.call (← extentFrom start) n args)
    else if t.isSign "[" then
      let items ← subscripts p
      return .inl (.construct .subscript (← extentFrom start) (n :: items))
    else return .inr n

def binaryLevel (t : Token) : Option Nat :=
  match t.kind with
  | .word =>
      if t.text == "or" then some 1
      else if t.text == "and" then some 2
      else if t.text == "in" || t.text == "is" || t.text == "not" then some 4
      else none
  | .sign =>
      if ["<", ">", "==", "!=", "<=", ">=", "<>"].contains t.text then some 4
      else if t.text == "|" then some 5
      else if t.text == "^" then some 6
      else if t.text == "&" then some 7
      else if t.text == "<<" || t.text == ">>" then some 8
      else if t.text == "+" || t.text == "-" then some 9
      else if ["*", "/", "//", "%", "@"].contains t.text then some 10
      else if t.text == "**" then some 12
      else none
  | _ => none

def binaryKind (level : Nat) : Construct :=
  if level ≤ 2 then .booleanOperator else if level = 4 then .comparisonOperator else .binaryOperator

def operator : Parse Unit := do
  let t ← advance
  if t.isWord "not" then expectWord "in"
  else if t.isWord "is" then
    let _ ← acceptWord "not"

def rightLevel (level : Nat) : Nat :=
  if level = 12 then 11 else level + 1

def sign? (t : Token) : Option Sign :=
  if t.isSign "-" then some .minus
  else if t.isSign "+" then some .plus
  else if t.isSign "~" then some .invert
  else none

def leftOperand (p : Goal → Parse Node) (level : Nat) : Parse Node := do
  let start ← get
  let t ← peek
  if t.isWord "not" then
    if 3 < level then fail
    let _ ← advance
    let n ← p (.operand 3)
    return .construct .notOperator (← extentFrom start) [n]
  else if t.isWord "await" && startsOperand (← peekSecond) then
    let _ ← advance
    let n ← p (.operand 11)
    return .construct .await (← extentFrom start) [n]
  else match sign? t with
    | some s =>
        let _ ← advance
        let n ← p (.operand 11)
        return .signed s (← extentFrom start) n
    | none => primary p

def operand (p : Goal → Parse Node) (level : Nat) : Parse Node := do
  let start ← get
  let left ← leftOperand p level
  repeating left fun left => do
    match binaryLevel (← peek) with
    | none => return .inr left
    | some found =>
        if found < level then return .inr left
        else
          operator
          let right ← p (.operand (rightLevel found))
          let x ← extentFrom start
          let parts := match found, left with
            | 4, .construct .comparisonOperator _ parts => parts ++ [right]
            | _, _ => [left, right]
          return .inl (.construct (binaryKind found) x parts)

def optionalAfter (sign : String) (part : Parse Node) : Parse (List Node) := do
  if ← acceptSign sign then return [← part] else return []

def parameter (p : Goal → Parse Node) (annotated : Bool) : Parse (List Node) := do
  let t ← peek
  if t.isSign "/" then
    let _ ← advance
    return []
  if t.isSign "(" then
    let pattern ← parentheses p
    if !isTarget pattern then fail
    return pattern :: (← optionalAfter "=" (p .expression))
  if t.isSign "*" then
    let _ ← advance
    if !(← accept (·.isIdentifier)) then return []
  else
    let _ ← acceptSign "**"
    expect (·.isIdentifier)
  let typing ← if annotated then optionalAfter ":" (starred p) else pure []
  return typing ++ (← optionalAfter "=" (p .expression))

def parameters (p : Goal → Parse Node) (close : String) (annotated : Bool) : Parse (List Node) :=
  repeating [] fun parts => do
    if (← peek).isSign close then return .inr parts
    let found ← parameter p annotated
    if !(← peek).isSign close then expectSign ","
    return .inl (parts ++ found)

def lambda (p : Goal → Parse Node) : Parse Node := do
  let start ← get
  expectWord "lambda"
  let parts ← parameters p ":" false
  expectSign ":"
  let body ← p .expression
  return .construct .lambda (← extentFrom start) (parts ++ [body])

def expression (p : Goal → Parse Node) : Parse Node := do
  let start ← get
  if (← peek).isWord "lambda" then lambda p
  else
    let n ← operand p 1
    let t ← peek
    if t.isWord "if" then
      let _ ← advance
      let condition ← p (.operand 1)
      expectWord "else"
      let other ← p .expression
      return .construct .conditional (← extentFrom start) [n, condition, other]
    else if t.isSign ":=" && n.identifier?.isSome then
      let _ ← advance
      let value ← p .expression
      return .construct .named (← extentFrom start) [n, value]
    else return n

def assignable (p : Goal → Parse Node) : Parse Node := do
  if (← peek).isWord "yield" then yielding p else bareList (starred p)

def augmentedSigns : List String :=
  ["+=", "-=", "*=", "/=", "//=", "%=", "@=", "**=", ">>=", "<<=", "&=", "|=", "^="]

def assigned (p : Goal → Parse Node) : Parse Node := do
  let start ← get
  let n ← assignable p
  let t ← peek
  if t.isSign "=" then
    if !isTarget n then fail
    let _ ← advance
    let value ← p .assigned
    return .assignment (← extentFrom start) n [] value
  else if t.isSign ":" && isTarget n then
    let _ ← advance
    let typing ← starred p
    if ← acceptSign "=" then
      let value ← p .assigned
      return .assignment (← extentFrom start) n [typing] value
    else return .construct .statement (← extentFrom start) [n, typing]
  else if t.kind == .sign && augmentedSigns.contains t.text && isTarget n then
    let _ ← advance
    let value ← p .assigned
    return .construct .statement (← extentFrom start) [n, value]
  else return n

end Expression

end CliCompletion
