import CliCompletion.Script.Statement
import CliCompletion.Script.Token.Lexer

namespace CliCompletion

def Goal.rule (p : Goal → Parse Node) : Goal → Parse Node
  | .expression => Expression.expression p
  | .operand level => Expression.operand p level
  | .assigned => Expression.assigned p
  | .field => Expression.replacementField p
  | .statement indent => Statement.block p indent
  | .suite indent => Statement.suite p indent

def Goal.read : Nat → Goal → Parse Node
  | 0, _ => Parse.fail
  | n + 1, g => g.rule (Goal.read n)

structure SyntaxFault where
  text : String
  line : Nat
  deriving DecidableEq, Repr

namespace SyntaxFault

def leavesOpen : Nat → List Token → Bool
  | depth, [] => depth != 0
  | depth, t :: ts => leavesOpen (Statement.depthAfter t depth) ts

def near (text : String) (line : Nat) : SyntaxFault :=
  ⟨String.ofList (Text.trim (Text.firstLine text.toList)), line⟩

-- A statement that ends too early, or that opens a bracket and never closes it, is at fault as a
-- whole; otherwise the token is that no rule takes.
def ofFault (f : Fault) : SyntaxFault :=
  let t := f.rest.headD Parse.noToken
  if t.isNewline || t.kind == .finish || leavesOpen 0 f.statement then
    near (Token.spelling f.statement) (f.statement.headD t).line
  else near t.text t.line

end SyntaxFault

def Goal.rulesPerToken : Nat := 8

def Node.script : Parse Node := do
  let start ← get
  Statement.endOfLine
  let p := Goal.read (Goal.rulesPerToken * (start.limit + 1))
  let parts ← Parse.repeating [] fun parts => do
    if (← Parse.peek).kind == .finish then return .inr parts.reverse
    else
      let n ← p (.statement 0)
      return .inl (n :: parts)
  return .construct .part (← Parse.extentFrom start) parts

def Node.ofSource (source : List Char) : Except SyntaxFault Node :=
  let tokens := Token.ofSource source
  match Node.script ⟨tokens, 0, 0, tokens, tokens.length⟩ with
  | .ok (n, _) => .ok n
  | .error f => .error (.ofFault f)

end CliCompletion
