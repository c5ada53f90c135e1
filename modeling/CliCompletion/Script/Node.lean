namespace CliCompletion

structure Extent where
  text : String
  line : Nat
  lastLine : Nat
  deriving DecidableEq, Repr, Inhabited

inductive Atom where
  | identifier
  | integer
  | float
  | true
  | false
  | none
  | ellipsis
  deriving DecidableEq, Repr

namespace Atom

def name : Atom → String
  | identifier => "identifier"
  | integer => "integer"
  | float => "float"
  | true => "true"
  | false => "false"
  | none => "none"
  | ellipsis => "ellipsis"

end Atom

inductive Grouping where
  | list
  | tuple
  | set
  | parentheses
  | arguments
  | adjacentStrings
  deriving DecidableEq, Repr

namespace Grouping

def name : Grouping → String
  | list => "list"
  | tuple => "tuple"
  | set => "set"
  | parentheses => "parenthesized_expression"
  | arguments => "argument_list"
  | adjacentStrings => "concatenated_string"

end Grouping

inductive Construct where
  | subscript
  | await
  | binaryOperator
  | booleanOperator
  | comparisonOperator
  | notOperator
  | conditional
  | lambda
  | named
  | yield
  | dictionary
  | listComprehension
  | setComprehension
  | dictionaryComprehension
  | generator
  | listSplat
  | dictionarySplat
  | replacementField
  | part
  | statement
  deriving DecidableEq, Repr

namespace Construct

def name : Construct → String
  | subscript => "subscript"
  | await => "await"
  | binaryOperator => "binary_operator"
  | booleanOperator => "boolean_operator"
  | comparisonOperator => "comparison_operator"
  | notOperator => "not_operator"
  | conditional => "conditional_expression"
  | lambda => "lambda"
  | named => "named_expression"
  | yield => "yield"
  | dictionary => "dictionary"
  | listComprehension => "list_comprehension"
  | setComprehension => "set_comprehension"
  | dictionaryComprehension => "dictionary_comprehension"
  | generator => "generator_expression"
  | listSplat => "list_splat"
  | dictionarySplat => "dictionary_splat"
  | replacementField => "interpolation"
  | part => "part"
  | statement => "statement"

end Construct

inductive Sign where
  | minus
  | plus
  | invert
  deriving DecidableEq, Repr

inductive Node where
  | comment (x : Extent)
  | join (x : Extent)
  | atom (kind : Atom) (x : Extent)
  | string (x : Extent) (fields : List Node)
  | signed (sign : Sign) (x : Extent) (operand : Node)
  | group (kind : Grouping) (x : Extent) (items : List Node)
  | member (x : Extent) (object : Node) (name : String)
  | keyword (x : Extent) (name : String) (value : Node)
  | call (x : Extent) (function arguments : Node)
  | assignment (x : Extent) (target : Node) (typing : List Node) (value : Node)
  | construct (kind : Construct) (x : Extent) (parts : List Node)
  deriving Repr, Inhabited

namespace Node

def extent : Node → Extent
  | comment x => x
  | join x => x
  | atom _ x => x
  | string x _ => x
  | signed _ x _ => x
  | group _ x _ => x
  | member x _ _ => x
  | keyword x _ _ => x
  | call x _ _ => x
  | assignment x _ _ _ => x
  | construct _ x _ => x

def text (n : Node) : String :=
  n.extent.text

def line (n : Node) : Nat :=
  n.extent.line

def lastLine (n : Node) : Nat :=
  n.extent.lastLine

def kindName : Node → String
  | comment _ => "comment"
  | join _ => "line_continuation"
  | atom kind _ => kind.name
  | string _ _ => "string"
  | signed _ _ _ => "unary_operator"
  | group kind _ _ => kind.name
  | member _ _ _ => "attribute"
  | keyword _ _ _ => "keyword_argument"
  | call _ _ _ => "call"
  | assignment _ _ _ _ => "assignment"
  | construct kind _ _ => kind.name

def isComment : Node → Bool
  | comment _ => true
  | _ => false

def identifier? : Node → Option String
  | atom .identifier x => some x.text
  | _ => none

mutual

def preorder : Node → List Node
  | comment x => [comment x]
  | join x => [join x]
  | atom kind x => [atom kind x]
  | string x fields => string x fields :: preorderAll fields
  | signed sign x operand => signed sign x operand :: operand.preorder
  | group kind x items => group kind x items :: preorderAll items
  | member x object name => member x object name :: object.preorder
  | keyword x name value => keyword x name value :: value.preorder
  | call x function arguments =>
      call x function arguments :: (function.preorder ++ arguments.preorder)
  | assignment x target typing value =>
      assignment x target typing value ::
        (target.preorder ++ preorderAll typing ++ value.preorder)
  | construct kind x parts => construct kind x parts :: preorderAll parts

def preorderAll : List Node → List Node
  | [] => []
  | n :: ns => n.preorder ++ preorderAll ns

end

end Node

end CliCompletion
