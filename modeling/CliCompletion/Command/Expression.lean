import CliCompletion.Command.Tree
import CliCompletion.Literal.Evaluation

namespace CliCompletion

structure ExtractionOptions where
  marker : String
  ignored : List String
  deriving DecidableEq, Repr

namespace ExtractionOptions

def defaultMarker : String := "bashcompletils"

def ignores (o : ExtractionOptions) (keyword : String) : Bool :=
  o.ignored.contains keyword

end ExtractionOptions

mutual

inductive CommandExpr where
  | handle (name : String) (line : Nat)
  | added (group : GroupExpr) (name : Except ExtractionError String) (targets : List String)
      (parents : List CommandExpr) (line : Nat)
  | grouped (owner : CommandExpr)
  | refused (error : ExtractionError)

inductive GroupExpr where
  | handle (name : String) (line : Nat)
  | opened (owner : CommandExpr)
  | refused (error : ExtractionError)

end

structure Declaration where
  literals : List Literal
  options : OrderedMap String Literal
  deriving Repr

inductive Step where
  | parser (targets : List String) (parents : List CommandExpr) (line : Nat)
  | subparsers (targets : List String) (owner : CommandExpr)
  | argumentGroup (targets : List String) (owner : CommandExpr)
  | command (e : CommandExpr)
  | argument (owner : CommandExpr) (content : Except ExtractionError Declaration) (lastLine : Nat)

structure Call where
  targets : List String
  extent : Extent
  function : Node
  arguments : Node
  deriving Repr

namespace Vocabulary

def parserClass : String := "ArgumentParser"
def addSubparsers : String := "add_subparsers"
def addParser : String := "add_parser"
def addArgument : String := "add_argument"
def argumentGroups : List String := ["add_argument_group", "add_mutually_exclusive_group"]
def parents : String := "parents"
def addParserCall : String := "add_parser call"
def addArgumentCall : String := "add_argument call"
def parentsKeyword : String := "parents keyword"
def parserReceiver : String := "parser receiver"
def addParserReceiver : String := "add_parser receiver"

end Vocabulary

namespace Node

open Vocabulary

def argumentItems (arguments : Node) (context : String) : Except ExtractionError (List Node) :=
  match arguments with
  | .group .arguments _ items => .ok items
  | n => .error (n.unsupported context)

def positionals (context : String) : List Node → Except ExtractionError (List Literal)
  | [] => .ok []
  | .keyword _ _ _ :: ns => positionals context ns
  | n :: ns =>
      if n.isComment then positionals context ns
      else do
        let value ← n.scalar context
        let rest ← positionals context ns
        return value :: rest

def declared (o : ExtractionOptions) (context : String) (d : Declaration) :
    List Node → Except ExtractionError Declaration
  | [] => .ok d
  | .keyword _ name value :: ns =>
      if o.ignores name then declared o context d ns
      else do
        let l ← value.value context
        declared o context { d with options := d.options.insert name l } ns
  | n :: ns =>
      if n.isComment then declared o context d ns
      else do
        let l ← n.scalar context
        declared o context { d with literals := d.literals ++ [l] } ns

def nameOf (literals : List Literal) (call : String) (line : Nat) :
    Except ExtractionError String :=
  match literals with
  | .text s :: _ => .ok s
  | _ :: _ => .error (.nameNotText call line)
  | [] => .error (.missingName call line)

def subcommandName (arguments : Node) (line : Nat) : Except ExtractionError String := do
  let items ← arguments.argumentItems addParserCall
  let literals ← positionals addParserCall items
  nameOf literals addParser line

def declaration (o : ExtractionOptions) (arguments : Node) (line : Nat) :
    Except ExtractionError Declaration := do
  let items ← arguments.argumentItems addArgumentCall
  let d ← declared o addArgumentCall ⟨[], .empty⟩ items
  let _ ← nameOf d.literals addArgument line
  return d

mutual

def commandExpr (o : ExtractionOptions) : Node → CommandExpr
  | .atom .identifier x => .handle x.text x.line
  | .call x (.member y object name) arguments =>
      if name = addParser then
        .added (groupExpr o object) (subcommandName arguments x.line) []
          (if o.ignores parents then [] else parentExprs o arguments) x.line
      else if argumentGroups.contains name then .grouped (commandExpr o object)
      else .refused ((Node.call x (.member y object name) arguments).unsupported parserReceiver)
  | n => .refused (n.unsupported parserReceiver)

def groupExpr (o : ExtractionOptions) : Node → GroupExpr
  | .atom .identifier x => .handle x.text x.line
  | .call x (.member y object name) arguments =>
      if name = addSubparsers then .opened (commandExpr o object)
      else .refused ((Node.call x (.member y object name) arguments).unsupported addParserReceiver)
  | n => .refused (n.unsupported addParserReceiver)

def parentExprs (o : ExtractionOptions) : Node → List CommandExpr
  | .group _ _ items => parentsAmong o items
  | _ => []

def parentsAmong (o : ExtractionOptions) : List Node → List CommandExpr
  | [] => []
  | .keyword _ name value :: ns => if name = parents then parentList o value else parentsAmong o ns
  | _ :: ns => parentsAmong o ns

def parentList (o : ExtractionOptions) : Node → List CommandExpr
  | .group .list _ items => commandExprs o items
  | .group .tuple _ items => commandExprs o items
  | n => [.refused (n.unsupported parentsKeyword)]

def commandExprs (o : ExtractionOptions) : List Node → List CommandExpr
  | [] => []
  | n :: ns => if n.isComment then commandExprs o ns else commandExpr o n :: commandExprs o ns

end

mutual

def callsInto (targets : List String) : Node → List Call
  | .comment _ => []
  | .join _ => []
  | .atom _ _ => []
  | .string _ fields => callsAll fields
  | .signed _ _ operand => callsInto [] operand
  | .group _ _ items => callsAll items
  | .member _ object _ => callsInto [] object
  | .keyword _ _ value => callsInto [] value
  | .call x function arguments =>
      ⟨targets, x, function, arguments⟩ :: (callsInto [] function ++ callsInto [] arguments)
  | .assignment _ target typing value =>
      callsInto [] target ++ callsAll typing ++
        callsInto (target.identifier?.toList ++ targets) value
  | .construct _ _ parts => callsAll parts

def callsAll : List Node → List Call
  | [] => []
  | n :: ns => callsInto [] n ++ callsAll ns

end

def calls (n : Node) : List Call :=
  n.callsInto []

end Node

namespace Call

open Vocabulary Node

def parents (o : ExtractionOptions) (c : Call) : List CommandExpr :=
  if o.ignores Vocabulary.parents then [] else parentExprs o c.arguments

def step? (o : ExtractionOptions) (c : Call) : Option Step :=
  let line := c.extent.line
  let parser := if c.targets.isEmpty then none
    else some (.parser c.targets (c.parents o) line)
  match c.function with
  | .atom .identifier f => if f.text = parserClass then parser else none
  | .member _ object name =>
      if name = parserClass then parser
      else if name = addSubparsers then
        if c.targets.isEmpty then none else some (.subparsers c.targets (commandExpr o object))
      else if name = addParser then
        some (.command (.added (groupExpr o object) (subcommandName c.arguments line) c.targets
          (c.parents o) line))
      else if name = addArgument then
        some (.argument (commandExpr o object) (declaration o c.arguments line)
          c.extent.lastLine)
      else if argumentGroups.contains name then
        if c.targets.isEmpty then none
        else some (.argumentGroup c.targets (commandExpr o object))
      else none
  | _ => none

end Call

def Node.steps (o : ExtractionOptions) (n : Node) : List Step :=
  n.calls.filterMap (Call.step? o)

end CliCompletion
