import CliCompletion.Proofs.Failures
import Mathlib.Data.List.Forall2

namespace CliCompletion

variable {o : ExtractionOptions} {hints : List Hint}

open Vocabulary

namespace Node

variable {context : String} {arguments : Node} {line : Nat}

def isCall : Node → Bool
  | call _ _ _ => true
  | _ => false

def declaresArgument : Node → Bool
  | call _ (member _ _ name) _ => name == addArgument
  | _ => false

def positionalItems : Node → List Node
  | call _ _ (group .arguments _ items) => items.filter isPositional
  | _ => []

mutual

theorem map_node_callsInto : ∀ (n : Node) (ts : List String),
    (n.callsInto ts).map Call.node = n.preorder.filter isCall
  | .comment _, _ | .join _, _ | .atom _ _, _ => rfl
  | .string _ fields, _ => map_node_callsAll fields
  | .signed _ _ operand, _ => map_node_callsInto operand []
  | .group _ _ items, _ => map_node_callsAll items
  | .member _ object _, _ => map_node_callsInto object []
  | .keyword _ _ value, _ => map_node_callsInto value []
  | .call x function arguments, _ => by
      rw [callsInto, preorder, List.map_cons, List.map_append, map_node_callsInto function,
        map_node_callsInto arguments, List.filter_cons_of_pos rfl, List.filter_append]
      rfl
  | .assignment x target typing value, _ => by
      rw [callsInto, preorder, List.map_append, List.map_append, map_node_callsInto target,
        map_node_callsAll typing, map_node_callsInto value,
        List.filter_cons_of_neg (by simp [isCall]), List.filter_append, List.filter_append]
  | .construct _ _ parts, _ => map_node_callsAll parts

theorem map_node_callsAll : ∀ ns : List Node,
    (callsAll ns).map Call.node = (preorderAll ns).filter isCall
  | [] => rfl
  | n :: ns => by
      rw [callsAll, preorderAll, List.map_append, List.filter_append, map_node_callsInto n,
        map_node_callsAll ns]

end

theorem filter_preorder_eq (n : Node) : n.preorder.filter declaresArgument =
    (n.calls.map Call.node).filter declaresArgument := by
  rw [calls, map_node_callsInto, List.filter_filter]
  refine List.filter_congr fun m _ => ?_
  cases m with
  | call x function arguments => rw [isCall, Bool.and_true]
  | _ => rfl

theorem forall₂_positionals {ns : List Node} {ls : List Literal}
    (h : positionals context ns = .ok ls) :
    List.Forall₂ (fun n l => n.scalar context = .ok l) (ns.filter isPositional) ls := by
  induction ns generalizing ls with
  | nil =>
      cases h
      exact .nil
  | cons n ns ih =>
      rw [positionals_cons] at h
      by_cases hn : n.isPositional = true
      · rw [if_pos hn] at h
        obtain ⟨l, hl, h⟩ := bind_eq_ok.1 h
        obtain ⟨rest, hrest, h⟩ := bind_eq_ok.1 h
        cases h
        rw [List.filter_cons_of_pos hn]
        exact .cons hl (ih hrest)
      · rw [if_neg hn] at h
        rw [List.filter_cons_of_neg hn]
        exact ih h

theorem nameOf_ok {ls : List Literal} {method name : String}
    (h : nameOf ls method line = .ok name) : ∃ rest, ls = .text name :: rest := by
  unfold nameOf at h
  split at h
  · cases h
    exact ⟨_, rfl⟩
  · cases h
  · cases h

theorem declaration_ok {d : Declaration} (h : declaration o arguments line = .ok d) :
    ∃ z items name rest, arguments = .group .arguments z items ∧
      List.Forall₂ (fun n l => n.scalar addArgumentCall = .ok l) (items.filter isPositional)
        d.literals ∧ d.literals = .text name :: rest := by
  obtain ⟨items, hitems, h⟩ := bind_eq_ok.1 h
  obtain ⟨d', hd, h⟩ := bind_eq_ok.1 h
  obtain ⟨name, hname, h⟩ := bind_eq_ok.1 h
  cases h
  obtain ⟨z, rfl⟩ := argumentItems_ok hitems
  obtain ⟨ls, hls, hd⟩ := positionals_of_declared hd
  rw [List.nil_append] at hd
  obtain ⟨rest, hrest⟩ := nameOf_ok hname
  exact ⟨z, items, name, rest, rfl, hd ▸ forall₂_positionals hls, hrest⟩

end Node

structure Argument.Records (hints : List Hint) (n : Node) (a : Argument) : Prop where
  literals : List.Forall₂ (fun m l => m.scalar addArgumentCall = .ok l) n.positionalItems a.literals
  named : ∃ name rest, a.literals = .text name :: rest
  line : a.line = n.lastLine
  hint : ∀ h, a.hint = some h ↔ ∃ before after, hints = before ++ h :: after ∧
    h.line = n.lastLine ∧ ∀ g ∈ before, g.line ≠ n.lastLine

theorem Hint.onLine_eq_some_iff {h : Hint} {line : Nat} : onLine hints line = some h ↔
    ∃ before after, hints = before ++ h :: after ∧ h.line = line ∧ ∀ g ∈ before, g.line ≠ line := by
  rw [onLine, List.find?_eq_some_iff_append]
  constructor
  · rintro ⟨hl, before, after, he, hb⟩
    exact ⟨before, after, he, by simpa using hl, fun g hg => by simpa using hb g hg⟩
  · rintro ⟨before, after, he, hl, hb⟩
    exact ⟨by simpa using hl, before, after, he, fun g hg => by simpa using hb g hg⟩

namespace Call

variable {c : Call}

theorem step?_eq_of_declaresArgument (h : c.node.declaresArgument = true) :
    ∃ y object, c.function = .member y object addArgument ∧
      c.step? o = some (.argument (Node.commandExpr o object)
        (c.arguments.declaration o c.extent.line) c.extent.lastLine) := by
  obtain ⟨targets, x, function, arguments⟩ := c
  cases function with
  | member y object name =>
      obtain rfl : name = addArgument := by simpa [node, Node.declaresArgument] using h
      exact ⟨y, object, rfl, rfl⟩
  | _ => cases h

theorem declaresArgument_of_step? {owner : CommandExpr}
    {content : Except ExtractionError Declaration} {lastLine : Nat}
    (hs : c.step? o = some (.argument owner content lastLine)) :
    c.node.declaresArgument = true := by
  unfold step? at hs
  dsimp only at hs
  split at hs
  · split_ifs at hs
    cases hs
  · rename_i y object name hf
    rw [node, hf, Node.declaresArgument, beq_iff_eq]
    split_ifs at hs with hc ht hg ht ha hd
    all_goals cases hs
    exact hd
  · cases hs

end Call

namespace Registering

variable {r r' : Registry} {id : CommandId} {c : Call} {cs : List Call}

mutual

theorem command_arguments : ∀ (e : CommandExpr) {r r' : Registry} {id : CommandId},
    command e r = .ok (id, r') → r'.arguments = r.arguments
  | .handle x line, r, r', id, he => by
      rw [command_handle] at he
      rw [(commandNamed_ok.1 he).2]
  | .grouped owner, r, r', id, he => command_arguments owner (command_grouped ▸ he)
  | .refused e, r, r', id, he => by
      rw [command_refused] at he
      cases he
  | .added group name targets parents line, r, r', id, he => by
      obtain ⟨owner, r₁, n, hg, -, ha⟩ := command_added_ok.1 he
      rw [← groupOwner_arguments group hg]
      rcases ha with ⟨-, rfl⟩ | ⟨-, ids, r₂, hp, ha⟩
      · rfl
      · obtain rfl : r' = (r₂.addCommand targets n (some owner) ids line).2 := congrArg Prod.snd ha
        rw [Registry.addCommand_arguments]
        exact commands_arguments parents hp

theorem groupOwner_arguments : ∀ (g : GroupExpr) {r r' : Registry} {id : CommandId},
    groupOwner g r = .ok (id, r') → r'.arguments = r.arguments
  | .handle x line, r, r', id, hg => by
      rw [groupOwner_handle] at hg
      rw [(ownerNamed_ok.1 hg).2]
  | .opened owner, r, r', id, hg => command_arguments owner (groupOwner_opened ▸ hg)
  | .refused e, r, r', id, hg => by
      rw [groupOwner_refused] at hg
      cases hg

theorem commands_arguments : ∀ (es : List CommandExpr) {r r' : Registry} {ids : List CommandId},
    commands es r = .ok (ids, r') → r'.arguments = r.arguments
  | [], r, r', ids, hes => by
      rw [(commands_nil_ok.1 hes).2]
  | e :: es, r, r', ids, hes => by
      obtain ⟨i, is, r₁, he, hrest, -⟩ := commands_cons_ok.1 hes
      rw [commands_arguments es hrest, command_arguments e he]

end

theorem step_arguments {s : Step} (hs : step hints s r = .ok ((), r'))
    (h : ∀ owner content lastLine, s ≠ .argument owner content lastLine) :
    r'.arguments = r.arguments := by
  cases s with
  | parser targets parents line =>
      obtain ⟨ids, r₁, hp, rfl⟩ := step_parser_ok.1 hs
      rw [Registry.addCommand_arguments, commands_arguments parents hp]
  | subparsers targets owner =>
      obtain ⟨i, r₁, ho, rfl⟩ := step_subparsers_ok.1 hs
      have ha := command_arguments owner ho
      exact ha
  | argumentGroup targets owner =>
      obtain ⟨i, r₁, ho, rfl⟩ := step_argumentGroup_ok.1 hs
      have ha := command_arguments owner ho
      exact ha
  | command e =>
      obtain ⟨i, he⟩ := step_command_ok.1 hs
      exact command_arguments e he
  | argument owner content lastLine => exact absurd rfl (h owner content lastLine)

theorem step_argument_records {owner : CommandExpr} {content : Except ExtractionError Declaration}
    {lastLine : Nat} (hs : step hints (.argument owner content lastLine) r = .ok ((), r')) :
    ∃ i d, content = .ok d ∧ r'.arguments =
      r.arguments ++ [⟨i, d.literals, d.options, Hint.onLine hints lastLine, lastLine⟩] := by
  obtain ⟨i, r₁, d, ho, hd, rfl⟩ := step_argument_ok.1 hs
  exact ⟨i, d, hd, by rw [← command_arguments owner ho]; rfl⟩

theorem call_records (hw : walk o hints [c] r = .ok ((), r')) :
    ∃ new, r'.arguments = r.arguments ++ new ∧
      List.Forall₂ (Argument.Records hints) ([c.node].filter Node.declaresArgument) new := by
  cases hd : c.node.declaresArgument with
  | true =>
      obtain ⟨y, object, hf, hs⟩ := Call.step?_eq_of_declaresArgument hd
      obtain ⟨i, d, hc, ha⟩ := step_argument_records (call_step_ok hs hw)
      obtain ⟨z, items, name, rest, hargs, hls, hname⟩ := Node.declaration_ok hc
      refine ⟨_, ha, ?_⟩
      rw [List.filter_cons_of_pos hd]
      refine .cons ⟨?_, ⟨name, rest, hname⟩, rfl, fun h => Hint.onLine_eq_some_iff⟩ .nil
      rw [Call.node, hargs]
      exact hls
  | false =>
      rw [List.filter_cons_of_neg (by simp [hd])]
      refine ⟨[], ?_, .nil⟩
      rw [List.append_nil]
      rcases call_cases hw with ⟨-, rfl⟩ | ⟨s, hs, hstep⟩
      · rfl
      · refine step_arguments hstep ?_
        rintro owner content lastLine rfl
        rw [Call.declaresArgument_of_step? hs] at hd
        cases hd

theorem walk_records (hw : walk o hints cs r = .ok ((), r')) :
    ∃ new, r'.arguments = r.arguments ++ new ∧
      List.Forall₂ (Argument.Records hints) ((cs.map Call.node).filter Node.declaresArgument)
        new := by
  induction cs generalizing r with
  | nil =>
      rw [walk_nil_ok.1 hw]
      exact ⟨[], (List.append_nil _).symm, .nil⟩
  | cons c cs ih =>
      obtain ⟨r₁, hc, hcs⟩ := walk_cons_ok.1 hw
      obtain ⟨new₁, ha₁, hf₁⟩ := call_records hc
      obtain ⟨new₂, ha₂, hf₂⟩ := ih hcs
      refine ⟨new₁ ++ new₂, by rw [ha₂, ha₁, List.append_assoc], ?_⟩
      rw [List.map_cons, ← List.singleton_append, List.filter_append]
      exact List.rel_append hf₁ hf₂

end Registering

namespace CommandTree

theorem ofNode_records {n : Node} {t : CommandTree} (h : ofNode o hints n = .ok t) :
    List.Forall₂ (Argument.Records hints) (n.preorder.filter Node.declaresArgument)
      t.arguments := by
  obtain ⟨r, hs, ht⟩ := ofSteps_ok.1 h
  have hw : Registering.walk o hints n.calls .empty = .ok ((), r) := hs
  obtain ⟨new, ha, hf⟩ := Registering.walk_records hw
  obtain ⟨root, -, rfl⟩ := Registry.tree_ok.1 ht
  obtain rfl : r.arguments = new := ha
  rw [n.filter_preorder_eq]
  exact hf

def scatteredDeclarations : List Char :=
  "p = ArgumentParser()
def declare():
    f'\x7bp.add_parser(\"x\").add_argument(\"y\")\x7d'
p.add_parser(\"z\", parents=[p.add_parser(\"w\")]).add_argument(
    \"v\", 1, # two literals
    nargs=1) # m func=branchname
".toList

theorem ofNode_records_scattered : ∃ n t, Node.ofSource scatteredDeclarations = .ok n ∧
    ofNode ⟨"m", []⟩ (Hint.scan "m" (Comment.ofSource scatteredDeclarations)) n = .ok t ∧
    t.arguments.map (fun a => (a.name, a.literals.length, a.hint.isSome)) =
      [("y", 1, false), ("v", 2, true)] ∧
    List.Forall₂ (Argument.Records (Hint.scan "m" (Comment.ofSource scatteredDeclarations)))
      (n.preorder.filter Node.declaresArgument) t.arguments := by
  have hs : (ofSource ⟨"m", []⟩ scatteredDeclarations).toOption.any (fun t => decide
      (t.arguments.map (fun a => (a.name, a.literals.length, a.hint.isSome)) =
        [("y", 1, false), ("v", 2, true)])) = true := by decide +kernel
  obtain ⟨t, ht, hd⟩ := exists_ok_of_any hs
  obtain ⟨n, hn, ht⟩ := ofSource_ok.1 ht
  exact ⟨n, t, hn, ht, of_decide_eq_true hd, ofNode_records ht⟩

end CommandTree

end CliCompletion
