import CliCompletion.Proofs.Lookup
import Mathlib.Tactic.SplitIfs

namespace CliCompletion

open Vocabulary Node

namespace Step

def targets : Step → List String
  | parser targets _ _ => targets
  | subparsers targets _ => targets
  | argumentGroup targets _ => targets
  | command e => e.targets
  | argument _ _ _ => []

def owner? : Step → Option CommandExpr
  | subparsers _ owner => some owner
  | argumentGroup _ owner => some owner
  | argument owner _ _ => some owner
  | _ => none

def Resolves : Step → Registry → CommandExpr → Prop
  | parser _ parents _, r, e => CommandExpr.AnyResolves parents r e
  | subparsers _ owner, r, e => owner.Resolves r e
  | argumentGroup _ owner, r, e => owner.Resolves r e
  | command e₀, r, e => e₀.Resolves r e
  | argument owner _ _, r, e => owner.Resolves r e

theorem resolves_of_owner? {s : Step} {owner e : CommandExpr} {r : Registry}
    (h : s.owner? = some owner) : s.Resolves r e ↔ owner.Resolves r e := by
  cases s <;> cases h <;> rfl

end Step

namespace Call

variable {o : ExtractionOptions} {c : Call} {s : Step}

def inner (c : Call) : List Call :=
  c.function.calls ++ c.arguments.calls

def rebinds (c : Call) (x : String) : Bool :=
  c.targets.contains x || c.inner.any (·.targets.contains x)

def makesParser (c : Call) : Bool :=
  !c.targets.isEmpty && match c.function with
    | .atom .identifier f => f.text == parserClass
    | .member _ _ name => name == parserClass
    | _ => false

def addsParser (c : Call) : Bool :=
  match c.function with
  | .member _ _ name => name == addParser
  | _ => false

def addition (o : ExtractionOptions) (c : Call) (object : Node) (targets : List String) :
    CommandExpr :=
  .added (groupExpr o object) (subcommandName c.arguments c.extent.line) targets (c.parents o)
    c.extent.line

def addition? (o : ExtractionOptions) (c : Call) : Option CommandExpr :=
  match c.function with
  | .member _ object name => if name = addParser then some (c.addition o object []) else none
  | _ => none

def restarts (o : ExtractionOptions) (c : Call) : Bool :=
  (c.inner.filterMap (addition? o)).any fun e => e.start?.any c.rebinds

theorem step?_cases (h : c.step? o = some s) :
    (s = .parser c.targets (c.parents o) c.extent.line ∧ c.makesParser = true) ∨
    (∃ x object, c.function = .member x object addParser ∧
      s = .command (c.addition o object c.targets)) ∨
    ∃ x object name, c.function = .member x object name ∧
      s.owner? = some (commandExpr o object) ∧ s.targets ⊆ c.targets := by
  unfold step? at h
  dsimp only at h
  split at h
  · rename_i f hf
    split_ifs at h with hc ht
    cases h
    exact .inl ⟨rfl, by simp [makesParser, hf, hc, ht]⟩
  · rename_i x object name hf
    split_ifs at h with hc ht hg ht ha hd hv ht
    · cases h
      exact .inl ⟨rfl, by simp [makesParser, hf, hc, ht]⟩
    · cases h
      exact .inr (.inr ⟨x, object, name, hf, rfl, fun _ hx => hx⟩)
    · cases h
      exact .inr (.inl ⟨x, object, ha ▸ hf, rfl⟩)
    · cases h
      exact .inr (.inr ⟨x, object, name, hf, rfl, List.nil_subset _⟩)
    · cases h
      exact .inr (.inr ⟨x, object, name, hf, rfl, fun _ hx => hx⟩)
  · cases h

theorem step?_of_unassigned_value {x : Extent} {object : Node} {name : String}
    (ht : c.targets = []) (hf : c.function = .member x object name)
    (hn : name = addSubparsers ∨ argumentGroups.contains name = true) : c.step? o = none := by
  have hs : ∀ n ∈ addSubparsers :: argumentGroups, n ≠ addParser ∧ n ≠ addArgument := by
    decide
  have hm : name ∈ addSubparsers :: argumentGroups := by
    simpa [List.contains_iff_mem] using hn
  obtain ⟨hp, ha⟩ := hs name hm
  simp [step?, hf, ht, hp, ha]

theorem step?_of_makesParser (h : c.makesParser = true) :
    c.step? o = some (.parser c.targets (c.parents o) c.extent.line) := by
  obtain ⟨ht, hc⟩ := Bool.and_eq_true_iff.1 h
  have ht : c.targets.isEmpty = false := by simpa using ht
  split at hc
  · rename_i f hf
    simp [step?, hf, ht, eq_of_beq hc]
  · rename_i y object name hf
    simp [step?, hf, ht, eq_of_beq hc]
  · cases hc

theorem step?_of_addSubparsers {y : Extent} {object : Node}
    (hf : c.function = .member y object addSubparsers) (ht : c.targets ≠ []) :
    c.step? o = some (.subparsers c.targets (commandExpr o object)) := by
  have hp : addSubparsers ≠ parserClass := by decide
  simp [step?, hf, hp, ht]

theorem step?_of_addParser {y : Extent} {object : Node}
    (hf : c.function = .member y object addParser) :
    c.step? o = some (.command (c.addition o object c.targets)) := by
  have hn : addParser ≠ parserClass ∧ addParser ≠ addSubparsers := by decide
  simp [step?, hf, hn, addition]

theorem step?_of_argumentGroup {y : Extent} {object : Node} {name : String}
    (hf : c.function = .member y object name) (hn : name ∈ argumentGroups) (ht : c.targets ≠ []) :
    c.step? o = some (.argumentGroup c.targets (commandExpr o object)) := by
  have hne : ∀ n ∈ argumentGroups, n ≠ parserClass ∧ n ≠ addSubparsers ∧ n ≠ addParser ∧
      n ≠ addArgument := by decide
  simp [step?, hf, hne name hn, hn, ht]

theorem step?_of_addition? {e : CommandExpr} (h : c.addition? o = some e) :
    ∃ x object, c.function = .member x object addParser ∧ e = c.addition o object [] ∧
      c.step? o = some (.command (c.addition o object c.targets)) := by
  unfold addition? at h
  split at h
  · rename_i x object name hf
    split_ifs at h with hn
    cases h
    rw [hn] at hf
    exact ⟨x, object, hf, rfl, step?_of_addParser hf⟩
  · cases h

end Call

namespace Node

theorem callsAll_append (ns ms : List Node) : callsAll (ns ++ ms) = callsAll ns ++ callsAll ms := by
  induction ns with
  | nil => rfl
  | cons n ns ih => rw [List.cons_append, callsAll, callsAll, ih, List.append_assoc]

variable (o : ExtractionOptions)

theorem exprs_plain :
    (∀ n, (commandExpr o n).Plain) ∧ (∀ n, CommandExpr.AllPlain (parentExprs o n)) ∧
    (∀ ns, CommandExpr.AllPlain (parentsAmong o ns)) ∧
    (∀ n, CommandExpr.AllPlain (parentList o n)) ∧
    (∀ ns, CommandExpr.AllPlain (commandExprs o ns)) ∧ ∀ n, (groupExpr o n).Plain := by
  refine Node.commandExpr.mutual_induct _ _ _ _ _ _ ?_ ?_ ?_ ?_ ?_ ?_ ?_ ?_ ?_ ?_ ?_ ?_ ?_ ?_ ?_
    ?_ ?_ ?_ ?_ ?_ ?_
  · intro x
    simp [commandExpr, CommandExpr.Plain]
  · intro x y object arguments hobject harguments
    rw [commandExpr, if_pos rfl]
    refine ⟨rfl, hobject, ?_⟩
    split
    · exact trivial
    · exact harguments
  · intro x y object name arguments hn hg hobject
    rw [commandExpr, if_neg hn, if_pos hg, CommandExpr.Plain]
    exact hobject
  · intro x y object name arguments hn hg
    rw [commandExpr, if_neg hn, if_neg hg]
    exact trivial
  · intro n hn hc
    rw [commandExpr]
    · exact trivial
    · exact hn
    · exact hc
  · intro kind x items hitems
    rw [parentExprs]
    exact hitems
  · intro n hn
    rw [parentExprs]
    · exact trivial
    · exact hn
  · intro x items hitems
    rw [parentList]
    exact hitems
  · intro x items hitems
    rw [parentList]
    exact hitems
  · intro n hl ht
    rw [parentList]
    · exact ⟨trivial, trivial⟩
    · exact hl
    · exact ht
  · intro x
    simp [groupExpr, GroupExpr.Plain]
  · intro x y object arguments hobject
    rw [groupExpr, if_pos rfl, GroupExpr.Plain]
    exact hobject
  · intro x y object name arguments hn
    rw [groupExpr, if_neg hn]
    exact trivial
  · intro n hn hc
    rw [groupExpr]
    · exact trivial
    · exact hn
    · exact hc
  · exact trivial
  · intro x value ns hvalue
    rw [parentsAmong, if_pos rfl]
    exact hvalue
  · intro x name value ns hn hns
    rw [parentsAmong, if_neg hn]
    exact hns
  · intro n ns hn hns
    rw [parentsAmong]
    · exact hns
    · exact hn
  · exact trivial
  · intro n ns hn hns
    rw [commandExprs, if_pos hn]
    exact hns
  · intro n ns hn hexpr hns
    rw [commandExprs, if_neg hn]
    exact ⟨hexpr, hns⟩

theorem commandExpr_plain (n : Node) : (commandExpr o n).Plain :=
  (exprs_plain o).1 n

theorem groupExpr_plain (n : Node) : (groupExpr o n).Plain :=
  (exprs_plain o).2.2.2.2.2 n

end Node

namespace Call

variable {o : ExtractionOptions} {c : Call} {s : Step}

theorem parents_plain (o : ExtractionOptions) (c : Call) : CommandExpr.AllPlain (c.parents o) := by
  rw [parents]
  split
  · exact trivial
  · exact (exprs_plain o).2.1 c.arguments

theorem addition_plain (o : ExtractionOptions) (c : Call) (object : Node) (targets : List String) :
    (c.addition o object targets).InnerPlain :=
  ⟨groupExpr_plain o object, c.parents_plain o⟩

end Call

end CliCompletion
