import CliCompletion.Proofs.Acceptance
import CliCompletion.Proofs.Records

namespace CliCompletion

open Vocabulary

variable {ks : List String} {o o' : ExtractionOptions}

namespace ExtractionOptions

def ignoring (o : ExtractionOptions) (ks : List String) : ExtractionOptions :=
  { o with ignored := o.ignored ++ ks }

theorem ignores_ignoring (o : ExtractionOptions) (ks : List String) (keyword : String) :
    (o.ignoring ks).ignores keyword = (o.ignores keyword || ks.contains keyword) :=
  List.contains_append

end ExtractionOptions

namespace OrderedMap

variable {κ α : Type} [DecidableEq κ]

def without (ks : List κ) (m : OrderedMap κ α) : OrderedMap κ α :=
  ⟨m.entries.filter fun e => !ks.contains e.1, m.distinct.sublist (List.filter_sublist.map _)⟩

theorem filter_setEntry (p : κ → Bool) (key : κ) (value : α) (es : List (κ × α)) :
    (setEntry key value es).filter (fun e => p e.1) =
      if p key then setEntry key value (es.filter fun e => p e.1)
      else es.filter fun e => p e.1 := by
  induction es with
  | nil => simp [setEntry, List.filter_cons]
  | cons e es ih =>
      rw [setEntry]
      by_cases he : e.1 = key
      · subst he
        by_cases hp : p e.1 <;> simp [hp, setEntry]
      · rw [if_neg he, List.filter_cons, List.filter_cons, ih]
        by_cases hp : p e.1 <;> by_cases hk : p key <;> simp [hp, hk, setEntry, he]

theorem without_insert_of_mem {key : κ} {ks : List κ} (h : ks.contains key = true)
    (m : OrderedMap κ α) (value : α) : (m.insert key value).without ks = m.without ks := by
  have hf := filter_setEntry (fun k => !ks.contains k) key value m.entries
  simp only [h, Bool.not_true, Bool.false_eq_true, if_false] at hf
  simp only [without, insert, hf]

theorem without_insert_of_not_mem {key : κ} {ks : List κ} (h : ks.contains key = false)
    (m : OrderedMap κ α) (value : α) :
    (m.insert key value).without ks = (m.without ks).insert key value := by
  have hf := filter_setEntry (fun k => !ks.contains k) key value m.entries
  simp only [h, Bool.not_false, if_true] at hf
  simp only [without, insert, hf]

end OrderedMap

def Declaration.without (ks : List String) (d : Declaration) : Declaration :=
  { d with options := d.options.without ks }

def Argument.without (ks : List String) (a : Argument) : Argument :=
  { a with options := a.options.without ks }

namespace Node

theorem declared_ignoring {context : String} {items : List Node} {d d' : Declaration}
    (h : declared o context d items = .ok d') :
    declared (o.ignoring ks) context (d.without ks) items = .ok (d'.without ks) := by
  fun_induction declared o context d items with
  | case1 d =>
      cases h
      rfl
  | case2 d x name value ns hi ih =>
      rw [declared, ExtractionOptions.ignores_ignoring, hi, Bool.true_or, if_pos rfl]
      exact ih h
  | case3 d x name value ns hi ih =>
      obtain ⟨l, hl, h⟩ := bind_eq_ok.1 h
      have ih := ih l h
      rw [declared, ExtractionOptions.ignores_ignoring, Bool.eq_false_iff.2 hi,
        Bool.false_or]
      -- What was recorded under a keyword of `ks` is left out, where it now is not even read.
      by_cases hk : ks.contains name = true
      · rw [if_pos hk]
        rwa [Declaration.without, OrderedMap.without_insert_of_mem hk] at ih
      · rw [if_neg hk]
        rw [Declaration.without,
          OrderedMap.without_insert_of_not_mem (Bool.eq_false_iff.2 hk)] at ih
        exact bind_eq_ok.2 ⟨l, hl, ih⟩
  | case4 d n ns hk hc ih =>
      rw [declared, if_pos hc]
      · exact ih h
      · exact hk
  | case5 d n ns hk hc ih =>
      obtain ⟨l, hl, h⟩ := bind_eq_ok.1 h
      rw [declared, if_neg hc]
      · exact bind_eq_ok.2 ⟨l, hl, ih l h⟩
      · exact hk

theorem declaration_ignoring {arguments : Node} {line : Nat} {d : Declaration}
    (h : declaration o arguments line = .ok d) :
    declaration (o.ignoring ks) arguments line = .ok (d.without ks) := by
  obtain ⟨items, hi, h⟩ := bind_eq_ok.1 h
  obtain ⟨d', hd, h⟩ := bind_eq_ok.1 h
  obtain ⟨name, hn, h⟩ := bind_eq_ok.1 h
  cases h
  exact bind_eq_ok.2 ⟨items, hi, bind_eq_ok.2 ⟨_, declared_ignoring hd,
    bind_eq_ok.2 ⟨name, hn, rfl⟩⟩⟩

theorem exprs_of_ignores (h : o'.ignores parents = o.ignores parents) :
    (∀ n, commandExpr o' n = commandExpr o n) ∧ (∀ n, parentExprs o' n = parentExprs o n) ∧
    (∀ ns, parentsAmong o' ns = parentsAmong o ns) ∧ (∀ n, parentList o' n = parentList o n) ∧
    (∀ ns, commandExprs o' ns = commandExprs o ns) ∧ ∀ n, groupExpr o' n = groupExpr o n := by
  refine Node.commandExpr.mutual_induct _ _ _ _ _ _ ?_ ?_ ?_ ?_ ?_ ?_ ?_ ?_ ?_ ?_ ?_ ?_ ?_ ?_ ?_
    ?_ ?_ ?_ ?_ ?_ ?_
  · intro x
    rw [commandExpr, commandExpr]
  · intro x y object arguments hobject harguments
    rw [commandExpr, commandExpr, if_pos rfl, if_pos rfl, hobject, harguments, h]
  · intro x y object name arguments hn hg hobject
    rw [commandExpr, commandExpr, if_neg hn, if_neg hn, hobject]
  · intro x y object name arguments hn hg
    rw [commandExpr, commandExpr, if_neg hn, if_neg hn, if_neg hg, if_neg hg]
  · intro n hn hc
    rw [commandExpr, commandExpr] <;> assumption
  · intro kind x items hitems
    rw [parentExprs, parentExprs, hitems]
  · intro n hn
    rw [parentExprs, parentExprs] <;> assumption
  · intro x items hitems
    rw [parentList, parentList, hitems]
  · intro x items hitems
    rw [parentList, parentList, hitems]
  · intro n hl ht
    rw [parentList, parentList] <;> assumption
  · intro x
    rw [groupExpr, groupExpr]
  · intro x y object arguments hobject
    rw [groupExpr, groupExpr, hobject]
  · intro x y object name arguments hn
    rw [groupExpr, groupExpr, if_neg hn, if_neg hn]
  · intro n hn hc
    rw [groupExpr, groupExpr] <;> assumption
  · rfl
  · intro x value ns hvalue
    rw [parentsAmong, parentsAmong, if_pos rfl, if_pos rfl, hvalue]
  · intro x name value ns hn hns
    rw [parentsAmong, parentsAmong, hns, if_neg hn, if_neg hn]
  · intro n ns hn hns
    rw [parentsAmong, parentsAmong, hns] <;> assumption
  · rfl
  · intro n ns hn hns
    rw [commandExprs, commandExprs, if_pos hn, if_pos hn, hns]
  · intro n ns hn hexpr hns
    rw [commandExprs, commandExprs, if_neg hn, if_neg hn, hexpr, hns]

theorem exprs_orphan (h : o'.ignores parents = true) :
    (∀ n, commandExpr o' n = (commandExpr o n).orphan) ∧
      ∀ n, groupExpr o' n = (groupExpr o n).orphan := by
  have hall : (∀ n, commandExpr o' n = (commandExpr o n).orphan) ∧ (Node → True) ∧
      (List Node → True) ∧ (Node → True) ∧ (List Node → True) ∧
      ∀ n, groupExpr o' n = (groupExpr o n).orphan := by
    refine Node.commandExpr.mutual_induct _ (fun _ => True) (fun _ => True) (fun _ => True)
      (fun _ => True) _ ?_ ?_ ?_ ?_ ?_ (fun _ _ _ _ => trivial) (fun _ _ => trivial)
      (fun _ _ _ => trivial) (fun _ _ _ => trivial) (fun _ _ _ => trivial) ?_ ?_ ?_ ?_ trivial
      (fun _ _ _ _ => trivial) (fun _ _ _ _ _ _ => trivial) (fun _ _ _ _ => trivial) trivial
      (fun _ _ _ _ => trivial) fun _ _ _ _ _ => trivial
    · intro x
      rw [commandExpr, commandExpr, CommandExpr.orphan]
    · intro x y object arguments hobject _
      rw [commandExpr, commandExpr, if_pos rfl, if_pos rfl, hobject, if_pos h, CommandExpr.orphan]
    · intro x y object name arguments hn hg hobject
      rw [commandExpr, commandExpr, if_neg hn, if_neg hn, if_pos hg, if_pos hg, hobject,
        CommandExpr.orphan]
    · intro x y object name arguments hn hg
      rw [commandExpr, commandExpr, if_neg hn, if_neg hn, if_neg hg, if_neg hg, CommandExpr.orphan]
    · intro n hn hc
      rw [commandExpr, commandExpr, CommandExpr.orphan] <;> assumption
    · intro x
      rw [groupExpr, groupExpr, GroupExpr.orphan]
    · intro x y object arguments hobject
      rw [groupExpr, groupExpr, if_pos rfl, if_pos rfl, hobject, GroupExpr.orphan]
    · intro x y object name arguments hn
      rw [groupExpr, groupExpr, if_neg hn, if_neg hn, GroupExpr.orphan]
    · intro n hn hc
      rw [groupExpr, groupExpr, GroupExpr.orphan] <;> assumption
  exact ⟨hall.1, hall.2.2.2.2.2⟩

end Node

namespace Call

theorem rel_step? {R : Step → Step → Prop} {c : Call}
    (hparser : R (.parser c.targets (c.parents o) c.extent.line)
      (.parser c.targets (c.parents o') c.extent.line))
    (hsubparsers : ∀ object, R (.subparsers c.targets (Node.commandExpr o object))
      (.subparsers c.targets (Node.commandExpr o' object)))
    (hgroup : ∀ object, R (.argumentGroup c.targets (Node.commandExpr o object))
      (.argumentGroup c.targets (Node.commandExpr o' object)))
    (hcommand : ∀ object, R (.command (c.addition o object c.targets))
      (.command (c.addition o' object c.targets)))
    (hargument : ∀ object,
      R (.argument (Node.commandExpr o object) (c.arguments.declaration o c.extent.line)
          c.extent.lastLine)
        (.argument (Node.commandExpr o' object) (c.arguments.declaration o' c.extent.line)
          c.extent.lastLine)) :
    Option.Rel R (c.step? o) (c.step? o') := by
  unfold step?
  dsimp only
  split
  · split_ifs
    · exact .none
    · exact .some hparser
    · exact .none
  · split_ifs
    · exact .none
    · exact .some hparser
    · exact .none
    · exact .some (hsubparsers _)
    · exact .some (hcommand _)
    · exact .some (hargument _)
    · exact .none
    · exact .some (hgroup _)
    · exact .none
  · exact .none

theorem parents_eq (h : o'.ignores Vocabulary.parents = o.ignores Vocabulary.parents) (c : Call) :
    c.parents o' = c.parents o := by
  rw [parents, parents, h, (Node.exprs_of_ignores h).2.1]

theorem addition_eq (h : o'.ignores Vocabulary.parents = o.ignores Vocabulary.parents) (c : Call)
    (object : Node) (targets : List String) :
    c.addition o' object targets = c.addition o object targets := by
  rw [addition, addition, parents_eq h, (Node.exprs_of_ignores h).2.2.2.2.2]

theorem parents_eq_nil (h : o'.ignores Vocabulary.parents = true) (c : Call) :
    c.parents o' = [] :=
  if_pos h

theorem addition_orphan (h : o'.ignores Vocabulary.parents = true) (c : Call) (object : Node)
    (targets : List String) :
    c.addition o' object targets = (c.addition o object targets).orphan := by
  rw [addition, addition, CommandExpr.orphan, parents_eq_nil h, (Node.exprs_orphan h).2]

end Call

inductive Step.Reduced (ks : List String) : Step → Step → Prop
  | other {s : Step} (h : ∀ owner content lastLine, s ≠ .argument owner content lastLine) :
      Reduced ks s s
  | argument {owner : CommandExpr} {content content' : Except ExtractionError Declaration}
      {lastLine : Nat} (hc : ∀ d, content = .ok d → content' = .ok (d.without ks)) :
      Reduced ks (.argument owner content lastLine) (.argument owner content' lastLine)

namespace Node

theorem forall₂_steps {R : Step → Step → Prop}
    (h : ∀ c : Call, Option.Rel R (c.step? o) (c.step? o')) (n : Node) :
    List.Forall₂ R (n.steps o) (n.steps o') :=
  List.rel_filterMap (R := Eq) (fun c _ hc => hc ▸ h c) (List.forall₂_eq_eq_eq ▸ rfl)

theorem steps_reduced (h : (o.ignoring ks).ignores parents = o.ignores parents) (n : Node) :
    List.Forall₂ (Step.Reduced ks) (n.steps o) (n.steps (o.ignoring ks)) := by
  have hexpr := (exprs_of_ignores h).1
  refine forall₂_steps (fun c => ?_) n
  refine Call.rel_step? ?_ (fun object => ?_) (fun object => ?_) (fun object => ?_) fun object => ?_
  · rw [c.parents_eq h]
    exact .other (by simp)
  · rw [hexpr]
    exact .other (by simp)
  · rw [hexpr]
    exact .other (by simp)
  · rw [c.addition_eq h]
    exact .other (by simp)
  · rw [hexpr]
    exact .argument fun d => declaration_ignoring

theorem steps_orphaned (h : (o.ignoring ks).ignores parents = true) (n : Node) :
    List.Forall₂ Step.Orphaned (n.steps o) (n.steps (o.ignoring ks)) := by
  have hexpr := (exprs_orphan (o := o) h).1
  have hplain : ∀ n, (commandExpr o n).InnerPlain := fun n => (commandExpr_plain o n).inner
  refine forall₂_steps (fun c => ?_) n
  refine Call.rel_step? ?_ (fun object => ?_) (fun object => ?_) (fun object => ?_) fun object => ?_
  · rw [c.parents_eq_nil h]
    exact .parser (c.parents_plain o)
  · rw [hexpr]
    exact .subparsers (hplain object)
  · rw [hexpr]
    exact .argumentGroup (hplain object)
  · rw [c.addition_orphan h]
    exact .command (c.addition_plain o object c.targets)
  · rw [hexpr]
    exact .argument (hplain object) fun d hd => ⟨d.without ks, declaration_ignoring hd⟩

end Node

namespace Registering

variable {hints : List Hint} {r r₁ : Registry}

theorem step_reduced {s s' : Step} (hs : s.Reduced ks s')
    (hr : step hints s r = .ok ((), r₁)) :
    step hints s' (r.mapArguments (.without ks)) = .ok ((), r₁.mapArguments (.without ks)) := by
  cases hs with
  | other h =>
      rw [blind_step hints h, hr]
      rfl
  | @argument owner content content' lastLine hc =>
      obtain ⟨id, r₂, d, ho, hd, rfl⟩ := step_argument_ok.1 hr
      have ho' := blind_command owner (.without ks) r
      rw [ho] at ho'
      exact step_argument_ok.2 ⟨id, _, _, ho', hc d hd, r₂.mapArguments_addArgument _⟩

theorem steps_reduced {ss ss' : List Step} (hss : List.Forall₂ (Step.Reduced ks) ss ss')
    (hr : steps hints ss r = .ok ((), r₁)) :
    steps hints ss' (r.mapArguments (.without ks)) = .ok ((), r₁.mapArguments (.without ks)) := by
  induction hss generalizing r with
  | nil =>
      cases steps_nil_ok.1 hr
      rfl
  | cons hs _ ih =>
      obtain ⟨r₂, hstep, hrest⟩ := steps_cons_ok.1 hr
      exact steps_cons_ok.2 ⟨_, step_reduced hs hstep, ih hrest⟩

end Registering

namespace CommandTree

theorem ofSteps_reduced {hints : List Hint} {ss ss' : List Step} {t : CommandTree}
    (hss : List.Forall₂ (Step.Reduced ks) ss ss') (h : ofSteps hints ss = .ok t) :
    ofSteps hints ss' = .ok (t.mapArguments (.without ks)) := by
  obtain ⟨r, hr, ht⟩ := ofSteps_ok.1 h
  refine ofSteps_ok.2 ⟨_, Registering.steps_reduced hss hr, ?_⟩
  rw [r.mapArguments_tree, ht]
  rfl

theorem ofNode_ignoring {hints : List Hint} {n : Node} {t : CommandTree}
    (h : ofNode o hints n = .ok t) (ks : List String) :
    (parents ∉ ks → ofNode (o.ignoring ks) hints n = .ok (t.mapArguments (.without ks))) ∧
      ∃ t', ofNode (o.ignoring ks) hints n = .ok t' := by
  have hi := o.ignores_ignoring ks parents
  have hkept : parents ∉ ks →
      ofNode (o.ignoring ks) hints n = .ok (t.mapArguments (.without ks)) := by
    intro hp
    have hp : ks.contains parents = false := by simpa using hp
    rw [hp, Bool.or_false] at hi
    exact ofSteps_reduced (n.steps_reduced hi) h
  refine ⟨hkept, ?_⟩
  by_cases hp : parents ∈ ks
  · rw [List.contains_iff_mem.2 hp, Bool.or_true] at hi
    exact exists_ofSteps_orphaned (n.steps_orphaned hi) h
  · exact ⟨_, hkept hp⟩

def keywordedCalls : List Char :=
  "p = ArgumentParser()
p.add_subparsers().add_parser(\"x\", parents=[p]).add_argument(
  \"a\", help=\"1\", nargs=2, help=\"3\", type=int)
".toList

theorem ofNode_ignoring_help :
    ∃ t, ofSource ⟨"m", ["type"]⟩ keywordedCalls = .ok t ∧
      t.arguments.map (·.options.keys) = [["help", "nargs"]] ∧ parents ∉ ["help"] ∧
      ofSource ⟨"m", ["type", "help"]⟩ keywordedCalls =
        .ok (t.mapArguments (.without ["help"])) ∧
      ∃ t', ofSource ⟨"m", ["type", "help"]⟩ keywordedCalls = .ok t' := by
  have hs : (ofSource ⟨"m", ["type"]⟩ keywordedCalls).toOption.map
      (fun t => t.arguments.map (·.options.keys)) = some [["help", "nargs"]] := by decide +kernel
  obtain ⟨t, ht, hkeys⟩ := Option.map_eq_some_iff.1 hs
  have ht := eq_ok_of_toOption ht
  have hp : parents ∉ ["help"] := by decide
  obtain ⟨n, hn, htree⟩ := ofSource_ok.1 ht
  obtain ⟨hkept, t', ht'⟩ := ofNode_ignoring htree ["help"]
  exact ⟨t, ht, hkeys, hp, ofSource_ok.2 ⟨n, hn, hkept hp⟩, t', ofSource_ok.2 ⟨n, hn, ht'⟩⟩

end CommandTree

end CliCompletion
