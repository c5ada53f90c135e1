import CliCompletion.Proofs.Accounting

namespace CliCompletion

namespace Registering

variable {o : ExtractionOptions} {hints : List Hint}

theorem command_refused_still (e : ExtractionError) : (CommandExpr.refused e).evaluation.Still := by
  rintro r r' ⟨id, he⟩
  rw [command_refused] at he
  cases he

theorem groupOwner_refused_still (e : ExtractionError) :
    (GroupExpr.refused e).evaluation.Still := by
  rintro r r' ⟨id, hg⟩
  rw [groupOwner_refused] at hg
  cases hg

theorem commands_nil_still : (CommandExpr.evaluations []).Still := by
  rintro r r' ⟨ids, hes⟩
  rw [(commands_nil_ok.1 hes).2]

theorem commands_refused_still (e : ExtractionError) :
    (CommandExpr.evaluations [.refused e]).Still := by
  rintro r r' ⟨ids, hes⟩
  obtain ⟨i, is, r₁, he, -, -⟩ := commands_cons_ok.1 hes
  rw [command_refused] at he
  cases he

theorem commandExpr_still {n : Node} (hn : ∀ x f a, n ≠ .call x f a) :
    (n.commandExpr o).evaluation.Still := by
  unfold Node.commandExpr
  split
  · rintro r r' ⟨id, he⟩
    rw [command_handle] at he
    rw [(commandNamed_ok.1 he).2]
  · exact absurd rfl (hn _ _ _)
  · exact command_refused_still _

theorem groupExpr_still {n : Node} (hn : ∀ x f a, n ≠ .call x f a) :
    (n.groupExpr o).evaluation.Still := by
  unfold Node.groupExpr
  split
  · rintro r r' ⟨id, hg⟩
    rw [groupOwner_handle] at hg
    rw [(ownerNamed_ok.1 hg).2]
  · exact absurd rfl (hn _ _ _)
  · exact groupOwner_refused_still _

theorem parentExprs_still {n : Node} (hn : ∀ k x items, n ≠ .group k x items) :
    (CommandExpr.evaluations (n.parentExprs o)).Still := by
  unfold Node.parentExprs
  split
  · exact absurd rfl (hn _ _ _)
  · exact commands_nil_still

theorem parentList_still {n : Node} (hn : ∀ k x items, n ≠ .group k x items) :
    (CommandExpr.evaluations (n.parentList o)).Still := by
  unfold Node.parentList
  split
  · exact absurd rfl (hn _ _ _)
  · exact absurd rfl (hn _ _ _)
  · exact commands_refused_still _

structure NodeAccounted (o : ExtractionOptions) (hints : List Hint) (n : Node) : Prop where
  bounded : ∀ targets, Bounded o hints (n.callsInto targets)
  command : Accounted o hints (n.commandExpr o).evaluation 0 n.calls
  group : Accounted o hints (n.groupExpr o).evaluation 0 n.calls
  parents : Accounted o hints (CommandExpr.evaluations (n.parentExprs o)) 0 n.calls
  list : Accounted o hints (CommandExpr.evaluations (n.parentList o)) 0 n.calls
  receiver : ∀ x object name, n = .member x object name →
    Accounted o hints (object.commandExpr o).evaluation 0 n.calls ∧
      Accounted o hints (object.groupExpr o).evaluation 0 n.calls
  value : ∀ x name value, n = .keyword x name value →
    Accounted o hints (CommandExpr.evaluations (value.parentList o)) 0 n.calls

structure NodesAccounted (o : ExtractionOptions) (hints : List Hint) (ns : List Node) : Prop where
  bounded : Bounded o hints (Node.callsAll ns)
  parents : Accounted o hints (CommandExpr.evaluations (Node.parentsAmong o ns)) 0
    (Node.callsAll ns)
  commands : Accounted o hints (CommandExpr.evaluations (Node.commandExprs o ns)) 0
    (Node.callsAll ns)

theorem nodeAccounted_of_bounded {n : Node} (h : ∀ targets, Bounded o hints (n.callsInto targets))
    (hcall : ∀ x f a, n ≠ .call x f a) (hgroup : ∀ k x items, n ≠ .group k x items)
    (hmember : ∀ x object name, n ≠ .member x object name)
    (hkeyword : ∀ x name value, n ≠ .keyword x name value) : NodeAccounted o hints n where
  bounded := h
  command := (h []).accounted (commandExpr_still hcall)
  group := (h []).accounted (groupExpr_still hcall)
  parents := (h []).accounted (parentExprs_still hgroup)
  list := (h []).accounted (parentList_still hgroup)
  receiver := fun x object name hn => absurd hn (hmember x object name)
  value := fun x name value hn => absurd hn (hkeyword x name value)

theorem nodeAccounted_member {x : Extent} {object : Node} {name : String}
    (h : NodeAccounted o hints object) : NodeAccounted o hints (.member x object name) where
  bounded := fun _ => by
    rw [Node.callsInto]
    exact h.bounded []
  command := (h.bounded []).accounted (commandExpr_still (by simp))
  group := (h.bounded []).accounted (groupExpr_still (by simp))
  parents := (h.bounded []).accounted (parentExprs_still (by simp))
  list := (h.bounded []).accounted (parentList_still (by simp))
  receiver := by
    intro y object' name' hn
    cases hn
    exact ⟨h.command, h.group⟩
  value := by
    intro y name' value hn
    cases hn

theorem nodeAccounted_keyword {x : Extent} {value : Node} {name : String}
    (h : NodeAccounted o hints value) : NodeAccounted o hints (.keyword x name value) where
  bounded := fun _ => by
    rw [Node.callsInto]
    exact h.bounded []
  command := (h.bounded []).accounted (commandExpr_still (by simp))
  group := (h.bounded []).accounted (groupExpr_still (by simp))
  parents := (h.bounded []).accounted (parentExprs_still (by simp))
  list := (h.bounded []).accounted (parentList_still (by simp))
  receiver := by
    intro y object name' hn
    cases hn
  value := by
    intro y name' value' hn
    cases hn
    exact h.list

theorem nodeAccounted_group {kind : Grouping} {x : Extent} {items : List Node}
    (h : NodesAccounted o hints items) : NodeAccounted o hints (.group kind x items) where
  bounded := fun _ => by
    rw [Node.callsInto]
    exact h.bounded
  command := h.bounded.accounted (commandExpr_still (by simp))
  group := h.bounded.accounted (groupExpr_still (by simp))
  parents := by
    rw [Node.parentExprs]
    exact h.parents
  list := by
    unfold Node.parentList
    split
    · rename_i hn
      cases hn
      exact h.commands
    · rename_i hn
      cases hn
      exact h.commands
    · exact h.bounded.accounted (commands_refused_still _)
  receiver := by
    intro y object name hn
    cases hn
  value := by
    intro y name value hn
    cases hn

theorem accounted_parents {c : Call} (h : NodeAccounted o hints c.arguments) :
    Accounted o hints (CommandExpr.evaluations (c.parents o)) 0 c.arguments.calls := by
  rw [Call.parents]
  split
  · exact (h.bounded []).accounted commands_nil_still
  · exact h.parents

section CallNode

variable {x : Extent} {function arguments : Node} (hfunction : NodeAccounted o hints function)
  (harguments : NodeAccounted o hints arguments)

include hfunction harguments

theorem bounded_callsInto_call (targets : List String) :
    Bounded o hints ((Node.call x function arguments).callsInto targets) := by
  have hcall := accounted_call (c := ⟨targets, x, function, arguments⟩)
    (accounted_parents harguments) (harguments.bounded []) (hfunction.bounded [])
    hfunction.receiver
  rw [Node.callsInto]
  exact hcall.bounded

theorem accounted_commandExpr_call :
    Accounted o hints ((Node.call x function arguments).commandExpr o).evaluation 0
      (Node.call x function arguments).calls := by
  have hbounded := bounded_callsInto_call (x := x) hfunction harguments []
  unfold Node.commandExpr
  split
  · rename_i hn
    cases hn
  · rename_i y object name _ hn
    cases hn
    obtain ⟨hobject, hgroup⟩ := hfunction.receiver _ _ _ rfl
    rw [Node.calls, Node.callsInto]
    by_cases ha : name = Vocabulary.addParser
    · subst ha
      rw [if_pos rfl]
      have hadded := accounted_addition (c := ⟨[], x, .member y object _, arguments⟩)
        (accounted_parents harguments) (harguments.bounded []) hgroup
      exact (hadded _).retaken rfl
    · rw [if_neg ha]
      split_ifs with hg
      · have hstep := Call.step?_of_unassigned_value (o := o)
          (c := ⟨[], x, .member y object name, arguments⟩) rfl rfl (.inr hg)
        rw [CommandExpr.evaluation_grouped]
        exact accounted_receiver (harguments.bounded []) hstep hobject
      · exact hbounded.accounted (command_refused_still _)
  · exact hbounded.accounted (command_refused_still _)

theorem accounted_groupExpr_call :
    Accounted o hints ((Node.call x function arguments).groupExpr o).evaluation 0
      (Node.call x function arguments).calls := by
  have hbounded := bounded_callsInto_call (x := x) hfunction harguments []
  unfold Node.groupExpr
  split
  · rename_i hn
    cases hn
  · rename_i y object name _ hn
    cases hn
    obtain ⟨hobject, -⟩ := hfunction.receiver _ _ _ rfl
    rw [Node.calls, Node.callsInto]
    split_ifs with hs
    · have hstep := Call.step?_of_unassigned_value (o := o)
        (c := ⟨[], x, .member y object name, arguments⟩) rfl rfl (.inl hs)
      rw [GroupExpr.evaluation_opened]
      exact accounted_receiver (harguments.bounded []) hstep hobject
    · exact hbounded.accounted (groupOwner_refused_still _)
  · exact hbounded.accounted (groupOwner_refused_still _)

theorem nodeAccounted_call : NodeAccounted o hints (.call x function arguments) where
  bounded := bounded_callsInto_call hfunction harguments
  command := accounted_commandExpr_call hfunction harguments
  group := accounted_groupExpr_call hfunction harguments
  parents := (bounded_callsInto_call hfunction harguments []).accounted
    (parentExprs_still (by simp))
  list := (bounded_callsInto_call hfunction harguments []).accounted
    (parentList_still (by simp))
  receiver := by
    intro y object name hn
    cases hn
  value := by
    intro y name value hn
    cases hn

end CallNode

theorem nodesAccounted_nil : NodesAccounted o hints [] where
  bounded := bounded_nil
  parents := bounded_nil.accounted commands_nil_still
  commands := bounded_nil.accounted commands_nil_still

theorem nodesAccounted_cons {n : Node} {ns : List Node} (hn : NodeAccounted o hints n)
    (hns : NodesAccounted o hints ns) : NodesAccounted o hints (n :: ns) where
  bounded := by
    rw [Node.callsAll]
    exact (hn.bounded []).append hns.bounded
  parents := by
    rw [Node.callsAll]
    unfold Node.parentsAmong
    split
    · rename_i h
      cases h
    · rename_i h
      cases h
      split_ifs with hp
      · exact (hn.value _ _ _ rfl).then_bounded hns.bounded
      · exact (hn.bounded []).then_accounted hns.parents
    · rename_i h
      cases h
      exact (hn.bounded []).then_accounted hns.parents
  commands := by
    rw [Node.callsAll, Node.commandExprs]
    split_ifs with hc
    · exact (hn.bounded []).then_accounted hns.commands
    · exact accounted_cons hn.command hns.commands

mutual

theorem nodeAccounted (o : ExtractionOptions) (hints : List Hint) :
    ∀ n : Node, NodeAccounted o hints n
  | .comment x => nodeAccounted_of_bounded (fun _ => by rw [Node.callsInto]; exact bounded_nil)
      (by simp) (by simp) (by simp) (by simp)
  | .join x => nodeAccounted_of_bounded (fun _ => by rw [Node.callsInto]; exact bounded_nil)
      (by simp) (by simp) (by simp) (by simp)
  | .atom kind x => nodeAccounted_of_bounded (fun _ => by rw [Node.callsInto]; exact bounded_nil)
      (by simp) (by simp) (by simp) (by simp)
  | .string x fields => by
      have h := nodesAccounted o hints fields
      refine nodeAccounted_of_bounded (fun _ => ?_) (by simp) (by simp) (by simp) (by simp)
      rw [Node.callsInto]
      exact h.bounded
  | .signed sign x operand => by
      have h := nodeAccounted o hints operand
      refine nodeAccounted_of_bounded (fun _ => ?_) (by simp) (by simp) (by simp) (by simp)
      rw [Node.callsInto]
      exact h.bounded []
  | .group kind x items => nodeAccounted_group (nodesAccounted o hints items)
  | .member x object name => nodeAccounted_member (nodeAccounted o hints object)
  | .keyword x name value => nodeAccounted_keyword (nodeAccounted o hints value)
  | .call x function arguments =>
      nodeAccounted_call (nodeAccounted o hints function) (nodeAccounted o hints arguments)
  | .assignment x target typing value => by
      have htarget := nodeAccounted o hints target
      have htyping := nodesAccounted o hints typing
      have hvalue := nodeAccounted o hints value
      refine nodeAccounted_of_bounded (fun targets => ?_) (by simp) (by simp) (by simp) (by simp)
      rw [Node.callsInto]
      exact ((htarget.bounded []).append htyping.bounded).append (hvalue.bounded _)
  | .construct kind x parts => by
      have h := nodesAccounted o hints parts
      refine nodeAccounted_of_bounded (fun _ => ?_) (by simp) (by simp) (by simp) (by simp)
      rw [Node.callsInto]
      exact h.bounded

theorem nodesAccounted (o : ExtractionOptions) (hints : List Hint) :
    ∀ ns : List Node, NodesAccounted o hints ns
  | [] => nodesAccounted_nil
  | n :: ns => nodesAccounted_cons (nodeAccounted o hints n) (nodesAccounted o hints ns)

end

end Registering

namespace CommandTree

open Registering

variable {t : CommandTree} {o : ExtractionOptions}

theorem idle_iff_and_length_le {hints : List Hint} {n : Node} (h : ofNode o hints n = .ok t) :
    (Idle o hints n.calls .empty ↔
      ∀ c d e r r₁ r₂ r₃, Revisit o hints n.calls .empty c d e r r₁ r₂ r₃ →
        r₂.find? r₂.bindings e ≠ none) ∧
    (Idle o hints n.calls .empty →
      t.commands.length ≤ n.calls.countP Call.makesParser + n.calls.countP Call.addsParser) ∧
    (t.DistinctSiblings →
      ∀ c d e r r₁ r₂ r₃, Revisit o hints n.calls .empty c d e r r₁ r₂ r₃ →
        r₂.find? r₂.bindings e = none → ∃ x, e.start? = some x ∧ c.rebinds x) := by
  obtain ⟨q, hw, hq⟩ := ofSteps_ok.1 h
  obtain ⟨root, -, rfl⟩ := Registry.tree_ok.1 hq
  refine ⟨idle_iff Registry.sound_empty, ?_, ?_⟩
  · intro hidle
    have hbound := (nodeAccounted o _ n).bounded [] .empty q ⟨Registry.sound_empty, hw, hidle⟩
    have hnone : Registry.empty.commands.length = 0 := rfl
    rw [hnone, Nat.zero_add] at hbound
    exact hbound
  · intro hd c d e r r₁ r₂ r₃ hv hf
    have hle := hv.prefix_entries Registry.sound_empty hw
    have hnodup := Registry.prefix_places_nodup hle (distinctSiblings_iff_nodup.1 hd)
    exact hv.rebinds Registry.sound_empty hnodup hf

def unassignedChain : List Char :=
  "p = ArgumentParser()
p.add_subparsers().add_parser(\"x\").add_argument(\"y\")
".toList

theorem length_le_of_unassigned_chain : ∃ (t : CommandTree) (n : Node),
    ofSource ⟨"m", []⟩ unassignedChain = .ok t ∧ Node.ofSource unassignedChain = .ok n ∧
    t.DistinctSiblings ∧ (∀ c ∈ n.calls, c.restarts ⟨"m", []⟩ = false) ∧
    t.commands.length ≤ n.calls.countP Call.makesParser + n.calls.countP Call.addsParser := by
  have hs : (ofSource ⟨"m", []⟩ unassignedChain).toOption.any
      (fun t => decide t.DistinctSiblings) = true := by decide +kernel
  have hr : (Node.ofSource unassignedChain).toOption.all
      (fun n => n.calls.all fun c => !c.restarts ⟨"m", []⟩) = true := by decide +kernel
  obtain ⟨t, ht, hd⟩ := exists_ok_of_any hs
  have hd := of_decide_eq_true hd
  obtain ⟨n, hn, htree⟩ := ofSource_ok.1 ht
  obtain ⟨hidle, hbound, hrebinds⟩ := idle_iff_and_length_le htree
  rw [hn] at hr
  have hkept : ∀ c ∈ n.calls, c.restarts ⟨"m", []⟩ = false := by
    intro c hc
    simpa using List.all_eq_true.1 hr c hc
  refine ⟨t, n, ht, hn, hd, hkept, hbound (hidle.2 ?_)⟩
  intro c d e r r₁ r₂ r₃ hv hf
  obtain ⟨b, hb, hrestarts⟩ := hv.restarts (hrebinds hd c d e r r₁ r₂ r₃ hv hf)
  rw [hkept b hb] at hrestarts
  cases hrestarts

def reboundGroup : List Char :=
  "p = ArgumentParser()
g = p.add_subparsers()
g = g.add_parser(\"x\").add_subparsers()
".toList

theorem command_twice_of_rebound_group : ∃ (t : CommandTree) (n : Node),
    ofSource ⟨"m", []⟩ reboundGroup = .ok t ∧ Node.ofSource reboundGroup = .ok n ∧
    t.DistinctSiblings ∧
    n.calls.countP Call.makesParser + n.calls.countP Call.addsParser < t.commands.length := by
  have hs : (ofSource ⟨"m", []⟩ reboundGroup).toOption.any
      (fun t => decide (t.DistinctSiblings ∧ 3 ≤ t.commands.length)) = true := by decide +kernel
  have hc : (Node.ofSource reboundGroup).toOption.any (fun n => decide
      (n.calls.countP Call.makesParser + n.calls.countP Call.addsParser = 2)) = true := by
    decide +kernel
  obtain ⟨t, ht, hd⟩ := exists_ok_of_any hs
  obtain ⟨n, hn, hc⟩ := exists_ok_of_any hc
  obtain ⟨hd, hlength⟩ := of_decide_eq_true hd
  have hc := of_decide_eq_true hc
  refine ⟨t, n, ht, hn, hd, ?_⟩
  omega

end CommandTree

end CliCompletion
