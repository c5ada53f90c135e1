import CliCompletion.Proofs.Culprits

namespace CliCompletion

variable {α β : Type} {P Q : ExtractionError → Prop} {o : ExtractionOptions} {hints : List Hint}

namespace Registering

def FailsIn (P : ExtractionError → Prop) (q : Registering α) : Prop :=
  ∀ r, ErrorsIn P (q r)

theorem FailsIn.imp {q : Registering α} (h : FailsIn P q) (hpq : ∀ e, P e → Q e) : FailsIn Q q :=
  fun r => (h r).imp hpq

theorem FailsIn.bind {q : Registering α} {f : α → Registering β} (hq : FailsIn P q)
    (hf : ∀ a, FailsIn P (f a)) : FailsIn P (q >>= f) := fun r =>
  ErrorsIn.bind (hq r) fun p _ => hf p.1 p.2

theorem failsIn_of_ok {q : Registering α} (h : ∀ r, ∃ p, q r = .ok p) : FailsIn P q := by
  intro r
  obtain ⟨p, hp⟩ := h r
  rw [hp]
  exact .ok p

theorem failsIn_pure (a : α) : FailsIn P (pure a : Registering α) :=
  failsIn_of_ok fun r => ⟨(a, r), rfl⟩

theorem failsIn_modify (f : Registry → Registry) : FailsIn P (modify f : Registering Unit) :=
  failsIn_of_ok fun r => ⟨((), f r), rfl⟩

theorem failsIn_liftM {x : Except ExtractionError α} (h : ErrorsIn P x) :
    FailsIn P (liftM x : Registering α) := by
  intro r
  rw [liftM_eq]
  exact h.map _

theorem failsIn_refused {e : ExtractionError} (h : P e) : FailsIn P (command (.refused e)) := by
  intro r
  rw [command_refused]
  exact .error h

theorem failsIn_handle {name : String} {line : Nat} (h : P (.unknownHandle name line)) :
    FailsIn P (command (.handle name line)) := by
  intro r
  rw [command_handle, commandNamed]
  split
  · exact .ok _
  · exact .error h

theorem failsIn_added {group : GroupExpr} {name : Except ExtractionError String}
    {targets : List String} {parents : List CommandExpr} {line : Nat}
    (hg : FailsIn P (groupOwner group)) (hn : ErrorsIn P name) (hp : FailsIn P (commands parents)) :
    FailsIn P (command (.added group name targets parents line)) := by
  rw [command]
  refine hg.bind fun owner => (failsIn_liftM hn).bind fun n => ?_
  refine (failsIn_of_ok fun r => ⟨(r, r), rfl⟩).bind fun r => ?_
  split
  · exact (failsIn_modify _).bind fun _ => failsIn_pure _
  · exact hp.bind fun ids => failsIn_of_ok fun r => ⟨_, rfl⟩

theorem failsIn_nil : FailsIn P (commands []) := by
  rw [commands]
  exact failsIn_pure _

theorem failsIn_cons {e : CommandExpr} {es : List CommandExpr} (he : FailsIn P (command e))
    (hes : FailsIn P (commands es)) : FailsIn P (commands (e :: es)) := by
  rw [commands]
  exact he.bind fun id => hes.bind fun ids => failsIn_pure _

theorem failsIn_ownerNamed {name : String} {line : Nat} (h : P (.unknownHandle name line)) :
    FailsIn P (groupOwner (.handle name line)) := by
  intro r
  rw [groupOwner_handle, ownerNamed]
  split
  · exact .ok _
  · exact .error h

theorem failsIn_groupRefused {e : ExtractionError} (h : P e) :
    FailsIn P (groupOwner (.refused e)) := by
  intro r
  rw [groupOwner_refused]
  exact .error h

theorem failsIn_grouped {owner : CommandExpr} (h : FailsIn P (command owner)) :
    FailsIn P (command (.grouped owner)) := by
  intro r
  rw [command_grouped]
  exact h r

theorem failsIn_opened {owner : CommandExpr} (h : FailsIn P (command owner)) :
    FailsIn P (groupOwner (.opened owner)) := by
  intro r
  rw [groupOwner_opened]
  exact h r

theorem failsIn_steps {ss : List Step} (h : ∀ s ∈ ss, FailsIn P (step hints s)) :
    FailsIn P (steps hints ss) := by
  induction ss with
  | nil => exact failsIn_pure ()
  | cons s ss ih =>
      rw [steps]
      exact (h s List.mem_cons_self).bind fun _ => ih fun s' hs => h s' (List.mem_cons_of_mem _ hs)

end Registering

namespace Node

open Registering

theorem Holds.receiver {object : Node} {e : ExtractionError} (h : object.Holds e) (x y : Extent)
    (name : String) (arguments : Node) :
    (Node.call x (.member y object name) arguments).Holds e := by
  obtain ⟨c, hc, he⟩ := h
  refine ⟨c, ?_, he⟩
  rw [preorder, preorder]
  exact List.mem_cons_of_mem _ (List.mem_append_left _ (List.mem_cons_of_mem _ hc))

theorem exprs_failsIn (o : ExtractionOptions) :
    (∀ n, FailsIn n.Holds (command (commandExpr o n))) ∧
    (∀ n, FailsIn n.Holds (commands (parentExprs o n))) ∧
    (∀ ns, FailsIn (HoldsAmong ns) (commands (parentsAmong o ns))) ∧
    (∀ n, FailsIn n.Holds (commands (parentList o n))) ∧
    (∀ ns, FailsIn (HoldsAmong ns) (commands (commandExprs o ns))) ∧
    ∀ n, FailsIn n.Holds (groupOwner (groupExpr o n)) := by
  refine Node.commandExpr.mutual_induct _ _ _ _ _ _ ?_ ?_ ?_ ?_ ?_ ?_ ?_ ?_ ?_ ?_ ?_ ?_ ?_ ?_ ?_
    ?_ ?_ ?_ ?_ ?_ ?_
  · intro x
    rw [commandExpr]
    exact failsIn_handle (Culprit.unknownHandle x).holds
  · intro x y object arguments hobject harguments
    rw [commandExpr, if_pos rfl]
    refine failsIn_added (hobject.imp fun e he => he.receiver x y _ _)
      (subcommandName_errorsIn x y object arguments) ?_
    split
    · exact failsIn_nil
    · exact harguments.imp fun e he => he.call x _
  · intro x y object name arguments hn hg hobject
    rw [commandExpr, if_neg hn, if_pos hg]
    exact failsIn_grouped (hobject.imp fun e he => he.receiver x y _ _)
  · intro x y object name arguments hn hg
    rw [commandExpr, if_neg hn, if_neg hg]
    exact failsIn_refused (holds_unsupported _ _)
  · intro n hn hc
    rw [commandExpr]
    · exact failsIn_refused (n.holds_unsupported _)
    · exact hn
    · exact hc
  · intro kind x items hitems
    rw [parentExprs]
    exact hitems.imp fun e => HoldsAmong.group
  · intro n hn
    rw [parentExprs]
    · exact failsIn_nil
    · exact hn
  · intro x items hitems
    rw [parentList]
    exact hitems.imp fun e => HoldsAmong.group
  · intro x items hitems
    rw [parentList]
    exact hitems.imp fun e => HoldsAmong.group
  · intro n hl ht
    rw [parentList]
    · exact failsIn_cons (failsIn_refused (n.holds_unsupported _)) failsIn_nil
    · exact hl
    · exact ht
  · intro x
    rw [groupExpr]
    exact failsIn_ownerNamed (Culprit.unknownHandle x).holds
  · intro x y object arguments hobject
    rw [groupExpr, if_pos rfl]
    exact failsIn_opened (hobject.imp fun e he => he.receiver x y _ _)
  · intro x y object name arguments hn
    rw [groupExpr, if_neg hn]
    exact failsIn_groupRefused (holds_unsupported _ _)
  · intro n hn hc
    rw [groupExpr]
    · exact failsIn_groupRefused (n.holds_unsupported _)
    · exact hn
    · exact hc
  · exact failsIn_nil
  · intro x value ns hvalue
    rw [parentsAmong, if_pos rfl]
    exact hvalue.imp fun _ he => he.value.among
  · intro x name value ns hn hns
    rw [parentsAmong, if_neg hn]
    exact hns.imp fun _ => HoldsAmong.cons
  · intro n ns hn hns
    rw [parentsAmong]
    · exact hns.imp fun _ => HoldsAmong.cons
    · exact hn
  · exact failsIn_nil
  · intro n ns hn hns
    rw [commandExprs, if_pos hn]
    exact hns.imp fun _ => HoldsAmong.cons
  · intro n ns hn hexpr hns
    rw [commandExprs, if_neg hn]
    exact failsIn_cons (hexpr.imp fun _ => Holds.among)
      (hns.imp fun _ => HoldsAmong.cons)

theorem commandExpr_failsIn (o : ExtractionOptions) (n : Node) :
    FailsIn n.Holds (command (commandExpr o n)) :=
  (exprs_failsIn o).1 n

end Node

namespace Call

open Node Registering Vocabulary

variable {c : Call} {s : Step}

def node (c : Call) : Node :=
  .call c.extent c.function c.arguments

theorem parents_failsIn (o : ExtractionOptions) (c : Call) :
    FailsIn c.node.Holds (commands (c.parents o)) := by
  rw [parents]
  split
  · exact failsIn_nil
  · exact ((exprs_failsIn o).2.1 c.arguments).imp fun e he => he.call c.extent c.function

theorem parser_failsIn (o : ExtractionOptions) (c : Call) (targets : List String) (line : Nat) :
    FailsIn c.node.Holds (step hints (.parser targets (c.parents o) line)) := by
  rw [step]
  exact (c.parents_failsIn o).bind fun ids => failsIn_modify _

theorem receiver_failsIn {y : Extent} {object : Node} {name : String} (o : ExtractionOptions)
    (hf : c.function = .member y object name) :
    FailsIn c.node.Holds (command (commandExpr o object)) := by
  rw [node, hf]
  exact (commandExpr_failsIn o object).imp fun e he => he.receiver c.extent y name c.arguments

theorem addition_failsIn {y : Extent} {object : Node} (o : ExtractionOptions)
    (targets : List String) (hf : c.function = .member y object addParser) :
    FailsIn c.node.Holds (command (c.addition o object targets)) := by
  refine failsIn_added ?_ ?_ (c.parents_failsIn o)
  · rw [node, hf]
    exact ((exprs_failsIn o).2.2.2.2.2 object).imp fun e he =>
      he.receiver c.extent y addParser c.arguments
  · rw [node, hf]
    exact subcommandName_errorsIn c.extent y object c.arguments

theorem step?_failsIn (h : c.step? o = some s) : FailsIn c.node.Holds (step hints s) := by
  unfold step? at h
  dsimp only at h
  split at h
  · split_ifs at h
    cases h
    exact c.parser_failsIn o _ _
  · rename_i y object name hf
    have hobject := receiver_failsIn o hf
    split_ifs at h with hc ht hg ht ha hd hv ht
    · cases h
      exact c.parser_failsIn o _ _
    · cases h
      exact hobject.bind fun id => failsIn_modify _
    · cases h
      exact (addition_failsIn o c.targets (ha ▸ hf)).bind fun _ => failsIn_pure _
    · cases h
      refine hobject.bind fun id => (failsIn_liftM ?_).bind fun d => failsIn_modify _
      rw [node, hf, hd]
      exact declaration_errorsIn c.extent y object c.arguments
    · cases h
      exact hobject.bind fun id => failsIn_modify _
  · cases h

end Call

namespace Node

mutual

theorem callsInto_preorder : ∀ (n : Node) (ts : List String), ∀ c ∈ n.callsInto ts,
    c.node.preorder ⊆ n.preorder
  | .comment _, ts, c, h | .join _, ts, c, h | .atom _ _, ts, c, h => by
      simp [callsInto] at h
  | .string x fields, ts, c, h => by
      rw [callsInto] at h
      exact fun m hm => List.mem_cons_of_mem _ (callsAll_preorder fields c h hm)
  | .signed sign x operand, ts, c, h => by
      rw [callsInto] at h
      exact fun m hm => List.mem_cons_of_mem _ (callsInto_preorder operand [] c h hm)
  | .group kind x items, ts, c, h => by
      rw [callsInto] at h
      exact fun m hm => List.mem_cons_of_mem _ (callsAll_preorder items c h hm)
  | .member x object name, ts, c, h => by
      rw [callsInto] at h
      exact fun m hm => List.mem_cons_of_mem _ (callsInto_preorder object [] c h hm)
  | .keyword x name value, ts, c, h => by
      rw [callsInto] at h
      exact fun m hm => List.mem_cons_of_mem _ (callsInto_preorder value [] c h hm)
  | .call x function arguments, ts, c, h => by
      rw [callsInto, List.mem_cons, List.mem_append] at h
      rcases h with rfl | h | h
      · exact fun m hm => hm
      · exact fun m hm => List.mem_cons_of_mem _
          (List.mem_append_left _ (callsInto_preorder function [] c h hm))
      · exact fun m hm => List.mem_cons_of_mem _
          (List.mem_append_right _ (callsInto_preorder arguments [] c h hm))
  | .assignment x target typing value, ts, c, h => by
      rw [callsInto, List.mem_append, List.mem_append] at h
      intro m hm
      rw [preorder, List.mem_cons, List.mem_append, List.mem_append]
      rcases h with (h | h) | h
      · exact .inr (.inl (.inl (callsInto_preorder target [] c h hm)))
      · exact .inr (.inl (.inr (callsAll_preorder typing c h hm)))
      · exact .inr (.inr (callsInto_preorder value _ c h hm))
  | .construct kind x parts, ts, c, h => by
      rw [callsInto] at h
      exact fun m hm => List.mem_cons_of_mem _ (callsAll_preorder parts c h hm)

theorem callsAll_preorder : ∀ ns : List Node, ∀ c ∈ callsAll ns,
    c.node.preorder ⊆ preorderAll ns
  | [], c, h => by
      simp [callsAll] at h
  | n :: ns, c, h => by
      rw [callsAll, List.mem_append] at h
      intro m hm
      rw [preorderAll, List.mem_append]
      rcases h with h | h
      · exact .inl (callsInto_preorder n [] c h hm)
      · exact .inr (callsAll_preorder ns c h hm)

end

theorem steps_failsIn (o : ExtractionOptions) (n : Node) :
    Registering.FailsIn n.Holds (Registering.steps hints (n.steps o)) := by
  refine Registering.failsIn_steps fun s hs => ?_
  obtain ⟨c, hc, hstep⟩ := List.mem_filterMap.1 hs
  refine (Call.step?_failsIn hstep).imp fun e he => ?_
  exact he.imp fun m hm => ⟨n.callsInto_preorder [] c hc hm.1, hm.2⟩

end Node

theorem CommandTree.ofNode_errorsIn (o : ExtractionOptions) (hints : List Hint) (n : Node) :
    ErrorsIn (fun e => e = .noParser ∨ n.Holds e) (ofNode o hints n) := by
  refine ErrorsIn.bind (fun e he => .inr (n.steps_failsIn o .empty e he)) fun p _ => ?_
  exact fun e he => .inl (eq_noParser_of_tree he)

end CliCompletion
