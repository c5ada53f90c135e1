import CliCompletion.Proofs.Calls

namespace CliCompletion

open Vocabulary Node Registering Registry

variable {o : ExtractionOptions} {hints : List Hint} {r r' : Registry} {id : CommandId}

inductive Denoted where
  | command
  | group

namespace Denoted

inductive Method : Denoted → String → Denoted → Prop
  | addSubparsers : Method command addSubparsers group
  | addParser : Method group addParser command
  | argumentGroup {name : String} (hn : argumentGroups.contains name = true) :
      Method command name command

def resolve (o : ExtractionOptions) : Denoted → Node → Registering CommandId
  | command, n => Registering.command (commandExpr o n)
  | group, n => groupOwner (groupExpr o n)

def found? (o : ExtractionOptions) (r : Registry) : Denoted → Node → Option CommandId
  | command, n => r.find? r.bindings (commandExpr o n)
  | group, n => r.findOwner? r.bindings (groupExpr o n)

end Denoted

inductive Node.Chain : Denoted → Node → Prop
  | base {d : Denoted} {x : Extent} : Chain d (.atom .identifier x)
  | link {d d' : Denoted} {x y : Extent} {object arguments : Node} {name : String}
      (hm : d.Method name d') (h : Chain d object) (ha : arguments.calls = []) :
      Chain d' (.call x (.member y object name) arguments)

namespace Node

variable {x y : Extent} {object arguments : Node} {name : String}

theorem ne_addParser_of_argumentGroup (h : argumentGroups.contains name = true) :
    name ≠ addParser := by
  rintro rfl
  revert h
  decide

theorem ne_addSubparsers_of_argumentGroup (h : argumentGroups.contains name = true) :
    name ≠ addSubparsers := by
  rintro rfl
  revert h
  decide

theorem method_calls (targets : List String) :
    (Node.call x (.member y object name) arguments).callsInto targets =
      ⟨targets, x, .member y object name, arguments⟩ :: (object.calls ++ arguments.calls) := by
  rw [callsInto, callsInto]
  rfl

theorem groupExpr_addSubparsers : groupExpr o (.call x (.member y object addSubparsers) arguments) =
    .opened (commandExpr o object) := by
  rw [groupExpr, if_pos rfl]

theorem commandExpr_argumentGroup (h : argumentGroups.contains name = true) :
    commandExpr o (.call x (.member y object name) arguments) = .grouped (commandExpr o object) := by
  rw [commandExpr, if_neg (ne_addParser_of_argumentGroup h), if_pos h]

theorem commandExpr_addParser : commandExpr o (.call x (.member y object addParser) arguments) =
    (⟨[], x, .member y object addParser, arguments⟩ : Call).addition o object [] := by
  rw [commandExpr, if_pos rfl]
  rfl

end Node

theorem Call.step?_addArgument (x y : Extent) (object arguments : Node) :
    Call.step? o ⟨[], x, .member y object addArgument, arguments⟩ =
      some (.argument (commandExpr o object) (declaration o arguments x.line) x.lastLine) :=
  rfl

namespace Denoted

variable {x y : Extent} {object arguments : Node} {name : String}

theorem resolve_addSubparsers :
    group.resolve o (.call x (.member y object addSubparsers) arguments) r =
      command.resolve o object r := by
  change groupOwner (groupExpr o _) r = _
  rw [groupExpr_addSubparsers, groupOwner_opened]
  rfl

theorem resolve_argumentGroup (h : argumentGroups.contains name = true) :
    command.resolve o (.call x (.member y object name) arguments) r =
      command.resolve o object r := by
  change Registering.command (commandExpr o _) r = _
  rw [commandExpr_argumentGroup h, command_grouped]
  rfl

end Denoted

section Parents

def CommandExpr.Simple : CommandExpr → Prop
  | .handle _ _ => True
  | .refused _ => True
  | _ => False

theorem Registering.command_simple {e : CommandExpr} (hs : e.Simple)
    (he : command e r = .ok (id, r')) : r' = r := by
  cases e with
  | handle x line =>
      rw [command_handle] at he
      exact (commandNamed_ok.1 he).2
  | refused e =>
      rw [command_refused] at he
      cases he
  | added _ _ _ _ _ => cases hs
  | grouped _ => cases hs

theorem Registering.commands_simple {es : List CommandExpr} {ids : List CommandId}
    (hs : ∀ e ∈ es, e.Simple) (hes : commands es r = .ok (ids, r')) : r' = r := by
  induction es generalizing r ids with
  | nil => exact (commands_nil_ok.1 hes).2
  | cons e es ih =>
      obtain ⟨i, is, r₁, he, hrest, -⟩ := commands_cons_ok.1 hes
      rw [ih (fun e he => hs e (List.mem_cons_of_mem _ he)) hrest]
      exact command_simple (hs e (List.mem_cons_self ..)) he

namespace Node

variable {n : Node} {ns : List Node}

theorem commandExpr_simple (h : n.calls = []) : (commandExpr o n).Simple := by
  cases n with
  | call x function arguments => cases h
  | atom kind x =>
      cases kind with
      | identifier =>
          rw [commandExpr]
          exact trivial
      | _ => exact trivial
  | _ =>
      rw [commandExpr]
      · exact trivial
      · rintro x ⟨⟩
      · rintro x y object name arguments ⟨⟩

theorem commandExprs_simple (h : callsAll ns = []) : ∀ e ∈ commandExprs o ns, e.Simple := by
  induction ns with
  | nil => simp [commandExprs]
  | cons n ns ih =>
      obtain ⟨hn, hns⟩ := List.append_eq_nil_iff.1 h
      rw [commandExprs]
      split
      · exact ih hns
      · exact List.forall_mem_cons.2 ⟨commandExpr_simple hn, ih hns⟩

theorem parentList_simple (h : n.calls = []) : ∀ e ∈ parentList o n, e.Simple := by
  have hr : ∀ e ∈ [CommandExpr.refused (n.unsupported parentsKeyword)], e.Simple := by
    intro e he
    rw [List.mem_singleton.1 he]
    exact trivial
  cases n with
  | group kind x items =>
      cases kind with
      | list => exact commandExprs_simple h
      | tuple => exact commandExprs_simple h
      | _ => exact hr
  | _ => exact hr

theorem parentsAmong_simple (h : callsAll ns = []) : ∀ e ∈ parentsAmong o ns, e.Simple := by
  induction ns with
  | nil => simp [parentsAmong]
  | cons n ns ih =>
      obtain ⟨hn, hns⟩ := List.append_eq_nil_iff.1 h
      cases n with
      | keyword x name value =>
          rw [parentsAmong]
          split
          · exact parentList_simple hn
          · exact ih hns
      | _ => exact ih hns

theorem parentExprs_simple (h : n.calls = []) : ∀ e ∈ parentExprs o n, e.Simple := by
  cases n with
  | group kind x items => exact parentsAmong_simple h
  | _ => exact fun e he => absurd he List.not_mem_nil

end Node

theorem Call.parents_simple {c : Call} (h : c.arguments.calls = []) :
    ∀ e ∈ c.parents o, e.Simple := by
  rw [Call.parents]
  split
  · exact fun e he => absurd he List.not_mem_nil
  · exact parentExprs_simple h

end Parents

namespace Registering

mutual

theorem command_of_find? : ∀ (e : CommandExpr) {r : Registry} {id : CommandId}, e.Plain →
    r.find? r.bindings e = some id → command e r = .ok (id, r)
  | .handle x line, r, id, hp, h => by
      rw [find?] at h
      obtain ⟨b, hb, hc⟩ := Option.bind_eq_some_iff.1 h
      rw [command_handle]
      cases b with
      | command i =>
          cases hc
          exact commandNamed_ok.2 ⟨hb, rfl⟩
      | group i => cases hc
  | .grouped owner, r, id, hp, h => by
      rw [CommandExpr.Plain] at hp
      rw [find?] at h
      rw [command_grouped]
      exact command_of_find? owner hp h
  | .refused e, r, id, hp, h => by
      rw [find?] at h
      cases h
  | .added g name targets parents line, r, id, hp, h => by
      rw [CommandExpr.Plain] at hp
      obtain ⟨rfl, hg, -⟩ := hp
      rw [find?] at h
      obtain ⟨owner, ho, h⟩ := Option.bind_eq_some_iff.1 h
      obtain ⟨n, hn, hc⟩ := Option.bind_eq_some_iff.1 h
      cases name with
      | error e => cases hn
      | ok m =>
          cases hn
          exact command_added_ok.2 ⟨owner, r, n, groupOwner_of_findOwner? g hg ho, rfl,
            .inl ⟨hc, rfl⟩⟩

theorem groupOwner_of_findOwner? : ∀ (g : GroupExpr) {r : Registry} {id : CommandId}, g.Plain →
    r.findOwner? r.bindings g = some id → groupOwner g r = .ok (id, r)
  | .handle x line, r, id, hp, h => by
      rw [findOwner?] at h
      obtain ⟨b, hb, ho⟩ := Option.map_eq_some_iff.1 h
      rw [groupOwner_handle]
      exact ownerNamed_ok.2 ⟨⟨b, hb, ho⟩, rfl⟩
  | .opened owner, r, id, hp, h => by
      rw [GroupExpr.Plain] at hp
      rw [findOwner?] at h
      rw [groupOwner_opened]
      exact command_of_find? owner hp h
  | .refused e, r, id, hp, h => by
      rw [findOwner?] at h
      cases h

end

end Registering

namespace Node.Chain

variable {d : Denoted} {n : Node}

theorem found_of_resolve (h : n.Chain d) (hr : r.Sound) (hn : d.resolve o n r = .ok (id, r')) :
    d.found? o r' n = some id := by
  induction h generalizing r r' id with
  | @base d x =>
      cases d with
      | command =>
          rw [Denoted.resolve, commandExpr, command_handle] at hn
          obtain ⟨hx, rfl⟩ := commandNamed_ok.1 hn
          rw [Denoted.found?, commandExpr, find?, hx]
          rfl
      | group =>
          rw [Denoted.resolve, groupExpr, groupOwner_handle] at hn
          obtain ⟨⟨b, hb, rfl⟩, rfl⟩ := ownerNamed_ok.1 hn
          rw [Denoted.found?, groupExpr, findOwner?, hb]
          rfl
  | @link d d' x y object arguments name hm h ha ih =>
      cases hm with
      | addSubparsers =>
          rw [Denoted.resolve_addSubparsers] at hn
          rw [Denoted.found?, groupExpr_addSubparsers, findOwner?]
          exact ih hr hn
      | argumentGroup hg =>
          rw [Denoted.resolve_argumentGroup hg] at hn
          rw [Denoted.found?, commandExpr_argumentGroup hg, find?]
          exact ih hr hn
      | addParser =>
          have hplain := commandExpr_plain o (.call x (.member y object addParser) arguments)
          rw [commandExpr_addParser] at hplain
          rw [Denoted.resolve, commandExpr_addParser] at hn
          obtain ⟨owner, r₁, m, hg, h₁, hm, hle, hc⟩ := command_added_cases hr hn
          have ho := findOwner?_mono hle _ (fun _ _ => rfl) (ih hr hg)
          have hb : r'.bindings = r₁.bindings := by
            rw [groupOwner_bindings _ (groupExpr_plain o object) hg]
            exact command_bindings_plain hplain hn
          have hchild : r'.child? owner m = some id := by
            rcases hc with ⟨hc, rfl⟩ | ⟨hc, ids, r₂, hp, h₂, -, rfl, rfl⟩
            · exact hc
            · rw [commands_simple (Call.parents_simple ha) hp] at h₂ ⊢
              exact h₂.numbered.child?_addCommand hc
          rw [Denoted.found?, commandExpr_addParser, Call.addition, find?, hb, ho, hm]
          exact hchild

theorem steps_of_found (h : n.Chain d) (hf : d.found? o r n = some id) :
    Registering.steps hints (n.steps o) r = .ok ((), r) := by
  induction h generalizing id with
  | base => rfl
  | @link d d' x y object arguments name hm h ha ih =>
      have hcalls : (Node.call x (.member y object name) arguments).calls =
          ⟨[], x, .member y object name, arguments⟩ :: object.calls := by
        rw [calls, method_calls, ha, List.append_nil]
      have hsteps : (Node.call x (.member y object name) arguments).steps o =
          (Call.step? o ⟨[], x, .member y object name, arguments⟩).toList ++ object.steps o := by
        rw [Node.steps, hcalls, List.filterMap_cons]
        cases Call.step? o ⟨[], x, .member y object name, arguments⟩ <;> rfl
      rw [hsteps]
      cases hm with
      | addSubparsers =>
          rw [Denoted.found?, groupExpr_addSubparsers, findOwner?] at hf
          rw [Call.step?_of_unassigned_value rfl rfl (.inl rfl)]
          exact ih hf
      | argumentGroup hg =>
          rw [Denoted.found?, commandExpr_argumentGroup hg, find?] at hf
          rw [Call.step?_of_unassigned_value rfl rfl (.inr hg)]
          exact ih hf
      | addParser =>
          have hrun := command_of_find? _ (commandExpr_plain o _) hf
          rw [Denoted.found?, commandExpr_addParser, Call.addition, find?] at hf
          obtain ⟨owner, ho, -⟩ := Option.bind_eq_some_iff.1 hf
          have hs : Call.step? o ⟨[], x, .member y object addParser, arguments⟩ =
              some (.command (commandExpr o (.call x (.member y object addParser) arguments))) := by
            rw [commandExpr_addParser, Call.step?_of_addParser rfl]
          rw [hs]
          exact steps_cons_ok.2 ⟨r, step_command_ok.2 ⟨id, hrun⟩, ih ho⟩

end Node.Chain

end CliCompletion
