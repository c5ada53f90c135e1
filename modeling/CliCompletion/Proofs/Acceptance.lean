import CliCompletion.Proofs.Calls

namespace CliCompletion

mutual

def CommandExpr.orphan : CommandExpr → CommandExpr
  | .handle name line => .handle name line
  | .added group name targets _ line => .added group.orphan name targets [] line
  | .grouped owner => .grouped owner.orphan
  | .refused e => .refused e

def GroupExpr.orphan : GroupExpr → GroupExpr
  | .handle name line => .handle name line
  | .opened owner => .opened owner.orphan
  | .refused e => .refused e

end

def Binding.isGroup : Binding → Bool
  | command _ => false
  | group _ => true

namespace Registry

variable {r r' : Registry} {targets : List String} {id id' : CommandId} {name : String}

def SameKinds (r r' : Registry) : Prop :=
  ∀ x, (r'.bindings x).map Binding.isGroup = (r.bindings x).map Binding.isGroup

theorem SameKinds.bind (h : r.SameKinds r') {b b' : Binding} (hb : b'.isGroup = b.isGroup) :
    (r.bind targets b).SameKinds (r'.bind targets b') := by
  intro x
  simp only [Registry.bind]
  split
  · exact congrArg some hb
  · exact h x

theorem SameKinds.bindCommand (h : r.SameKinds r') (id id' : CommandId) :
    (r.bind targets (.command id)).SameKinds (r'.bind targets (.command id')) :=
  h.bind rfl

theorem SameKinds.of_bindings (h : r.SameKinds r') {q q' : Registry} (hq : q.bindings = r.bindings)
    (hq' : q'.bindings = r'.bindings) : q.SameKinds q' := by
  intro x
  rw [hq, hq']
  exact h x

theorem SameKinds.command (h : r.SameKinds r') (hc : r.bindings name = some (.command id)) :
    ∃ id', r'.bindings name = some (.command id') := by
  have hk := h name
  rw [hc] at hk
  obtain ⟨b, hb, hg⟩ := Option.map_eq_some_iff.1 hk
  cases b with
  | command id' => exact ⟨id', hb⟩
  | group owner => cases hg

theorem SameKinds.bound (h : r.SameKinds r') {b : Binding} (hb : r.bindings name = some b) :
    ∃ b', r'.bindings name = some b' := by
  have hk := h name
  rw [hb] at hk
  obtain ⟨b', hb', -⟩ := Option.map_eq_some_iff.1 hk
  exact ⟨b', hb'⟩

end Registry

namespace Registering

open Registry

mutual

theorem command_orphan : ∀ (e : CommandExpr) {r r' r₁ : Registry} {id : CommandId},
    e.InnerPlain → r.SameKinds r' → command e r = .ok (id, r₁) →
      ∃ id' r₁', command e.orphan r' = .ok (id', r₁') ∧ r₁.SameKinds r₁'
  | .handle name line, r, r', r₁, id, hp, h, he => by
      rw [command_handle] at he
      obtain ⟨hb, rfl⟩ := commandNamed_ok.1 he
      obtain ⟨id', hb'⟩ := h.command hb
      rw [CommandExpr.orphan, command_handle]
      exact ⟨id', r', commandNamed_ok.2 ⟨hb', rfl⟩, h⟩
  | .grouped owner, r, r', r₁, id, hp, h, he => by
      rw [CommandExpr.orphan, command_grouped]
      exact command_orphan owner hp.owner.inner h (command_grouped ▸ he)
  | .refused e, r, r', r₁, id, hp, h, he => by
      rw [command_refused] at he
      cases he
  | .added group name targets parents line, r, r', r₁, id, hp, h, he => by
      obtain ⟨owner, r₂, n, hg, hn, ha⟩ := command_added_ok.1 he
      obtain ⟨owner', r₂', hg', h₂⟩ := groupOwner_orphan group hp.1 h hg
      -- The name may be taken in one run and free in the other, when calls in `parents` add it;
      -- either way the targets come to stand for a command.
      have hbound : ∀ id', r₁.SameKinds (r₂'.bind targets (.command id')) := by
        intro id'
        rcases ha with ⟨-, rfl⟩ | ⟨-, ids, r₃, hps, ha⟩
        · exact h₂.bind rfl
        · obtain ⟨rfl, rfl⟩ := Prod.ext_iff.1 ha
          have h₃ := h₂.of_bindings (commands_bindings parents hp.2 hps) rfl
          exact (h₃.bindCommand _ id').of_bindings addCommand_bindings rfl
      rw [CommandExpr.orphan]
      cases hc : r₂'.child? owner' n with
      | some id' =>
          exact ⟨id', _, command_added_ok.2 ⟨owner', r₂', n, hg', hn, .inl ⟨hc, rfl⟩⟩, hbound id'⟩
      | none =>
          refine ⟨_, _, command_added_ok.2 ⟨owner', r₂', n, hg', hn,
            .inr ⟨hc, [], r₂', commands_nil_ok.2 ⟨rfl, rfl⟩, rfl⟩⟩, ?_⟩
          exact (hbound _).of_bindings rfl addCommand_bindings

theorem groupOwner_orphan : ∀ (g : GroupExpr) {r r' r₁ : Registry} {id : CommandId},
    g.Plain → r.SameKinds r' → groupOwner g r = .ok (id, r₁) →
      ∃ id' r₁', groupOwner g.orphan r' = .ok (id', r₁') ∧ r₁.SameKinds r₁'
  | .handle name line, r, r', r₁, id, hp, h, hg => by
      rw [groupOwner_handle] at hg
      obtain ⟨⟨b, hb, -⟩, rfl⟩ := ownerNamed_ok.1 hg
      obtain ⟨b', hb'⟩ := h.bound hb
      rw [GroupExpr.orphan, groupOwner_handle]
      exact ⟨b'.owner, r', ownerNamed_ok.2 ⟨⟨b', hb', rfl⟩, rfl⟩, h⟩
  | .opened owner, r, r', r₁, id, hp, h, hg => by
      rw [GroupExpr.Plain] at hp
      rw [GroupExpr.orphan, groupOwner_opened]
      exact command_orphan owner hp.inner h (groupOwner_opened ▸ hg)
  | .refused e, r, r', r₁, id, hp, h, hg => by
      rw [groupOwner_refused] at hg
      cases hg

end

end Registering

inductive Step.Orphaned : Step → Step → Prop
  | parser {targets : List String} {parents : List CommandExpr} {line : Nat}
      (hp : CommandExpr.AllPlain parents) :
      Orphaned (.parser targets parents line) (.parser targets [] line)
  | subparsers {targets : List String} {owner : CommandExpr} (hp : owner.InnerPlain) :
      Orphaned (.subparsers targets owner) (.subparsers targets owner.orphan)
  | argumentGroup {targets : List String} {owner : CommandExpr} (hp : owner.InnerPlain) :
      Orphaned (.argumentGroup targets owner) (.argumentGroup targets owner.orphan)
  | command {e : CommandExpr} (hp : e.InnerPlain) : Orphaned (.command e) (.command e.orphan)
  | argument {owner : CommandExpr} {content content' : Except ExtractionError Declaration}
      {lastLine : Nat} (hp : owner.InnerPlain)
      (hc : ∀ d, content = .ok d → ∃ d', content' = .ok d') :
      Orphaned (.argument owner content lastLine) (.argument owner.orphan content' lastLine)

namespace Registering

open Registry

variable {hints : List Hint} {r r' r₁ : Registry}

theorem step_orphaned {s s' : Step} (hs : s.Orphaned s') (h : r.SameKinds r')
    (hr : step hints s r = .ok ((), r₁)) :
    ∃ r₁', step hints s' r' = .ok ((), r₁') ∧ r₁.SameKinds r₁' := by
  cases hs with
  | parser hp =>
      obtain ⟨ids, r₂, hps, rfl⟩ := step_parser_ok.1 hr
      refine ⟨_, step_parser_ok.2 ⟨[], r', commands_nil_ok.2 ⟨rfl, rfl⟩, rfl⟩, ?_⟩
      have h₂ := h.of_bindings (commands_bindings _ hp hps) rfl
      exact (h₂.bindCommand _ _).of_bindings addCommand_bindings addCommand_bindings
  | subparsers hp =>
      obtain ⟨id, r₂, ho, rfl⟩ := step_subparsers_ok.1 hr
      obtain ⟨id', r₂', ho', h₂⟩ := command_orphan _ hp h ho
      exact ⟨_, step_subparsers_ok.2 ⟨id', r₂', ho', rfl⟩, h₂.bind rfl⟩
  | argumentGroup hp =>
      obtain ⟨id, r₂, ho, rfl⟩ := step_argumentGroup_ok.1 hr
      obtain ⟨id', r₂', ho', h₂⟩ := command_orphan _ hp h ho
      exact ⟨_, step_argumentGroup_ok.2 ⟨id', r₂', ho', rfl⟩, h₂.bind rfl⟩
  | command hp =>
      obtain ⟨id, he⟩ := step_command_ok.1 hr
      obtain ⟨id', r₁', he', h₁⟩ := command_orphan _ hp h he
      exact ⟨r₁', step_command_ok.2 ⟨id', he'⟩, h₁⟩
  | argument hp hc =>
      obtain ⟨id, r₂, d, ho, hd, rfl⟩ := step_argument_ok.1 hr
      obtain ⟨id', r₂', ho', h₂⟩ := command_orphan _ hp h ho
      obtain ⟨d', hd'⟩ := hc d hd
      exact ⟨_, step_argument_ok.2 ⟨id', r₂', d', ho', hd', rfl⟩, h₂.of_bindings rfl rfl⟩

theorem steps_orphaned {ss ss' : List Step} (hss : List.Forall₂ Step.Orphaned ss ss')
    (h : r.SameKinds r') (hr : steps hints ss r = .ok ((), r₁)) :
    ∃ r₁', steps hints ss' r' = .ok ((), r₁') := by
  induction hss generalizing r r' with
  | nil => exact ⟨r', steps_nil_ok.2 rfl⟩
  | cons hs _ ih =>
      obtain ⟨r₂, hstep, hrest⟩ := steps_cons_ok.1 hr
      obtain ⟨r₂', hstep', h₂⟩ := step_orphaned hs h hstep
      obtain ⟨r₁', hrest'⟩ := ih h₂ hrest
      exact ⟨r₁', steps_cons_ok.2 ⟨r₂', hstep', hrest'⟩⟩

theorem step_keys_ne_nil {s : Step} (h : r.Sound) (hs : step hints s r = .ok ((), r')) :
    r'.commands.keys ≠ [] := by
  have howner : ∀ {e : CommandExpr} {id : CommandId} {r₁ : Registry},
      command e r = .ok (id, r₁) → r₁.commands.keys ≠ [] := fun he =>
    List.ne_nil_of_mem (command_reaches _ h he).2
  cases s with
  | parser targets parents line =>
      obtain ⟨ids, r₁, hp, rfl⟩ := step_parser_ok.1 hs
      exact List.ne_nil_of_mem (mem_keys_addCommand ((commands_reaches parents h hp).1.sound h))
  | subparsers targets owner =>
      obtain ⟨i, r₁, ho, rfl⟩ := step_subparsers_ok.1 hs
      exact (howner ho : r₁.commands.keys ≠ [])
  | argumentGroup targets owner =>
      obtain ⟨i, r₁, ho, rfl⟩ := step_argumentGroup_ok.1 hs
      exact (howner ho : r₁.commands.keys ≠ [])
  | command e =>
      obtain ⟨i, he⟩ := step_command_ok.1 hs
      exact howner he
  | argument owner content lastLine =>
      obtain ⟨i, r₁, d, ho, -, rfl⟩ := step_argument_ok.1 hs
      exact (howner ho : r₁.commands.keys ≠ [])

end Registering

namespace Registry

theorem Sound.exists_tree {r : Registry} (h : r.Sound) (hn : r.commands.keys ≠ []) :
    ∃ t, r.tree = .ok t := by
  -- Nothing stands before the first command, so it has no parent.
  obtain ⟨e, rest, he⟩ := List.exists_cons_of_ne_nil (fun h => hn (congrArg (List.map _) h))
  have hp : e.2.parent = none := by
    rw [Option.eq_none_iff_forall_ne_some]
    intro p hp
    cases h.grounded [] e rest he p (.inl hp)
  have htop : r.topLevel ≠ [] := by
    refine List.ne_nil_of_mem (a := e.2) (List.mem_filter.2 ⟨?_, by rw [hp]; rfl⟩)
    exact List.mem_map_of_mem (he ▸ List.mem_cons_self ..)
  have hroot : r.root? ≠ none := by
    rw [root?, Ne, Option.map_eq_none_iff, Option.or_eq_none_iff, Option.or_eq_none_iff,
      List.getLast?_eq_none_iff]
    exact fun hr => htop hr.2.2
  obtain ⟨root, hroot⟩ := Option.ne_none_iff_exists'.1 hroot
  exact ⟨_, tree_ok.2 ⟨root, hroot, rfl⟩⟩

end Registry

namespace CommandTree

open Registering

theorem exists_ofSteps_orphaned {hints : List Hint} {ss ss' : List Step} {t : CommandTree}
    (hss : List.Forall₂ Step.Orphaned ss ss') (h : ofSteps hints ss = .ok t) :
    ∃ t', ofSteps hints ss' = .ok t' := by
  obtain ⟨r, hr, ht⟩ := ofSteps_ok.1 h
  obtain ⟨r', hr'⟩ := steps_orphaned hss (fun _ => rfl) hr
  have hs := sound_of_steps hr'
  have hn : r'.commands.keys ≠ [] := by
    cases hss with
    | nil =>
        rw [steps_nil_ok.1 hr] at ht
        cases ht
    | cons _ _ =>
        obtain ⟨r₁, hstep, hrest⟩ := steps_cons_ok.1 hr'
        have h₁ := (step_reaches Registry.sound_empty hstep).sound Registry.sound_empty
        obtain ⟨id, hid⟩ := List.exists_mem_of_ne_nil _ (step_keys_ne_nil Registry.sound_empty hstep)
        exact List.ne_nil_of_mem ((steps_reaches h₁ hrest).mem_keys h₁ hid)
  obtain ⟨t', ht'⟩ := hs.exists_tree hn
  exact ⟨t', ofSteps_ok.2 ⟨r', hr', ht'⟩⟩

end CommandTree

end CliCompletion
