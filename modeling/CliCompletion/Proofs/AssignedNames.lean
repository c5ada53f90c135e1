import CliCompletion.Proofs.Occurrences
import CliCompletion.Proofs.Revisits

namespace CliCompletion

open Vocabulary

namespace Registry

variable {r r₁ : Registry} {targets : List String} {name t x : String}
  {parent : Option CommandId} {inherits : List CommandId} {line : Nat} {id : CommandId}

structure KeyedBy (r : Registry) (t : String) (id : CommandId) : Prop where
  free : CommandId.handle t ∉ r.commands.keys → id = .handle t
  taken : CommandId.handle t ∈ r.commands.keys → ∃ k, id = .anonymous k

theorem keyedBy_allocate (r : Registry) (ht : targets.head? = some t) :
    r.KeyedBy t (r.allocate targets).1 := by
  obtain ⟨rest, rfl⟩ := List.head?_eq_some_iff.1 ht
  constructor
  · intro hfree
    rw [allocate, has, if_neg (mt OrderedMap.contains_iff.1 hfree)]
  · intro htaken
    exact ⟨r.nextAnonymous, by rw [allocate, has, if_pos (OrderedMap.contains_iff.2 htaken)]⟩

theorem KeyedBy.congr (h : r₁.KeyedBy t id)
    (hh : CommandId.handle t ∈ r₁.commands.keys ↔ CommandId.handle t ∈ r.commands.keys) :
    r.KeyedBy t id :=
  ⟨fun hfree => h.free (mt hh.1 hfree), fun htaken => h.taken (hh.2 htaken)⟩

theorem Numbered.handle_mem_addCommand (h : r.Numbered) (hx : targets.head? ≠ some x) :
    CommandId.handle x ∈ (r.addCommand targets name parent inherits line).2.commands.keys ↔
      CommandId.handle x ∈ r.commands.keys := by
  rw [h.addCommand_keys, List.mem_append, List.mem_singleton]
  refine or_iff_left fun hid => ?_
  rcases r.allocate_cases targets with ⟨handle, hhead, -, he⟩ | he
  · rw [he] at hid
    cases hid
    exact hx hhead
  · rw [he] at hid
    cases hid

theorem Sound.child?_last (h : r.Sound) (hl : r.commands.keys.getLast? = some id) :
    r.child? id name = none := by
  refine Option.map_eq_none_iff.2 (List.find?_eq_none.2 fun c hc hchild => ?_)
  have hparent : c.parent = some id := by
    rw [Bool.and_eq_true, beq_iff_eq] at hchild
    exact hchild.1
  obtain ⟨e, he, rfl⟩ := List.mem_map.1 hc
  obtain ⟨before, after, hentries⟩ := List.append_of_mem he
  have hearlier := h.grounded before e after hentries id (.inl hparent)
  have hkeys : r.commands.keys = before.map (·.1) ++ (e :: after).map (·.1) := by
    rw [OrderedMap.keys, hentries, List.map_append]
  have hlater : id ∈ (e :: after).map (·.1) := by
    rw [hkeys, List.getLast?_append_of_ne_nil _ (by simp)] at hl
    exact List.mem_of_getLast? hl
  have hd : r.commands.keys.Nodup := r.commands.distinct
  rw [hkeys] at hd
  exact (List.nodup_append.1 hd).2.2 id hearlier id hlater rfl

end Registry

namespace Registering

open Registry

variable {o : ExtractionOptions} {hints : List Hint} {c : Call} {r r' : Registry}
  {id : CommandId} {x t : String}

mutual

theorem command_handles : ∀ (e : CommandExpr) {r r' : Registry} {id : CommandId},
    e.InnerPlain → r.Sound → command e r = .ok (id, r') → ∀ x, e.targets.head? ≠ some x →
      (CommandId.handle x ∈ r'.commands.keys ↔ CommandId.handle x ∈ r.commands.keys)
  | .handle y line, r, r', id, hp, h, he, x, hx => by
      rw [command_handle] at he
      rw [(commandNamed_ok.1 he).2]
  | .grouped owner, r, r', id, hp, h, he, x, hx =>
      command_handles owner hp.owner.inner h (command_grouped ▸ he) x
        (by simp [hp.owner.targets])
  | .refused e, r, r', id, hp, h, he, x, hx => by
      rw [command_refused] at he
      cases he
  | .added group name targets parents line, r, r', id, hp, h, he, x, hx => by
      obtain ⟨owner, r₁, n, hg, h₁, -, -, ha⟩ := command_added_cases h he
      rw [← groupOwner_handles group hp.1 h hg]
      rcases ha with ⟨-, rfl⟩ | ⟨-, ids, r₂, hps, h₂, -, -, rfl⟩
      · rfl
      · have hx : targets.head? ≠ some x := hx
        rw [h₂.numbered.handle_mem_addCommand hx, commands_handles parents hp.2 h₁ hps]

theorem groupOwner_handles : ∀ (g : GroupExpr) {r r' : Registry} {id : CommandId},
    g.Plain → r.Sound → groupOwner g r = .ok (id, r') → ∀ {x : String},
      (CommandId.handle x ∈ r'.commands.keys ↔ CommandId.handle x ∈ r.commands.keys)
  | .handle y line, r, r', id, hp, h, hg, x => by
      rw [groupOwner_handle] at hg
      rw [(ownerNamed_ok.1 hg).2]
  | .opened owner, r, r', id, hp, h, hg, x => by
      rw [GroupExpr.Plain] at hp
      exact command_handles owner hp.inner h (groupOwner_opened ▸ hg) x (by simp [hp.targets])
  | .refused e, r, r', id, hp, h, hg, x => by
      rw [groupOwner_refused] at hg
      cases hg

theorem commands_handles : ∀ (es : List CommandExpr) {r r' : Registry} {ids : List CommandId},
    CommandExpr.AllPlain es → r.Sound → commands es r = .ok (ids, r') → ∀ {x : String},
      (CommandId.handle x ∈ r'.commands.keys ↔ CommandId.handle x ∈ r.commands.keys)
  | [], r, r', ids, hp, h, hes, x => by
      rw [(commands_nil_ok.1 hes).2]
  | e :: es, r, r', ids, hp, h, hes, x => by
      obtain ⟨i, is, r₁, he, hrest, -⟩ := commands_cons_ok.1 hes
      rw [CommandExpr.AllPlain] at hp
      have h₁ := (command_reaches e h he).1.sound h
      rw [commands_handles es hp.2 h₁ hrest]
      exact command_handles e hp.1.inner h he x (by simp [hp.1.targets])

end

-- What an expression is evaluated to is registered last, if anything is: commands in `parents` come
-- before the one that they are listed for.
mutual

theorem command_last : ∀ (e : CommandExpr) {r r' : Registry} {id : CommandId}, r.Sound →
    command e r = .ok (id, r') →
      r'.commands = r.commands ∨ r'.commands.keys.getLast? = some id
  | .handle x line, r, r', id, h, he => by
      rw [command_handle] at he
      rw [(commandNamed_ok.1 he).2]
      exact .inl rfl
  | .grouped owner, r, r', id, h, he => command_last owner h (command_grouped ▸ he)
  | .refused e, r, r', id, h, he => by
      rw [command_refused] at he
      cases he
  | .added group name targets parents line, r, r', id, h, he => by
      obtain ⟨owner, r₁, n, hg, h₁, -, -, ha⟩ := command_added_cases h he
      rcases ha with ⟨hc, rfl⟩ | ⟨-, ids, r₂, -, h₂, -, rfl, rfl⟩
      · rcases groupOwner_last group h hg with hsame | hl
        · exact .inl hsame
        · rw [h₁.child?_last hl] at hc
          cases hc
      · rw [h₂.numbered.addCommand_keys, addCommand_fst]
        exact .inr List.getLast?_concat

theorem groupOwner_last : ∀ (g : GroupExpr) {r r' : Registry} {id : CommandId}, r.Sound →
    groupOwner g r = .ok (id, r') →
      r'.commands = r.commands ∨ r'.commands.keys.getLast? = some id
  | .handle x line, r, r', id, h, hg => by
      rw [groupOwner_handle] at hg
      rw [(ownerNamed_ok.1 hg).2]
      exact .inl rfl
  | .opened owner, r, r', id, h, hg => command_last owner h (groupOwner_opened ▸ hg)
  | .refused e, r, r', id, h, hg => by
      rw [groupOwner_refused] at hg
      cases hg

end

theorem call_handles (h : r.Sound) (hw : walk o hints [c] r = .ok ((), r'))
    (hx : c.targets.head? ≠ some x) :
    CommandId.handle x ∈ r'.commands.keys ↔ CommandId.handle x ∈ r.commands.keys := by
  rcases call_cases hw with ⟨-, rfl⟩ | ⟨s, hs, hstep⟩
  · rfl
  · rcases Call.step?_cases hs with ⟨rfl, -⟩ | ⟨y, object, -, rfl⟩ | ⟨y, object, name, -, ho, -⟩
    · obtain ⟨ids, r₁, hps, rfl⟩ := step_parser_ok.1 hstep
      have h₁ := (commands_reaches _ h hps).1.sound h
      rw [h₁.numbered.handle_mem_addCommand hx, commands_handles _ (c.parents_plain o) h hps]
    · obtain ⟨id, he⟩ := step_command_ok.1 hstep
      exact command_handles _ (c.addition_plain o object c.targets) h he x hx
    · obtain ⟨id, r₁, he, hcs, -⟩ := step_owner_ok ho hstep
      have hp := Node.commandExpr_plain o object
      rw [hcs]
      exact command_handles _ hp.inner h he x (by simp [hp.targets])

section Added

variable {group : GroupExpr} {name : Except ExtractionError String} {targets : List String}
  {parents : List CommandExpr} {line : Nat}

theorem command_binds (he : command (.added group name targets parents line) r = .ok (id, r')) :
    ∀ x ∈ targets, r'.bindings x = some (.command id) := by
  intro x hx
  obtain ⟨owner, r₁, n, -, -, ⟨-, rfl⟩ | ⟨-, ids, r₂, -, ha⟩⟩ := command_added_ok.1 he
  · exact bind_bindings_of_mem hx _
  · obtain ⟨rfl, rfl⟩ := Prod.ext_iff.1 ha
    rw [addCommand_bindings]
    exact bind_bindings_of_mem hx _

theorem command_keyed (hp : (CommandExpr.added group name targets parents line).InnerPlain)
    (h : r.Sound) (he : command (.added group name targets parents line) r = .ok (id, r'))
    (hid : id ∉ r.commands.keys) (ht : targets.head? = some t) : r.KeyedBy t id := by
  obtain ⟨owner, r₁, n, hg, h₁, -, -, ha⟩ := command_added_cases h he
  rcases ha with ⟨hc, -⟩ | ⟨-, ids, r₂, hps, -, -, rfl, -⟩
  · -- A command that the group has already is new only if its group is, and that has none yet.
    rcases groupOwner_last group h hg with hsame | hl
    · exact absurd (hsame ▸ mem_keys_of_child? h₁ hc) hid
    · rw [h₁.child?_last hl] at hc
      cases hc
  · exact (keyedBy_allocate r₂ ht).congr
      ((commands_handles parents hp.2 h₁ hps).trans (groupOwner_handles group hp.1 h hg))

end Added

end Registering

namespace Call

open Registering

variable {o : ExtractionOptions} {hints : List Hint} {c : Call} {r r' : Registry} {name : String}

def Invokes (c : Call) (name : String) : Prop :=
  ∃ x object, c.function = .member x object name

def Valued (c : Call) : Prop :=
  c.makesParser = true ∨ ∃ name ∈ addSubparsers :: addParser :: argumentGroups, c.Invokes name

def value? (o : ExtractionOptions) (c : Call) : Option CommandExpr :=
  match c.function with
  | .member _ object name =>
      if name = addParser then some (c.addition o object c.targets)
      else if name ∈ addSubparsers :: argumentGroups then some (Node.commandExpr o object)
      else none
  | _ => none

structure Binds (o : ExtractionOptions) (c : Call) (r r' : Registry) (b : Binding) : Prop where
  bound : ∀ x ∈ c.targets, r'.bindings x = some b
  known : b.owner ∈ r'.commands.keys
  isGroup : (∃ owner, b = .group owner) ↔ c.Invokes addSubparsers
  denoted : ∀ e, c.value? o = some e → ∃ r₁, command e r = .ok (b.owner, r₁)
  new : c.makesParser = true → b.owner ∉ r.commands.keys
  keyed : c.makesParser = true ∨ c.Invokes addParser → b.owner ∉ r.commands.keys →
    ∀ t, c.targets.head? = some t → r.KeyedBy t b.owner

structure Settles (o : ExtractionOptions) (c : Call) (r r' : Registry) : Prop where
  kept : ∀ x, x ∉ c.targets → r'.bindings x = r.bindings x
  handles : ∀ x, c.targets.head? ≠ some x →
    (CommandId.handle x ∈ r'.commands.keys ↔ CommandId.handle x ∈ r.commands.keys)
  bound : c.Valued → c.targets ≠ [] → ∃ b, c.Binds o r r' b

theorem invokes_iff {y : Extent} {object : Node} {name' : String}
    (hf : c.function = .member y object name) : c.Invokes name' ↔ name' = name := by
  constructor
  · rintro ⟨y', object', hf'⟩
    rw [hf] at hf'
    cases hf'
    rfl
  · rintro rfl
    exact ⟨y, object, hf⟩

theorem invokes_of_addsParser (h : c.addsParser = true) : c.Invokes addParser := by
  unfold addsParser at h
  split at h
  · rename_i y object name hf
    exact ⟨y, object, eq_of_beq h ▸ hf⟩
  · cases h

theorem value?_eq_some_iff {y : Extent} {object : Node} {e : CommandExpr}
    (hf : c.function = .member y object name) (hn : name ∈ addSubparsers :: argumentGroups) :
    c.value? o = some e ↔ e = Node.commandExpr o object := by
  have hne : ∀ n ∈ addSubparsers :: argumentGroups, n ≠ addParser := by decide
  simp only [value?, hf, if_neg (hne name hn), if_pos hn, Option.some.injEq, eq_comm]

theorem makesParser_eq_false {y : Extent} {object : Node}
    (hf : c.function = .member y object name) (hn : name ≠ parserClass) :
    c.makesParser = false := by
  simp [makesParser, hf, hn]

section Visited

variable (h : r.Sound) (hw : walk o hints [c] r = .ok ((), r'))

include h

theorem binds_bind {y : Extent} {object : Node} {r₁ : Registry} {b : Binding}
    (hf : c.function = .member y object name) (hn : name ∈ addSubparsers :: argumentGroups)
    (hb : (∃ owner, b = .group owner) ↔ name = addSubparsers)
    (he : command (Node.commandExpr o object) r = .ok (b.owner, r₁)) :
    c.Binds o r (r₁.bind c.targets b) b := by
  have hne : ∀ n ∈ addSubparsers :: argumentGroups, n ≠ parserClass ∧ n ≠ addParser := by decide
  obtain ⟨hp, ha⟩ := hne name hn
  refine ⟨fun _ hx => Registry.bind_bindings_of_mem hx b, (command_reaches _ h he).2, ?_, ?_, ?_,
    ?_⟩
  · rw [hb, invokes_iff hf, eq_comm]
  · intro e hv
    rw [(value?_eq_some_iff hf hn).1 hv]
    exact ⟨r₁, he⟩
  · simp [makesParser_eq_false hf hp]
  · simp [makesParser_eq_false hf hp, invokes_iff hf, Ne.symm ha]

include hw

theorem exists_binds_of_makesParser (hc : c.makesParser = true) : ∃ b, c.Binds o r r' b := by
  obtain ⟨ids, r₁, hps, rfl⟩ := step_parser_ok.1 (call_step_ok (step?_of_makesParser hc) hw)
  have hr := (commands_reaches _ h hps).1
  have h₁ := hr.sound h
  have hno : ∀ y object name, c.function = .member y object name → name = parserClass := by
    intro y object name hf
    refine Classical.byContradiction fun hn => ?_
    rw [makesParser_eq_false hf hn] at hc
    cases hc
  refine ⟨.command (r₁.allocate c.targets).1, ?_, Registry.mem_keys_addCommand h₁, ?_, ?_, ?_, ?_⟩
  · intro x hx
    rw [Registry.addCommand_bindings]
    exact Registry.bind_bindings_of_mem hx _
  · refine ⟨fun ⟨owner, hb⟩ => (nomatch hb), fun ⟨y, object, hf⟩ => ?_⟩
    exact absurd (hno y object _ hf) (by decide)
  · intro e he
    unfold value? at he
    split at he
    · rename_i y object name hf
      have hn : parserClass ≠ addParser ∧ parserClass ∉ addSubparsers :: argumentGroups := by
        decide
      rw [hno y object name hf, if_neg hn.1, if_neg hn.2] at he
      cases he
    · cases he
  · intro _ hid
    exact h₁.numbered.allocate_not_mem c.targets (hr.mem_keys h hid)
  · intro _ _ t ht
    exact (Registry.keyedBy_allocate r₁ ht).congr (commands_handles _ (c.parents_plain o) h hps)

theorem exists_binds_of_addParser {y : Extent} {object : Node}
    (hf : c.function = .member y object addParser) : ∃ b, c.Binds o r r' b := by
  obtain ⟨id, he⟩ := step_command_ok.1 (call_step_ok (step?_of_addParser hf) hw)
  refine ⟨.command id, command_binds he, (command_reaches _ h he).2, ?_, ?_, ?_, ?_⟩
  · refine ⟨fun ⟨owner, hb⟩ => (nomatch hb), fun hi => ?_⟩
    exact absurd ((invokes_iff hf).1 hi) (by decide)
  · intro e hv
    rw [value?, hf] at hv
    dsimp only at hv
    rw [if_pos rfl] at hv
    cases hv
    exact ⟨r', he⟩
  · intro hc
    rw [makesParser_eq_false hf (by decide)] at hc
    cases hc
  · intro _ hid t ht
    exact command_keyed (c.addition_plain o object c.targets) h he hid ht

theorem exists_binds_of_addSubparsers {y : Extent} {object : Node}
    (hf : c.function = .member y object addSubparsers) (ht : c.targets ≠ []) :
    ∃ b, c.Binds o r r' b := by
  obtain ⟨id, r₁, he, rfl⟩ := step_subparsers_ok.1 (call_step_ok (step?_of_addSubparsers hf ht) hw)
  exact ⟨.group id, binds_bind h hf (List.mem_cons_self ..) (by simp) he⟩

theorem exists_binds_of_argumentGroup {y : Extent} {object : Node}
    (hf : c.function = .member y object name) (hn : name ∈ argumentGroups) (ht : c.targets ≠ []) :
    ∃ b, c.Binds o r r' b := by
  have hne : ∀ n ∈ argumentGroups, n ≠ addSubparsers := by decide
  obtain ⟨id, r₁, he, rfl⟩ :=
    step_argumentGroup_ok.1 (call_step_ok (step?_of_argumentGroup hf hn ht) hw)
  exact ⟨.command id, binds_bind h hf (List.mem_cons_of_mem _ hn) (by simp [hne name hn]) he⟩

theorem exists_binds (hc : c.Valued) (ht : c.targets ≠ []) : ∃ b, c.Binds o r r' b := by
  rcases hc with hc | ⟨name, hn, y, object, hf⟩
  · exact exists_binds_of_makesParser h hw hc
  · rcases List.mem_cons.1 hn with rfl | hn
    · exact exists_binds_of_addSubparsers h hw hf ht
    · rcases List.mem_cons.1 hn with rfl | hn
      · exact exists_binds_of_addParser h hw hf
      · exact exists_binds_of_argumentGroup h hw hf hn ht

theorem settles : c.Settles o r r' where
  kept := fun _ hx => call_bindings hw hx
  handles := fun _ hx => call_handles h hw hx
  bound := exists_binds h hw

end Visited

end Call

namespace Registering

theorem visits_bind_assigned_names (o : ExtractionOptions) (hints : List Hint) :
    (∀ n : Node, (∀ p : Occurrence, p ∈ n.occurrences ↔ p.whole = n) ∧
      n.occurrences.map (·.node) = n.preorder ∧
      List.Forall₂ Call.StandsAt (n.occurrences.filter (·.node.isCall)) n.calls) ∧
    ∀ (cs : List Call) (c : Call) (r r' : Registry), Visit o hints cs .empty c r r' →
      c.Settles o r r' := by
  constructor
  · intro n
    exact ⟨fun p => Node.mem_occurrences_iff, n.map_node_occurrencesIn [],
      n.callsInto_standAt []⟩
  · intro cs c r r' hv
    exact Call.settles (hv.sound Registry.sound_empty) hv.taken

def takenHandle : List Char :=
  "p = q = ArgumentParser()
g = p.add_subparsers()
a: Parser = b.c = q = g.add_parser(\"x\", parents=[g.add_parser(\"y\")])
".toList

theorem bound_names_of_taken_handle : ∃ (n : Node) (p : Occurrence) (c : Call) (r r' : Registry)
    (b : Binding), Node.ofSource takenHandle = .ok n ∧ p ∈ n.occurrences ∧ p.whole = n ∧
      Call.StandsAt p c ∧ p.AssignedTo ["q", "a"] ∧ Visit ⟨"m", []⟩ [] n.calls .empty c r r' ∧
      c.Settles ⟨"m", []⟩ r r' ∧ c.Valued ∧ c.Binds ⟨"m", []⟩ r r' b ∧ r'.bindings "q" = some b ∧
      r'.bindings "a" = some b ∧ b.owner ∉ r.commands.keys ∧ ∃ k, b.owner = .anonymous k := by
  have hrun : (Node.ofSource takenHandle).toOption.any (fun n =>
      (n.calls.map fun c => (c.targets, c.addsParser)) ==
        [(["q", "p"], false), (["g"], false), (["q", "a"], true), ([], true)] &&
      (walk ⟨"m", []⟩ [] (n.calls.take 2) .empty).toOption.any (fun s =>
        s.2.commands.keys == [.handle "q"]) &&
      (walk ⟨"m", []⟩ [] (n.calls.take 3) .empty).toOption.any (fun s =>
        s.2.bindings "q" == some (.command (.anonymous 1)))) = true := by decide +kernel
  obtain ⟨n, hn, hrun⟩ := CommandTree.exists_ok_of_any hrun
  simp only [Bool.and_eq_true, beq_iff_eq] at hrun
  obtain ⟨⟨hc, hr⟩, hr'⟩ := hrun
  obtain ⟨c₁, _, hcalls, -, hc⟩ := List.map_eq_cons_iff.1 hc
  obtain ⟨c₂, _, rfl, -, hc⟩ := List.map_eq_cons_iff.1 hc
  obtain ⟨c, after, rfl, hc, -⟩ := List.map_eq_cons_iff.1 hc
  obtain ⟨ht, ha⟩ := Prod.mk.inj hc
  rw [hcalls] at hr hr'
  obtain ⟨⟨⟨⟩, r⟩, hr, hkeys⟩ := CommandTree.exists_ok_of_any hr
  obtain ⟨⟨⟨⟩, r'⟩, hr', hq⟩ := CommandTree.exists_ok_of_any hr'
  have hr : walk ⟨"m", []⟩ [] [c₁, c₂] .empty = .ok ((), r) := hr
  have hr' : walk ⟨"m", []⟩ [] ([c₁, c₂] ++ [c]) .empty = .ok ((), r') := hr'
  obtain ⟨q, hq', hw⟩ := walk_append_ok.1 hr'
  cases hr.symm.trans hq'
  have hv : Visit ⟨"m", []⟩ [] n.calls .empty c r r' := ⟨⟨[c₁, c₂], after, hcalls, hr⟩, hw⟩
  obtain ⟨hplaces, hvisits⟩ := visits_bind_assigned_names ⟨"m", []⟩ []
  obtain ⟨hmem, -, hstands⟩ := hplaces n
  have hcn : c ∈ n.calls := by simp [hcalls]
  obtain ⟨p, hp, hpc⟩ := exists_mem_of_forall₂ hstands hcn
  have hp := (List.mem_filter.1 hp).1
  have hs := hvisits n.calls c r r' hv
  have hi := Call.invokes_of_addsParser ha
  have hval : c.Valued := .inr ⟨addParser, by decide, hi⟩
  obtain ⟨b, hb⟩ := hs.bound hval (by simp [ht])
  have hbq := hb.bound "q" (by simp [ht])
  obtain rfl : b = .command (.anonymous 1) := by
    rw [hbq] at hq
    exact Option.some.inj (eq_of_beq hq)
  have hkeys : r.commands.keys = [.handle "q"] := eq_of_beq hkeys
  have hnew : CommandId.anonymous 1 ∉ r.commands.keys := by simp [hkeys]
  exact ⟨n, p, c, r, r', _, hn, hp, (hmem p).1 hp, hpc,
    (hpc.targets _).2 ht.symm, hv, hs, hval, hb, hbq, hb.bound "a" (by simp [ht]), hnew,
    (hb.keyed (.inr hi) hnew "q" (by simp [ht])).taken (by simp [hkeys])⟩

end Registering

end CliCompletion
