import CliCompletion.Proofs.Effects
import Mathlib.Logic.Relation

namespace CliCompletion

def CommandId.number? : CommandId → Option Nat
  | handle _ => none
  | anonymous n => some n

def Command.DependsOn (c : Command) (id : CommandId) : Prop :=
  c.parent = some id ∨ id ∈ c.inherits

namespace Registry

variable {r r' : Registry} {targets : List String} {name : String} {parent : Option CommandId}
  {inherits : List CommandId} {line : Nat}

def Numbered (r : Registry) : Prop :=
  r.commands.keys.filterMap CommandId.number? = List.range r.nextAnonymous

theorem Numbered.lt_of_mem (h : r.Numbered) {n : Nat} (hn : .anonymous n ∈ r.commands.keys) :
    n < r.nextAnonymous := by
  have hm : n ∈ r.commands.keys.filterMap CommandId.number? := List.mem_filterMap.2 ⟨_, hn, rfl⟩
  rwa [h, List.mem_range] at hm

theorem Numbered.anonymous_not_mem (h : r.Numbered) :
    CommandId.anonymous r.nextAnonymous ∉ r.commands.keys :=
  fun hm => Nat.lt_irrefl _ (h.lt_of_mem hm)

theorem allocate_cases (r : Registry) (targets : List String) :
    (∃ handle, targets.head? = some handle ∧ CommandId.handle handle ∉ r.commands.keys ∧
      r.allocate targets = (.handle handle, r)) ∨
    r.allocate targets =
      (.anonymous r.nextAnonymous, { r with nextAnonymous := r.nextAnonymous + 1 }) := by
  cases targets with
  | nil => exact .inr rfl
  | cons handle rest =>
      by_cases hh : CommandId.handle handle ∈ r.commands.keys
      · refine .inr ?_
        simp [allocate, has, OrderedMap.contains_iff, hh]
      · refine .inl ⟨handle, rfl, hh, ?_⟩
        simp [allocate, has, OrderedMap.contains_iff, hh]

theorem Numbered.allocate_not_mem (h : r.Numbered) (targets : List String) :
    (r.allocate targets).1 ∉ r.commands.keys := by
  rcases r.allocate_cases targets with ⟨handle, -, hh, he⟩ | he
  · rw [he]
    exact hh
  · rw [he]
    exact h.anonymous_not_mem

theorem allocate_commands (r : Registry) (targets : List String) :
    (r.allocate targets).2.commands = r.commands := by
  rcases r.allocate_cases targets with ⟨_, -, -, he⟩ | he <;> rw [he]

theorem allocate_bindings (r : Registry) (targets : List String) :
    (r.allocate targets).2.bindings = r.bindings := by
  rcases r.allocate_cases targets with ⟨_, -, -, he⟩ | he <;> rw [he]

theorem allocate_arguments (r : Registry) (targets : List String) :
    (r.allocate targets).2.arguments = r.arguments := by
  rcases r.allocate_cases targets with ⟨_, -, -, he⟩ | he <;> rw [he]

theorem addCommand_fst : (r.addCommand targets name parent inherits line).1 =
    (r.allocate targets).1 :=
  rfl

theorem addCommand_arguments : (r.addCommand targets name parent inherits line).2.arguments =
    r.arguments :=
  r.allocate_arguments targets

theorem addCommand_bindings : (r.addCommand targets name parent inherits line).2.bindings =
    (r.bind targets (.command (r.allocate targets).1)).bindings := by
  funext x
  simp only [addCommand, bind, allocate_bindings]

theorem bind_bindings_of_mem {targets : List String} {x : String} (hx : x ∈ targets)
    (b : Binding) : (r.bind targets b).bindings x = some b :=
  if_pos (List.contains_iff_mem.2 hx)

theorem bind_bindings_of_not_mem {targets : List String} {x : String} (hx : x ∉ targets)
    (b : Binding) : (r.bind targets b).bindings x = r.bindings x :=
  if_neg (by simpa using hx)

theorem Numbered.addCommand_entries (h : r.Numbered) :
    (r.addCommand targets name parent inherits line).2.commands.entries =
      r.commands.entries ++ [((r.allocate targets).1,
        ⟨(r.allocate targets).1, name, parent, inherits, line⟩)] := by
  have hm := h.allocate_not_mem targets
  rw [← r.allocate_commands targets] at hm ⊢
  exact OrderedMap.entries_insert_of_not_mem _ hm

theorem Numbered.prefix_addCommand (h : r.Numbered) (targets : List String) (name : String)
    (parent : Option CommandId) (inherits : List CommandId) (line : Nat) :
    r.commands.entries <+:
      (r.addCommand targets name parent inherits line).2.commands.entries := by
  rw [h.addCommand_entries]
  exact List.prefix_append _ _

theorem Numbered.addCommand_keys (h : r.Numbered) :
    (r.addCommand targets name parent inherits line).2.commands.keys =
      r.commands.keys ++ [(r.allocate targets).1] := by
  simp only [OrderedMap.keys, h.addCommand_entries, List.map_append, List.map_singleton]

theorem Numbered.addCommand (h : r.Numbered) :
    (r.addCommand targets name parent inherits line).2.Numbered := by
  have hn : (r.addCommand targets name parent inherits line).2.nextAnonymous =
      (r.allocate targets).2.nextAnonymous := rfl
  rw [Numbered, h.addCommand_keys, List.filterMap_append, h, hn]
  rcases r.allocate_cases targets with ⟨handle, -, -, he⟩ | he
  · rw [he]
    exact List.append_nil _
  · rw [he]
    exact List.range_succ.symm

structure Sound (r : Registry) : Prop where
  numbered : r.Numbered
  keyed : ∀ e ∈ r.commands.entries, e.2.id = e.1
  grounded : ∀ before e after, r.commands.entries = before ++ e :: after →
    ∀ id, e.2.DependsOn id → id ∈ before.map (·.1)
  bound : ∀ x b, r.bindings x = some b → b.owner ∈ r.commands.keys
  owned : ∀ a ∈ r.arguments, a.owner ∈ r.commands.keys

theorem sound_empty : empty.Sound where
  numbered := rfl
  keyed := by simp [empty, OrderedMap.empty]
  grounded := by simp [empty, OrderedMap.empty]
  bound := by simp [empty]
  owned := by simp [empty]

theorem Sound.mem_of_dependsOn (h : r.Sound) {e : CommandId × Command}
    (he : e ∈ r.commands.entries) {id : CommandId} (hd : e.2.DependsOn id) :
    id ∈ r.commands.keys := by
  obtain ⟨before, after, hb⟩ := List.append_of_mem he
  rw [OrderedMap.keys, hb, List.map_append]
  exact List.mem_append_left _ (h.grounded before e after hb id hd)

theorem Sound.bind (h : r.Sound) {b : Binding} (hb : b.owner ∈ r.commands.keys) :
    (r.bind targets b).Sound where
  numbered := h.numbered
  keyed := h.keyed
  grounded := h.grounded
  bound := by
    intro x b' hx
    simp only [Registry.bind] at hx
    split at hx
    · cases hx
      exact hb
    · exact h.bound x b' hx
  owned := h.owned

theorem Sound.addArgument (h : r.Sound) {a : Argument} (ha : a.owner ∈ r.commands.keys) :
    (r.addArgument a).Sound where
  numbered := h.numbered
  keyed := h.keyed
  grounded := h.grounded
  bound := h.bound
  owned := by
    intro a' ha'
    rcases List.mem_append.1 ha' with ha' | ha'
    · exact h.owned a' ha'
    · rw [List.mem_singleton.1 ha']
      exact ha

theorem Sound.addCommand (h : r.Sound)
    (hd : ∀ id, parent = some id ∨ id ∈ inherits → id ∈ r.commands.keys) :
    (r.addCommand targets name parent inherits line).2.Sound where
  numbered := h.numbered.addCommand
  keyed := by
    intro e he
    rw [h.numbered.addCommand_entries] at he
    rcases List.mem_append.1 he with he | he
    · exact h.keyed e he
    · rw [List.mem_singleton.1 he]
  grounded := by
    intro before e after he id hid
    rw [h.numbered.addCommand_entries] at he
    -- The entry is the new one, or stands among those before it.
    rcases List.eq_nil_or_concat after with rfl | ⟨after, e', rfl⟩
    · obtain ⟨rfl, hnew⟩ := List.append_inj' he rfl
      cases hnew
      exact hd id hid
    · rw [List.concat_eq_append, ← List.cons_append, ← List.append_assoc] at he
      exact h.grounded before e after (List.append_inj' he rfl).1 id hid
  bound := by
    intro x b hx
    rw [h.numbered.addCommand_keys]
    rw [addCommand_bindings] at hx
    simp only [Registry.bind] at hx
    split at hx
    · cases hx
      exact List.mem_append_right _ (List.mem_singleton.2 rfl)
    · exact List.mem_append_left _ (h.bound x b hx)
  owned := by
    intro a ha
    rw [addCommand_arguments] at ha
    rw [h.numbered.addCommand_keys]
    exact List.mem_append_left _ (h.owned a ha)

inductive Move : Registry → Registry → Prop
  | bind {r : Registry} {targets : List String} {b : Binding}
      (hb : b.owner ∈ r.commands.keys) : Move r (r.bind targets b)
  | addCommand {r : Registry} {targets : List String} {name : String}
      {parent : Option CommandId} {inherits : List CommandId} {line : Nat}
      (hd : ∀ id, parent = some id ∨ id ∈ inherits → id ∈ r.commands.keys) :
      Move r (r.addCommand targets name parent inherits line).2
  | addArgument {r : Registry} {a : Argument} (ha : a.owner ∈ r.commands.keys) :
      Move r (r.addArgument a)

theorem Move.sound (hm : Move r r') (h : r.Sound) : r'.Sound := by
  cases hm with
  | bind hb => exact h.bind hb
  | addCommand hd => exact h.addCommand hd
  | addArgument ha => exact h.addArgument ha

theorem Move.prefix_entries (hm : Move r r') (h : r.Numbered) :
    r.commands.entries <+: r'.commands.entries := by
  cases hm with
  | bind _ => exact List.prefix_rfl
  | addCommand _ => exact h.prefix_addCommand ..
  | addArgument _ => exact List.prefix_rfl

abbrev Reaches : Registry → Registry → Prop :=
  Relation.ReflTransGen Move

theorem Reaches.sound (hr : r.Reaches r') (h : r.Sound) : r'.Sound := by
  induction hr with
  | refl => exact h
  | tail _ hm ih => exact hm.sound ih

theorem Reaches.prefix_entries (hr : r.Reaches r') (h : r.Sound) :
    r.commands.entries <+: r'.commands.entries := by
  induction hr with
  | refl => exact List.prefix_rfl
  | tail hs hm ih => exact ih.trans (hm.prefix_entries (Reaches.sound hs h).numbered)

theorem Reaches.mem_keys (hr : r.Reaches r') (h : r.Sound) {id : CommandId}
    (hid : id ∈ r.commands.keys) : id ∈ r'.commands.keys :=
  ((hr.prefix_entries h).map (·.1)).subset hid

theorem mem_keys_of_child? (h : r.Sound) {owner id : CommandId} {name : String}
    (hc : r.child? owner name = some id) : id ∈ r.commands.keys := by
  obtain ⟨c, hf, rfl⟩ := Option.map_eq_some_iff.1 hc
  obtain ⟨e, he, rfl⟩ := List.mem_map.1 (List.mem_of_find?_eq_some hf)
  rw [h.keyed e he]
  exact List.mem_map_of_mem he

theorem mem_keys_addCommand (h : r.Sound) :
    (r.addCommand targets name parent inherits line).1 ∈
      (r.addCommand targets name parent inherits line).2.commands.keys := by
  rw [h.numbered.addCommand_keys, addCommand_fst]
  exact List.mem_append_right _ (List.mem_singleton.2 rfl)

end Registry

namespace Registering

open Registry

mutual

theorem command_reaches : ∀ (e : CommandExpr) {r r' : Registry} {id : CommandId}, r.Sound →
    command e r = .ok (id, r') → r.Reaches r' ∧ id ∈ r'.commands.keys
  | .handle x line, r, r', id, h, he => by
      rw [command_handle] at he
      obtain ⟨hx, rfl⟩ := commandNamed_ok.1 he
      exact ⟨.refl, h.bound x _ hx⟩
  | .grouped owner, r, r', id, h, he => command_reaches owner h (command_grouped ▸ he)
  | .refused e, r, r', id, h, he => by
      rw [command_refused] at he
      cases he
  | .added group name targets parents line, r, r', id, h, he => by
      obtain ⟨owner, r₁, n, hg, -, ha⟩ := command_added_ok.1 he
      obtain ⟨hr, ho⟩ := groupOwner_reaches group h hg
      have h₁ := hr.sound h
      rcases ha with ⟨hc, rfl⟩ | ⟨hc, ids, r₂, hp, ha⟩
      · have hid := mem_keys_of_child? h₁ hc
        exact ⟨hr.tail (.bind hid), hid⟩
      · obtain ⟨hr₂, hids⟩ := commands_reaches parents h₁ hp
        have h₂ := hr₂.sound h₁
        cases ha
        refine ⟨(hr.trans hr₂).tail (.addCommand ?_), mem_keys_addCommand h₂⟩
        rintro i (hi | hi)
        · cases hi
          exact hr₂.mem_keys h₁ ho
        · exact hids i hi

theorem groupOwner_reaches : ∀ (g : GroupExpr) {r r' : Registry} {id : CommandId}, r.Sound →
    groupOwner g r = .ok (id, r') → r.Reaches r' ∧ id ∈ r'.commands.keys
  | .handle x line, r, r', id, h, hg => by
      rw [groupOwner_handle] at hg
      obtain ⟨⟨b, hx, rfl⟩, rfl⟩ := ownerNamed_ok.1 hg
      exact ⟨.refl, h.bound x b hx⟩
  | .opened owner, r, r', id, h, hg => command_reaches owner h (groupOwner_opened ▸ hg)
  | .refused e, r, r', id, h, hg => by
      rw [groupOwner_refused] at hg
      cases hg

theorem commands_reaches : ∀ (es : List CommandExpr) {r r' : Registry} {ids : List CommandId},
    r.Sound → commands es r = .ok (ids, r') →
      r.Reaches r' ∧ ∀ id ∈ ids, id ∈ r'.commands.keys
  | [], r, r', ids, h, hes => by
      obtain ⟨rfl, rfl⟩ := commands_nil_ok.1 hes
      exact ⟨.refl, by simp⟩
  | e :: es, r, r', ids, h, hes => by
      obtain ⟨i, is, r₁, he, hrest, rfl⟩ := commands_cons_ok.1 hes
      obtain ⟨hr, hi⟩ := command_reaches e h he
      have h₁ := hr.sound h
      obtain ⟨hr₂, his⟩ := commands_reaches es h₁ hrest
      refine ⟨hr.trans hr₂, ?_⟩
      intro j hj
      rcases List.mem_cons.1 hj with rfl | hj
      · exact hr₂.mem_keys h₁ hi
      · exact his j hj

end

theorem step_reaches {hints : List Hint} {s : Step} {r r' : Registry} (h : r.Sound)
    (hs : step hints s r = .ok ((), r')) : r.Reaches r' := by
  cases s with
  | parser targets parents line =>
      obtain ⟨ids, r₁, hp, rfl⟩ := step_parser_ok.1 hs
      obtain ⟨hr, hids⟩ := commands_reaches parents h hp
      refine hr.tail (.addCommand ?_)
      rintro i (hi | hi)
      · cases hi
      · exact hids i hi
  | subparsers targets owner =>
      obtain ⟨i, r₁, ho, rfl⟩ := step_subparsers_ok.1 hs
      obtain ⟨hr, hi⟩ := command_reaches owner h ho
      exact hr.tail (.bind hi)
  | argumentGroup targets owner =>
      obtain ⟨i, r₁, ho, rfl⟩ := step_argumentGroup_ok.1 hs
      obtain ⟨hr, hi⟩ := command_reaches owner h ho
      exact hr.tail (.bind hi)
  | command e =>
      obtain ⟨i, he⟩ := step_command_ok.1 hs
      exact (command_reaches e h he).1
  | argument owner content lastLine =>
      obtain ⟨i, r₁, d, ho, -, rfl⟩ := step_argument_ok.1 hs
      obtain ⟨hr, hi⟩ := command_reaches owner h ho
      exact hr.tail (.addArgument hi)

theorem steps_reaches {hints : List Hint} {ss : List Step} {r r' : Registry} (h : r.Sound)
    (hs : steps hints ss r = .ok ((), r')) : r.Reaches r' := by
  induction ss generalizing r with
  | nil =>
      rw [steps_nil_ok.1 hs]
  | cons s ss ih =>
      obtain ⟨r₁, hs, hss⟩ := steps_cons_ok.1 hs
      have hr := step_reaches h hs
      exact hr.trans (ih (hr.sound h) hss)

theorem sound_of_steps {hints : List Hint} {ss : List Step} {r : Registry}
    (h : steps hints ss .empty = .ok ((), r)) : r.Sound :=
  (steps_reaches Registry.sound_empty h).sound Registry.sound_empty

end Registering

end CliCompletion
