import CliCompletion.Proofs.Correspondence
import Mathlib.Tactic.SplitIfs

namespace CliCompletion

open Registering Registry

variable {r r' : Registry} {fresh : List String} {ι ι' : CommandId → CommandId} {v : String}

def Translation.apart (fresh : List String) : Translation where
  names x x' := x' = x ∧ x ∉ fresh
  texts _ _ := True
  lines _ _ := True
  lastLines := Eq
  unique := by
    rintro x _ y _ ⟨rfl, -⟩ ⟨rfl, -⟩
    rfl
  parserClass_iff := by
    rintro x _ ⟨rfl, -⟩
    rfl
  texts_of_names _ := trivial
  texts_refl _ := trivial

namespace Registry

def HandlesBound (r : Registry) : Prop :=
  ∀ x, .handle x ∈ r.commands.keys → r.bindings x ≠ none

theorem bind_bindings_ne_none {targets : List String} {b : Binding} {x : String}
    (h : r.bindings x ≠ none) : (r.bind targets b).bindings x ≠ none := by
  rw [Registry.bind]
  dsimp only
  split
  · exact Option.some_ne_none b
  · exact h

theorem Move.handlesBound (hm : Move r r') (hs : r.Numbered) (h : r.HandlesBound) :
    r'.HandlesBound := by
  intro x hx
  cases hm with
  | bind _ => exact bind_bindings_ne_none (h x hx)
  | addArgument _ => exact h x hx
  | @addCommand targets name parent inherits line _ =>
      rw [addCommand_bindings]
      rw [hs.addCommand_keys] at hx
      rcases List.mem_append.1 hx with hx | hx
      · exact bind_bindings_ne_none (h x hx)
      · have hx := List.mem_singleton.1 hx
        rcases r.allocate_cases targets with ⟨y, hy, -, he⟩ | he
        · rw [he] at hx
          cases hx
          have hc : targets.contains x = true := by
            rw [List.contains_iff_mem]
            exact List.mem_of_mem_head? hy
          simp only [Registry.bind, hc, if_true]
          exact Option.some_ne_none _
        · rw [he] at hx
          cases hx

theorem Reaches.handlesBound (hr : r.Reaches r') (hs : r.Sound) (h : r.HandlesBound) :
    r'.HandlesBound := by
  induction hr with
  | refl => exact h
  | tail hr hm ih => exact hm.handlesBound (Reaches.sound hr hs).numbered ih

namespace Like

variable {T : Translation}

theorem commands_relabel (h : r.Like T ι r') (hs : r.Sound)
    (hι : ∀ id ∈ r.commands.keys, ι' id = ι id) : r.commands.Like T ι' r'.commands := by
  have hm := (List.forall₂_and_left (p := (· ∈ r.commands.entries)) _ _).2
    ⟨fun _ he => he, h.commands⟩
  refine hm.imp ?_
  rintro e e' ⟨he, hkey, hc⟩
  have hmem : e.1 ∈ r.commands.keys := List.mem_map_of_mem he
  refine ⟨hkey.trans (hι _ hmem).symm, ?_, hc.name, ?_, ?_, hc.line⟩
  · rw [hc.id, hs.keyed e he, hι _ hmem]
  · rw [hc.parent]
    refine Option.map_congr fun id hid => (hι id ?_).symm
    exact hs.mem_of_dependsOn he (.inl hid)
  · rw [hc.inherits]
    refine List.map_congr_left fun id hid => (hι id ?_).symm
    exact hs.mem_of_dependsOn he (.inr hid)

theorem bindings_relabel (h : r.Like T ι r') (hs : r.Sound)
    (hι : ∀ id ∈ r.commands.keys, ι' id = ι id) {x x' : String} (hx : T.names x x') :
    r'.bindings x' = (r.bindings x).map (Binding.relabel ι') := by
  rw [h.bindings x x' hx]
  refine Option.map_congr fun b hb => ?_
  have ho := hι _ (hs.bound x b hb)
  cases b with
  | command id => exact congrArg Binding.command ho.symm
  | group id => exact congrArg Binding.group ho.symm

theorem arguments_relabel (h : r.Like T ι r') (hs : r.Sound)
    (hι : ∀ id ∈ r.commands.keys, ι' id = ι id) :
    List.Forall₂ (Argument.Like T ι') r.arguments r'.arguments := by
  have hm := (List.forall₂_and_left (p := (· ∈ r.arguments)) _ _).2
    ⟨fun _ ha => ha, h.arguments⟩
  refine hm.imp ?_
  rintro a a' ⟨ha, hl⟩
  exact ⟨hl.owner.trans (hι _ (hs.owned a ha)).symm, hl.literals, hl.options, hl.hint, hl.line⟩

end Like

end Registry

namespace CommandId

def absorb (v : String) (k : Nat) : CommandId → CommandId
  | handle x => if x = v then .anonymous k else .handle x
  | anonymous n => .anonymous (if n < k then n else n + 1)

theorem absorb_injective (v : String) (k : Nat) : Function.Injective (absorb v k) := by
  intro id id' h
  cases id with
  | handle x =>
      cases id' with
      | handle y =>
          simp only [absorb] at h
          split_ifs at h with hx hy
          · rw [hx, hy]
          · exact h
      | anonymous m =>
          simp only [absorb] at h
          split_ifs at h <;> cases h <;> omega
  | anonymous n =>
      cases id' with
      | handle y =>
          simp only [absorb] at h
          split_ifs at h <;> cases h <;> omega
      | anonymous m =>
          have h := anonymous.inj h
          congr 1
          split_ifs at h <;> omega

end CommandId

structure Spare (ι : CommandId → CommandId) (r : Registry) (v : String) : Prop where
  fixed : ι (.handle v) = .handle v
  unused : .handle v ∉ r.commands.keys

theorem Spare.allocate (h : Spare ι r v) : r.allocate [v] = (.handle v, r) := by
  simp [Registry.allocate, Registry.has, OrderedMap.contains_iff, h.unused]

namespace Registry.Like

theorem absorb_eq {T : Translation} (h : r.Like T ι r') (hv : Spare ι r v) {id : CommandId}
    (hid : id ∈ r.commands.keys) : CommandId.absorb v r'.nextAnonymous (ι id) = ι id := by
  have hm : ι id ∈ r'.commands.keys := by
    rw [h.commands.keys_eq]
    exact List.mem_map_of_mem hid
  cases hi : ι id with
  | handle x =>
      have hx : x ≠ v := by
        rintro rfl
        rw [h.injective (hi.trans hv.fixed.symm)] at hid
        exact hv.unused hid
      rw [CommandId.absorb, if_neg hx]
  | anonymous n =>
      rw [CommandId.absorb, if_pos (h.numbered'.lt_of_mem (hi ▸ hm))]

theorem absorb_handle (h : r.Like (.apart fresh) ι r') (hv : v ∈ fresh) (k : Nat) {x x' : String}
    (hx : (Translation.apart fresh).names x x') :
    CommandId.absorb v k (ι (.handle x)) = .handle x' := by
  have hxv : x' ≠ v := by
    rintro rfl
    exact hx.2 (hx.1 ▸ hv)
  rw [h.handles x x' hx, CommandId.absorb, if_neg hxv]

theorem absorb_number {T : Translation} (h : r.Like T ι r') (n : Nat) :
    CommandId.absorb v r'.nextAnonymous (ι (.anonymous (r.nextAnonymous + n))) =
      .anonymous (r'.nextAnonymous + 1 + n) := by
  rw [h.numbers, CommandId.absorb, if_neg (Nat.not_lt.2 (Nat.le_add_right ..)),
    Nat.add_right_comm]

theorem bindings_of_spare (h : r.Like (.apart fresh) ι r') (hs : r.Sound) (hv : v ∈ fresh)
    (hι : ∀ id ∈ r.commands.keys, ι' id = ι id) (b : Binding) {x x' : String}
    (hx : (Translation.apart fresh).names x x') :
    r'.bindings x' = ((r.bind [v] b).bindings x).map (Binding.relabel ι') := by
  have hxv : x ∉ [v] := by
    intro hm
    exact hx.2 (List.mem_singleton.1 hm ▸ hv)
  rw [bind_bindings_of_not_mem hxv]
  exact h.bindings_relabel hs hι hx

theorem bind_spare (h : r.Like (.apart fresh) ι r') (hs : r.Sound) (hv : v ∈ fresh)
    (b : Binding) : (r.bind [v] b).Like (.apart fresh) ι r' where
  numbered := h.numbered
  numbered' := h.numbered'
  injective := h.injective
  handles := h.handles
  numbers := h.numbers
  commands := h.commands
  bindings := fun _ _ hx => h.bindings_of_spare hs hv (fun _ _ => rfl) b hx
  arguments := h.arguments

theorem addCommand_spare (h : r.Like (.apart fresh) ι r') (hs : r.Sound) (hv : v ∈ fresh)
    (hsp : Spare ι r v) (name : String) {parent : Option CommandId} {inherits : List CommandId}
    (hd : ∀ id, parent = some id ∨ id ∈ inherits → id ∈ r.commands.keys) (l l' : Nat) :
    ∃ ι', (r'.addCommand [] name (parent.map ι) (inherits.map ι) l').1 =
        ι' (r.addCommand [v] name parent inherits l).1 ∧
      (r.addCommand [v] name parent inherits l).2.Like (.apart fresh) ι'
        (r'.addCommand [] name (parent.map ι) (inherits.map ι) l').2 ∧
      ∀ w ∈ fresh, w ≠ v → Spare ι r w →
        Spare ι' (r.addCommand [v] name parent inherits l).2 w := by
  have ha := hsp.allocate
  have hnew : CommandId.absorb v r'.nextAnonymous (ι (.handle v)) =
      .anonymous r'.nextAnonymous := by
    rw [hsp.fixed, CommandId.absorb, if_pos rfl]
  have hold : ∀ id ∈ r.commands.keys,
      (CommandId.absorb v r'.nextAnonymous ∘ ι) id = ι id := fun _ hid => h.absorb_eq hsp hid
  refine ⟨CommandId.absorb v r'.nextAnonymous ∘ ι, ?_, ?_, ?_⟩
  · rw [addCommand_fst, addCommand_fst, ha]
    exact hnew.symm
  · refine ⟨h.numbered.addCommand, h.numbered'.addCommand,
      (CommandId.absorb_injective v _).comp h.injective, fun _ _ hx => h.absorb_handle hv _ hx,
      ?_, ?_, ?_, ?_⟩
    · have hn : (r.addCommand [v] name parent inherits l).2.nextAnonymous = r.nextAnonymous :=
        congrArg (·.2.nextAnonymous) ha
      rw [hn]
      exact h.absorb_number
    · rw [OrderedMap.Like, h.numbered.addCommand_entries, h.numbered'.addCommand_entries, ha]
      refine List.rel_append (h.commands_relabel hs hold) (.cons ⟨hnew.symm, ?_⟩ .nil)
      refine ⟨hnew.symm, rfl, ?_, ?_, trivial⟩
      · exact Option.map_congr fun id hid => (hold id (hd id (.inl hid))).symm
      · exact List.map_congr_left fun id hid => (hold id (hd id (.inr hid))).symm
    · intro x x' hx
      rw [addCommand_bindings, addCommand_bindings, bind_bindings_of_not_mem List.not_mem_nil]
      exact h.bindings_of_spare hs hv hold _ hx
    · rw [addCommand_arguments, addCommand_arguments]
      exact h.arguments_relabel hs hold
  · intro w _ hwv hw
    refine ⟨?_, ?_⟩
    · rw [Function.comp_apply, hw.fixed, CommandId.absorb, if_neg hwv]
    · rw [h.numbered.addCommand_keys, ha, List.mem_append, List.mem_singleton]
      rintro (hm | hm)
      · exact hw.unused hm
      · exact hwv (CommandId.handle.inj hm)

end Registry.Like

end CliCompletion
