import CliCompletion.Proofs.WellFormed
import Mathlib.Data.List.Nodup

namespace CliCompletion

open Registering

namespace OrderedMap

variable {m : OrderedMap CommandId Command} {owner : CommandId} {name : String}

def places (m : OrderedMap CommandId Command) : List (Option CommandId × String) :=
  (m.entries.filter fun e => e.2.parent.isSome).map fun e => (e.2.parent, e.2.name)

theorem mem_places_iff :
    (some owner, name) ∈ m.places ↔ ∃ c ∈ m.values, c.parent = some owner ∧ c.name = name := by
  simp only [places, values, List.mem_map, List.mem_filter, Prod.mk.injEq]
  constructor
  · rintro ⟨e, ⟨he, -⟩, hp, hn⟩
    exact ⟨e.2, ⟨e, he, rfl⟩, hp, hn⟩
  · rintro ⟨c, ⟨e, he, rfl⟩, hp, hn⟩
    exact ⟨e, ⟨he, by rw [hp]; rfl⟩, hp, hn⟩

theorem nodup_places_iff : m.places.Nodup ↔ ∀ a b c d, m.find? a = some c → m.find? b = some d →
    c.parent.isSome → c.parent = d.parent → c.name = d.name → a = b := by
  have hm : (m.entries.filter fun e => e.2.parent.isSome).Nodup :=
    (List.Nodup.of_map _ m.distinct).filter _
  simp only [places, List.nodup_map_iff_inj_on hm, List.mem_filter, find?_eq_some_iff]
  constructor
  · intro h a b c d hc hd hs hp hn
    exact congrArg Prod.fst
      (h (a, c) ⟨hc, hs⟩ (b, d) ⟨hd, hp ▸ hs⟩ (Prod.ext hp hn))
  · rintro h ⟨a, c⟩ ⟨hc, hs⟩ ⟨b, d⟩ ⟨hd, -⟩ hpn
    obtain ⟨hp, hn⟩ := Prod.ext_iff.1 hpn
    obtain rfl := h a b c d hc hd hs hp hn
    exact congrArg (a, ·) (Option.some.inj ((find?_eq_some_iff.2 hc).symm.trans
      (find?_eq_some_iff.2 hd)))

end OrderedMap

namespace Registry

variable {r r' : Registry} {targets : List String} {name : String} {owner : CommandId}
  {inherits : List CommandId} {line : Nat}

theorem child?_eq_none_iff :
    r.child? owner name = none ↔ (some owner, name) ∉ r.commands.places := by
  rw [OrderedMap.mem_places_iff, child?, Option.map_eq_none_iff, List.find?_eq_none]
  simp

theorem Numbered.places_addCommand_top (h : r.Numbered) :
    (r.addCommand targets name none inherits line).2.commands.places = r.commands.places := by
  simp [OrderedMap.places, h.addCommand_entries]

theorem Numbered.nodup_places_addCommand (h : r.Numbered) :
    (r.addCommand targets name (some owner) inherits line).2.commands.places.Nodup ↔
      r.commands.places.Nodup ∧ r.child? owner name = none := by
  have hp : (r.addCommand targets name (some owner) inherits line).2.commands.places =
      r.commands.places ++ [(some owner, name)] := by
    simp [OrderedMap.places, h.addCommand_entries]
  rw [hp, child?_eq_none_iff, ← List.concat_eq_append, List.nodup_concat, and_comm]

end Registry

mutual

def CommandExpr.Overtaken : CommandExpr → Registry → Prop
  | .handle _ _, _ => False
  | .grouped owner, r => owner.Overtaken r
  | .refused _, _ => False
  | .added group name _ parents _, r =>
      group.Overtaken r ∨ ∃ owner r₁ n, groupOwner group r = .ok (owner, r₁) ∧ name = .ok n ∧
        r₁.child? owner n = none ∧ (CommandExpr.AnyOvertaken parents r₁ ∨
          ∃ ids r₂, commands parents r₁ = .ok (ids, r₂) ∧ r₂.child? owner n ≠ none)

def GroupExpr.Overtaken : GroupExpr → Registry → Prop
  | .handle _ _, _ => False
  | .opened owner, r => owner.Overtaken r
  | .refused _, _ => False

def CommandExpr.AnyOvertaken : List CommandExpr → Registry → Prop
  | [], _ => False
  | e :: es, r => e.Overtaken r ∨ ∃ id r₁, command e r = .ok (id, r₁) ∧
      CommandExpr.AnyOvertaken es r₁

end

def Step.Overtaken : Step → Registry → Prop
  | .parser _ parents _, r => CommandExpr.AnyOvertaken parents r
  | .subparsers _ owner, r => owner.Overtaken r
  | .argumentGroup _ owner, r => owner.Overtaken r
  | .command e, r => e.Overtaken r
  | .argument owner _ _, r => owner.Overtaken r

def Step.AnyOvertaken (hints : List Hint) : List Step → Registry → Prop
  | [], _ => False
  | s :: ss, r => s.Overtaken r ∨ ∃ r₁, step hints s r = .ok ((), r₁) ∧
      Step.AnyOvertaken hints ss r₁

namespace CommandExpr

variable {r r₁ r₂ : Registry}

theorem overtaken_added_iff {group : GroupExpr} {n : String} {targets : List String}
    {parents : List CommandExpr} {line : Nat} {owner : CommandId}
    (hg : groupOwner group r = .ok (owner, r₁)) :
    (added group (.ok n) targets parents line).Overtaken r ↔
      group.Overtaken r ∨ r₁.child? owner n = none ∧ (AnyOvertaken parents r₁ ∨
        ∃ ids r₂, commands parents r₁ = .ok (ids, r₂) ∧ r₂.child? owner n ≠ none) := by
  rw [Overtaken, hg]
  constructor
  · rintro (h | ⟨_, _, _, hq, hn, h⟩)
    · exact .inl h
    · cases hq
      cases hn
      exact .inr h
  · rintro (h | h)
    · exact .inl h
    · exact .inr ⟨owner, r₁, n, rfl, rfl, h⟩

theorem anyOvertaken_cons_iff {e : CommandExpr} {es : List CommandExpr} {id : CommandId}
    (he : command e r = .ok (id, r₁)) :
    AnyOvertaken (e :: es) r ↔ e.Overtaken r ∨ AnyOvertaken es r₁ := by
  rw [AnyOvertaken, he]
  constructor
  · rintro (h | ⟨_, _, hq, h⟩)
    · exact .inl h
    · cases hq
      exact .inr h
  · rintro (h | h)
    · exact .inl h
    · exact .inr ⟨id, r₁, rfl, h⟩

end CommandExpr

theorem Step.anyOvertaken_cons_iff {hints : List Hint} {s : Step} {ss : List Step}
    {r r₁ : Registry} (hs : step hints s r = .ok ((), r₁)) :
    AnyOvertaken hints (s :: ss) r ↔ s.Overtaken r ∨ AnyOvertaken hints ss r₁ := by
  rw [AnyOvertaken, hs]
  constructor
  · rintro (h | ⟨_, hq, h⟩)
    · exact .inl h
    · cases hq
      exact .inr h
  · rintro (h | h)
    · exact .inl h
    · exact .inr ⟨r₁, rfl, h⟩

namespace Registering

open Registry CommandExpr

mutual

theorem command_nodup_places : ∀ (e : CommandExpr) {r r' : Registry} {id : CommandId}, r.Sound →
    command e r = .ok (id, r') →
      (r'.commands.places.Nodup ↔ r.commands.places.Nodup ∧ ¬ e.Overtaken r)
  | .handle x line, r, r', id, h, he => by
      rw [command_handle] at he
      obtain ⟨-, rfl⟩ := commandNamed_ok.1 he
      simp [CommandExpr.Overtaken]
  | .grouped owner, r, r', id, h, he => by
      rw [CommandExpr.Overtaken]
      exact command_nodup_places owner h (command_grouped ▸ he)
  | .refused e, r, r', id, h, he => by
      rw [command_refused] at he
      cases he
  | .added group name targets parents line, r, r', id, h, he => by
      obtain ⟨owner, r₁, n, hg, rfl, ha⟩ := command_added_ok.1 he
      have h₁ := (groupOwner_reaches group h hg).1.sound h
      have hgp := groupOwner_nodup_places group h hg
      rw [overtaken_added_iff hg]
      rcases ha with ⟨hc, rfl⟩ | ⟨hc, ids, r₂, hp, ha⟩
      · have hbind : (r₁.bind targets (.command id)).commands = r₁.commands := rfl
        rw [hbind, hgp, hc]
        simp
      · have h₂ := (commands_reaches parents h₁ hp).1.sound h₁
        have hpp := commands_nodup_places parents h₁ hp
        have hnew : (∃ is r', commands parents r₁ = .ok (is, r') ∧ r'.child? owner n ≠ none) ↔
            r₂.child? owner n ≠ none := by
          simp [hp]
        obtain rfl : r' = (r₂.addCommand targets n (some owner) ids line).2 :=
          congrArg Prod.snd ha
        rw [h₂.numbered.nodup_places_addCommand, hpp, hgp, hnew, hc]
        simp only [true_and, not_or, not_not, and_assoc]

theorem groupOwner_nodup_places : ∀ (g : GroupExpr) {r r' : Registry} {id : CommandId},
    r.Sound → groupOwner g r = .ok (id, r') →
      (r'.commands.places.Nodup ↔ r.commands.places.Nodup ∧ ¬ g.Overtaken r)
  | .handle x line, r, r', id, h, hg => by
      rw [groupOwner_handle] at hg
      obtain ⟨-, rfl⟩ := ownerNamed_ok.1 hg
      simp [GroupExpr.Overtaken]
  | .opened owner, r, r', id, h, hg => by
      rw [GroupExpr.Overtaken]
      exact command_nodup_places owner h (groupOwner_opened ▸ hg)
  | .refused e, r, r', id, h, hg => by
      rw [groupOwner_refused] at hg
      cases hg

theorem commands_nodup_places : ∀ (es : List CommandExpr) {r r' : Registry}
    {ids : List CommandId}, r.Sound → commands es r = .ok (ids, r') →
      (r'.commands.places.Nodup ↔ r.commands.places.Nodup ∧ ¬ CommandExpr.AnyOvertaken es r)
  | [], r, r', ids, h, hes => by
      obtain ⟨-, rfl⟩ := commands_nil_ok.1 hes
      simp [CommandExpr.AnyOvertaken]
  | e :: es, r, r', ids, h, hes => by
      obtain ⟨i, is, r₁, he, hrest, -⟩ := commands_cons_ok.1 hes
      have h₁ := (command_reaches e h he).1.sound h
      rw [CommandExpr.anyOvertaken_cons_iff he, commands_nodup_places es h₁ hrest,
        command_nodup_places e h he, not_or, and_assoc]

end

theorem step_nodup_places {hints : List Hint} {s : Step} {r r' : Registry} (h : r.Sound)
    (hs : step hints s r = .ok ((), r')) :
    r'.commands.places.Nodup ↔ r.commands.places.Nodup ∧ ¬ s.Overtaken r := by
  cases s with
  | parser targets parents line =>
      obtain ⟨ids, r₁, hp, rfl⟩ := step_parser_ok.1 hs
      have h₁ := (commands_reaches parents h hp).1.sound h
      rw [h₁.numbered.places_addCommand_top]
      exact commands_nodup_places parents h hp
  | subparsers targets owner =>
      obtain ⟨i, r₁, ho, rfl⟩ := step_subparsers_ok.1 hs
      have hiff := command_nodup_places owner h ho
      exact hiff
  | argumentGroup targets owner =>
      obtain ⟨i, r₁, ho, rfl⟩ := step_argumentGroup_ok.1 hs
      have hiff := command_nodup_places owner h ho
      exact hiff
  | command e =>
      obtain ⟨i, he⟩ := step_command_ok.1 hs
      exact command_nodup_places e h he
  | argument owner content lastLine =>
      obtain ⟨i, r₁, d, ho, -, rfl⟩ := step_argument_ok.1 hs
      have hiff := command_nodup_places owner h ho
      exact hiff

theorem steps_nodup_places {hints : List Hint} {ss : List Step} {r r' : Registry} (h : r.Sound)
    (hs : steps hints ss r = .ok ((), r')) :
    r'.commands.places.Nodup ↔ r.commands.places.Nodup ∧ ¬ Step.AnyOvertaken hints ss r := by
  induction ss generalizing r with
  | nil =>
      rw [steps_nil_ok.1 hs]
      simp [Step.AnyOvertaken]
  | cons s ss ih =>
      obtain ⟨r₁, hs, hss⟩ := steps_cons_ok.1 hs
      rw [Step.anyOvertaken_cons_iff hs, ih ((step_reaches h hs).sound h) hss,
        step_nodup_places h hs, not_or, and_assoc]

end Registering

namespace CommandTree

variable {t : CommandTree} {o : ExtractionOptions}

def DistinctSiblings (t : CommandTree) : Prop :=
  ∀ a b c d, t.find? a = some c → t.find? b = some d →
    c.parent.isSome → c.parent = d.parent → c.name = d.name → a = b

theorem distinctSiblings_iff_nodup : t.DistinctSiblings ↔ t.commands.places.Nodup :=
  OrderedMap.nodup_places_iff.symm

instance : Decidable t.DistinctSiblings :=
  decidable_of_iff' _ distinctSiblings_iff_nodup

theorem distinctSiblings_iff_not_overtaken {hints : List Hint} {n : Node}
    (h : ofNode o hints n = .ok t) :
    t.DistinctSiblings ↔ ¬ Step.AnyOvertaken hints (n.steps o) .empty := by
  obtain ⟨r, hs, ht⟩ := ofSteps_ok.1 h
  obtain ⟨root, -, rfl⟩ := Registry.tree_ok.1 ht
  have he : Registry.empty.commands.places.Nodup := List.nodup_nil
  exact distinctSiblings_iff_nodup.trans
    ((steps_nodup_places Registry.sound_empty hs).trans (and_iff_right he))

def freshParents : List Char :=
  "p = ArgumentParser()
p.add_parser(\"x\", parents=[p.add_parser(\"y\")])
p.add_parser(\"x\")
".toList

theorem distinctSiblings_of_fresh_parents : ∃ (t : CommandTree) (n : Node),
    ofSource ⟨"m", []⟩ freshParents = .ok t ∧ Node.ofSource freshParents = .ok n ∧
    t.DistinctSiblings ∧
    ¬ Step.AnyOvertaken (Hint.scan "m" (Comment.ofSource freshParents)) (n.steps ⟨"m", []⟩)
      .empty := by
  have hs : (ofSource ⟨"m", []⟩ freshParents).toOption.any
      (fun t => decide t.DistinctSiblings) = true := by decide +kernel
  obtain ⟨t, ht, hd⟩ := exists_ok_of_any hs
  have hd := of_decide_eq_true hd
  obtain ⟨n, hn, htree⟩ := ofSource_ok.1 ht
  exact ⟨t, n, ht, hn, hd, (distinctSiblings_iff_not_overtaken htree).1 hd⟩

def overtakenCall : List Char :=
  "p = ArgumentParser()
g = p.add_subparsers()
g.add_parser(\"x\", parents=[g.add_parser(\"x\")])
".toList

theorem equal_siblings_of_overtaken_call :
    ∃ t, ofSource ⟨"m", []⟩ overtakenCall = .ok t ∧ ¬ t.DistinctSiblings := by
  have hs : (ofSource ⟨"m", []⟩ overtakenCall).toOption.any
      (fun t => decide ¬ t.DistinctSiblings) = true := by decide +kernel
  obtain ⟨t, ht, hd⟩ := exists_ok_of_any hs
  exact ⟨t, ht, of_decide_eq_true hd⟩

end CommandTree

end CliCompletion
