import CliCompletion.Proofs.Hierarchy
import CliCompletion.Proofs.Siblings

namespace CliCompletion.CommandTree

variable {t : CommandTree} {a b id p top top' : CommandId} {c : Command}
  {names names' : List String} {r r' : Option (List String)}

inductive Climbs (t : CommandTree) : Command → List String → Option (List String) → Prop
  | root {c : Command} {names : List String} (hp : c.parent = none) (hr : c.id = t.root) :
      Climbs t c names (some names.reverse)
  | elsewhere {c : Command} {names : List String} (hp : c.parent = none) (hr : c.id ≠ t.root) :
      Climbs t c names none
  | lost {c : Command} {p : CommandId} {names : List String} (hp : c.parent = some p)
      (hf : t.find? p = none) : Climbs t c names none
  | up {c d : Command} {p : CommandId} {names : List String} {r : Option (List String)}
      (hp : c.parent = some p) (hf : t.find? p = some d)
      (rest : Climbs t d (names ++ [c.name]) r) : Climbs t c names r

inductive Ascends (t : CommandTree) : CommandId → Option (List String) → Prop
  | unknown {id : CommandId} (hf : t.find? id = none) : Ascends t id none
  | known {id : CommandId} {c : Command} {r : Option (List String)} (hf : t.find? id = some c)
      (rest : Climbs t c [] r) : Ascends t id r

section Loop

theorem ancestry_of_find?_eq_none (h : t.find? id = none) : t.ancestry id = none := by
  rw [ancestry, h, Option.bind_none]

theorem ancestry_eq_none_of_elsewhere (hf : t.find? id = some c) (hp : c.parent = none)
    (hr : c.id ≠ t.root) : t.ancestry id = none := by
  refine Option.eq_none_iff_forall_ne_some.2 fun names h => ?_
  cases ancestry_eq_some_iff.1 h with
  | root hc _ hid => exact hr ((Option.some.inj (hf.symm.trans hc)) ▸ hid)
  | under hc hp' _ =>
      rw [← Option.some.inj (hf.symm.trans hc), hp] at hp'
      cases hp'

theorem Climbs.eq (h : t.Climbs c names r) (hf : t.find? id = some c) :
    r = (t.ancestry id).map (· ++ names.reverse) := by
  induction h generalizing id with
  | root hp hr =>
      rw [ancestry_eq_some_iff.2 (.root hf hp hr), Option.map_some, List.nil_append]
  | elsewhere hp hr => rw [ancestry_eq_none_of_elsewhere hf hp hr, Option.map_none]
  | lost hp hlost =>
      rw [ancestry_of_parent hf hp, ancestry_of_find?_eq_none hlost, Option.map_none,
        Option.map_none]
  | up hp hup _ ih =>
      rw [ih hup, ancestry_of_parent hf hp, Option.map_map]
      refine congrArg (Option.map · _) (funext fun above => ?_)
      rw [Function.comp_apply, List.reverse_append, List.reverse_singleton, List.append_assoc]

theorem Ascends.eq (h : t.Ascends id r) : r = t.ancestry id := by
  cases h with
  | unknown hf => rw [ancestry_of_find?_eq_none hf]
  | known hf rest => simpa using rest.eq hf

theorem exists_climbs (h : t.Grounded) (hf : t.find? id = some c) (names : List String) :
    ∃ r, t.Climbs c names r := by
  -- A parent stands before its child, so each turn looks further to the front.
  generalize hn : t.commands.keys.idxOf id = n
  induction n using Nat.strongRecOn generalizing id c names with
  | ind n ih =>
      cases hp : c.parent with
      | none =>
          by_cases hr : c.id = t.root
          · exact ⟨_, .root hp hr⟩
          · exact ⟨_, .elsewhere hp hr⟩
      | some p =>
          have hd : t.DependsOn id p := ⟨c, hf, .inl hp⟩
          have hlt := idxOf_lt_of_dependsOn h hd
          rw [hn] at hlt
          obtain ⟨d, hup⟩ := exists_find?_of_mem_keys (mem_keys_of_dependsOn h hd)
          obtain ⟨r, hr⟩ := ih _ hlt hup (names ++ [c.name]) rfl
          exact ⟨r, .up hp hup hr⟩

theorem ascends_iff (h : t.Grounded) : t.Ascends id r ↔ r = t.ancestry id := by
  refine ⟨Ascends.eq, ?_⟩
  rintro rfl
  cases hf : t.find? id with
  | none =>
      rw [ancestry_of_find?_eq_none hf]
      exact .unknown hf
  | some c =>
      obtain ⟨r, hr⟩ := exists_climbs h hf []
      have ha : t.Ascends id r := .known hf hr
      rwa [ha.eq] at ha

end Loop

def Topmost (t : CommandTree) (id top : CommandId) : Prop :=
  Relation.ReflTransGen t.HasParent id top ∧ ∃ c, t.find? top = some c ∧ c.parent = none

theorem HasParent.unique (h : t.HasParent id a) (h' : t.HasParent id b) : a = b := by
  obtain ⟨c, hc, hp⟩ := h
  obtain ⟨d, hd, hp'⟩ := h'
  rw [← Option.some.inj (hc.symm.trans hd), hp] at hp'
  exact Option.some.inj hp'

theorem not_hasParent_of_top (h : ∃ c, t.find? top = some c ∧ c.parent = none) :
    ¬ t.HasParent top p := by
  rintro ⟨d, hd, hp⟩
  obtain ⟨c, hc, hnone⟩ := h
  rw [← Option.some.inj (hc.symm.trans hd), hnone] at hp
  cases hp

theorem Topmost.unique (h : t.Topmost id top) (h' : t.Topmost id top') : top = top' := by
  obtain ⟨hup, hc⟩ := h
  induction hup using Relation.ReflTransGen.head_induction_on with
  | refl =>
      rcases h'.1.cases_head with rfl | ⟨p, hp, -⟩
      · rfl
      · exact absurd hp (not_hasParent_of_top hc)
  | head hp _ ih =>
      refine ih ⟨?_, h'.2⟩
      rcases h'.1.cases_head with rfl | ⟨q, hq, hup'⟩
      · exact absurd hp (not_hasParent_of_top h'.2)
      · exact (hp.unique hq) ▸ hup'

theorem mem_keys_of_topmost (h : t.Topmost id top) : id ∈ t.commands.keys := by
  obtain ⟨hup, c, hc, -⟩ := h
  rcases hup.cases_head with rfl | ⟨p, ⟨d, hd, -⟩, -⟩
  · exact mem_keys_of_find? hc
  · exact mem_keys_of_find? hd

theorem Keyed.find?_root (hk : t.Keyed) (hf : t.find? id = some c) (hr : c.id = t.root) :
    id = t.root :=
  (hk.id_eq hf).symm.trans hr

-- Two ways down from the root part at some command, where they take children of different names.
theorem PathTo.injective (hk : t.Keyed) (hd : t.DistinctSiblings) (ha : t.PathTo a names)
    (hb : t.PathTo b names) : a = b := by
  induction ha generalizing b with
  | root hf _ hr =>
      generalize hn : ([] : List String) = names at hb
      cases hb with
      | root hf' _ hr' => exact (hk.find?_root hf hr).trans (hk.find?_root hf' hr').symm
      | under _ _ _ => simp at hn
  | @under a p c above hf hp _ ih =>
      generalize hn : above ++ [c.name] = names at hb
      cases hb with
      | root _ _ _ => simp at hn
      | @under _ q d above' hf' hp' hup' =>
          obtain ⟨rfl, hname⟩ := List.append_inj' hn rfl
          obtain rfl := ih hup'
          exact hd a b c d hf hf' (by rw [hp]; rfl) (hp.trans hp'.symm) (by simpa using hname)

structure ExactPaths (t : CommandTree) : Prop where
  ends : ∀ id r, t.Ascends id r ↔ r = t.ancestry id
  topped : ∀ id ∈ t.commands.keys, ∃! top, t.Topmost id top
  attached_iff : ∀ id, (∃ names, t.ancestry id = some names) ↔
    id ∈ t.commands.keys ∧ t.Topmost id t.root
  root : t.ancestry t.root = some []
  below : ∀ id c p, t.find? id = some c → c.parent = some p →
    t.ancestry id = (t.ancestry p).map (· ++ [c.name])
  unambiguous : t.DistinctSiblings → ∀ a b names, t.ancestry a = some names →
    t.ancestry b = some names → a = b

theorem WellFormed.exactPaths (h : t.WellFormed) : t.ExactPaths where
  ends _ _ := ascends_iff h.grounded
  topped id hid := by
    obtain ⟨top, c, hup, hc, hp⟩ := h.topped id hid
    exact ⟨top, ⟨hup, c, hc, hp⟩, fun _ h' => h'.unique ⟨hup, c, hc, hp⟩⟩
  attached_iff id := by
    have hk : t.Keyed := h.keyed
    have hiff : (∃ names, t.ancestry id = some names) ↔ t.Topmost id t.root := hk.attached_iff
    rw [hiff, iff_and_self]
    exact mem_keys_of_topmost
  root := by
    have hk : t.Keyed := h.keyed
    obtain ⟨c, hc, hp⟩ := h.rooted
    exact ancestry_eq_some_iff.2 (.root hc hp (hk.id_eq hc))
  below _ _ _ := ancestry_of_parent
  unambiguous hd _ _ _ ha hb :=
    PathTo.injective h.keyed hd (ancestry_eq_some_iff.1 ha) (ancestry_eq_some_iff.1 hb)

theorem exactPaths_of_ofNode {o : ExtractionOptions} {hints : List Hint} {n : Node}
    (h : ofNode o hints n = .ok t) : t.ExactPaths := by
  obtain ⟨r, hr, ht⟩ := exists_sound_of_ofNode h
  exact (wellFormed_of_sound hr ht).exactPaths

def equalNames : List Char :=
  "p = ArgumentParser()
q = ArgumentParser()
a = p.add_parser(\"x\")
b = a.add_parser(\"x\")
c = b.add_parser(\"y\")
d = p.add_parser(\"y\")
e = q.add_parser(\"x\")
".toList

theorem exactPaths_of_equal_names : ∃ t, ofSource ⟨"m", []⟩ equalNames = .ok t ∧ t.ExactPaths ∧
    t.DistinctSiblings ∧ t.ancestry (.handle "c") = some ["x", "x", "y"] ∧
    t.ancestry (.handle "d") = some ["y"] ∧ t.ancestry (.handle "e") = none := by
  have hs : (ofSource ⟨"m", []⟩ equalNames).toOption.any (fun t => decide
      (t.DistinctSiblings ∧ t.ancestry (.handle "c") = some ["x", "x", "y"] ∧
        t.ancestry (.handle "d") = some ["y"] ∧ t.ancestry (.handle "e") = none)) = true := by
    decide +kernel
  obtain ⟨t, ht, hd⟩ := exists_ok_of_any hs
  obtain ⟨n, -, htree⟩ := ofSource_ok.1 ht
  exact ⟨t, ht, exactPaths_of_ofNode htree, of_decide_eq_true hd⟩

end CliCompletion.CommandTree
