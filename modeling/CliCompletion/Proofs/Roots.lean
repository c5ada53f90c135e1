import CliCompletion.Proofs.Acceptance
import CliCompletion.Proofs.DiscoveryOrder
import CliCompletion.Proofs.Enumerations

namespace CliCompletion

namespace CommandTree

variable {t : CommandTree} {c : Command} {id : CommandId}

structure FirstWithChildren (t : CommandTree) : Prop where
  children : t.children t.root ≠ []
  first : ∃ before root after, t.commands.values = before ++ root :: after ∧ root.id = t.root ∧
    root.parent = none ∧ ∀ c ∈ before, c.parent = none → t.children c.id = []
  leads : ∀ tool, ∃ rest, t.directives tool =
    .words ⟨tool, []⟩ ((t.children t.root).map (·.name)) none :: rest

def InheritedByOther (t : CommandTree) (id : CommandId) : Prop :=
  ∃ other, other ≠ id ∧ t.InheritsFrom other id

structure RootChosen (t : CommandTree) : Prop where
  parentless : ∃ c, t.find? t.root = some c ∧ c.parent = none
  nested : (∃ c ∈ t.commands.values, c.parent ≠ none) → t.FirstWithChildren
  flat : (∀ c ∈ t.commands.values, c.parent = none) →
    (∃ before root after, t.commands.values = before ++ root :: after ∧ root.id = t.root ∧
      ¬ t.InheritedByOther root.id ∧ ∀ c ∈ after, t.InheritedByOther c.id) ∨
    ((∀ c ∈ t.commands.values, t.InheritedByOther c.id) ∧
      ∃ before root, t.commands.values = before ++ [root] ∧ root.id = t.root)

section Choice

variable {r : Registry}

theorem find?_topLevel (r : Registry) (p : Command → Bool) :
    r.topLevel.find? p = r.commands.values.find? fun c => c.parent.isNone && p c := by
  simp only [Registry.topLevel, List.find?_filter, Bool.decide_and, Bool.decide_eq_true]

theorem hasChildren_iff (hc : t.commands = r.commands) :
    r.hasChildren id = true ↔ t.children id ≠ [] := by
  rw [Registry.hasChildren, List.any_eq_true, ← hc, CommandTree.children, Ne,
    List.filter_eq_nil_iff]
  push Not
  rfl

theorem WellFormed.exists_top_with_children (h : t.WellFormed) (hc : c ∈ t.commands.values)
    (hp : c.parent ≠ none) :
    ∃ top ∈ t.commands.values, top.parent = none ∧ t.children top.id ≠ [] := by
  have hk : t.Keyed := h.keyed
  have hf := hk.find?_of_mem hc
  obtain ⟨top, d, hup, hd, hnone⟩ := h.topped c.id (mem_keys_of_find? hf)
  refine ⟨d, List.mem_map_of_mem (OrderedMap.find?_eq_some_iff.1 hd), hnone, ?_⟩
  rcases hup.cases_tail with rfl | ⟨below, -, e, he, hep⟩
  · exact absurd hnone ((Option.some.inj (hf.symm.trans hd)) ▸ hp)
  · have hm : e ∈ t.commands.values := List.mem_map_of_mem (OrderedMap.find?_eq_some_iff.1 he)
    rw [hk.id_eq hd]
    exact List.ne_nil_of_mem (mem_children_iff.2 ⟨hm, hep⟩)

theorem exists_directives_eq_cons (hk : t.Keyed) (hf : t.find? t.root = some c)
    (hp : c.parent = none) (hc : t.children t.root ≠ []) (tool : String) : ∃ rest,
    t.directives tool = .words ⟨tool, []⟩ ((t.children t.root).map (·.name)) none :: rest := by
  have ha : t.ancestry t.root = some [] :=
    ancestry_eq_some_iff.2 (.root hf hp (hk.id_eq hf))
  rw [directives, enumerations, rootFirst,
    List.filterMap_cons_some (enumeration_of_enumerated ha hc), List.cons_append]
  exact ⟨_, rfl⟩

theorem find?_hasChildren_eq_some_iff (hcs : t.commands = r.commands) :
    (r.topLevel.find? fun c => r.hasChildren c.id) = some c ↔
      (c.parent = none ∧ t.children c.id ≠ []) ∧ ∃ before after,
        t.commands.values = before ++ c :: after ∧
          ∀ d ∈ before, d.parent = none → t.children d.id = [] := by
  rw [find?_topLevel, ← hcs, List.find?_eq_some_iff_append, Bool.and_eq_true,
    Option.isNone_iff_eq_none, hasChildren_iff hcs]
  refine and_congr_right fun _ => exists_congr fun before => exists_congr fun after =>
    and_congr_right fun _ => forall₂_congr fun d _ => ?_
  rw [Bool.not_eq_true', Bool.and_eq_false_imp, Option.isNone_iff_eq_none]
  refine imp_congr_right fun _ => ?_
  rw [← Bool.not_eq_true, hasChildren_iff hcs, not_not]

theorem WellFormed.firstWithChildren (h : t.WellFormed) (hr : r.root? = some t.root)
    (hcs : t.commands = r.commands) (hn : ∃ c ∈ t.commands.values, c.parent ≠ none) :
    t.FirstWithChildren := by
  obtain ⟨c, hc, hp⟩ := hn
  obtain ⟨top, htop, hnone, hchildren⟩ := h.exists_top_with_children hc hp
  have hsome : (r.topLevel.find? fun c => r.hasChildren c.id).isSome = true := by
    rw [List.find?_isSome]
    refine ⟨top, List.mem_filter.2 ⟨hcs ▸ htop, by rw [hnone]; rfl⟩, ?_⟩
    exact (hasChildren_iff hcs).2 hchildren
  obtain ⟨root, hroot⟩ := Option.isSome_iff_exists.1 hsome
  rw [Registry.root?, hroot, Option.some_or, Option.map_some, Option.some.injEq] at hr
  obtain ⟨⟨hp, hchildren⟩, before, after, hsplit, hbefore⟩ :=
    (find?_hasChildren_eq_some_iff hcs).1 hroot
  have hk : t.Keyed := h.keyed
  have hf := hk.find?_of_mem (c := root) (hsplit ▸ by simp)
  rw [hr] at hf hchildren
  exact ⟨hchildren, ⟨before, root, after, hsplit, hr, hp, hbefore⟩,
    exists_directives_eq_cons hk hf hp hchildren⟩

theorem WellFormed.not_inheritsFrom_last (h : t.WellFormed) {front : List Command}
    (hl : t.commands.values = front ++ [c]) : ¬ t.InheritsFrom id c.id := by
  intro hid
  have hk : t.Keyed := h.keyed
  have hlt := h.place_lt (.single hid)
  have hm := mem_keys_of_inherits hk (.single hid)
  have hnd : t.commands.keys.Nodup := t.commands.distinct
  have hkeys : t.commands.keys = front.map Command.id ++ [c.id] := by
    rw [← hk.map_id_values, hl, List.map_append, List.map_singleton]
  rw [hkeys, ← List.concat_eq_append, List.nodup_concat] at hnd
  have hplace : t.place c.id = (front.map Command.id).length := by
    rw [place, hkeys, List.idxOf_append, if_neg hnd.1, List.idxOf_cons_self, Nat.zero_add]
  have hle : t.place id < (front.map Command.id).length + 1 := by
    rw [← List.length_singleton (a := c.id), ← List.length_append, ← hkeys]
    exact List.idxOf_lt_length_of_mem hm
  omega

theorem WellFormed.root_eq_last (h : t.WellFormed) (hr : r.root? = some t.root)
    (hcs : t.commands = r.commands) (hflat : ∀ c ∈ t.commands.values, c.parent = none) :
    ∃ front root, t.commands.values = front ++ [root] ∧ root.id = t.root ∧
      ∀ id, ¬ t.InheritsFrom id root.id := by
  obtain ⟨c, hc, -⟩ := h.rooted
  have hm : c ∈ t.commands.values := List.mem_map_of_mem (OrderedMap.find?_eq_some_iff.1 hc)
  rcases List.eq_nil_or_concat t.commands.values with hnil | ⟨front, last, hl⟩
  · rw [hnil] at hm
    cases hm
  · rw [List.concat_eq_append] at hl
    have hno : ∀ id, ¬ t.InheritsFrom id last.id := fun id => h.not_inheritsFrom_last hl
    have htop : r.topLevel = front ++ [last] := by
      rw [← hl, Registry.topLevel, ← hcs, List.filter_eq_self]
      exact fun d hd => Option.isNone_iff_eq_none.2 (hflat d hd)
    have hnone : (r.topLevel.find? fun c => r.hasChildren c.id) = none := by
      refine List.find?_eq_none.2 fun d _ hd => ?_
      obtain ⟨e, he, hp⟩ := List.any_eq_true.1 hd
      rw [hflat e (hcs ▸ he)] at hp
      cases hp
    have hlast : r.isInherited last.id = false := by
      refine Bool.eq_false_iff.2 fun hi => ?_
      obtain ⟨e, he, hi⟩ := List.any_eq_true.1 hi
      exact hno e.id ⟨e, hcs ▸ he, rfl, List.contains_iff_mem.1 hi⟩
    rw [Registry.root?, hnone, Option.none_or, htop, List.reverse_append, List.reverse_singleton,
      List.singleton_append, List.find?_cons_of_pos (by simp [hlast]), Option.some_or,
      Option.map_some, Option.some.injEq] at hr
    exact ⟨front, last, hl, hr, hno⟩

theorem WellFormed.rootChosen (h : t.WellFormed) (hr : r.root? = some t.root)
    (hcs : t.commands = r.commands) : t.RootChosen where
  parentless := h.rooted
  nested := h.firstWithChildren hr hcs
  flat := by
    intro hflat
    obtain ⟨front, root, hl, hid, hno⟩ := h.root_eq_last hr hcs hflat
    refine .inl ⟨front, root, [], hl, hid, ?_, by simp⟩
    rintro ⟨other, -, hi⟩
    exact hno other hi

theorem tree_eq_error_iff (h : r.Sound) : r.tree = .error .noParser ↔ r.commands.keys = [] := by
  constructor
  · intro he
    by_contra hn
    obtain ⟨t, ht⟩ := h.exists_tree hn
    rw [ht] at he
    cases he
  · intro hn
    have hv : r.commands.values = [] := by
      rw [OrderedMap.values, List.map_eq_nil_iff]
      exact List.map_eq_nil_iff.1 hn
    have hroot : r.root? = none := by
      simp [Registry.root?, Registry.topLevel, hv]
    rw [Registry.tree, hroot]

end Choice

variable {o : ExtractionOptions} {hints : List Hint} {n : Node} {r : Registry}

theorem ofNode_rootChosen (hw : Registering.steps hints (n.steps o) .empty = .ok ((), r)) :
    (ofNode o hints n = .error .noParser ↔ r.commands.keys = []) ∧
    (r.commands.keys ≠ [] →
      ∃ t, ofNode o hints n = .ok t ∧ t.commands = r.commands ∧ t.RootChosen) := by
  have hs := Registering.sound_of_steps hw
  have heq : ofNode o hints n = r.tree := by
    rw [ofNode, ofSteps_eq, hw]
  rw [heq]
  refine ⟨tree_eq_error_iff hs, fun hn => ?_⟩
  obtain ⟨t, ht⟩ := hs.exists_tree hn
  have hwf := wellFormed_of_sound hs ht
  obtain ⟨root, hr, rfl⟩ := Registry.tree_ok.1 ht
  exact ⟨_, ht, rfl, hwf.rootChosen hr rfl⟩

def severalParsers : List Char :=
  "q = ArgumentParser()
p = ArgumentParser(parents=[q])
p.add_parser(\"x\", parents=[q])
z = ArgumentParser()
z.add_parser(\"y\")
".toList

theorem ofNode_rootChosen_several : ∃ n hints r t, Node.ofSource severalParsers = .ok n ∧
    Registering.steps hints (n.steps ⟨"m", []⟩) .empty = .ok ((), r) ∧
    (ofNode ⟨"m", []⟩ hints n = .error .noParser ↔ r.commands.keys = []) ∧
    r.commands.keys ≠ [] ∧ ofNode ⟨"m", []⟩ hints n = .ok t ∧ t.commands = r.commands ∧
    t.RootChosen ∧ (∃ c ∈ t.commands.values, c.parent ≠ none) ∧ t.root = .handle "p" := by
  have hs : (ofSource ⟨"m", []⟩ severalParsers).toOption.any (fun t => decide
      (t.root = .handle "p" ∧ t.commands.keys ≠ [] ∧
        ∃ c ∈ t.commands.values, c.parent ≠ none)) = true := by decide +kernel
  obtain ⟨t, ht, hd⟩ := exists_ok_of_any hs
  obtain ⟨hroot, hkeys, hnested⟩ := of_decide_eq_true hd
  obtain ⟨n, hn, ht⟩ := ofSource_ok.1 ht
  obtain ⟨r, hr, htree⟩ := ofSteps_ok.1 ht
  obtain ⟨root, -, rfl⟩ := Registry.tree_ok.1 htree
  obtain ⟨hiff, hchosen⟩ := ofNode_rootChosen hr
  obtain ⟨t, ht', hcs, hc⟩ := hchosen hkeys
  cases ht.symm.trans ht'
  exact ⟨n, _, r, _, hn, hr, hiff, hkeys, ht, rfl, hc, hnested, hroot⟩

end CommandTree

end CliCompletion
