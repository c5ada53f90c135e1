import CliCompletion.Proofs.ArgumentDirectives
import Mathlib.Data.List.Sort

namespace CliCompletion

section Places

variable {α : Type} [DecidableEq α] {l l' : List α}

theorem pairwise_idxOf (h : l.Nodup) : l.Pairwise fun a b => l.idxOf a < l.idxOf b := by
  refine List.pairwise_iff_getElem.2 fun i j hi hj hij => ?_
  rwa [h.idxOf_getElem i hi, h.idxOf_getElem j hj]

theorem sublist_iff_pairwise_idxOf (h : l.Nodup) :
    l'.Sublist l ↔ l' ⊆ l ∧ l'.Pairwise fun a b => l.idxOf a < l.idxOf b := by
  constructor
  · exact fun hs => ⟨hs.subset, (pairwise_idxOf h).sublist hs⟩
  · rintro ⟨hsub, hp⟩
    have hnd : l'.Nodup := by
      refine hp.imp fun {a b} hlt hab => ?_
      rw [hab] at hlt
      exact Nat.lt_irrefl _ hlt
    have : Std.Antisymm fun a b => l.idxOf a < l.idxOf b :=
      ⟨fun _ _ hab hba => absurd hba (Nat.lt_asymm hab)⟩
    exact List.sublist_of_subperm_of_pairwise (List.subperm_of_subset hnd hsub) hp
      (pairwise_idxOf h)

end Places

namespace CommandTree

variable {t : CommandTree} {a b c id start : CommandId} {found seen rest : List CommandId}
  {next : Nat}

def place (t : CommandTree) (id : CommandId) : Nat :=
  t.commands.keys.idxOf id

section BreadthFirst

def FoundBefore (t : CommandTree) (seen : List CommandId) (a b : CommandId) : Prop :=
  ∃ before id after, seen = before ++ id :: after ∧ t.InheritsFrom a id ∧
    (∀ i ∈ before, ¬ t.InheritsFrom b i) ∧ (t.InheritsFrom b id → t.place a < t.place b)

structure BreadthFirst (t : CommandTree) (seen rest : List CommandId) : Prop where
  reached : ∀ a ∈ rest, ∃ id ∈ seen, t.InheritsFrom a id
  ordered : rest.Pairwise (t.FoundBefore seen)

theorem FoundBefore.append (h : t.FoundBefore seen a b) (more : List CommandId) :
    t.FoundBefore (seen ++ more) a b := by
  obtain ⟨before, id, after, rfl, ha, hb, hlt⟩ := h
  exact ⟨before, id, after ++ more, by simp, ha, hb, hlt⟩

theorem exists_addInheritors (t : CommandTree) (found : List CommandId) (id : CommandId) :
    ∃ new, t.addInheritors found id = found ++ new ∧
      new.Sublist (t.commands.values.map (·.id)) ∧
        ∀ a ∈ new, a ∉ found ∧ t.InheritsFrom a id := by
  refine addInheritors_induct (P := fun cs found' => ∃ new, found' = found ++ new ∧
    new.Sublist (cs.map (·.id)) ∧ ∀ a ∈ new, a ∉ found ∧ ∃ c ∈ cs, c.id = a ∧ id ∈ c.inherits)
    ⟨[], (List.append_nil _).symm, by simp⟩ ?_ ?_
  · rintro cs c - ⟨new, rfl, hsub, hnew⟩ -
    refine ⟨new, rfl, ?_, fun a ha => ⟨(hnew a ha).1, ?_⟩⟩
    · rw [List.map_append]
      exact hsub.trans (List.sublist_append_left _ _)
    · obtain ⟨d, hd, hda⟩ := (hnew a ha).2
      exact ⟨d, List.mem_append_left _ hd, hda⟩
  · rintro cs c - ⟨new, rfl, hsub, hnew⟩ hi hc
    refine ⟨new ++ [c.id], List.append_assoc .., ?_, ?_⟩
    · rw [List.map_append]
      exact hsub.append (List.Sublist.refl _)
    · intro a ha
      rcases List.mem_append.1 ha with ha | ha
      · obtain ⟨d, hd, hda⟩ := (hnew a ha).2
        exact ⟨(hnew a ha).1, d, List.mem_append_left _ hd, hda⟩
      · obtain rfl := List.mem_singleton.1 ha
        exact ⟨fun hf => hc (List.mem_append_left _ hf), c, by simp, rfl, hi⟩

theorem BreadthFirst.step (hk : t.Keyed) (hg : t.Gathered start next found)
    (h : t.BreadthFirst (found.take next) found.tail) (hid : found[next]? = some id) :
    t.BreadthFirst ((t.addInheritors found id).take (next + 1))
      (t.addInheritors found id).tail := by
  obtain ⟨new, hadd, hsub, hnew⟩ := t.exists_addInheritors found id
  have hlt : next < found.length := (List.getElem?_eq_some_iff.1 hid).1
  have hne : found ≠ [] := List.ne_nil_of_length_pos (by omega)
  have hseen : (found ++ new).take (next + 1) = found.take next ++ [id] := by
    rw [List.take_append_of_le_length hlt, List.take_add_one, hid]
    rfl
  -- Whatever inherits from a command looked at before was found then.
  have hfresh : ∀ a ∈ new, ∀ i ∈ found.take next, ¬ t.InheritsFrom a i :=
    fun a ha i hi hinh => (hnew a ha).1 (hg.closed i hi a hinh)
  rw [hadd, hseen, List.tail_append_of_ne_nil hne]
  constructor
  · intro a ha
    rcases List.mem_append.1 ha with ha | ha
    · obtain ⟨i, hi, hinh⟩ := h.reached a ha
      exact ⟨i, List.mem_append_left _ hi, hinh⟩
    · exact ⟨id, by simp, (hnew a ha).2⟩
  · refine List.pairwise_append.2 ⟨h.ordered.imp fun hab => hab.append _, ?_, ?_⟩
    · rw [hk.map_id_values] at hsub
      have hp := (pairwise_idxOf t.commands.distinct).sublist hsub
      refine hp.imp_of_mem fun ha hb hab => ?_
      exact ⟨found.take next, id, [], rfl, (hnew _ ha).2, hfresh _ hb, fun _ => hab⟩
    · intro a ha b hb
      obtain ⟨i, hi, hinh⟩ := h.reached a ha
      obtain ⟨before, after, hsplit⟩ := List.append_of_mem hi
      have hnone := hfresh b hb
      rw [hsplit] at hnone ⊢
      refine FoundBefore.append ⟨before, i, after, rfl, hinh, ?_, ?_⟩ [id]
      · exact fun j hj => hnone j (List.mem_append_left _ hj)
      · exact fun hbi => absurd hbi (hnone i (by simp))

theorem breadthFirst_receivers (hk : t.Keyed) (hr : t.receivers start = start :: rest) :
    t.BreadthFirst (start :: rest) rest := by
  have h₀ : t.BreadthFirst ([start].take 0) [start].tail := ⟨by simp, .nil⟩
  obtain ⟨n, hn, -, h⟩ := (t.spreads_receivers start).invariant
    (P := fun n found => t.Gathered start n found ∧ t.BreadthFirst (found.take n) found.tail)
    (fun h hid => ⟨h.1.step hid, h.2.step hk h.1 hid⟩) ⟨gathered_singleton start, h₀⟩
  rwa [List.take_of_length_le hn, hr] at h

end BreadthFirst

def InDiscoveryOrder (t : CommandTree) (start : CommandId) (ids : List CommandId) : Prop :=
  ∃ rest, ids = start :: rest ∧ rest.Sublist t.commands.keys ∧
    ∀ id, id ∈ rest ↔ id ≠ start ∧ Relation.TransGen t.InheritsFrom id start

def Orderly (t : CommandTree) (start : CommandId) : Prop :=
  ∀ a b, Relation.TransGen t.InheritsFrom a start → Relation.TransGen t.InheritsFrom b start →
    t.place a < t.place b → ∀ j, t.InheritsFrom b j → Relation.ReflTransGen t.InheritsFrom j start →
    ∃ i, t.InheritsFrom a i ∧ Relation.ReflTransGen t.InheritsFrom i start ∧ t.place i ≤ t.place j

section WellFormed

theorem mem_rest_iff (hr : t.receivers start = start :: rest) :
    id ∈ rest ↔ id ≠ start ∧ Relation.TransGen t.InheritsFrom id start := by
  have hnd : start ∉ rest := (List.nodup_cons.1 (hr ▸ nodup_receivers)).1
  have hm : id ∈ start :: rest ↔ Relation.ReflTransGen t.InheritsFrom id start :=
    hr ▸ mem_receivers_iff
  rw [List.mem_cons, Relation.reflTransGen_iff_eq_or_transGen, eq_comm (a := start)] at hm
  constructor
  · intro hid
    have hne : id ≠ start := fun h => hnd (h ▸ hid)
    exact ⟨hne, (hm.1 (.inr hid)).resolve_left hne⟩
  · rintro ⟨hne, hid⟩
    exact (hm.2 (.inr hid)).resolve_left hne

theorem inDiscoveryOrder_iff_sublist (hr : t.receivers start = start :: rest) :
    t.InDiscoveryOrder start (t.receivers start) ↔ rest.Sublist t.commands.keys := by
  constructor
  · rintro ⟨rest', hr', hsub, -⟩
    rwa [(List.cons.inj (hr.symm.trans hr')).2]
  · exact fun hsub => ⟨rest, hr, hsub, fun id => mem_rest_iff hr⟩

theorem WellFormed.dependsOn (h : t.WellFormed) (hab : t.InheritsFrom a b) : t.DependsOn a b := by
  obtain ⟨c, hc, rfl, hb⟩ := hab
  have hk : t.Keyed := h.keyed
  exact ⟨c, hk.find?_of_mem hc, .inr hb⟩

theorem WellFormed.place_lt (h : t.WellFormed) (hab : Relation.TransGen t.InheritsFrom a b) :
    t.place b < t.place a := by
  induction hab with
  | single hab => exact idxOf_lt_of_dependsOn h.grounded (h.dependsOn hab)
  | tail _ hab ih =>
      exact Nat.lt_trans (idxOf_lt_of_dependsOn h.grounded (h.dependsOn hab)) ih

theorem mem_keys_of_inherits (hk : t.Keyed) (ha : Relation.TransGen t.InheritsFrom a b) :
    a ∈ t.commands.keys := by
  obtain ⟨c, ⟨d, hd, rfl, -⟩, -⟩ := Relation.TransGen.head'_iff.1 ha
  exact hk.map_id_values ▸ List.mem_map_of_mem hd

theorem WellFormed.sublist_iff_pairwise (h : t.WellFormed)
    (hr : t.receivers start = start :: rest) :
    rest.Sublist t.commands.keys ↔ (start :: rest).Pairwise fun a b => t.place a < t.place b := by
  have hsub : rest ⊆ t.commands.keys := fun id hid =>
    mem_keys_of_inherits h.keyed ((mem_rest_iff hr).1 hid).2
  rw [List.pairwise_cons]
  constructor
  · intro hs
    exact ⟨fun id hid => h.place_lt ((mem_rest_iff hr).1 hid).2,
      ((sublist_iff_pairwise_idxOf t.commands.distinct).1 hs).2⟩
  · exact fun hp => (sublist_iff_pairwise_idxOf t.commands.distinct).2 ⟨hsub, hp.2⟩

theorem WellFormed.mem_rest (h : t.WellFormed) (hr : t.receivers start = start :: rest)
    (ha : Relation.TransGen t.InheritsFrom a start) : a ∈ rest := by
  refine (mem_rest_iff hr).2 ⟨?_, ha⟩
  rintro rfl
  exact Nat.lt_irrefl _ (h.place_lt ha)

theorem FoundBefore.exists_of_receivers (h : t.FoundBefore (start :: rest) a b)
    (hr : t.receivers start = start :: rest) :
    ∃ i, t.InheritsFrom a i ∧ Relation.ReflTransGen t.InheritsFrom i start ∧
      (t.InheritsFrom b i → t.place a < t.place b) ∧
        ∀ k, t.InheritsFrom b k → Relation.ReflTransGen t.InheritsFrom k start →
          k = i ∨ [i, k].Sublist (start :: rest) := by
  obtain ⟨before, i, after, hsplit, hai, hnone, hlt⟩ := h
  have hmem : ∀ k, k ∈ before ++ i :: after ↔ Relation.ReflTransGen t.InheritsFrom k start := by
    intro k
    rw [← hsplit, ← hr, mem_receivers_iff]
  refine ⟨i, hai, (hmem i).1 (by simp), hlt, fun k hbk hk => ?_⟩
  rcases List.mem_append.1 ((hmem k).2 hk) with hkb | hki
  · exact absurd hbk (hnone k hkb)
  · refine (List.mem_cons.1 hki).imp_right fun hka => ?_
    rw [hsplit]
    exact (List.cons_sublist_cons.2 (List.singleton_sublist.2 hka)).trans
      (List.sublist_append_right _ _)

theorem WellFormed.orderly_of_pairwise (h : t.WellFormed)
    (hr : t.receivers start = start :: rest)
    (hp : (start :: rest).Pairwise fun a b => t.place a < t.place b) : t.Orderly start := by
  intro a b ha hb hab j hbj hj
  have hfound : ∀ a ∈ rest, ∀ b ∈ rest, t.place a < t.place b →
      t.FoundBefore (start :: rest) a b := by
    refine List.Pairwise.forall_of_forall_of_flip (fun c _ hc => absurd hc (Nat.lt_irrefl _)) ?_ ?_
    · refine (breadthFirst_receivers h.keyed hr).ordered.imp ?_
      exact fun hf _ => hf
    · refine (List.pairwise_cons.1 hp).2.imp ?_
      exact fun hlt hgt => absurd hgt (Nat.lt_asymm hlt)
  obtain ⟨i, hai, hi, -, hbefore⟩ :=
    (hfound a (h.mem_rest hr ha) b (h.mem_rest hr hb) hab).exists_of_receivers hr
  refine ⟨i, hai, hi, ?_⟩
  rcases hbefore j hbj hj with rfl | hij
  · exact Nat.le_refl _
  · exact Nat.le_of_lt (List.pairwise_iff_forall_sublist.1 hp hij)

theorem WellFormed.place_lt_of_orderly (h : t.WellFormed)
    (hr : t.receivers start = start :: rest) (ho : t.Orderly start)
    (hab : [a, b].Sublist (start :: rest)) : t.place a < t.place b := by
  -- Were `b` set up before `a`, it would inherit from one that is found too late as well, and that
  -- one was set up before `b`.
  generalize hn : t.place b = n
  induction n using Nat.strongRecOn generalizing a b with
  | ind n ih =>
      subst hn
      rcases List.cons_sublist_cons'.1 hab with hab | ⟨rfl, hb⟩
      · have hnd : [a, b].Nodup := (List.nodup_cons.1 (hr ▸ nodup_receivers)).2.sublist hab
        have ha := (mem_rest_iff hr).1 (hab.subset (by simp : a ∈ [a, b]))
        have hb := (mem_rest_iff hr).1 (hab.subset (by simp : b ∈ [a, b]))
        have hne : t.place a ≠ t.place b := by
          intro he
          have he : a = b := (List.idxOf_inj (mem_keys_of_inherits h.keyed ha.2)).1 he
          simp [he] at hnd
        obtain ⟨i, hai, hi, hlt, hbefore⟩ := (List.pairwise_iff_forall_sublist.1
          (breadthFirst_receivers h.keyed hr).ordered hab).exists_of_receivers hr
        by_contra hge
        obtain ⟨k, hbk, hk, hle⟩ := ho b a hb.2 ha.2 (by omega) i hai hi
        rcases hbefore k hbk hk with rfl | hik
        · exact hge (hlt hbk)
        · have hik := ih _ (h.place_lt (.single hbk)) hik rfl
          omega
      · exact h.place_lt ((mem_rest_iff hr).1 (List.singleton_sublist.1 hb)).2

theorem WellFormed.inDiscoveryOrder_iff (h : t.WellFormed) (start : CommandId) :
    t.InDiscoveryOrder start (t.receivers start) ↔ t.Orderly start := by
  obtain ⟨rest, hr⟩ := t.exists_receivers_eq_cons start
  rw [inDiscoveryOrder_iff_sublist hr, h.sublist_iff_pairwise hr]
  refine ⟨h.orderly_of_pairwise hr, fun ho => List.pairwise_iff_forall_sublist.2 ?_⟩
  exact h.place_lt_of_orderly hr ho

end WellFormed

section Directives

variable {tool : String} {o : ExtractionOptions} {hints : List Hint} {n : Node}

def ToldInOrder (t : CommandTree) (tool : String) (a : Argument) : Prop :=
  ∃ rest, rest.Sublist t.commands.keys ∧
    (∀ id, id ∈ rest ↔ t.Attached id ∧ id ≠ a.owner ∧
      Relation.TransGen t.InheritsFrom id a.owner) ∧
    t.Tells tool a ((if t.Attached a.owner then [a.owner] else []) ++ rest)
      (t.argumentDirectives tool a)

theorem toldInOrder_of_inDiscoveryOrder {a : Argument}
    (h : t.InDiscoveryOrder a.owner (t.receivers a.owner)) : t.ToldInOrder tool a := by
  obtain ⟨rest, hr, hsub, hmem⟩ := h
  refine ⟨rest.filter fun id => t.Attached id, List.filter_sublist.trans hsub, ?_, ?_⟩
  · intro id
    rw [List.mem_filter, hmem, decide_eq_true_iff, and_comm]
  · have ha : (if t.Attached a.owner then [a.owner] else []) ++
        rest.filter (fun id => t.Attached id) = t.audience a.owner := by
      rw [audience, hr, List.filter_cons]
      by_cases ho : t.Attached a.owner <;> simp [ho]
    rw [ha]
    exact tells_argumentDirectives a

theorem inDiscoveryOrder_iff_orderly (h : ofNode o hints n = .ok t) :
    (∀ id, (∃ rest, t.receivers id = id :: rest ∧ t.BreadthFirst (id :: rest) rest) ∧
      (t.InDiscoveryOrder id (t.receivers id) ↔ t.Orderly id)) ∧
    ∀ tool a, t.Orderly a.owner → t.ToldInOrder tool a := by
  obtain ⟨r, hs, ht⟩ := exists_sound_of_ofNode h
  have hw := wellFormed_of_sound hs ht
  refine ⟨fun id => ⟨?_, hw.inDiscoveryOrder_iff id⟩, fun tool a ho => ?_⟩
  · obtain ⟨rest, hr⟩ := t.exists_receivers_eq_cons id
    exact ⟨rest, hr, breadthFirst_receivers hw.keyed hr⟩
  · exact toldInOrder_of_inDiscoveryOrder ((hw.inDiscoveryOrder_iff a.owner).2 ho)

def inheritedTwice : List Char :=
  "p = ArgumentParser()
a = p.add_parser(\"a\", parents=[p])
b = p.add_parser(\"b\", parents=[p, a])
p.add_parser(\"c\", parents=[b, a])
p.add_argument(\"--x\")
".toList

theorem inDiscoveryOrder_of_inherited_twice : ∃ t, ofSource ⟨"m", []⟩ inheritedTwice = .ok t ∧
    (t.Orderly (.handle "p") ∧ t.InDiscoveryOrder (.handle "p") (t.receivers (.handle "p"))) ∧
    ∃ a ∈ t.arguments, t.Orderly a.owner ∧ t.ToldInOrder "t" a := by
  have hs : (ofSource ⟨"m", []⟩ inheritedTwice).toOption.any (fun t =>
      decide ((t.receivers (.handle "p")).tail.Sublist t.commands.keys ∧
        ∃ a ∈ t.arguments, a.owner = .handle "p")) = true := by decide +kernel
  obtain ⟨t, ht, hd⟩ := exists_ok_of_any hs
  obtain ⟨hsub, a, ha, hp⟩ := of_decide_eq_true hd
  obtain ⟨n, -, htree⟩ := ofSource_ok.1 ht
  obtain ⟨hiff, htold⟩ := inDiscoveryOrder_iff_orderly htree
  obtain ⟨⟨rest, hr, -⟩, hiff⟩ := hiff (.handle "p")
  rw [hr] at hsub
  have hin := (inDiscoveryOrder_iff_sublist hr).2 hsub
  have ho := hiff.1 hin
  exact ⟨t, ht, ⟨ho, hin⟩, a, ha, hp ▸ ho, htold "t" a (hp ▸ ho)⟩

def inheritedThrough : List Char :=
  "p = ArgumentParser()
a = p.add_parser(\"a\", parents=[p])
b = p.add_parser(\"b\", parents=[a])
c = p.add_parser(\"c\", parents=[p])
p.add_argument(\"--x\")
".toList

theorem not_inDiscoveryOrder_of_inherited_through :
    ∃ t, ofSource ⟨"m", []⟩ inheritedThrough = .ok t ∧
      ¬ t.InDiscoveryOrder (.handle "p") (t.receivers (.handle "p")) ∧
      t.directives "t" = [.words ⟨"t", []⟩ ["a", "b", "c"] none, .flag ⟨"t", []⟩ "--x" [],
        .flag ⟨"t", ["a"]⟩ "--x" [], .flag ⟨"t", ["c"]⟩ "--x" [], .flag ⟨"t", ["b"]⟩ "--x" []] := by
  have hs : (ofSource ⟨"m", []⟩ inheritedThrough).toOption.any (fun t =>
      decide (¬ (t.receivers (.handle "p")).tail.Sublist t.commands.keys ∧
        t.directives "t" = [.words ⟨"t", []⟩ ["a", "b", "c"] none, .flag ⟨"t", []⟩ "--x" [],
          .flag ⟨"t", ["a"]⟩ "--x" [], .flag ⟨"t", ["c"]⟩ "--x" [],
          .flag ⟨"t", ["b"]⟩ "--x" []])) = true := by decide +kernel
  obtain ⟨t, ht, hd⟩ := exists_ok_of_any hs
  obtain ⟨hsub, hdirectives⟩ := of_decide_eq_true hd
  refine ⟨t, ht, ?_, hdirectives⟩
  rintro ⟨rest, hr, hrest, -⟩
  rw [hr] at hsub
  exact hsub hrest

end Directives

end CommandTree

end CliCompletion
