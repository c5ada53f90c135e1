import CliCompletion.Proofs.Formation

namespace CliCompletion

namespace Registry

variable {r : Registry}

theorem mem_topLevel_of_root? {id : CommandId} (h : r.root? = some id) :
    ∃ c ∈ r.topLevel, c.id = id := by
  obtain ⟨c, hc, rfl⟩ := Option.map_eq_some_iff.1 h
  refine ⟨c, ?_, rfl⟩
  rcases Option.or_eq_some_iff.1 hc with hc | ⟨-, hc⟩
  · exact List.mem_of_find?_eq_some hc
  · rcases Option.or_eq_some_iff.1 hc with hc | ⟨-, hc⟩
    · exact List.mem_reverse.1 (List.mem_of_find?_eq_some hc)
    · exact List.mem_of_getLast? hc

theorem tree_ok {t : CommandTree} :
    r.tree = .ok t ↔ ∃ id, r.root? = some id ∧ t = ⟨id, r.commands, r.arguments⟩ := by
  unfold tree
  cases h : r.root? with
  | none => simp
  | some id => simp [eq_comm]

end Registry

namespace CommandTree

variable {t : CommandTree} {a b id : CommandId}

def HasParent (t : CommandTree) (a b : CommandId) : Prop :=
  ∃ c, t.find? a = some c ∧ c.parent = some b

def DependsOn (t : CommandTree) (a b : CommandId) : Prop :=
  ∃ c, t.find? a = some c ∧ c.DependsOn b

def Grounded (t : CommandTree) : Prop :=
  ∀ before e after, t.commands.entries = before ++ e :: after →
    ∀ id, e.2.DependsOn id → id ∈ before.map (·.1)

structure WellFormed (t : CommandTree) : Prop where
  keyed : ∀ e ∈ t.commands.entries, e.2.id = e.1
  grounded : t.Grounded
  acyclic : ∀ id, ¬ Relation.TransGen t.DependsOn id id
  owned : ∀ a ∈ t.arguments, a.owner ∈ t.commands.keys
  numbered : ∃ n, t.commands.keys.filterMap CommandId.number? = List.range n
  rooted : ∃ c, t.find? t.root = some c ∧ c.parent = none
  topped : ∀ id ∈ t.commands.keys, ∃ top c,
    Relation.ReflTransGen t.HasParent id top ∧ t.find? top = some c ∧ c.parent = none

theorem exists_find?_of_mem_keys (h : id ∈ t.commands.keys) : ∃ c, t.find? id = some c := by
  obtain ⟨e, he, rfl⟩ := List.mem_map.1 h
  exact ⟨e.2, OrderedMap.find?_eq_some_iff.2 he⟩

theorem idxOf_lt_of_dependsOn (h : t.Grounded) (hab : t.DependsOn a b) :
    t.commands.keys.idxOf b < t.commands.keys.idxOf a := by
  obtain ⟨c, hc, hd⟩ := hab
  obtain ⟨before, after, he⟩ := List.append_of_mem (OrderedMap.find?_eq_some_iff.1 hc)
  have hb := h before (a, c) after he b hd
  have hk : t.commands.keys = before.map (·.1) ++ a :: after.map (·.1) := by
    rw [OrderedMap.keys, he, List.map_append, List.map_cons]
  have hn : a ∉ before.map (·.1) := by
    have hnd := t.commands.distinct
    rw [he, List.map_append, List.map_cons, List.nodup_append] at hnd
    exact fun ha => hnd.2.2 a ha a (List.mem_cons_self ..) rfl
  rw [hk, List.idxOf_append, if_pos hb, List.idxOf_append, if_neg hn]
  have hlt := List.idxOf_lt_length_of_mem hb
  omega

theorem mem_keys_of_dependsOn (h : t.Grounded) (hab : t.DependsOn a b) :
    b ∈ t.commands.keys := by
  obtain ⟨c, hc, hd⟩ := hab
  obtain ⟨before, after, he⟩ := List.append_of_mem (OrderedMap.find?_eq_some_iff.1 hc)
  rw [OrderedMap.keys, he, List.map_append]
  exact List.mem_append_left _ (h before (a, c) after he b hd)

theorem acyclic_of_grounded (h : t.Grounded) : ¬ Relation.TransGen t.DependsOn id id := by
  intro hc
  have hlt : ∀ {a b}, Relation.TransGen t.DependsOn a b →
      t.commands.keys.idxOf b < t.commands.keys.idxOf a := by
    intro a b hab
    induction hab with
    | single hd => exact idxOf_lt_of_dependsOn h hd
    | tail _ hd ih => exact Nat.lt_trans (idxOf_lt_of_dependsOn h hd) ih
  exact Nat.lt_irrefl _ (hlt hc)

theorem exists_top_of_grounded (h : t.Grounded) (hid : id ∈ t.commands.keys) :
    ∃ top c, Relation.ReflTransGen t.HasParent id top ∧ t.find? top = some c ∧
      c.parent = none := by
  -- A parent stands before its child, so the way up is as short as the child's place.
  generalize hn : t.commands.keys.idxOf id = n
  induction n using Nat.strongRecOn generalizing id with
  | ind n ih =>
      obtain ⟨c, hc⟩ := exists_find?_of_mem_keys hid
      cases hp : c.parent with
      | none => exact ⟨id, c, .refl, hc, hp⟩
      | some p =>
          have hd : t.DependsOn id p := ⟨c, hc, .inl hp⟩
          have hlt := idxOf_lt_of_dependsOn h hd
          rw [hn] at hlt
          obtain ⟨top, d, hup, hd, hnone⟩ := ih _ hlt (mem_keys_of_dependsOn h hd) rfl
          exact ⟨top, d, .head ⟨c, hc, hp⟩ hup, hd, hnone⟩

theorem wellFormed_of_sound {r : Registry} (h : r.Sound) (ht : r.tree = .ok t) :
    t.WellFormed := by
  obtain ⟨root, hr, rfl⟩ := Registry.tree_ok.1 ht
  have hg : Grounded ⟨root, r.commands, r.arguments⟩ := h.grounded
  refine ⟨h.keyed, hg, fun _ => acyclic_of_grounded hg, h.owned, ⟨_, h.numbered⟩, ?_,
    fun _ => exists_top_of_grounded hg⟩
  obtain ⟨c, hc, rfl⟩ := Registry.mem_topLevel_of_root? hr
  obtain ⟨hm, hp⟩ := List.mem_filter.1 hc
  obtain ⟨e, he, rfl⟩ := List.mem_map.1 hm
  refine ⟨e.2, OrderedMap.find?_eq_some_iff.2 ?_, Option.isNone_iff_eq_none.1 hp⟩
  rw [h.keyed e he]
  exact he

theorem eq_ok_of_toOption {ε α : Type} {x : Except ε α} {a : α} (h : x.toOption = some a) :
    x = .ok a := by
  cases x with
  | error e => cases h
  | ok b =>
      cases h
      rfl

theorem exists_eq_ok {ε α : Type} {x : Except ε α} (h : x.toOption.isSome = true) :
    ∃ a, x = .ok a :=
  (Option.isSome_iff_exists.1 h).imp fun _ ha => eq_ok_of_toOption ha

theorem exists_ok_of_any {ε α : Type} {x : Except ε α} {p : α → Bool}
    (h : x.toOption.any p = true) : ∃ a, x = .ok a ∧ p a = true := by
  obtain ⟨a, ha, hp⟩ := (Option.any_eq_true _ _).1 h
  exact ⟨a, eq_ok_of_toOption ha, hp⟩

theorem ofSteps_eq (hints : List Hint) (ss : List Step) :
    ofSteps hints ss = match Registering.steps hints ss .empty with
      | .error e => .error e
      | .ok p => p.2.tree := by
  change (Registering.steps hints ss .empty >>= fun p => p.2.tree) = _
  cases Registering.steps hints ss .empty <;> rfl

theorem ofSteps_ok {hints : List Hint} {ss : List Step} :
    ofSteps hints ss = .ok t ↔
      ∃ r, Registering.steps hints ss .empty = .ok ((), r) ∧ r.tree = .ok t := by
  rw [ofSteps_eq]
  cases Registering.steps hints ss .empty with
  | error e => simp
  | ok p => simp [Prod.ext_iff]

theorem ofSource_ok {o : ExtractionOptions} {source : List Char} :
    ofSource o source = .ok t ↔ ∃ n, Node.ofSource source = .ok n ∧
      ofNode o (Hint.scan o.marker (Comment.ofSource source)) n = .ok t := by
  unfold ofSource
  cases Node.ofSource source <;> simp

theorem exists_sound_of_ofNode {o : ExtractionOptions} {hints : List Hint} {n : Node}
    (h : ofNode o hints n = .ok t) : ∃ r : Registry, r.Sound ∧ r.tree = .ok t := by
  obtain ⟨r, hs, ht⟩ := ofSteps_ok.1 h
  exact ⟨r, Registering.sound_of_steps hs, ht⟩

theorem wellFormed_of_ofNode {o : ExtractionOptions} {hints : List Hint} {n : Node}
    (h : ofNode o hints n = .ok t) : t.WellFormed := by
  obtain ⟨r, hr, ht⟩ := exists_sound_of_ofNode h
  exact wellFormed_of_sound hr ht

def nestedCalls : List Char :=
  "p = ArgumentParser()
p = p.add_parser(\"x\", parents=[p.add_parser(\"y\")])
p.add_parser(\"z\").add_argument(\"w\")
".toList

theorem wellFormed_of_nested_calls :
    ∃ t, ofSource ⟨"m", []⟩ nestedCalls = .ok t ∧ t.WellFormed := by
  have hs : (ofSource ⟨"m", []⟩ nestedCalls).toOption.isSome = true := by decide +kernel
  obtain ⟨t, ht⟩ := exists_eq_ok hs
  obtain ⟨n, -, hn⟩ := ofSource_ok.1 ht
  exact ⟨t, ht, wellFormed_of_ofNode hn⟩

end CommandTree

end CliCompletion
