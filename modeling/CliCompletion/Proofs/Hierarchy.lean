import CliCompletion.Directive.Emission
import CliCompletion.Proofs.WellFormed
import Mathlib.Data.List.Perm.Subperm

namespace CliCompletion.CommandTree

variable {t : CommandTree} {id p : CommandId} {c : Command} {names names' : List String}

inductive PathTo (t : CommandTree) : CommandId → List String → Prop
  | root {id : CommandId} {c : Command} (hc : t.find? id = some c) (hp : c.parent = none)
      (hr : c.id = t.root) : PathTo t id []
  | under {id p : CommandId} {c : Command} {names : List String} (hc : t.find? id = some c)
      (hp : c.parent = some p) (hup : PathTo t p names) : PathTo t id (names ++ [c.name])

theorem PathTo.unique (h : t.PathTo id names) (h' : t.PathTo id names') : names = names' := by
  induction h generalizing names' with
  | root hc hp hr =>
      cases h' with
      | root _ _ _ => rfl
      | under hc' hp' _ =>
          rw [Option.some.inj (hc.symm.trans hc'), hp'] at hp
          cases hp
  | under hc hp hup ih =>
      cases h' with
      | root hc' hp' _ =>
          rw [Option.some.inj (hc.symm.trans hc'), hp'] at hp
          cases hp
      | under hc' hp' hup' =>
          obtain rfl := Option.some.inj (hc.symm.trans hc')
          obtain rfl := Option.some.inj (hp.symm.trans hp')
          rw [ih hup']

theorem mem_keys_of_find? (h : t.find? id = some c) : id ∈ t.commands.keys :=
  List.mem_map_of_mem (f := Prod.fst) (OrderedMap.find?_eq_some_iff.1 h)

theorem PathTo.mem_keys (h : t.PathTo id names) : id ∈ t.commands.keys := by
  cases h with
  | root hc _ _ => exact mem_keys_of_find? hc
  | under hc _ _ => exact mem_keys_of_find? hc

-- The commands on the way, the last first. A command further up has a shorter way.
theorem PathTo.exists_chain (h : t.PathTo id names) : ∃ ids : List CommandId,
    ids.length = names.length + 1 ∧ ids.Nodup ∧
      ∀ i ∈ ids, ∃ above, t.PathTo i above ∧ above.length ≤ names.length := by
  induction h with
  | @root id c hc hp hr =>
      refine ⟨[id], rfl, List.pairwise_singleton _ id, ?_⟩
      intro i hi
      rw [List.mem_singleton.1 hi]
      exact ⟨[], .root hc hp hr, Nat.le_refl _⟩
  | @under id p c names hc hp hup ih =>
      obtain ⟨ids, hlen, hnd, hmem⟩ := ih
      have hself : t.PathTo id (names ++ [c.name]) := .under hc hp hup
      have hnew : id ∉ ids := by
        intro hid
        obtain ⟨above, ha, hle⟩ := hmem id hid
        rw [ha.unique hself, List.length_append, List.length_singleton] at hle
        exact Nat.not_succ_le_self _ hle
      refine ⟨id :: ids, by simp [hlen], List.nodup_cons.2 ⟨hnew, hnd⟩, ?_⟩
      intro i hi
      rcases List.mem_cons.1 hi with rfl | hi
      · exact ⟨_, hself, Nat.le_refl _⟩
      · obtain ⟨above, ha, hle⟩ := hmem i hi
        exact ⟨above, ha, by simp only [List.length_append]; omega⟩

theorem PathTo.length_lt (h : t.PathTo id names) : names.length < t.commands.length := by
  obtain ⟨ids, hlen, hnd, hmem⟩ := h.exists_chain
  have hsub : ids ⊆ t.commands.keys := by
    intro i hi
    obtain ⟨above, ha, -⟩ := hmem i hi
    exact ha.mem_keys
  have hle := (List.subperm_of_subset hnd hsub).length_le
  rw [hlen, OrderedMap.keys, List.length_map] at hle
  exact hle

theorem PathTo.namesTo (h : t.PathTo id names) (hc : t.find? id = some c) {n : Nat}
    (hn : names.length < n) : t.namesTo n c = some names := by
  induction h generalizing c n with
  | root hc' hp hr =>
      obtain rfl := Option.some.inj (hc.symm.trans hc')
      cases n with
      | zero => cases hn
      | succ n => simp [CommandTree.namesTo, hp, hr]
  | @under id p c' names hc' hp hup ih =>
      obtain rfl := Option.some.inj (hc.symm.trans hc')
      obtain ⟨above, ha⟩ := exists_find?_of_mem_keys hup.mem_keys
      cases n with
      | zero => cases hn
      | succ n =>
          rw [List.length_append, List.length_singleton] at hn
          have hrest := ih ha (Nat.lt_of_succ_lt_succ hn)
          simp [CommandTree.namesTo, hp, ha, hrest]

theorem pathTo_of_namesTo {n : Nat} (hc : t.find? id = some c)
    (h : t.namesTo n c = some names) : t.PathTo id names := by
  induction n generalizing id c names with
  | zero => cases h
  | succ n ih =>
      rw [CommandTree.namesTo] at h
      cases hp : c.parent with
      | none =>
          rw [hp] at h
          dsimp only at h
          split at h
          · rename_i hr
            cases h
            exact .root hc hp hr
          · cases h
      | some p =>
          rw [hp] at h
          obtain ⟨above, ha, h⟩ := Option.bind_eq_some_iff.1 h
          obtain ⟨up, hup, rfl⟩ := Option.map_eq_some_iff.1 h
          exact .under hc hp (ih ha hup)

theorem ancestry_eq_some_iff : t.ancestry id = some names ↔ t.PathTo id names := by
  rw [ancestry, Option.bind_eq_some_iff]
  constructor
  · rintro ⟨c, hc, h⟩
    exact pathTo_of_namesTo hc h
  · intro h
    obtain ⟨c, hc⟩ := exists_find?_of_mem_keys h.mem_keys
    exact ⟨c, hc, h.namesTo hc h.length_lt⟩

theorem ancestry_of_parent (hc : t.find? id = some c) (hp : c.parent = some p) :
    t.ancestry id = (t.ancestry p).map (· ++ [c.name]) := by
  refine Option.ext fun names => ?_
  rw [ancestry_eq_some_iff, Option.map_eq_some_iff]
  constructor
  · intro h
    cases h with
    | root hc' hp' _ =>
        rw [Option.some.inj (hc.symm.trans hc'), hp'] at hp
        cases hp
    | under hc' hp' hup =>
        obtain rfl := Option.some.inj (hc.symm.trans hc')
        obtain rfl := Option.some.inj (hp.symm.trans hp')
        exact ⟨_, ancestry_eq_some_iff.2 hup, rfl⟩
  · rintro ⟨above, ha, rfl⟩
    exact .under hc hp (ancestry_eq_some_iff.1 ha)

def Attached (t : CommandTree) (id : CommandId) : Prop :=
  ∃ names, t.ancestry id = some names

def Keyed (t : CommandTree) : Prop :=
  ∀ e ∈ t.commands.entries, e.2.id = e.1

instance : Decidable t.Keyed :=
  inferInstanceAs (Decidable (∀ e ∈ t.commands.entries, e.2.id = e.1))

instance : Decidable (t.Attached id) :=
  decidable_of_iff ((t.ancestry id).isSome = true) Option.isSome_iff_exists

theorem attached_iff_of_parent (hc : t.find? id = some c) (hp : c.parent = some p) :
    t.Attached id ↔ t.Attached p := by
  rw [Attached, Attached, ancestry_of_parent hc hp]
  simp

theorem Keyed.id_eq (hk : t.Keyed) (hc : t.find? id = some c) : c.id = id :=
  hk _ (OrderedMap.find?_eq_some_iff.1 hc)

theorem Keyed.find?_of_mem (hk : t.Keyed) (hc : c ∈ t.commands.values) :
    t.find? c.id = some c := by
  obtain ⟨e, he, rfl⟩ := List.mem_map.1 hc
  rw [find?, OrderedMap.find?_eq_some_iff, hk e he]
  exact he

theorem Keyed.map_id_values (hk : t.Keyed) :
    t.commands.values.map Command.id = t.commands.keys := by
  rw [OrderedMap.values, OrderedMap.keys, List.map_map]
  exact List.map_congr_left hk

theorem Keyed.attached_iff (hk : t.Keyed) : t.Attached id ↔
    Relation.ReflTransGen t.HasParent id t.root ∧
      ∃ c, t.find? t.root = some c ∧ c.parent = none := by
  constructor
  · rintro ⟨names, h⟩
    rw [ancestry_eq_some_iff] at h
    induction h with
    | root hc hp hr =>
        rw [hk.id_eq hc] at hr
        subst hr
        exact ⟨.refl, _, hc, hp⟩
    | under hc hp _ ih => exact ⟨.head ⟨_, hc, hp⟩ ih.1, ih.2⟩
  · rintro ⟨hup, c, hc, hp⟩
    induction hup using Relation.ReflTransGen.head_induction_on with
    | refl => exact ⟨[], ancestry_eq_some_iff.2 (.root hc hp (hk.id_eq hc))⟩
    | head hd _ ih =>
        obtain ⟨d, hd, hdp⟩ := hd
        exact (attached_iff_of_parent hd hdp).2 ih

end CliCompletion.CommandTree
