import CliCompletion.Command.Tree
import Mathlib.Data.List.Induction
import Mathlib.Data.List.Perm.Subperm
import Mathlib.Logic.Relation

namespace CliCompletion.CommandTree

variable {t : CommandTree} {a b id start : CommandId} {found : List CommandId} {next : Nat}

def InheritsFrom (t : CommandTree) (a b : CommandId) : Prop :=
  ∃ c ∈ t.commands.values, c.id = a ∧ b ∈ c.inherits

section AddInheritors

theorem addInheritors_induct {P : List Command → List CommandId → Prop} (hnil : P [] found)
    (hkeep : ∀ cs c found, P cs found → (id ∈ c.inherits → c.id ∈ found) → P (cs ++ [c]) found)
    (hadd : ∀ cs c found, P cs found → id ∈ c.inherits → c.id ∉ found →
      P (cs ++ [c]) (found ++ [c.id])) :
    P t.commands.values (t.addInheritors found id) := by
  rw [addInheritors]
  induction t.commands.values using List.reverseRecOn with
  | nil => exact hnil
  | append_singleton cs c ih =>
      rw [List.foldl_append, List.foldl_cons, List.foldl_nil]
      generalize cs.foldl _ found = found' at ih ⊢
      by_cases hi : id ∈ c.inherits
      · by_cases hf : c.id ∈ found'
        · simpa [hi, hf] using hkeep cs c found' ih fun _ => hf
        · simpa [hi, hf] using hadd cs c found' ih hi hf
      · simpa [hi] using hkeep cs c found' ih fun h => absurd h hi

theorem prefix_addInheritors : found <+: t.addInheritors found id :=
  addInheritors_induct (P := fun _ found' => found <+: found') List.prefix_rfl
    (fun _ _ _ h _ => h) fun _ _ _ h _ _ => h.trans (List.prefix_append _ _)

theorem nodup_addInheritors (h : found.Nodup) : (t.addInheritors found id).Nodup := by
  refine addInheritors_induct (P := fun _ found' => found'.Nodup) h (fun _ _ _ h _ => h) ?_
  intro _ c found' h _ hf
  refine List.nodup_append.2 ⟨h, List.pairwise_singleton _ _, ?_⟩
  rintro i hi j hj rfl
  exact hf (List.mem_singleton.1 hj ▸ hi)

theorem mem_addInheritors_iff :
    a ∈ t.addInheritors found id ↔ a ∈ found ∨ t.InheritsFrom a id := by
  refine addInheritors_induct (P := fun cs found' => a ∈ found' ↔ a ∈ found ∨
    ∃ c ∈ cs, c.id = a ∧ id ∈ c.inherits) (by simp) ?_ ?_
  · intro cs c found' h hc
    rw [h]
    constructor
    · rintro (ha | ⟨d, hd, hda⟩)
      · exact .inl ha
      · exact .inr ⟨d, List.mem_append_left _ hd, hda⟩
    · rintro (ha | ⟨d, hd, hda, hi⟩)
      · exact .inl ha
      · rcases List.mem_append.1 hd with hd | hd
        · exact .inr ⟨d, hd, hda, hi⟩
        · rw [List.mem_singleton.1 hd] at hda hi
          exact h.1 (hda ▸ hc hi)
  · intro cs c found' h hi _
    rw [List.mem_append, h, or_assoc]
    refine or_congr_right ⟨?_, ?_⟩
    · rintro (⟨d, hd, hda⟩ | ha)
      · exact ⟨d, List.mem_append_left _ hd, hda⟩
      · exact ⟨c, by simp, (List.mem_singleton.1 ha).symm, hi⟩
    · rintro ⟨d, hd, hda, hdi⟩
      rcases List.mem_append.1 hd with hd | hd
      · exact .inl ⟨d, hd, hda, hdi⟩
      · rw [List.mem_singleton.1 hd] at hda
        exact .inr (by simp [hda])

end AddInheritors

structure Gathered (t : CommandTree) (start : CommandId) (next : Nat) (found : List CommandId) :
    Prop where
  starts : [start] <+: found
  distinct : found.Nodup
  inherits : ∀ id ∈ found, Relation.ReflTransGen t.InheritsFrom id start
  closed : ∀ a ∈ found.take next, ∀ b, t.InheritsFrom b a → b ∈ found

theorem gathered_singleton (start : CommandId) : t.Gathered start 0 [start] where
  starts := List.prefix_rfl
  distinct := List.pairwise_singleton _ _
  inherits := by
    intro id hid
    rw [List.mem_singleton.1 hid]
  closed := by simp

theorem Gathered.step (h : t.Gathered start next found) (hid : found[next]? = some id) :
    t.Gathered start (next + 1) (t.addInheritors found id) where
  starts := h.starts.trans prefix_addInheritors
  distinct := nodup_addInheritors h.distinct
  inherits := by
    intro a ha
    rcases mem_addInheritors_iff.1 ha with ha | ha
    · exact h.inherits a ha
    · exact .head ha (h.inherits id (List.mem_of_getElem? hid))
  closed := by
    intro a ha b hb
    have hle : found <+: t.addInheritors found id := prefix_addInheritors
    obtain ⟨rest, hrest⟩ := hle
    have hlt : next < found.length := (List.getElem?_eq_some_iff.1 hid).1
    rw [← hrest, List.take_append_of_le_length hlt, List.take_add_one, hid] at ha
    rcases List.mem_append.1 ha with ha | ha
    · exact mem_addInheritors_iff.2 (.inl (h.closed a ha b hb))
    · obtain rfl : a = id := by simpa using ha
      exact mem_addInheritors_iff.2 (.inr hb)

theorem Gathered.length_le (h : t.Gathered start next found) :
    found.length ≤ t.commands.length + 1 := by
  have hsub : found ⊆ start :: t.commands.values.map (·.id) := by
    intro id hid
    rcases (h.inherits id hid).cases_head with rfl | ⟨_, ⟨c, hc, rfl, -⟩, -⟩
    · exact List.mem_cons_self ..
    · exact List.mem_cons_of_mem _ (List.mem_map_of_mem hc)
  have hle := (List.subperm_of_subset h.distinct hsub).length_le
  simpa [OrderedMap.values, OrderedMap.length] using hle

inductive Spreads (t : CommandTree) : Nat → List CommandId → List CommandId → Prop
  | stop {next : Nat} {found : List CommandId} (h : found.length ≤ next) :
      Spreads t next found found
  | look {next : Nat} {found last : List CommandId} {id : CommandId} (h : found[next]? = some id)
      (rest : Spreads t (next + 1) (t.addInheritors found id) last) : Spreads t next found last

theorem Spreads.unique {last last' : List CommandId} (h : t.Spreads next found last)
    (h' : t.Spreads next found last') : last = last' := by
  induction h generalizing last' with
  | stop hle =>
      cases h' with
      | stop _ => rfl
      | look hid _ =>
          rw [List.getElem?_eq_none hle] at hid
          cases hid
  | look hid _ ih =>
      cases h' with
      | stop hle =>
          rw [List.getElem?_eq_none hle] at hid
          cases hid
      | look hid' rest =>
          obtain rfl := Option.some.inj (hid.symm.trans hid')
          exact ih rest

theorem Spreads.invariant {P : Nat → List CommandId → Prop} {last : List CommandId}
    (hstep : ∀ {next found id}, P next found → found[next]? = some id →
      P (next + 1) (t.addInheritors found id))
    (h : t.Spreads next found last) (h₀ : P next found) : ∃ n, last.length ≤ n ∧ P n last := by
  induction h with
  | stop hle => exact ⟨_, hle, h₀⟩
  | look hid _ ih => exact ih (hstep h₀ hid)

theorem Gathered.spreads {n : Nat} (h : t.Gathered start next found)
    (hn : t.commands.length + 1 ≤ n + next) : t.Spreads next found (t.spread n next found) := by
  induction n generalizing next found with
  | zero =>
      rw [CommandTree.spread]
      exact .stop (by have := h.length_le; omega)
  | succ n ih =>
      rw [CommandTree.spread]
      cases hid : found[next]? with
      | none => exact .stop (List.getElem?_eq_none_iff.1 hid)
      | some id => exact .look hid (ih (h.step hid) (by omega))

theorem spreads_receivers (t : CommandTree) (start : CommandId) :
    t.Spreads 0 [start] (t.receivers start) :=
  (gathered_singleton start).spreads (Nat.le_refl _)

theorem Gathered.mem_iff (h : t.Gathered start next found) (hn : found.length ≤ next) :
    id ∈ found ↔ Relation.ReflTransGen t.InheritsFrom id start := by
  refine ⟨h.inherits id, fun hi => ?_⟩
  induction hi using Relation.ReflTransGen.head_induction_on with
  | refl => exact h.starts.subset (List.mem_singleton_self _)
  | @head b a hb _ ih =>
      have ha : a ∈ found.take next := by rwa [List.take_of_length_le hn]
      exact h.closed a ha b hb

theorem exists_gathered_receivers (t : CommandTree) (start : CommandId) :
    ∃ last, (t.receivers start).length ≤ last ∧ t.Gathered start last (t.receivers start) :=
  (t.spreads_receivers start).invariant Gathered.step (gathered_singleton start)

theorem nodup_receivers : (t.receivers start).Nodup := by
  obtain ⟨last, -, h⟩ := t.exists_gathered_receivers start
  exact h.distinct

theorem mem_receivers_iff :
    id ∈ t.receivers start ↔ Relation.ReflTransGen t.InheritsFrom id start := by
  obtain ⟨last, hlast, h⟩ := t.exists_gathered_receivers start
  exact h.mem_iff hlast

theorem exists_receivers_eq_cons (t : CommandTree) (start : CommandId) :
    ∃ rest, t.receivers start = start :: rest := by
  obtain ⟨last, -, h⟩ := t.exists_gathered_receivers start
  obtain ⟨rest, hrest⟩ := h.starts
  exact ⟨rest, hrest.symm⟩

structure InheritanceClosure (t : CommandTree) (start : CommandId) (ids : List CommandId) :
    Prop where
  starts : ∃ rest, ids = start :: rest
  distinct : ids.Nodup
  mem_iff : ∀ id, id ∈ ids ↔ Relation.ReflTransGen t.InheritsFrom id start

theorem receivers_inheritanceClosure (t : CommandTree) (start : CommandId) :
    (∀ ids, t.Spreads 0 [start] ids ↔ ids = t.receivers start) ∧
      t.InheritanceClosure start (t.receivers start) := by
  have hs := t.spreads_receivers start
  exact ⟨fun ids => ⟨fun hi => hi.unique hs, fun hi => hi ▸ hs⟩,
    t.exists_receivers_eq_cons start, nodup_receivers, fun _ => mem_receivers_iff⟩

end CliCompletion.CommandTree
