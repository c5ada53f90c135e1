import CliCompletion.Proofs.Hierarchy
import Mathlib.Data.List.Nodup

namespace CliCompletion.CommandTree

variable {t : CommandTree} {tool : String} {id : CommandId} {c : Command}

def Enumerated (t : CommandTree) (id : CommandId) : Prop :=
  t.Attached id ∧ t.children id ≠ []

instance : Decidable (t.Enumerated id) :=
  inferInstanceAs (Decidable (_ ∧ _))

def enumerated (t : CommandTree) : List CommandId :=
  t.rootFirst.filter fun id => t.Enumerated id

theorem mem_children_iff : c ∈ t.children id ↔ c ∈ t.commands.values ∧ c.parent = some id := by
  simp [children]

theorem enumeration_of_enumerated {names : List String} (hn : t.ancestry id = some names)
    (hc : t.children id ≠ []) : t.enumeration tool id =
      some (.words ⟨tool, names⟩ ((t.children id).map (·.name)) none) := by
  simp [enumeration, path, hn, hc]

theorem enumeration_eq_none (h : ¬ t.Enumerated id) : t.enumeration tool id = none := by
  by_cases hc : t.children id = []
  · simp [enumeration, hc]
  · have hn : t.ancestry id = none := by
      refine Option.eq_none_iff_forall_ne_some.2 fun names hn => h ⟨⟨names, hn⟩, hc⟩
    simp [enumeration, path, hc, hn]

theorem forall₂_enumerations : List.Forall₂
    (fun id d => ∃ names, t.ancestry id = some names ∧
      d = .words ⟨tool, names⟩ ((t.children id).map (·.name)) none)
    t.enumerated (t.enumerations tool) := by
  rw [enumerated, enumerations]
  induction t.rootFirst with
  | nil => exact .nil
  | cons id ids ih =>
      by_cases h : t.Enumerated id
      · rw [List.filter_cons_of_pos (by simpa using h)]
        obtain ⟨⟨names, hn⟩, hc⟩ := h
        rw [List.filterMap_cons_some (enumeration_of_enumerated hn hc)]
        exact .cons ⟨names, hn, rfl⟩ ih
      · rw [List.filter_cons_of_neg (by simpa using h),
          List.filterMap_cons_none (enumeration_eq_none h)]
        exact ih

theorem nodup_enumerated (t : CommandTree) : t.enumerated.Nodup := by
  have hk : t.commands.keys.Nodup := t.commands.distinct
  have hr : t.rootFirst.Nodup := List.nodup_cons.2 ⟨by simp, hk.filter _⟩
  exact hr.filter _

theorem exists_rootFirst (t : CommandTree) : ∃ rest,
    (t.enumerated = rest ∨ t.enumerated = t.root :: rest) ∧ t.root ∉ rest ∧
      rest.Sublist t.commands.keys := by
  refine ⟨(t.commands.keys.filter (· != t.root)).filter fun id => t.Enumerated id, ?_, ?_, ?_⟩
  · by_cases h : t.Enumerated t.root
    · exact .inr (List.filter_cons_of_pos (by simpa using h))
    · exact .inl (List.filter_cons_of_neg (by simpa using h))
  · simp
  · exact List.filter_sublist.trans List.filter_sublist

theorem mem_enumerated_iff : id ∈ t.enumerated ↔ t.Enumerated id := by
  rw [enumerated, List.mem_filter, decide_eq_true_iff, and_iff_right_iff_imp]
  rintro ⟨⟨names, hn⟩, -⟩
  by_cases hr : id = t.root
  · exact hr ▸ List.mem_cons_self ..
  · refine List.mem_cons_of_mem _ (List.mem_filter.2 ⟨?_, by simpa using hr⟩)
    exact (ancestry_eq_some_iff.1 hn).mem_keys

theorem nodup_values (hk : t.Keyed) : t.commands.values.Nodup := by
  refine List.Nodup.of_map Command.id ?_
  rw [hk.map_id_values]
  exact t.commands.distinct

theorem nodup_flatMap_children (hk : t.Keyed) {ids : List CommandId} (h : ids.Nodup) :
    (ids.flatMap t.children).Nodup := by
  refine List.nodup_flatMap.2 ⟨fun id _ => (nodup_values hk).filter _, ?_⟩
  refine h.imp fun hne c ha hb => hne ?_
  have hp := (mem_children_iff.1 ha).2.symm.trans (mem_children_iff.1 hb).2
  exact Option.some.inj hp

theorem ne_root_of_attached (hk : t.Keyed) (ha : t.Attached id) (hc : t.find? id = some c)
    {p : CommandId} (hp : c.parent = some p) : id ≠ t.root := by
  rintro rfl
  obtain ⟨-, r, hr, hnone⟩ := hk.attached_iff.1 ha
  rw [Option.some.inj (hc.symm.trans hr), hnone] at hp
  cases hp

theorem mem_offered_iff (hk : t.Keyed) : c ∈ t.enumerated.flatMap t.children ↔
    c ∈ t.commands.values ∧ t.Attached c.id ∧ c.id ≠ t.root := by
  rw [List.mem_flatMap]
  constructor
  · rintro ⟨id, hid, hc⟩
    obtain ⟨hm, hp⟩ := mem_children_iff.1 hc
    have hf := hk.find?_of_mem hm
    have ha := (attached_iff_of_parent hf hp).2 (mem_enumerated_iff.1 hid).1
    exact ⟨hm, ha, ne_root_of_attached hk ha hf hp⟩
  · rintro ⟨hm, ha, hne⟩
    have hf := hk.find?_of_mem hm
    cases hp : c.parent with
    | none =>
        obtain ⟨names, hn⟩ := ha
        cases ancestry_eq_some_iff.1 hn with
        | root hc _ hr => exact absurd ((Option.some.inj (hf.symm.trans hc)) ▸ hr) hne
        | under hc hp' _ =>
            rw [← Option.some.inj (hf.symm.trans hc), hp] at hp'
            cases hp'
    | some p =>
        have hc := mem_children_iff.2 ⟨hm, hp⟩
        have hpa := (attached_iff_of_parent hf hp).1 ha
        exact ⟨p, mem_enumerated_iff.2 ⟨hpa, List.ne_nil_of_mem hc⟩, hc⟩

theorem offered_perm (hk : t.Keyed) : (t.enumerated.flatMap t.children).Perm
    (t.commands.values.filter fun c => t.Attached c.id ∧ c.id ≠ t.root) := by
  refine (List.perm_ext_iff_of_nodup
    (nodup_flatMap_children hk t.nodup_enumerated) ((nodup_values hk).filter _)).2 ?_
  intro c
  rw [mem_offered_iff hk, List.mem_filter, decide_eq_true_iff]

theorem attached_of_attached_below {top : CommandId} (h : Relation.TransGen t.HasParent id top)
    (ha : t.Attached id) : t.Attached top := by
  induction h with
  | single hp =>
      obtain ⟨c, hc, hp⟩ := hp
      exact (attached_iff_of_parent hc hp).1 ha
  | tail _ hp ih =>
      obtain ⟨c, hc, hp⟩ := hp
      exact (attached_iff_of_parent hc hp).1 ih

structure Enumerates (t : CommandTree) (tool : String) (ids : List CommandId)
    (ds : List Directive) : Prop where
  told : List.Forall₂ (fun id d => ∃ names, t.ancestry id = some names ∧
    d = .words ⟨tool, names⟩ ((t.children id).map (·.name)) none) ids ds
  distinct : ids.Nodup
  mem_iff : ∀ id, id ∈ ids ↔ t.Attached id ∧ t.children id ≠ []
  rootFirst : ∃ rest, (ids = rest ∨ ids = t.root :: rest) ∧ t.root ∉ rest ∧
    rest.Sublist t.commands.keys
  offered : (ids.flatMap t.children).Perm
    (t.commands.values.filter fun c => t.Attached c.id ∧ c.id ≠ t.root)
  placed : ∀ id ∈ ids, ∀ c ∈ t.children id, ∃ names, t.ancestry id = some names ∧
    t.ancestry c.id = some (names ++ [c.name])
  detached : ∀ top, ¬ t.Attached top → ∀ id, Relation.TransGen t.HasParent id top →
    ∀ c ∈ ids.flatMap t.children, c.id ≠ id

theorem exists_enumerates (hk : t.Keyed) (tool : String) : ∃ ids ds,
    t.directives tool = ds ++ t.arguments.flatMap (t.argumentDirectives tool) ∧
      t.Enumerates tool ids ds ∧ ∀ id, t.Attached id ↔
        Relation.ReflTransGen t.HasParent id t.root ∧
          ∃ c, t.find? t.root = some c ∧ c.parent = none := by
  refine ⟨t.enumerated, t.enumerations tool, rfl, ?_, fun id => hk.attached_iff⟩
  refine ⟨forall₂_enumerations, t.nodup_enumerated, fun id => mem_enumerated_iff,
    t.exists_rootFirst, offered_perm hk, ?_, ?_⟩
  · intro id hid c hc
    obtain ⟨⟨names, hn⟩, -⟩ := mem_enumerated_iff.1 hid
    obtain ⟨hm, hp⟩ := mem_children_iff.1 hc
    refine ⟨names, hn, ?_⟩
    rw [ancestry_of_parent (hk.find?_of_mem hm) hp, hn]
    rfl
  · rintro top ht id hup c hc rfl
    exact ht (attached_of_attached_below hup ((mem_offered_iff hk).1 hc).2.1)

def scattered : CommandTree where
  root := .handle "p"
  commands := ⟨[
    (.anonymous 0, ⟨.anonymous 0, "run", some (.handle "p"), [], 1⟩),
    (.anonymous 1, ⟨.anonymous 1, "fast", some (.anonymous 0), [.anonymous 1], 2⟩),
    (.handle "q", ⟨.handle "q", "", none, [], 3⟩),
    (.anonymous 2, ⟨.anonymous 2, "lost", some (.handle "q"), [], 4⟩),
    (.handle "p", ⟨.handle "p", "", none, [.handle "q"], 5⟩),
    (.anonymous 3, ⟨.anonymous 3, "run", some (.handle "p"), [.handle "z"], 6⟩),
    (.anonymous 4, ⟨.anonymous 4, "adrift", some (.handle "z"), [], 7⟩)], by decide⟩
  arguments := []

theorem exists_enumerates_scattered : scattered.Keyed ∧ ∃ ids ds,
    scattered.directives "t" =
        ds ++ scattered.arguments.flatMap (scattered.argumentDirectives "t") ∧
      scattered.Enumerates "t" ids ds ∧ ∀ id, scattered.Attached id ↔
        Relation.ReflTransGen scattered.HasParent id scattered.root ∧
          ∃ c, scattered.find? scattered.root = some c ∧ c.parent = none := by
  have hk : scattered.Keyed := by decide
  exact ⟨hk, exists_enumerates hk "t"⟩

example : scattered.directives "t" =
    [.words ⟨"t", []⟩ ["run", "run"] none, .words ⟨"t", ["run"]⟩ ["fast"] none] := by decide

end CliCompletion.CommandTree
