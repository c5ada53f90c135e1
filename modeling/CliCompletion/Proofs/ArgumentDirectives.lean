import CliCompletion.Proofs.Hierarchy
import CliCompletion.Proofs.Inheritance
import Mathlib.Data.List.Forall2

namespace CliCompletion

inductive Payload where
  | words (words : List String) (nargs : Option String)
  | closure (completer : Completer) (nargs : Option String)
  | flag (flag : String) (choices : List String)

def Payload.at (path : CommandPath) : Payload → Directive
  | words ws nargs => .words path ws nargs
  | closure completer nargs => .closure path completer nargs
  | flag name choices => .flag path name choices

namespace Argument

variable {a : Argument} {p q : Payload}

def Dashed (a : Argument) : Prop :=
  ∃ rest, a.name.toList = '-' :: rest

inductive Completes (a : Argument) : Payload → Prop
  | flag (hd : a.Dashed) : Completes a (.flag a.name a.choices)
  | words (hd : ¬ a.Dashed) (hc : a.choices ≠ []) : Completes a (.words a.choices a.nargs)
  | closure (hd : ¬ a.Dashed) (hc : a.choices = []) {h : Hint} (hh : a.hint = some h)
      {before after : List (String × String)} {func : String}
      (hp : h.pairs = before ++ ("func", func) :: after) (hb : ∀ p ∈ before, p.1 ≠ "func")
      {completer : Completer} (hf : Completer.ofName func = some completer) :
      Completes a (.closure completer a.nargs)

def payload? (a : Argument) : Option Payload :=
  if a.isFlag then some (.flag a.name a.choices)
  else if !a.choices.isEmpty then some (.words a.choices a.nargs)
  else a.completer.map (.closure · a.nargs)

theorem directive_eq (a : Argument) (path : CommandPath) :
    a.directive path = a.payload?.map (·.at path) := by
  unfold directive payload?
  split
  · rfl
  · split
    · rfl
    · rw [Option.map_map]
      rfl

theorem isFlag_iff : a.isFlag = true ↔ a.Dashed := by
  rw [isFlag, beq_iff_eq, List.head?_eq_some_iff]
  rfl

theorem hint_get_eq_some_iff {h : Hint} {key value : String} : h.get key = some value ↔
    ∃ before after, h.pairs = before ++ (key, value) :: after ∧ ∀ p ∈ before, p.1 ≠ key := by
  simp only [Hint.get, Option.map_eq_some_iff, List.find?_eq_some_iff_append]
  constructor
  · rintro ⟨⟨k, v⟩, ⟨hk, before, after, hp, hb⟩, rfl⟩
    obtain rfl : k = key := by simpa using hk
    exact ⟨before, after, hp, fun p hm => by simpa using hb p hm⟩
  · rintro ⟨before, after, hp, hb⟩
    exact ⟨(key, value), ⟨by simp, before, after, hp, fun p hm => by simpa using hb p hm⟩, rfl⟩

theorem completer_eq_some_iff {c : Completer} : a.completer = some c ↔
    ∃ h, a.hint = some h ∧ ∃ before func after, h.pairs = before ++ ("func", func) :: after ∧
      (∀ p ∈ before, p.1 ≠ "func") ∧ Completer.ofName func = some c := by
  simp only [completer, Hint.completer, Option.bind_eq_some_iff, hint_get_eq_some_iff]
  constructor
  · rintro ⟨h, hh, func, ⟨before, after, hp, hb⟩, hf⟩
    exact ⟨h, hh, before, func, after, hp, hb, hf⟩
  · rintro ⟨h, hh, before, func, after, hp, hb, hf⟩
    exact ⟨h, hh, func, ⟨before, after, hp, hb⟩, hf⟩

theorem payload?_eq_some_iff : a.payload? = some p ↔ a.Completes p := by
  unfold payload?
  constructor
  · intro h
    split at h
    · rename_i hd
      cases h
      exact .flag (isFlag_iff.1 hd)
    · rename_i hd
      rw [isFlag_iff] at hd
      split at h
      · rename_i hc
        cases h
        exact .words hd (by simpa using hc)
      · rename_i hc
        obtain ⟨c, hcomp, rfl⟩ := Option.map_eq_some_iff.1 h
        obtain ⟨hint, hh, before, func, after, hp, hb, hf⟩ := completer_eq_some_iff.1 hcomp
        exact .closure hd (by simpa using hc) hh hp hb hf
  · intro h
    cases h with
    | flag hd => rw [if_pos (isFlag_iff.2 hd)]
    | words hd hc => rw [if_neg (mt isFlag_iff.1 hd), if_pos (by simpa using hc)]
    | closure hd hc hh hp hb hf =>
        have hcomp := completer_eq_some_iff.2 ⟨_, hh, _, _, _, hp, hb, hf⟩
        rw [if_neg (mt isFlag_iff.1 hd), if_neg (by simp [hc]), hcomp]
        rfl

end Argument

namespace CommandTree

variable {t : CommandTree} {tool : String} {a : Argument} {id : CommandId}

-- The attached commands among the receivers, in the order in which they are told.
def audience (t : CommandTree) (owner : CommandId) : List CommandId :=
  (t.receivers owner).filter fun id => t.Attached id

theorem nodup_audience (owner : CommandId) : (t.audience owner).Nodup :=
  nodup_receivers.filter _

theorem mem_audience_iff {owner : CommandId} : id ∈ t.audience owner ↔
    t.Attached id ∧ Relation.ReflTransGen t.InheritsFrom id owner := by
  rw [audience, List.mem_filter, mem_receivers_iff, decide_eq_true_iff, and_comm]

theorem argumentDirectives_eq_nil (h : a.payload? = none) :
    t.argumentDirectives tool a = [] := by
  refine List.filterMap_eq_nil_iff.2 ?_
  intro id _
  cases t.path tool id <;> simp [Argument.directive_eq, h]

theorem forall₂_argumentDirectives {p : Payload} (h : a.payload? = some p) : List.Forall₂
    (fun id d => ∃ names, t.ancestry id = some names ∧ d = p.at ⟨tool, names⟩)
    (t.audience a.owner) (t.argumentDirectives tool a) := by
  rw [audience, argumentDirectives]
  induction t.receivers a.owner with
  | nil => exact .nil
  | cons id ids ih =>
      by_cases hid : t.Attached id
      · rw [List.filter_cons_of_pos (by simpa using hid)]
        obtain ⟨names, hn⟩ := hid
        rw [List.filterMap_cons_some (b := p.at ⟨tool, names⟩)
          (by simp [path, hn, Argument.directive_eq, h])]
        exact .cons ⟨names, hn, rfl⟩ ih
      · have hn : t.ancestry id = none := by
          refine Option.eq_none_iff_forall_ne_some.2 fun names hn => hid ⟨names, hn⟩
        rw [List.filter_cons_of_neg (by simpa using hid),
          List.filterMap_cons_none (by simp [path, hn])]
        exact ih

structure Tells (t : CommandTree) (tool : String) (a : Argument) (ids : List CommandId)
    (ds : List Directive) : Prop where
  distinct : ids.Nodup
  mem_iff : ∀ id, id ∈ ids ↔
    t.Attached id ∧ Relation.ReflTransGen t.InheritsFrom id a.owner
  told : ∀ p, a.Completes p → List.Forall₂
    (fun id d => ∃ names, t.ancestry id = some names ∧ d = p.at ⟨tool, names⟩) ids ds
  silent : (∀ p, ¬ a.Completes p) → ds = []
  same : ∀ p q, a.Completes p → a.Completes q → p = q

theorem tells_argumentDirectives (a : Argument) :
    t.Tells tool a (t.audience a.owner) (t.argumentDirectives tool a) where
  distinct := nodup_audience a.owner
  mem_iff := fun _ => mem_audience_iff
  told := fun _ hp => forall₂_argumentDirectives (Argument.payload?_eq_some_iff.2 hp)
  silent := by
    intro h
    refine argumentDirectives_eq_nil (Option.eq_none_iff_forall_ne_some.2 fun p hp => ?_)
    exact h p (Argument.payload?_eq_some_iff.1 hp)
  same := by
    intro p q hp hq
    rw [← Argument.payload?_eq_some_iff] at hp hq
    exact Option.some.inj (hp.symm.trans hq)

theorem directives_eq_enumerations_append (t : CommandTree) (tool : String) :
    ∃ blocks, t.directives tool = t.enumerations tool ++ blocks.flatten ∧
      List.Forall₂ (fun a ds => ∃ ids, t.Tells tool a ids ds) t.arguments blocks := by
  refine ⟨t.arguments.map (t.argumentDirectives tool), ?_, ?_⟩
  · rw [directives, List.flatMap_def]
  · refine List.forall₂_map_right_iff.2 (List.forall₂_same.2 fun a _ => ?_)
    exact ⟨_, tells_argumentDirectives a⟩

end CommandTree

end CliCompletion
