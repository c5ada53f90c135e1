import CliCompletion.Directive.Emission
import Mathlib.Data.List.Forall2

namespace CliCompletion

structure Translation where
  names : String → String → Prop
  texts : String → String → Prop
  lines : Nat → Nat → Prop
  lastLines : Nat → Nat → Prop
  unique : ∀ {x x' y y' : String}, names x x' → names y y' → (x = y ↔ x' = y')
  parserClass_iff : ∀ {x x' : String}, names x x' →
    (x = Vocabulary.parserClass ↔ x' = Vocabulary.parserClass)
  texts_of_names : ∀ {x x' : String}, names x x' → texts x x'
  texts_refl : ∀ s, texts s s

variable {T : Translation} {ι : CommandId → CommandId}

section Relations

variable {α β γ δ : Type} {R : α → β → Prop} {as : List α} {bs : List β} {x : Option α}
  {y : Option β}

theorem bind_eq_bind_of_rel (h : Option.Rel R x y) {f : α → Option γ} {g : β → Option γ}
    (hfg : ∀ a b, R a b → g b = f a) : y.bind g = x.bind f := by
  cases h with
  | some hab => exact hfg _ _ hab
  | none => rfl

theorem rel_map_of_rel (h : Option.Rel R x y) {S : γ → δ → Prop} {f : α → γ} {g : β → δ}
    (hfg : ∀ a b, R a b → S (f a) (g b)) : Option.Rel S (x.map f) (y.map g) := by
  cases h with
  | some hab => exact .some (hfg _ _ hab)
  | none => exact .none

theorem rel_or_of_rel {z : Option α} {w : Option β} (h : Option.Rel R x y)
    (hz : Option.Rel R z w) : Option.Rel R (x.or z) (y.or w) := by
  cases h with
  | some hab => exact .some hab
  | none => exact hz

theorem rel_getLast?_of_forall₂ (h : List.Forall₂ R as bs) :
    Option.Rel R as.getLast? bs.getLast? := by
  have hr := List.rel_reverse h
  rw [← List.head?_reverse, ← List.head?_reverse]
  generalize as.reverse = cs at hr ⊢
  generalize bs.reverse = ds at hr ⊢
  cases hr with
  | nil => exact .none
  | cons hab _ => exact .some hab

theorem map_eq_map_of_forall₂ (h : List.Forall₂ R as bs) {f : α → γ} {g : β → γ}
    (hfg : ∀ a b, R a b → g b = f a) : bs.map g = as.map f := by
  induction h with
  | nil => rfl
  | cons hab _ ih => rw [List.map_cons, List.map_cons, hfg _ _ hab, ih]

theorem isEmpty_eq_of_forall₂ (h : List.Forall₂ R as bs) : bs.isEmpty = as.isEmpty := by
  cases h <;> rfl

theorem rel_find?_of_forall₂ (h : List.Forall₂ R as bs) {p : α → Bool} {q : β → Bool}
    (hpq : ∀ a b, R a b → q b = p a) : Option.Rel R (as.find? p) (bs.find? q) := by
  induction h with
  | nil => exact .none
  | @cons a b _ _ hab _ ih =>
      rw [List.find?_cons, List.find?_cons, hpq a b hab]
      cases p a with
      | true => exact .some hab
      | false => exact ih

theorem forall₂_filter (h : List.Forall₂ R as bs) {p : α → Bool} {q : β → Bool}
    (hpq : ∀ a b, R a b → q b = p a) : List.Forall₂ R (as.filter p) (bs.filter q) :=
  List.rel_filter (fun a b hab => (Bool.eq_iff_iff.1 (hpq a b hab)).symm) h

theorem any_eq_any_of_forall₂ (h : List.Forall₂ R as bs) {p : α → Bool} {q : β → Bool}
    (hpq : ∀ a b, R a b → q b = p a) : bs.any q = as.any p := by
  have hmap := congrArg (List.any · id) (map_eq_map_of_forall₂ h hpq)
  simpa [List.any_map] using hmap

end Relations

structure Command.Like (T : Translation) (ι : CommandId → CommandId) (c c' : Command) : Prop where
  id : c'.id = ι c.id
  name : c'.name = c.name
  parent : c'.parent = c.parent.map ι
  inherits : c'.inherits = c.inherits.map ι
  line : T.lines c.line c'.line

structure Hint.Like (T : Translation) (h h' : Hint) : Prop where
  text : h'.text = h.text
  pairs : h'.pairs = h.pairs
  line : T.lastLines h.line h'.line

structure Argument.Like (T : Translation) (ι : CommandId → CommandId) (a a' : Argument) :
    Prop where
  owner : a'.owner = ι a.owner
  literals : a'.literals = a.literals
  options : a'.options = a.options
  hint : Option.Rel (Hint.Like T) a.hint a'.hint
  line : T.lastLines a.line a'.line

theorem Command.Like.parent_beq (hι : Function.Injective ι) {c c' : Command} (h : c.Like T ι c')
    (id : CommandId) : (c'.parent == some (ι id)) = (c.parent == some id) := by
  rw [h.parent, Bool.eq_iff_iff, beq_iff_eq, beq_iff_eq]
  exact (Option.map_injective hι).eq_iff (b := some id)

theorem Command.Like.contains_inherits (hι : Function.Injective ι) {c c' : Command}
    (h : c.Like T ι c') (id : CommandId) :
    c'.inherits.contains (ι id) = c.inherits.contains id := by
  rw [h.inherits, Bool.eq_iff_iff, List.contains_iff_mem, List.contains_iff_mem,
    List.mem_map_of_injective hι]

theorem Argument.Like.directive {a a' : Argument} (h : a.Like T ι a') (path : CommandPath) :
    a'.directive path = a.directive path := by
  obtain ⟨-, hl, ho, hh, -⟩ := h
  have hc : a'.completer = a.completer := by
    refine bind_eq_bind_of_rel hh fun x y hxy => ?_
    rw [Hint.completer, Hint.completer, Hint.get, Hint.get, hxy.pairs]
  simp [Argument.directive, Argument.isFlag, Argument.name, Argument.choices,
    Argument.nargs, Argument.option?, hl, ho, hc]

namespace OrderedMap

variable {m m' : OrderedMap CommandId Command}

def Like (T : Translation) (ι : CommandId → CommandId) (m m' : OrderedMap CommandId Command) :
    Prop :=
  List.Forall₂ (fun e e' => e'.1 = ι e.1 ∧ e.2.Like T ι e'.2) m.entries m'.entries

theorem Like.keys_eq (h : m.Like T ι m') : m'.keys = m.keys.map ι := by
  rw [keys, keys, List.map_map]
  exact map_eq_map_of_forall₂ h fun _ _ he => he.1

theorem Like.values (h : m.Like T ι m') :
    List.Forall₂ (Command.Like T ι) m.values m'.values :=
  List.forall₂_map_left_iff.2 (List.forall₂_map_right_iff.2 (h.imp fun _ _ he => he.2))

theorem Like.length_eq (h : m.Like T ι m') : m'.length = m.length :=
  (List.Forall₂.length_eq h).symm

theorem Like.find? (h : m.Like T ι m') (hι : Function.Injective ι) (id : CommandId) :
    Option.Rel (Command.Like T ι) (m.find? id) (m'.find? (ι id)) := by
  refine rel_map_of_rel (rel_find?_of_forall₂ h ?_) fun _ _ he => he.2
  intro e e' he
  rw [he.1, Bool.eq_iff_iff, beq_iff_eq, beq_iff_eq]
  exact hι.eq_iff

theorem Like.contains (h : m.Like T ι m') (hι : Function.Injective ι) (id : CommandId) :
    m'.contains (ι id) = m.contains id := by
  rw [Bool.eq_iff_iff, contains_iff, contains_iff, h.keys_eq, List.mem_map_of_injective hι]

end OrderedMap

namespace CommandTree

variable {t t' : CommandTree}

structure Like (T : Translation) (ι : CommandId → CommandId) (t t' : CommandTree) : Prop where
  root : t'.root = ι t.root
  commands : t.commands.Like T ι t'.commands
  arguments : List.Forall₂ (Argument.Like T ι) t.arguments t'.arguments

namespace Like

variable (h : t.Like T ι t') (hι : Function.Injective ι)

include h hι

theorem children (id : CommandId) :
    List.Forall₂ (Command.Like T ι) (t.children id) (t'.children (ι id)) :=
  forall₂_filter h.commands.values fun _ _ hc => hc.parent_beq hι id

theorem namesTo {c c' : Command} (hc : c.Like T ι c') (n : Nat) :
    t'.namesTo n c' = t.namesTo n c := by
  induction n generalizing c c' with
  | zero => rfl
  | succ n ih =>
      rw [CommandTree.namesTo, CommandTree.namesTo, hc.parent]
      cases c.parent with
      | none => simp [hc.id, h.root, hι.eq_iff]
      | some p =>
          refine bind_eq_bind_of_rel (h.commands.find? hι p) fun above above' ha => ?_
          rw [ih ha, hc.name]

theorem ancestry (id : CommandId) : t'.ancestry (ι id) = t.ancestry id := by
  refine bind_eq_bind_of_rel (h.commands.find? hι id) fun c c' hc => ?_
  rw [h.commands.length_eq]
  exact h.namesTo hι hc _

theorem enumeration (tool : String) (id : CommandId) :
    t'.enumeration tool (ι id) = t.enumeration tool id := by
  have hn := map_eq_map_of_forall₂ (h.children hι id) fun _ _ hc => hc.name
  simp only [CommandTree.enumeration, path, h.ancestry hι, hn]

theorem rootFirst : t'.rootFirst = t.rootFirst.map ι := by
  have hp : (fun id => id != ι t.root) ∘ ι = (· != t.root) := by
    funext id
    rw [Function.comp_apply, Bool.eq_iff_iff, bne_iff_ne, bne_iff_ne, hι.ne_iff]
  rw [CommandTree.rootFirst, CommandTree.rootFirst, h.root, h.commands.keys_eq, List.filter_map, hp,
    List.map_cons]

theorem addInheritors (found : List CommandId) (id : CommandId) :
    t'.addInheritors (found.map ι) (ι id) = (t.addInheritors found id).map ι := by
  unfold CommandTree.addInheritors
  have hcs := h.commands.values
  revert hcs
  generalize t.commands.values = cs
  generalize t'.commands.values = cs'
  intro hcs
  induction hcs generalizing found with
  | nil => rfl
  | @cons c c' _ _ hc _ ih =>
      have hf : (found.map ι).contains (ι c.id) = found.contains c.id := by
        rw [Bool.eq_iff_iff, List.contains_iff_mem, List.contains_iff_mem,
          List.mem_map_of_injective hι]
      rw [List.foldl_cons, List.foldl_cons, hc.contains_inherits hι, hc.id, hf, ← ih]
      split
      · rw [List.map_append, List.map_singleton]
      · rfl

theorem spread (n next : Nat) (found : List CommandId) :
    t'.spread n next (found.map ι) = (t.spread n next found).map ι := by
  induction n generalizing next found with
  | zero => rfl
  | succ n ih =>
      rw [CommandTree.spread, CommandTree.spread, List.getElem?_map]
      cases found[next]? with
      | none => rfl
      | some id =>
          simp only [Option.map_some]
          rw [h.addInheritors hι, ih]

theorem receivers (id : CommandId) : t'.receivers (ι id) = (t.receivers id).map ι := by
  rw [CommandTree.receivers, CommandTree.receivers, h.commands.length_eq]
  exact h.spread hι _ _ [id]

theorem argumentDirectives (tool : String) {a a' : Argument} (ha : a.Like T ι a') :
    t'.argumentDirectives tool a' = t.argumentDirectives tool a := by
  rw [CommandTree.argumentDirectives, CommandTree.argumentDirectives, ha.owner, h.receivers hι,
    List.filterMap_map]
  congr 1
  funext id
  have hd : a'.directive = a.directive := funext ha.directive
  simp only [Function.comp_apply, path, h.ancestry hι, hd]

theorem directives (tool : String) : t'.directives tool = t.directives tool := by
  have he : t'.enumerations tool = t.enumerations tool := by
    rw [enumerations, enumerations, h.rootFirst hι, List.filterMap_map]
    congr 1
    funext id
    exact h.enumeration hι tool id
  rw [CommandTree.directives, CommandTree.directives, he, List.flatMap_def, List.flatMap_def,
    map_eq_map_of_forall₂ h.arguments fun _ _ ha => h.argumentDirectives hι tool ha]

end Like

end CommandTree

end CliCompletion
