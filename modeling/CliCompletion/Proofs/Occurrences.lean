import CliCompletion.Proofs.ArgumentCalls

namespace CliCompletion

structure Assignment where
  extent : Extent
  target : Node
  typing : List Node

inductive Layer where
  | field (x : Extent) (before after : List Node)
  | operand (sign : Sign) (x : Extent)
  | item (kind : Grouping) (x : Extent) (before after : List Node)
  | object (x : Extent) (name : String)
  | keyword (x : Extent) (name : String)
  | function (x : Extent) (arguments : Node)
  | arguments (x : Extent) (function : Node)
  | target (x : Extent) (typing : List Node) (value : Node)
  | typing (x : Extent) (target value : Node) (before after : List Node)
  | value (a : Assignment)
  | part (kind : Construct) (x : Extent) (before after : List Node)

namespace Layer

def fill : Layer → Node → Node
  | field x before after, n => .string x (before ++ n :: after)
  | operand sign x, n => .signed sign x n
  | item kind x before after, n => .group kind x (before ++ n :: after)
  | object x name, n => .member x n name
  | keyword x name, n => .keyword x name n
  | function x args, n => .call x n args
  | arguments x f, n => .call x f n
  | target x types v, n => .assignment x n types v
  | typing x t v before after, n => .assignment x t (before ++ n :: after) v
  | value a, n => .assignment a.extent a.target a.typing n
  | part kind x before after, n => .construct kind x (before ++ n :: after)

def names : List Layer → List String
  | .value a :: ls => a.target.identifier?.toList ++ names ls
  | _ => []

theorem exists_chain (ls : List Layer) : ∃ (chain : List Assignment) (rest : List Layer),
    ls = chain.map .value ++ rest ∧ ∀ a, rest.head? ≠ some (.value a) := by
  induction ls with
  | nil => exact ⟨[], [], rfl, fun a h => nomatch h⟩
  | cons l ls ih =>
      by_cases hl : ∃ a, l = .value a
      · obtain ⟨a, rfl⟩ := hl
        obtain ⟨chain, rest, rfl, hr⟩ := ih
        exact ⟨a :: chain, rest, rfl, hr⟩
      · refine ⟨[], l :: ls, rfl, fun a h => hl ⟨a, ?_⟩⟩
        exact Option.some.inj h

theorem names_chain {chain : List Assignment} {rest : List Layer}
    (hr : ∀ a, rest.head? ≠ some (.value a)) :
    names (chain.map .value ++ rest) = chain.filterMap (·.target.identifier?) := by
  induction chain with
  | nil =>
      cases rest with
      | nil => rfl
      | cons l ls =>
          cases l with
          | value a => exact absurd rfl (hr a)
          | _ => rfl
  | cons a chain ih =>
      rw [List.map_cons, List.cons_append, names, ih, List.filterMap_cons]
      cases a.target.identifier? <;> rfl

end Layer

structure Occurrence where
  node : Node
  around : List Layer

namespace Occurrence

def whole (p : Occurrence) : Node :=
  p.around.foldl (fun n l => l.fill n) p.node

def IsValue (p : Occurrence) : Prop :=
  ∃ a ls, p.around = .value a :: ls

def AssignedTo (p : Occurrence) (names : List String) : Prop :=
  ∃ (chain : List Assignment) (rest : List Layer), p.around = chain.map .value ++ rest ∧
    (∀ a, rest.head? ≠ some (.value a)) ∧ names = chain.filterMap (·.target.identifier?)

variable {p : Occurrence} {names : List String}

theorem assignedTo_iff : p.AssignedTo names ↔ names = Layer.names p.around := by
  constructor
  · rintro ⟨chain, rest, hp, hr, rfl⟩
    rw [hp, Layer.names_chain hr]
  · rintro rfl
    obtain ⟨chain, rest, hp, hr⟩ := Layer.exists_chain p.around
    exact ⟨chain, rest, hp, hr, by rw [hp, Layer.names_chain hr]⟩

theorem names_of_not_isValue (h : ¬p.IsValue) : Layer.names p.around = [] := by
  obtain ⟨n, ls⟩ := p
  cases ls with
  | nil => rfl
  | cons l ls =>
      cases l with
      | value a => exact absurd ⟨a, ls, rfl⟩ h
      | _ => rfl

end Occurrence

namespace Node

mutual

def occurrencesIn (ls : List Layer) : Node → List Occurrence
  | comment x => [⟨comment x, ls⟩]
  | join x => [⟨join x, ls⟩]
  | atom kind x => [⟨atom kind x, ls⟩]
  | string x fields => ⟨string x fields, ls⟩ :: occurrencesAmong (.field x) ls [] fields
  | signed sign x operand =>
      ⟨signed sign x operand, ls⟩ :: occurrencesIn (.operand sign x :: ls) operand
  | group kind x items =>
      ⟨group kind x items, ls⟩ :: occurrencesAmong (.item kind x) ls [] items
  | member x object name =>
      ⟨member x object name, ls⟩ :: occurrencesIn (.object x name :: ls) object
  | keyword x name value =>
      ⟨keyword x name value, ls⟩ :: occurrencesIn (.keyword x name :: ls) value
  | call x function arguments =>
      ⟨call x function arguments, ls⟩ ::
        (occurrencesIn (.function x arguments :: ls) function ++
          occurrencesIn (.arguments x function :: ls) arguments)
  | assignment x target typing value =>
      ⟨assignment x target typing value, ls⟩ ::
        (occurrencesIn (.target x typing value :: ls) target ++
          occurrencesAmong (.typing x target value) ls [] typing ++
          occurrencesIn (.value ⟨x, target, typing⟩ :: ls) value)
  | construct kind x parts =>
      ⟨construct kind x parts, ls⟩ :: occurrencesAmong (.part kind x) ls [] parts

def occurrencesAmong (layer : List Node → List Node → Layer) (ls : List Layer)
    (before : List Node) : List Node → List Occurrence
  | [] => []
  | n :: ns =>
      occurrencesIn (layer before ns :: ls) n ++ occurrencesAmong layer ls (before ++ [n]) ns

end

def occurrences (n : Node) : List Occurrence :=
  n.occurrencesIn []

variable {ls : List Layer} {p : Occurrence}

mutual

theorem map_node_occurrencesIn : ∀ (n : Node) (ls : List Layer),
    (n.occurrencesIn ls).map (·.node) = n.preorder
  | .comment _, _ | .join _, _ | .atom _ _, _ => rfl
  | .string x fields, ls => congrArg (_ :: ·) (map_node_occurrencesAmong fields ..)
  | .signed sign x operand, ls => congrArg (_ :: ·) (map_node_occurrencesIn operand _)
  | .group kind x items, ls => congrArg (_ :: ·) (map_node_occurrencesAmong items ..)
  | .member x object name, ls => congrArg (_ :: ·) (map_node_occurrencesIn object _)
  | .keyword x name value, ls => congrArg (_ :: ·) (map_node_occurrencesIn value _)
  | .call x function arguments, ls => by
      rw [occurrencesIn, preorder, List.map_cons, List.map_append,
        map_node_occurrencesIn function, map_node_occurrencesIn arguments]
  | .assignment x target typing value, ls => by
      rw [occurrencesIn, preorder, List.map_cons, List.map_append, List.map_append,
        map_node_occurrencesIn target, map_node_occurrencesAmong typing,
        map_node_occurrencesIn value]
  | .construct kind x parts, ls => congrArg (_ :: ·) (map_node_occurrencesAmong parts ..)

theorem map_node_occurrencesAmong : ∀ (ns : List Node)
    (layer : List Node → List Node → Layer) (ls : List Layer) (before : List Node),
    (occurrencesAmong layer ls before ns).map (·.node) = preorderAll ns
  | [], _, _, _ => rfl
  | n :: ns, layer, ls, before => by
      rw [occurrencesAmong, preorderAll, List.map_append, map_node_occurrencesIn n,
        map_node_occurrencesAmong ns]

end

mutual

theorem whole_eq_of_mem : ∀ (n : Node) {ls : List Layer} {p : Occurrence},
    p ∈ n.occurrencesIn ls → p.whole = (Occurrence.mk n ls).whole
  | .comment _, ls, p, h | .join _, ls, p, h | .atom _ _, ls, p, h => by
      rw [List.mem_singleton.1 h]
  | .string x fields, ls, p, h => by
      rcases List.mem_cons.1 h with rfl | h
      · rfl
      · exact whole_eq_of_mem_among fields (.string x) (fun _ _ _ => rfl) h
  | .signed sign x operand, ls, p, h => by
      rcases List.mem_cons.1 h with rfl | h
      · rfl
      · exact whole_eq_of_mem operand h
  | .group kind x items, ls, p, h => by
      rcases List.mem_cons.1 h with rfl | h
      · rfl
      · exact whole_eq_of_mem_among items (.group kind x) (fun _ _ _ => rfl) h
  | .member x object name, ls, p, h => by
      rcases List.mem_cons.1 h with rfl | h
      · rfl
      · exact whole_eq_of_mem object h
  | .keyword x name value, ls, p, h => by
      rcases List.mem_cons.1 h with rfl | h
      · rfl
      · exact whole_eq_of_mem value h
  | .call x function arguments, ls, p, h => by
      rcases List.mem_cons.1 h with rfl | h
      · rfl
      · rcases List.mem_append.1 h with h | h
        · exact whole_eq_of_mem function h
        · exact whole_eq_of_mem arguments h
  | .assignment x target typing value, ls, p, h => by
      rcases List.mem_cons.1 h with rfl | h
      · rfl
      · rcases List.mem_append.1 h with h | h
        · rcases List.mem_append.1 h with h | h
          · exact whole_eq_of_mem target h
          · exact whole_eq_of_mem_among typing (.assignment x target · value)
              (fun _ _ _ => rfl) h
        · exact whole_eq_of_mem value h
  | .construct kind x parts, ls, p, h => by
      rcases List.mem_cons.1 h with rfl | h
      · rfl
      · exact whole_eq_of_mem_among parts (.construct kind x) (fun _ _ _ => rfl) h

theorem whole_eq_of_mem_among : ∀ (ns : List Node) {layer : List Node → List Node → Layer}
    {ls : List Layer} {before : List Node} {p : Occurrence} (build : List Node → Node),
    (∀ before n after, (layer before after).fill n = build (before ++ n :: after)) →
    p ∈ occurrencesAmong layer ls before ns →
      p.whole = (Occurrence.mk (build (before ++ ns)) ls).whole
  | [], _, _, _, _, _, _, h => absurd h List.not_mem_nil
  | n :: ns, layer, ls, before, p, build, hb, h => by
      rcases List.mem_append.1 h with h | h
      · rw [whole_eq_of_mem n h, ← hb before n ns]
        rfl
      · rw [whole_eq_of_mem_among ns build hb h, List.append_assoc]
        rfl

end

theorem occurrencesIn_subset_among (layer : List Node → List Node → Layer) (n : Node)
    (after : List Node) (before passed : List Node) :
    n.occurrencesIn (layer (passed ++ before) after :: ls) ⊆
      occurrencesAmong layer ls passed (before ++ n :: after) := by
  induction before generalizing passed with
  | nil =>
      rw [List.append_nil]
      exact List.subset_append_left _ _
  | cons m before ih =>
      have h := ih (passed ++ [m])
      rw [List.append_assoc] at h
      exact List.Subset.trans h (List.subset_append_right _ _)

theorem occurrencesIn_subset (l : Layer) (n : Node) :
    n.occurrencesIn (l :: ls) ⊆ (l.fill n).occurrencesIn ls := by
  intro p hp
  cases l with
  | field x before after =>
      exact List.mem_cons_of_mem _ (occurrencesIn_subset_among (.field x) n after before [] hp)
  | operand sign x => exact List.mem_cons_of_mem _ hp
  | item kind x before after =>
      exact List.mem_cons_of_mem _ (occurrencesIn_subset_among (.item kind x) n after before [] hp)
  | object x name => exact List.mem_cons_of_mem _ hp
  | keyword x name => exact List.mem_cons_of_mem _ hp
  | function x args => exact List.mem_cons_of_mem _ (List.mem_append_left _ hp)
  | arguments x f => exact List.mem_cons_of_mem _ (List.mem_append_right _ hp)
  | target x types v =>
      exact List.mem_cons_of_mem _ (List.mem_append_left _ (List.mem_append_left _ hp))
  | typing x t v before after =>
      have hp := occurrencesIn_subset_among (.typing x t v) n after before [] hp
      exact List.mem_cons_of_mem _ (List.mem_append_left _ (List.mem_append_right _ hp))
  | value a => exact List.mem_cons_of_mem _ (List.mem_append_right _ hp)
  | part kind x before after =>
      exact List.mem_cons_of_mem _ (occurrencesIn_subset_among (.part kind x) n after before [] hp)

theorem occurrencesIn_subset_whole (n : Node) (ls : List Layer) :
    n.occurrencesIn ls ⊆ (Occurrence.mk n ls).whole.occurrences := by
  induction ls generalizing n with
  | nil => exact List.Subset.refl _
  | cons l ls ih => exact List.Subset.trans (occurrencesIn_subset l n) (ih (l.fill n))

theorem self_mem_occurrencesIn (n : Node) (ls : List Layer) : ⟨n, ls⟩ ∈ n.occurrencesIn ls := by
  cases n <;> exact List.mem_cons_self ..

theorem mem_occurrences_iff {n : Node} : p ∈ n.occurrences ↔ p.whole = n := by
  constructor
  · exact whole_eq_of_mem n
  · rintro rfl
    exact occurrencesIn_subset_whole p.node p.around (self_mem_occurrencesIn p.node p.around)

end Node

structure Call.StandsAt (p : Occurrence) (c : Call) : Prop where
  node : p.node = c.node
  targets : ∀ names, p.AssignedTo names ↔ names = c.targets
  part : ¬p.IsValue → c.targets = []

namespace Node

theorem standsAt (x : Extent) (function arguments : Node) (ls : List Layer) :
    Call.StandsAt ⟨.call x function arguments, ls⟩ ⟨Layer.names ls, x, function, arguments⟩ where
  node := rfl
  targets := fun _ => Occurrence.assignedTo_iff
  part := Occurrence.names_of_not_isValue

mutual

theorem callsInto_standAt : ∀ (n : Node) (ls : List Layer),
    List.Forall₂ Call.StandsAt ((n.occurrencesIn ls).filter (·.node.isCall))
      (n.callsInto (Layer.names ls))
  | .comment _, _ | .join _, _ | .atom _ _, _ => .nil
  | .string x fields, ls => callsAll_standAt fields (.field x) ls [] fun _ _ => rfl
  | .signed sign x operand, ls => callsInto_standAt operand (.operand sign x :: ls)
  | .group kind x items, ls => callsAll_standAt items (.item kind x) ls [] fun _ _ => rfl
  | .member x object name, ls => callsInto_standAt object (.object x name :: ls)
  | .keyword x name value, ls => callsInto_standAt value (.keyword x name :: ls)
  | .call x function arguments, ls => by
      rw [occurrencesIn, callsInto, List.filter_cons_of_pos rfl, List.filter_append]
      exact .cons (standsAt x function arguments ls)
        (List.rel_append (callsInto_standAt function _) (callsInto_standAt arguments _))
  | .assignment x target typing value, ls => by
      rw [occurrencesIn, callsInto, List.filter_cons_of_neg (by simp [isCall]),
        List.filter_append, List.filter_append]
      have htyping := callsAll_standAt typing (.typing x target value) ls [] fun _ _ => rfl
      exact List.rel_append (List.rel_append (callsInto_standAt target _) htyping)
        (callsInto_standAt value _)
  | .construct kind x parts, ls => callsAll_standAt parts (.part kind x) ls [] fun _ _ => rfl

theorem callsAll_standAt : ∀ (ns : List Node) (layer : List Node → List Node → Layer)
    (ls : List Layer) (before : List Node),
    (∀ before after, Layer.names (layer before after :: ls) = []) →
      List.Forall₂ Call.StandsAt ((occurrencesAmong layer ls before ns).filter (·.node.isCall))
        (callsAll ns)
  | [], _, _, _, _ => .nil
  | n :: ns, layer, ls, before, hl => by
      have hn := callsInto_standAt n (layer before ns :: ls)
      rw [hl] at hn
      rw [occurrencesAmong, callsAll, List.filter_append]
      exact List.rel_append hn (callsAll_standAt ns layer ls (before ++ [n]) hl)

end

example : (Node.ofSource "a = b.c = d = f()
a: T = b = f()
a = g(f())
a = (f())
a = -f(), 1
a = (b := f())
a += f()
".toList).toOption.any (fun n => n.calls.map (·.targets) ==
    [["d", "a"], ["b", "a"], ["a"], [], [], [], [], []]) = true := by decide +kernel

end Node

end CliCompletion
