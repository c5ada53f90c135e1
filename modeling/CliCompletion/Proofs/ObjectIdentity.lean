import CliCompletion.Proofs.Objects
import CliCompletion.Proofs.WellFormed
import Mathlib.Data.List.Find
import Mathlib.Data.List.Nodup
import Mathlib.Tactic.SplitIfs

namespace CliCompletion.Objects

open Vocabulary

section Reading

variable {o : ExtractionOptions}

def Variable.command (v : Variable) : CommandExpr :=
  .handle v.name v.line

def Variable.group (v : Variable) : GroupExpr :=
  .handle v.name v.line

def Statement.step : Statement → Step
  | parser targets parents line => .parser targets (parents.map Variable.command) line
  | subparsers targets owner => .subparsers targets owner.command
  | command targets group name parents line =>
      .command (.added group.group (.ok name) targets (parents.map Variable.command) line)
  | argumentGroup targets owner => .argumentGroup targets owner.command
  | argument owner content lastLine => .argument owner.command (.ok content) lastLine

theorem exprs_of_variableOf? {n : Node} {v : Variable} (h : variableOf? n = some v) :
    n.commandExpr o = v.command ∧ n.groupExpr o = v.group := by
  unfold variableOf? at h
  split at h
  · cases h
    exact ⟨by rw [Node.commandExpr]; rfl, by rw [Node.groupExpr]; rfl⟩
  · cases h

theorem commandExprs_of_listed? {ns : List Node} {vs : List Variable}
    (h : listed? ns = some vs) : Node.commandExprs o ns = vs.map Variable.command := by
  induction ns generalizing vs with
  | nil =>
      cases h
      rw [Node.commandExprs]
      rfl
  | cons n ns ih =>
      rw [listed?] at h
      rw [Node.commandExprs]
      split at h
      · rename_i hc
        rw [if_pos hc]
        exact ih h
      · rename_i hc
        rw [if_neg hc]
        obtain ⟨v, hv, h⟩ := Option.bind_eq_some_iff.1 h
        obtain ⟨ws, hws, h⟩ := Option.bind_eq_some_iff.1 h
        cases h
        rw [(exprs_of_variableOf? hv).1, ih hws]
        rfl

theorem parentsAmong_eq (items : List Node) :
    Node.parentsAmong o items = match valueOf? Vocabulary.parents items with
      | none => []
      | some value => value.parentList o := by
  induction items with
  | nil => rw [Node.parentsAmong]; rfl
  | cons n ns ih =>
      cases n with
      | keyword x name value =>
          rw [Node.parentsAmong, valueOf?]
          by_cases hn : name = Vocabulary.parents
          · rw [if_pos hn, if_pos hn]
          · rw [if_neg hn, if_neg hn]
            exact ih
      | _ => simp only [Node.parentsAmong, valueOf?, ih]

theorem parents_of_parents? {c : Call} {vs : List Variable}
    (h : parents? o c.arguments = some vs) : c.parents o = vs.map Variable.command := by
  unfold parents? at h
  unfold Call.parents
  split at h
  · rename_i hi
    cases h
    rw [if_pos hi]
    rfl
  · rename_i hi
    rw [if_neg hi]
    split at h
    · rename_i kind x items harg
      rw [harg, Node.parentExprs, parentsAmong_eq]
      split at h
      · rename_i hv
        cases h
        rw [hv]
        rfl
      · rename_i hv
        rw [hv]
        simp only [Node.parentList]
        exact commandExprs_of_listed? h
      · rename_i hv
        rw [hv]
        simp only [Node.parentList]
        exact commandExprs_of_listed? h
      · cases h
    · rename_i hg
      cases h
      rw [Node.parentExprs]
      · rfl
      · exact hg

theorem step?_of_construction? {c : Call} {s : Statement} (h : construction? o c = some s) :
    (if c.targets.isEmpty then none
      else some (Step.parser c.targets (c.parents o) c.extent.line)) = some s.step := by
  unfold construction? at h
  split at h
  · cases h
  · rename_i ht
    obtain ⟨vs, hvs, rfl⟩ := Option.map_eq_some_iff.1 h
    rw [if_neg ht, parents_of_parents? hvs]
    rfl

theorem step?_of_method? {c : Call} {v : Variable} {name : String} {s : Statement}
    (h : method? o c v name = some s) :
    (if name = addSubparsers then
      if c.targets.isEmpty then none else some (.subparsers c.targets v.command)
    else if name = addParser then
      some (.command (.added v.group (Node.subcommandName c.arguments c.extent.line) c.targets
        (c.parents o) c.extent.line))
    else if name = addArgument then
      some (.argument v.command (Node.declaration o c.arguments c.extent.line)
        c.extent.lastLine)
    else if argumentGroups.contains name then
      if c.targets.isEmpty then none else some (.argumentGroup c.targets v.command)
    else none) = some s.step := by
  unfold method? at h
  split_ifs at h ⊢ with h₁ ht h₂ h₃ h₄ ht
  · cases h
    rfl
  · split at h
    · rename_i n vs hn hvs
      cases h
      rw [hn, parents_of_parents? hvs]
      rfl
    · cases h
  · split at h
    · rename_i d hd
      cases h
      rw [hd]
      rfl
    · cases h
  · cases h
    rfl

theorem step?_of_statement? {c : Call} {s : Statement} (h : statement? o c = some s) :
    c.step? o = some s.step := by
  unfold statement? at h
  unfold Call.step?
  generalize c.function = function at h ⊢
  split at h
  · cases h
  · split at h
    · rename_i f
      dsimp only
      split at h
      · rename_i hp
        rw [if_pos hp]
        exact step?_of_construction? h
      · cases h
    · rename_i x object name
      dsimp only
      split at h
      · rename_i hp
        rw [if_pos hp]
        exact step?_of_construction? h
      · rename_i hp
        rw [if_neg hp]
        obtain ⟨v, hv, h⟩ := Option.bind_eq_some_iff.1 h
        rw [(exprs_of_variableOf? hv).1, (exprs_of_variableOf? hv).2]
        exact step?_of_method? h
    · cases h

theorem steps_of_statements? {cs : List Call} {ss : List Statement}
    (h : statements? o cs = some ss) : cs.filterMap (Call.step? o) = ss.map Statement.step := by
  induction cs generalizing ss with
  | nil =>
      cases h
      rfl
  | cons c cs ih =>
      obtain ⟨s, hs, h⟩ := Option.bind_eq_some_iff.1 h
      obtain ⟨ts, hts, h⟩ := Option.bind_eq_some_iff.1 h
      cases h
      rw [List.filterMap_cons_some (step?_of_statement? hs), ih hts]
      rfl

end Reading

section Naming

variable {key key' : Nat → CommandId} {n : Nat}

def Value.named (key : Nat → CommandId) : Value → Binding
  | command i => .command (key i)
  | group i => .group (key i)

def Entity.named (e : Entity) (key : Nat → CommandId) (id : CommandId) : Command :=
  ⟨id, e.name, e.parent.map key, e.inherits.map key, e.line⟩

def Fact.named (f : Fact) (key : Nat → CommandId) : Argument :=
  ⟨key f.owner, f.content.literals, f.content.options, f.hint, f.line⟩

def World.entries (w : World) (key : Nat → CommandId) : List (CommandId × Command) :=
  w.entities.zipIdx.map fun p => (key p.2, p.1.named key (key p.2))

def Entity.Within (e : Entity) (n : Nat) : Prop :=
  (∀ p, e.parent = some p → p < n) ∧ ∀ i ∈ e.inherits, i < n

structure World.Closed (w : World) : Prop where
  entities : ∀ e ∈ w.entities, e.Within w.entities.length
  values : ∀ x v, w.values x = some v → v.object < w.entities.length
  facts : ∀ f ∈ w.facts, f.owner < w.entities.length

theorem Entity.Within.succ {e : Entity} (h : e.Within n) : e.Within (n + 1) :=
  ⟨fun p hp => Nat.lt_succ_of_lt (h.1 p hp), fun i hi => Nat.lt_succ_of_lt (h.2 i hi)⟩

theorem World.length_create (w : World) (targets : List String) (e : Entity) :
    (w.create targets e).entities.length = w.entities.length + 1 := by
  simp [World.create, World.assign]

theorem World.Closed.create {w : World} (h : w.Closed) {targets : List String} {e : Entity}
    (he : e.Within w.entities.length) : (w.create targets e).Closed := by
  refine ⟨?_, ?_, ?_⟩
  · intro d hd
    rw [w.length_create]
    rcases List.mem_append.1 hd with hd | hd
    · exact (h.entities d hd).succ
    · rw [List.mem_singleton.1 hd]
      exact he.succ
  · intro x v hv
    rw [w.length_create]
    simp only [World.create, World.assign] at hv
    split at hv
    · cases hv
      exact Nat.lt_succ_self _
    · exact Nat.lt_succ_of_lt (h.values x v hv)
  · intro f hf
    rw [w.length_create]
    exact Nat.lt_succ_of_lt (h.facts f hf)

theorem Value.named_congr (h : ∀ i < n, key i = key' i) {v : Value} (hv : v.object < n) :
    v.named key = v.named key' := by
  cases v with
  | command i => exact congrArg Binding.command (h i hv)
  | group i => exact congrArg Binding.group (h i hv)

theorem Entity.named_congr (h : ∀ i < n, key i = key' i) {e : Entity} (he : e.Within n)
    (id : CommandId) : e.named key id = e.named key' id := by
  have hp : e.parent.map key = e.parent.map key' := by
    cases hp : e.parent with
    | none => rfl
    | some p => exact congrArg some (h p (he.1 p hp))
  have hi : e.inherits.map key = e.inherits.map key' :=
    List.map_congr_left fun i hi => h i (he.2 i hi)
  rw [Entity.named, Entity.named, hp, hi]

theorem Fact.named_congr (h : ∀ i < n, key i = key' i) {f : Fact} (hf : f.owner < n) :
    f.named key = f.named key' := by
  rw [Fact.named, Fact.named, h f.owner hf]

theorem World.entries_congr {w : World} (hw : w.Closed)
    (h : ∀ i < w.entities.length, key i = key' i) : w.entries key = w.entries key' := by
  refine List.map_congr_left ?_
  intro p hp
  have hi : p.2 < w.entities.length := by
    simpa using List.snd_lt_of_mem_zipIdx hp
  rw [h p.2 hi, Entity.named_congr h (hw.entities p.1 (List.fst_mem_of_mem_zipIdx hp))]

end Naming

end CliCompletion.Objects

namespace CliCompletion.Registry

variable {r r' : Registry}

def key (r : Registry) (i : Nat) : CommandId :=
  r.commands.keys[i]?.getD default

theorem key_eq {i : Nat} (h : i < r.commands.keys.length) : r.key i = r.commands.keys[i] := by
  rw [key, List.getElem?_eq_getElem h]
  rfl

theorem key_inj {i j : Nat} (hi : i < r.commands.keys.length) (hj : j < r.commands.keys.length)
    (h : r.key i = r.key j) : i = j := by
  rw [key_eq hi, key_eq hj] at h
  exact (List.Nodup.getElem_inj_iff r.commands.distinct).1 h

theorem prefix_key (h : r.commands.keys <+: r'.commands.keys) {i : Nat}
    (hi : i < r.commands.keys.length) : r'.key i = r.key i := by
  rw [key, key, List.prefix_iff_getElem?.1 h i hi, List.getElem?_eq_getElem hi]

section New

variable {targets : List String} {name : String} {parent : Option CommandId}
  {inherits : List CommandId} {line : Nat}

theorem Numbered.key_addCommand (h : r.Numbered) {i : Nat}
    (hi : i < r.commands.keys.length) :
    (r.addCommand targets name parent inherits line).2.key i = r.key i := by
  refine prefix_key ?_ hi
  exact (h.prefix_addCommand ..).map (·.1)

theorem Numbered.key_addCommand_length (h : r.Numbered) :
    (r.addCommand targets name parent inherits line).2.key r.commands.keys.length =
      (r.allocate targets).1 := by
  rw [key, h.addCommand_keys, List.getElem?_concat_length]
  rfl

end New

end CliCompletion.Registry

namespace CliCompletion.Objects

structure Represents (w : World) (r : Registry) : Prop where
  numbered : r.Numbered
  closed : w.Closed
  entries : r.commands.entries = w.entries r.key
  bindings : ∀ x, r.bindings x = (w.values x).map (Value.named r.key)
  arguments : r.arguments = w.facts.map (Fact.named · r.key)

namespace Represents

variable {w : World} {r : Registry}

theorem empty : Represents World.empty Registry.empty where
  numbered := rfl
  closed := ⟨by simp [World.empty], by simp [World.empty], by simp [World.empty]⟩
  entries := rfl
  bindings _ := rfl
  arguments := rfl

theorem length_keys (h : Represents w r) : r.commands.keys.length = w.entities.length := by
  rw [OrderedMap.keys, h.entries, World.entries, List.length_map, List.length_map,
    List.length_zipIdx]

theorem values_eq (h : Represents w r) : r.commands.values =
    w.entities.zipIdx.map fun p => p.1.named r.key (r.key p.2) := by
  rw [OrderedMap.values, h.entries, World.entries, List.map_map]
  rfl

theorem key_inj (h : Represents w r) {i j : Nat} (hi : i < w.entities.length)
    (hj : j < w.entities.length) (hk : r.key i = r.key j) : i = j := by
  rw [← h.length_keys] at hi hj
  exact Registry.key_inj hi hj hk

theorem parent_beq (h : Represents w r) {p : Option Nat} {owner : Nat}
    (hp : ∀ i, p = some i → i < w.entities.length) (ho : owner < w.entities.length) :
    (p.map r.key == some (r.key owner)) = (p == some owner) := by
  cases p with
  | none => rfl
  | some i =>
      rw [Bool.eq_iff_iff, beq_iff_eq, beq_iff_eq]
      constructor
      · intro hk
        exact congrArg some (h.key_inj (hp i rfl) ho (Option.some.inj hk))
      · intro hi
        exact congrArg (Option.map r.key) hi

theorem child? (h : Represents w r) {owner : Nat} (ho : owner < w.entities.length)
    (name : String) : r.child? (r.key owner) name = (w.child? owner name).map r.key := by
  rw [Registry.child?, h.values_eq, List.find?_map, World.child?, Option.map_map, Option.map_map]
  have hc : w.entities.zipIdx.find? ((fun c : Command =>
        c.parent == some (r.key owner) && c.name == name) ∘
        fun p => p.1.named r.key (r.key p.2)) =
      w.entities.zipIdx.find? fun p => p.1.parent == some owner && p.1.name == name := by
    refine List.find?_congr ?_
    intro p hp
    have he := h.closed.entities p.1 (List.fst_mem_of_mem_zipIdx hp)
    exact congrArg (· && p.1.name == name) (h.parent_beq he.1 ho)
  rw [hc]
  rfl

theorem child?_lt {owner i : Nat} {name : String} (hc : w.child? owner name = some i) :
    i < w.entities.length := by
  obtain ⟨p, hp, rfl⟩ := Option.map_eq_some_iff.1 hc
  simpa using List.snd_lt_of_mem_zipIdx (List.mem_of_find?_eq_some hp)

theorem assign (h : Represents w r) (targets : List String) {v : Value}
    (hv : v.object < w.entities.length) :
    Represents (w.assign targets v) (r.bind targets (v.named r.key)) where
  numbered := h.numbered
  closed := by
    refine ⟨h.closed.entities, ?_, h.closed.facts⟩
    intro x u hu
    simp only [World.assign] at hu
    split at hu
    · cases hu
      exact hv
    · exact h.closed.values x u hu
  entries := h.entries
  bindings := by
    intro x
    simp only [Registry.bind, World.assign]
    split
    · rfl
    · exact h.bindings x
  arguments := h.arguments

theorem declare (h : Represents w r) {f : Fact} (hf : f.owner < w.entities.length) :
    Represents (w.declare f) (r.addArgument (f.named r.key)) where
  numbered := h.numbered
  closed := by
    refine ⟨h.closed.entities, h.closed.values, ?_⟩
    intro g hg
    rcases List.mem_append.1 hg with hg | hg
    · exact h.closed.facts g hg
    · rw [List.mem_singleton.1 hg]
      exact hf
  entries := h.entries
  bindings := h.bindings
  arguments := by
    simp only [Registry.addArgument, World.declare, h.arguments, List.map_append,
      List.map_singleton]
    rfl

theorem create (h : Represents w r) (targets : List String) {e : Entity}
    (he : e.Within w.entities.length) :
    Represents (w.create targets e)
      (r.addCommand targets e.name (e.parent.map r.key) (e.inherits.map r.key) e.line).2 := by
  have hold : ∀ i < w.entities.length, r.key i = (r.addCommand targets e.name
      (e.parent.map r.key) (e.inherits.map r.key) e.line).2.key i := by
    intro i hi
    exact (h.numbered.key_addCommand (h.length_keys.symm ▸ hi)).symm
  have hnew : (r.addCommand targets e.name (e.parent.map r.key) (e.inherits.map r.key)
      e.line).2.key w.entities.length = (r.allocate targets).1 := by
    rw [← h.length_keys]
    exact h.numbered.key_addCommand_length
  refine ⟨h.numbered.addCommand, h.closed.create he, ?_, ?_, ?_⟩
  · rw [h.numbered.addCommand_entries, h.entries, World.entries_congr h.closed hold, ← hnew,
      ← Entity.named.eq_def e r.key, Entity.named_congr hold he]
    simp [World.entries, World.create, World.assign, List.zipIdx_append]
  · intro x
    rw [Registry.addCommand_bindings, ← hnew]
    simp only [Registry.bind, World.create, World.assign]
    split
    · rfl
    · rw [h.bindings x]
      cases hv : w.values x with
      | none => rfl
      | some v => exact congrArg some (Value.named_congr hold (h.closed.values x v hv))
  · rw [Registry.addCommand_arguments, h.arguments]
    exact List.map_congr_left fun f hf => Fact.named_congr hold (h.closed.facts f hf)

end Represents

inductive Agree {α β : Type} (P : α → β → Prop) :
    Except ExtractionError α → Except ExtractionError β → Prop
  | ok {a : α} {b : β} (h : P a b) : Agree P (.ok a) (.ok b)
  | error (e : ExtractionError) : Agree P (.error e) (.error e)

theorem Agree.bind {α β γ δ : Type} {P : α → β × Registry → Prop} {Q : γ → δ × Registry → Prop}
    {x : Except ExtractionError α} {y : Registering β} {r : Registry}
    {f : α → Except ExtractionError γ} {g : β → Registering δ} (h : Agree P x (y r))
    (hfg : ∀ a b r₁, P a (b, r₁) → Agree Q (f a) (g b r₁)) :
    Agree Q (x >>= f) ((y >>= g) r) := by
  rw [Registering.bind_eq]
  generalize y r = z at h
  cases h with
  | ok h => exact hfg _ _ _ h
  | error e => exact .error e

namespace Represents

variable {w : World} {r : Registry}

theorem commandIn (h : Represents w r) (v : Variable) :
    Agree (fun i p => i < w.entities.length ∧ p = (r.key i, r)) (w.commandIn v)
      (Registering.command v.command r) := by
  rw [Variable.command, Registering.command_handle]
  unfold Registering.commandNamed World.commandIn
  rw [h.bindings v.name]
  cases hv : w.values v.name with
  | none => exact .error _
  | some x =>
      cases x with
      | command i => exact .ok ⟨h.closed.values _ _ hv, rfl⟩
      | group i => exact .error _

theorem objectIn (h : Represents w r) (v : Variable) :
    Agree (fun i p => i < w.entities.length ∧ p = (r.key i, r)) (w.objectIn v)
      (Registering.groupOwner v.group r) := by
  rw [Variable.group, Registering.groupOwner_handle]
  unfold Registering.ownerNamed World.objectIn
  rw [h.bindings v.name]
  cases hv : w.values v.name with
  | none => exact .error _
  | some x =>
      have hx := h.closed.values _ _ hv
      cases x with
      | command i => exact .ok ⟨hx, rfl⟩
      | group i => exact .ok ⟨hx, rfl⟩

theorem commandsIn (h : Represents w r) (vs : List Variable) :
    Agree (fun is p => (∀ i ∈ is, i < w.entities.length) ∧ p = (is.map r.key, r))
      (w.commandsIn vs) (Registering.commands (vs.map Variable.command) r) := by
  induction vs with
  | nil =>
      rw [List.map_nil, Registering.commands]
      exact .ok ⟨by simp, rfl⟩
  | cons v vs ih =>
      rw [List.map_cons, Registering.commands]
      refine (h.commandIn v).bind ?_
      rintro i id r₁ ⟨hi, hp⟩
      cases hp
      refine Agree.bind ih ?_
      rintro is ids r₁ ⟨his, hp⟩
      cases hp
      refine .ok ⟨?_, rfl⟩
      intro j hj
      rcases List.mem_cons.1 hj with rfl | hj
      · exact hi
      · exact his j hj

theorem run (h : Represents w r) (hints : List Hint) (s : Statement) :
    Agree (fun w' p => Represents w' p.2) (w.run hints s) (Registering.step hints s.step r) := by
  cases s with
  | parser targets parents line =>
      refine (h.commandsIn parents).bind ?_
      rintro is ids r₁ ⟨his, hp⟩
      cases hp
      exact .ok (h.create targets (e := ⟨"", none, is, line⟩) ⟨by simp, his⟩)
  | subparsers targets owner =>
      refine (h.commandIn owner).bind ?_
      rintro i id r₁ ⟨hi, hp⟩
      cases hp
      exact .ok (h.assign targets (v := .group i) hi)
  | argumentGroup targets owner =>
      refine (h.commandIn owner).bind ?_
      rintro i id r₁ ⟨hi, hp⟩
      cases hp
      exact .ok (h.assign targets (v := .command i) hi)
  | argument owner content lastLine =>
      refine (h.commandIn owner).bind ?_
      rintro i id r₁ ⟨hi, hp⟩
      cases hp
      exact .ok (h.declare (f := ⟨i, content, Hint.onLine hints lastLine, lastLine⟩) hi)
  | command targets group name parents line =>
      rw [← bind_pure (w.run hints _)]
      refine Agree.bind (P := fun w' p => Represents w' p.2) ?_ fun _ _ _ h' => .ok h'
      rw [Registering.command]
      refine (h.objectIn group).bind ?_
      rintro i id r₁ ⟨hi, hp⟩
      cases hp
      rw [Registering.bind_eq, Registering.liftM_eq, Except.map]
      dsimp only
      rw [Registering.bind_eq, Registering.get_eq]
      dsimp only
      rw [h.child? hi]
      cases hc : w.child? i name with
      | some j => exact .ok (h.assign targets (v := .command j) (child?_lt hc))
      | none =>
          refine (h.commandsIn parents).bind ?_
          rintro is ids r₁ ⟨his, hp⟩
          cases hp
          exact .ok (h.create targets (e := ⟨name, some i, is, line⟩) ⟨by simp [hi], his⟩)

theorem runAll (h : Represents w r) (hints : List Hint) (ss : List Statement) :
    Agree (fun w' p => Represents w' p.2) (w.runAll hints ss)
      (Registering.steps hints (ss.map Statement.step) r) := by
  induction ss generalizing w r with
  | nil => exact .ok h
  | cons s ss ih =>
      refine (h.run hints s).bind ?_
      intro w' _ r' h'
      exact ih h'

theorem map_values (h : Represents w r) {β : Type} {f : Command → β} {g : Entity → β}
    (hfg : ∀ e id, e.Within w.entities.length → f (e.named r.key id) = g e) :
    r.commands.values.map f = w.entities.map g := by
  rw [h.values_eq, List.map_map]
  calc w.entities.zipIdx.map (f ∘ fun p => p.1.named r.key (r.key p.2))
      = w.entities.zipIdx.map (g ∘ Prod.fst) := by
        refine List.map_congr_left ?_
        intro p hp
        exact hfg p.1 _ (h.closed.entities p.1 (List.fst_mem_of_mem_zipIdx hp))
    _ = w.entities.map g := by
        rw [← List.map_map, List.zipIdx_map_fst]

theorem hasChildren (h : Represents w r) {i : Nat} (hi : i < w.entities.length) :
    r.hasChildren (r.key i) = w.hasChildren i := by
  have hm := h.map_values (f := fun c => c.parent == some (r.key i))
    (g := fun e => e.parent == some i) fun e _ he => h.parent_beq he.1 hi
  simpa [Registry.hasChildren, World.hasChildren, List.any_map, Function.comp_def] using
    congrArg (List.any · id) hm

theorem contains_inherits (h : Represents w r) {e : Entity} (he : e.Within w.entities.length)
    {i : Nat} (hi : i < w.entities.length) :
    (e.inherits.map r.key).contains (r.key i) = e.inherits.contains i := by
  rw [Bool.eq_iff_iff, List.contains_iff_mem, List.contains_iff_mem, List.mem_map]
  constructor
  · rintro ⟨j, hj, hk⟩
    exact h.key_inj (he.2 j hj) hi hk ▸ hj
  · intro hj
    exact ⟨i, hj, rfl⟩

theorem isInherited (h : Represents w r) {i : Nat} (hi : i < w.entities.length) :
    r.isInherited (r.key i) = w.isInherited i := by
  have hm := h.map_values (f := fun c => c.inherits.contains (r.key i))
    (g := fun e => e.inherits.contains i) fun e _ he => h.contains_inherits he hi
  simpa [Registry.isInherited, World.isInherited, List.any_map, Function.comp_def] using
    congrArg (List.any · id) hm

theorem topLevel_eq (h : Represents w r) : r.topLevel =
    (w.entities.zipIdx.filter (·.1.parent.isNone)).map fun p =>
      p.1.named r.key (r.key p.2) := by
  rw [Registry.topLevel, h.values_eq, List.filter_map]
  congr 1
  refine List.filter_congr ?_
  intro p _
  cases hp : p.1.parent <;> simp [Entity.named, hp]

theorem find?_named {l : List (Entity × Nat)}
    (hl : ∀ p ∈ l, p ∈ w.entities.zipIdx) {f : CommandId → Bool} {g : Nat → Bool}
    (hfg : ∀ i < w.entities.length, f (r.key i) = g i) :
    ((l.map fun p => p.1.named r.key (r.key p.2)).find? fun c => f c.id).map (·.id) =
      ((l.map (·.2)).find? g).map r.key := by
  rw [List.find?_map, List.find?_map, Option.map_map, Option.map_map]
  have hc : l.find? ((fun c : Command => f c.id) ∘ fun p => p.1.named r.key (r.key p.2)) =
      l.find? (g ∘ (·.2)) := by
    refine List.find?_congr ?_
    intro p hp
    exact hfg p.2 (by simpa using List.snd_lt_of_mem_zipIdx (hl p hp))
  rw [hc]
  rfl

theorem root? (h : Represents w r) : r.root? = w.root?.map r.key := by
  have hmem : ∀ p ∈ w.entities.zipIdx.filter (·.1.parent.isNone), p ∈ w.entities.zipIdx :=
    fun p hp => (List.mem_filter.1 hp).1
  rw [Registry.root?, World.root?, Option.map_or, Option.map_or, Option.map_or, Option.map_or,
    h.topLevel_eq, World.topLevel]
  congr 1
  · exact find?_named hmem fun i hi => h.hasChildren hi
  · congr 1
    · rw [← List.map_reverse, ← List.map_reverse]
      exact find?_named (f := fun id => !r.isInherited id)
        (fun p hp => hmem p (List.mem_reverse.1 hp))
        fun i hi => congrArg _ (h.isInherited hi)
    · rw [List.getLast?_map, List.getLast?_map, Option.map_map, Option.map_map]
      rfl

end Represents

structure World.Named (w : World) (root : Nat) (key : Nat → CommandId) (t : CommandTree) :
    Prop where
  distinct : ∀ i < w.entities.length, ∀ j < w.entities.length, key i = key j → i = j
  root : t.root = key root
  entries : t.commands.entries = w.entries key
  arguments : t.arguments = w.facts.map (Fact.named · key)

theorem ofNode_refines_objects {o : ExtractionOptions} {hints : List Hint} {n : Node}
    {ss : List Statement} (h : statements? o n.calls = some ss) :
    match World.empty.runAll hints ss with
    | .error e => CommandTree.ofNode o hints n = .error e
    | .ok w => ∃ r, Registering.steps hints (n.steps o) .empty = .ok ((), r) ∧ Represents w r ∧
        match w.root? with
        | none => CommandTree.ofNode o hints n = .error .noParser
        | some root => ∃ t, CommandTree.ofNode o hints n = .ok t ∧ w.Named root r.key t := by
  have hrun := Represents.empty.runAll hints ss
  rw [CommandTree.ofNode, CommandTree.ofSteps_eq, Node.steps, steps_of_statements? h]
  generalize World.empty.runAll hints ss = x at hrun ⊢
  generalize Registering.steps hints (ss.map Statement.step) .empty = y at hrun ⊢
  cases hrun with
  | error e => rfl
  | @ok w p hw =>
      refine ⟨p.2, rfl, hw, ?_⟩
      have hroot := hw.root?
      simp only [Registry.tree, hroot]
      cases w.root? with
      | none => rfl
      | some root =>
          refine ⟨_, rfl, ?_, rfl, hw.entries, hw.arguments⟩
          intro i hi j hj hk
          exact hw.key_inj hi hj hk

def reboundHandles : List Char :=
  "p = ArgumentParser()
p = ArgumentParser()
a = b = p.add_parser(\"x\")
a = p.add_parser(\"y\", parents=[b])
".toList

theorem rebound_handles_refine_objects : ∃ n ss,
    Node.ofSource reboundHandles = .ok n ∧ statements? ⟨"m", []⟩ n.calls = some ss ∧
      match World.empty.runAll [] ss with
      | .error e => CommandTree.ofNode ⟨"m", []⟩ [] n = .error e
      | .ok w => ∃ r, Registering.steps [] (n.steps ⟨"m", []⟩) .empty = .ok ((), r) ∧
          Represents w r ∧ match w.root? with
          | none => CommandTree.ofNode ⟨"m", []⟩ [] n = .error .noParser
          | some root => ∃ t, CommandTree.ofNode ⟨"m", []⟩ [] n = .ok t ∧
              w.Named root r.key t := by
  have hs : ((Node.ofSource reboundHandles).toOption.bind fun n =>
      statements? ⟨"m", []⟩ n.calls).isSome = true := by decide +kernel
  obtain ⟨ss, hss⟩ := Option.isSome_iff_exists.1 hs
  obtain ⟨n, hn, hss⟩ := Option.bind_eq_some_iff.1 hss
  exact ⟨n, ss, CommandTree.eq_ok_of_toOption hn, hss, ofNode_refines_objects hss⟩

end CliCompletion.Objects
