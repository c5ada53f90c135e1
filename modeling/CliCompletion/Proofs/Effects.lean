import CliCompletion.Command.Registry

namespace CliCompletion

theorem bind_eq_ok {ε α β : Type} {x : Except ε α} {f : α → Except ε β} {b : β} :
    x >>= f = .ok b ↔ ∃ a, x = .ok a ∧ f a = .ok b := by
  change x.bind f = _ ↔ _
  cases x <;> simp [Except.bind]

namespace Registering

variable {α β : Type} {r r' : Registry} {id : CommandId}

theorem bind_eq (x : Registering α) (f : α → Registering β) (r : Registry) :
    (x >>= f) r = match x r with
      | .error e => .error e
      | .ok (a, r₁) => f a r₁ := by
  cases h : x r <;> simp [bind, StateT.bind, Except.bind, h]

theorem bind_congr_ok {q : Registering α} {f g : α → Registering β}
    (h : ∀ a r₁, q r = .ok (a, r₁) → f a r₁ = g a r₁) : (q >>= f) r = (q >>= g) r := by
  rw [bind_eq, bind_eq]
  cases hq : q r with
  | error e => rfl
  | ok p => exact h p.1 p.2 hq

theorem bind_ok {x : Registering α} {f : α → Registering β} {p : β × Registry} :
    (x >>= f) r = .ok p ↔ ∃ a r₁, x r = .ok (a, r₁) ∧ f a r₁ = .ok p := by
  rw [bind_eq]
  cases hx : x r with
  | error e => simp
  | ok q => simp [Prod.ext_iff, and_assoc]

theorem bind_modify_ok {x : Registering α} {f : α → Registry → Registry} :
    (do let a ← x; modify (f a)) r = .ok ((), r') ↔ ∃ a r₁, x r = .ok (a, r₁) ∧ r' = f a r₁ := by
  rw [bind_ok]
  constructor
  · rintro ⟨a, r₁, hx, h⟩
    cases h
    exact ⟨a, r₁, hx, rfl⟩
  · rintro ⟨a, r₁, hx, rfl⟩
    exact ⟨a, r₁, hx, rfl⟩

theorem liftM_eq (x : Except ExtractionError α) (r : Registry) :
    (liftM x : Registering α) r = x.map (·, r) := by
  cases x <;> rfl

theorem liftM_ok {x : Except ExtractionError α} {p : α × Registry} :
    (liftM x : Registering α) r = .ok p ↔ x = .ok p.1 ∧ p.2 = r := by
  obtain ⟨a, r₁⟩ := p
  rw [liftM_eq]
  cases x with
  | error e => simp [Except.map]
  | ok b => simp [Except.map, eq_comm]

theorem get_eq (r : Registry) : (get : Registering Registry) r = .ok (r, r) :=
  rfl

theorem pure_ok {a : α} {p : α × Registry} :
    (pure a : Registering α) r = .ok p ↔ p = (a, r) := by
  change Except.ok (a, r) = .ok p ↔ _
  rw [Except.ok.injEq, eq_comm]

theorem commandNamed_ok {name : String} {line : Nat} :
    commandNamed name line r = .ok (id, r') ↔
      r.bindings name = some (.command id) ∧ r' = r := by
  unfold commandNamed
  cases hb : r.bindings name with
  | none => simp
  | some b => cases b <;> simp [eq_comm]

theorem ownerNamed_ok {name : String} {line : Nat} :
    ownerNamed name line r = .ok (id, r') ↔
      (∃ b, r.bindings name = some b ∧ b.owner = id) ∧ r' = r := by
  unfold ownerNamed
  cases hb : r.bindings name with
  | none => simp
  | some b => simp [eq_comm]

theorem command_added_ok {group : GroupExpr} {name : Except ExtractionError String}
    {targets : List String} {parents : List CommandExpr} {line : Nat} :
    command (.added group name targets parents line) r = .ok (id, r') ↔
      ∃ owner r₁ n, groupOwner group r = .ok (owner, r₁) ∧ name = .ok n ∧
        ((r₁.child? owner n = some id ∧ r' = r₁.bind targets (.command id)) ∨
          (r₁.child? owner n = none ∧ ∃ ids r₂, commands parents r₁ = .ok (ids, r₂) ∧
            (id, r') = r₂.addCommand targets n (some owner) ids line)) := by
  rw [command]
  simp only [bind_ok, liftM_ok]
  constructor
  · rintro ⟨owner, r₁, hg, n, r₂, ⟨hn, rfl⟩, q, r₃, hq, h⟩
    cases hq
    refine ⟨owner, r₂, n, hg, hn, ?_⟩
    cases hc : r₂.child? owner n with
    | some i =>
      rw [hc] at h
      cases h
      exact .inl ⟨rfl, rfl⟩
    | none =>
      rw [hc] at h
      obtain ⟨ids, r₄, hp, h⟩ := bind_ok.1 h
      cases h
      exact .inr ⟨rfl, ids, r₄, hp, rfl⟩
  · rintro ⟨owner, r₁, n, hg, hn, h⟩
    refine ⟨owner, r₁, hg, n, r₁, ⟨hn, rfl⟩, r₁, r₁, rfl, ?_⟩
    rcases h with ⟨hc, rfl⟩ | ⟨hc, ids, r₂, hp, h⟩
    · rw [hc]
      rfl
    · rw [hc]
      refine bind_ok.2 ⟨ids, r₂, hp, ?_⟩
      exact congrArg Except.ok h.symm

theorem command_grouped {owner : CommandExpr} : command (.grouped owner) r = command owner r := by
  rw [command]

theorem groupOwner_opened {owner : CommandExpr} :
    groupOwner (.opened owner) r = command owner r := by
  rw [groupOwner]

theorem commands_nil_ok {ids : List CommandId} :
    commands [] r = .ok (ids, r') ↔ ids = [] ∧ r' = r := by
  rw [commands, pure_ok, Prod.mk.injEq]

theorem commands_cons_ok {e : CommandExpr} {es : List CommandExpr} {ids : List CommandId} :
    commands (e :: es) r = .ok (ids, r') ↔
      ∃ i is r₁, command e r = .ok (i, r₁) ∧ commands es r₁ = .ok (is, r') ∧ ids = i :: is := by
  rw [commands]
  simp only [bind_ok]
  constructor
  · rintro ⟨i, r₁, he, is, r₂, hes, h⟩
    cases h
    exact ⟨i, is, r₁, he, hes, rfl⟩
  · rintro ⟨i, is, r₁, he, hes, rfl⟩
    exact ⟨i, r₁, he, is, r', hes, rfl⟩

theorem command_handle {name : String} {line : Nat} :
    command (.handle name line) r = commandNamed name line r := by
  rw [command]

theorem groupOwner_handle {name : String} {line : Nat} :
    groupOwner (.handle name line) r = ownerNamed name line r := by
  rw [groupOwner]

theorem command_refused (e : ExtractionError) : command (.refused e) r = .error e := by
  rw [command]
  rfl

theorem groupOwner_refused (e : ExtractionError) : groupOwner (.refused e) r = .error e := by
  rw [groupOwner]
  rfl

section Steps

variable {hints : List Hint} {targets : List String}

theorem step_parser_ok {parents : List CommandExpr} {line : Nat} :
    step hints (.parser targets parents line) r = .ok ((), r') ↔
      ∃ ids r₁, commands parents r = .ok (ids, r₁) ∧
        r' = (r₁.addCommand targets "" none ids line).2 := by
  rw [step]
  exact bind_modify_ok

theorem step_subparsers_ok {owner : CommandExpr} :
    step hints (.subparsers targets owner) r = .ok ((), r') ↔
      ∃ i r₁, command owner r = .ok (i, r₁) ∧ r' = r₁.bind targets (.group i) := by
  rw [step]
  exact bind_modify_ok

theorem step_argumentGroup_ok {owner : CommandExpr} :
    step hints (.argumentGroup targets owner) r = .ok ((), r') ↔
      ∃ i r₁, command owner r = .ok (i, r₁) ∧ r' = r₁.bind targets (.command i) := by
  rw [step]
  exact bind_modify_ok

theorem step_command_ok {e : CommandExpr} :
    step hints (.command e) r = .ok ((), r') ↔ ∃ i, command e r = .ok (i, r') := by
  simp only [step, bind_ok]
  constructor
  · rintro ⟨i, r₁, he, h⟩
    cases h
    exact ⟨i, he⟩
  · rintro ⟨i, he⟩
    exact ⟨i, r', he, rfl⟩

theorem step_argument_ok {owner : CommandExpr} {content : Except ExtractionError Declaration}
    {lastLine : Nat} :
    step hints (.argument owner content lastLine) r = .ok ((), r') ↔
      ∃ i r₁ d, command owner r = .ok (i, r₁) ∧ content = .ok d ∧
        r' = r₁.addArgument ⟨i, d.literals, d.options, Hint.onLine hints lastLine, lastLine⟩ := by
  simp only [step, bind_ok, liftM_ok]
  constructor
  · rintro ⟨i, r₁, ho, d, r₂, ⟨hd, rfl⟩, h⟩
    cases h
    exact ⟨i, r₂, d, ho, hd, rfl⟩
  · rintro ⟨i, r₁, d, ho, hd, rfl⟩
    exact ⟨i, r₁, ho, d, r₁, ⟨hd, rfl⟩, rfl⟩

theorem steps_nil_ok : steps hints [] r = .ok ((), r') ↔ r' = r := by
  rw [steps, pure_ok, Prod.mk.injEq, eq_self, true_and]

theorem steps_singleton (s : Step) : steps hints [s] = step hints s :=
  bind_pure_unit

theorem steps_cons_ok {s : Step} {ss : List Step} :
    steps hints (s :: ss) r = .ok ((), r') ↔
      ∃ r₁, step hints s r = .ok ((), r₁) ∧ steps hints ss r₁ = .ok ((), r') := by
  simp only [steps, bind_ok]
  exact ⟨fun ⟨_, r₁, h⟩ => ⟨r₁, h⟩, fun ⟨r₁, h⟩ => ⟨(), r₁, h⟩⟩

theorem steps_append_ok {ss ts : List Step} :
    steps hints (ss ++ ts) r = .ok ((), r') ↔
      ∃ r₁, steps hints ss r = .ok ((), r₁) ∧ steps hints ts r₁ = .ok ((), r') := by
  induction ss generalizing r with
  | nil => simp [steps_nil_ok]
  | cons s ss ih =>
      simp only [List.cons_append, steps_cons_ok, ih]
      constructor
      · rintro ⟨r₁, hs, r₂, hss, hts⟩
        exact ⟨r₂, ⟨r₁, hs, hss⟩, hts⟩
      · rintro ⟨r₂, ⟨r₁, hs, hss⟩, hts⟩
        exact ⟨r₁, hs, r₂, hss, hts⟩

end Steps

end Registering

end CliCompletion
