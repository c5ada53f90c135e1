import CliCompletion.Proofs.Formation
import CliCompletion.Proofs.Translation

namespace CliCompletion

variable {T : Translation} {ι : CommandId → CommandId}

inductive Translation.Errors (T : Translation) : ExtractionError → ExtractionError → Prop
  | unsupported {context kind s s' : String} {l l' : Nat} (ht : T.texts s s')
      (hl : T.lines l l') :
      T.Errors (.unsupported context kind s l) (.unsupported context kind s' l')
  | unknownHandle {x x' : String} {l l' : Nat} (hx : T.texts x x') (hl : T.lines l l') :
      T.Errors (.unknownHandle x l) (.unknownHandle x' l')
  | missingName {call : String} {l l' : Nat} (hl : T.lines l l') :
      T.Errors (.missingName call l) (.missingName call l')
  | nameNotText {call : String} {l l' : Nat} (hl : T.lines l l') :
      T.Errors (.nameNotText call l) (.nameNotText call l')
  | noParser : T.Errors .noParser .noParser

inductive ErrorKind where
  | unsupported (context kind : String)
  | unknownHandle
  | missingName (call : String)
  | nameNotText (call : String)
  | noParser
  | malformed
  deriving DecidableEq, Repr

def ExtractionError.kind : ExtractionError → ErrorKind
  | unsupported context kind _ _ => .unsupported context kind
  | unknownHandle _ _ => .unknownHandle
  | missingName call _ => .missingName call
  | nameNotText call _ => .nameNotText call
  | noParser => .noParser
  | malformed _ => .malformed

theorem Translation.Errors.kind_eq {e e' : ExtractionError} (h : T.Errors e e') :
    e'.kind = e.kind := by
  cases h <;> rfl

theorem Translation.Errors.rel_line? {e e' : ExtractionError} (h : T.Errors e e') :
    Option.Rel T.lines e.line? e'.line? := by
  cases h with
  | noParser => exact .none
  | _ => exact .some ‹_›

inductive Alike {α β : Type} (E : ExtractionError → ExtractionError → Prop) (P : α → β → Prop) :
    Except ExtractionError α → Except ExtractionError β → Prop
  | ok {a : α} {b : β} (h : P a b) : Alike E P (.ok a) (.ok b)
  | error {e e' : ExtractionError} (h : E e e') : Alike E P (.error e) (.error e')

namespace Alike

variable {α β γ δ : Type} {E E' : ExtractionError → ExtractionError → Prop} {P Q : α → β → Prop}
  {R : γ → δ → Prop}

theorem imp {x : Except ExtractionError α} {y : Except ExtractionError β} (h : Alike E P x y)
    (hE : ∀ e e', E e e' → E' e e') (hP : ∀ a b, P a b → Q a b) : Alike E' Q x y := by
  cases h with
  | ok h => exact .ok (hP _ _ h)
  | error h => exact .error (hE _ _ h)

theorem swap {x : Except ExtractionError α} {y : Except ExtractionError β} (h : Alike E P x y) :
    Alike (fun e e' => E e' e) (fun b a => P a b) y x := by
  cases h with
  | ok h => exact .ok h
  | error h => exact .error h

theorem and_ok {x : Except ExtractionError α} {y : Except ExtractionError β} (h : Alike E P x y) :
    Alike E (fun a b => P a b ∧ x = .ok a ∧ y = .ok b) x y := by
  cases h with
  | ok h => exact .ok ⟨h, rfl, rfl⟩
  | error h => exact .error h

theorem exists_ok {x : Except ExtractionError α} {y : Except ExtractionError β}
    (h : Alike E P x y) (hx : x.toOption.isSome = true) : ∃ a b, x = .ok a ∧ y = .ok b ∧ P a b := by
  cases h with
  | ok h => exact ⟨_, _, rfl, rfl, h⟩
  | error h => cases hx

theorem map {x y : Except ExtractionError α} (h : Alike E Eq x y) (f : α → γ) :
    Alike E Eq (x.map f) (y.map f) := by
  cases h with
  | ok h => exact .ok (congrArg f h)
  | error h => exact .error h

theorem map_both {x : Except ExtractionError α} {y : Except ExtractionError β} (h : Alike E P x y)
    {f : α → γ} {g : β → δ} (hfg : ∀ a b, P a b → R (f a) (g b)) :
    Alike E R (x.map f) (y.map g) := by
  cases h with
  | ok h => exact .ok (hfg _ _ h)
  | error h => exact .error h

theorem bind {x : Except ExtractionError α} {y : Except ExtractionError β}
    (h : Alike E P x y) {f : α → Except ExtractionError γ} {g : β → Except ExtractionError δ}
    (hfg : ∀ a b, P a b → Alike E R (f a) (g b)) : Alike E R (x >>= f) (y >>= g) := by
  cases h with
  | ok h => exact hfg _ _ h
  | error h => exact .error h

theorem andThen {x : Registering α} {y : Registering β} {r r' : Registry}
    {P : α × Registry → β × Registry → Prop} {R : γ × Registry → δ × Registry → Prop}
    (h : Alike E P (x r) (y r')) {f : α → Registering γ} {g : β → Registering δ}
    (hfg : ∀ a b r₁ r₁', P (a, r₁) (b, r₁') → Alike E R (f a r₁) (g b r₁')) :
    Alike E R ((x >>= f) r) ((y >>= g) r') := by
  rw [Registering.bind_eq, Registering.bind_eq]
  generalize x r = p at h ⊢
  generalize y r' = q at h ⊢
  cases h with
  | ok h => exact hfg _ _ _ _ h
  | error h => exact .error h

end Alike

mutual

inductive CommandExpr.Like (T : Translation) : CommandExpr → CommandExpr → Prop
  | handle {x x' : String} {l l' : Nat} (hx : T.names x x') (hl : T.lines l l') :
      CommandExpr.Like T (.handle x l) (.handle x' l')
  | added {g g' : GroupExpr} {n n' : Except ExtractionError String} {ts ts' : List String}
      {ps ps' : List CommandExpr} {l l' : Nat} (hg : GroupExpr.Like T g g')
      (hn : Alike T.Errors Eq n n') (ht : List.Forall₂ T.names ts ts')
      (hp : List.Forall₂ (CommandExpr.Like T) ps ps') (hl : T.lines l l') :
      CommandExpr.Like T (.added g n ts ps l) (.added g' n' ts' ps' l')
  | grouped {e e' : CommandExpr} (he : CommandExpr.Like T e e') :
      CommandExpr.Like T (.grouped e) (.grouped e')
  | refused {e e' : ExtractionError} (he : T.Errors e e') :
      CommandExpr.Like T (.refused e) (.refused e')

inductive GroupExpr.Like (T : Translation) : GroupExpr → GroupExpr → Prop
  | handle {x x' : String} {l l' : Nat} (hx : T.names x x') (hl : T.lines l l') :
      GroupExpr.Like T (.handle x l) (.handle x' l')
  | opened {e e' : CommandExpr} (he : CommandExpr.Like T e e') :
      GroupExpr.Like T (.opened e) (.opened e')
  | refused {e e' : ExtractionError} (he : T.Errors e e') :
      GroupExpr.Like T (.refused e) (.refused e')

end

inductive Step.Like (T : Translation) : Step → Step → Prop
  | parser {ts ts' : List String} {ps ps' : List CommandExpr} {l l' : Nat}
      (ht : List.Forall₂ T.names ts ts') (hp : List.Forall₂ (CommandExpr.Like T) ps ps')
      (hl : T.lines l l') : Step.Like T (.parser ts ps l) (.parser ts' ps' l')
  | subparsers {ts ts' : List String} {e e' : CommandExpr} (ht : List.Forall₂ T.names ts ts')
      (he : e.Like T e') : Step.Like T (.subparsers ts e) (.subparsers ts' e')
  | argumentGroup {ts ts' : List String} {e e' : CommandExpr}
      (ht : List.Forall₂ T.names ts ts') (he : e.Like T e') :
      Step.Like T (.argumentGroup ts e) (.argumentGroup ts' e')
  | command {e e' : CommandExpr} (he : e.Like T e') : Step.Like T (.command e) (.command e')
  | argument {e e' : CommandExpr} {d d' : Except ExtractionError Declaration} {l l' : Nat}
      (he : e.Like T e') (hd : Alike T.Errors Eq d d') (hl : T.lastLines l l') :
      Step.Like T (.argument e d l) (.argument e' d' l')

def Translation.Hints (T : Translation) (hints hints' : List Hint) : Prop :=
  ∀ l l', T.lastLines l l' →
    Option.Rel (Hint.Like T) (Hint.onLine hints l) (Hint.onLine hints' l')

theorem Translation.hints_of_lastLines (h : T.lastLines = Eq) (hints : List Hint) :
    T.Hints hints hints := by
  intro l l' hl
  rw [h] at hl
  subst hl
  cases Hint.onLine hints l with
  | none => exact .none
  | some a => exact .some ⟨rfl, rfl, by rw [h]⟩

def Binding.relabel (ι : CommandId → CommandId) : Binding → Binding
  | command id => .command (ι id)
  | group owner => .group (ι owner)

theorem Binding.owner_relabel (b : Binding) : (b.relabel ι).owner = ι b.owner := by
  cases b <;> rfl

theorem contains_of_names {ts ts' : List String} (h : List.Forall₂ T.names ts ts')
    {x x' : String} (hx : T.names x x') : ts'.contains x' = ts.contains x := by
  induction h with
  | nil => rfl
  | cons hy _ ih =>
      rw [List.contains_cons, List.contains_cons, ih]
      congr 1
      rw [Bool.eq_iff_iff, beq_iff_eq, beq_iff_eq]
      exact (T.unique hx hy).symm

namespace Registry

structure Like (T : Translation) (ι : CommandId → CommandId) (r r' : Registry) : Prop where
  numbered : r.Numbered
  numbered' : r'.Numbered
  injective : Function.Injective ι
  handles : ∀ x x', T.names x x' → ι (.handle x) = .handle x'
  numbers : ∀ n, ι (.anonymous (r.nextAnonymous + n)) = .anonymous (r'.nextAnonymous + n)
  commands : r.commands.Like T ι r'.commands
  bindings : ∀ x x', T.names x x' → r'.bindings x' = (r.bindings x).map (Binding.relabel ι)
  arguments : List.Forall₂ (Argument.Like T ι) r.arguments r'.arguments

namespace Like

variable {r r' : Registry} {ts ts' : List String}

theorem empty (hι : Function.Injective ι) (hh : ∀ x x', T.names x x' → ι (.handle x) = .handle x')
    (hn : ∀ n, ι (.anonymous n) = .anonymous n) : Registry.empty.Like T ι Registry.empty where
  numbered := rfl
  numbered' := rfl
  injective := hι
  handles := hh
  numbers := fun n => by rw [Registry.empty, Nat.zero_add]; exact hn n
  commands := .nil
  bindings := fun _ _ _ => rfl
  arguments := .nil

theorem child? (h : r.Like T ι r') (owner : CommandId) (name : String) :
    r'.child? (ι owner) name = (r.child? owner name).map ι := by
  have hf : Option.Rel (Command.Like T ι)
      (r.commands.values.find? fun c => c.parent == some owner && c.name == name)
      (r'.commands.values.find? fun c => c.parent == some (ι owner) && c.name == name) := by
    refine rel_find?_of_forall₂ h.commands.values fun c c' hc => ?_
    rw [hc.parent_beq h.injective, hc.name]
  unfold Registry.child?
  generalize r.commands.values.find? _ = x at hf ⊢
  generalize r'.commands.values.find? _ = y at hf ⊢
  cases hf with
  | some hc => exact congrArg some hc.id
  | none => rfl

theorem bind (h : r.Like T ι r') (ht : List.Forall₂ T.names ts ts') (b : Binding) :
    (r.bind ts b).Like T ι (r'.bind ts' (b.relabel ι)) where
  numbered := h.numbered
  numbered' := h.numbered'
  injective := h.injective
  handles := h.handles
  numbers := h.numbers
  commands := h.commands
  bindings := by
    intro x x' hx
    simp only [Registry.bind, contains_of_names ht hx]
    split
    · rfl
    · exact h.bindings x x' hx
  arguments := h.arguments

theorem addArgument (h : r.Like T ι r') {a a' : Argument} (ha : a.Like T ι a') :
    (r.addArgument a).Like T ι (r'.addArgument a') where
  numbered := h.numbered
  numbered' := h.numbered'
  injective := h.injective
  handles := h.handles
  numbers := h.numbers
  commands := h.commands
  bindings := h.bindings
  arguments := List.rel_append h.arguments (.cons ha .nil)

theorem allocate (h : r.Like T ι r') (ht : List.Forall₂ T.names ts ts') :
    (r'.allocate ts').1 = ι (r.allocate ts).1 ∧
      ∀ n, ι (.anonymous ((r.allocate ts).2.nextAnonymous + n)) =
        .anonymous ((r'.allocate ts').2.nextAnonymous + n) := by
  have hanon : ι (.anonymous r.nextAnonymous) = .anonymous r'.nextAnonymous := h.numbers 0
  have hnext : ∀ n, ι (.anonymous (r.nextAnonymous + 1 + n)) =
      .anonymous (r'.nextAnonymous + 1 + n) := by
    intro n
    rw [Nat.add_right_comm _ 1, Nat.add_right_comm _ 1]
    exact h.numbers (n + 1)
  cases ht with
  | nil => exact ⟨hanon.symm, hnext⟩
  | @cons x x' _ _ hx _ =>
      have hhas : r'.has (.handle x') = r.has (.handle x) := by
        rw [← h.handles x x' hx]
        exact h.commands.contains h.injective _
      unfold Registry.allocate
      dsimp only
      rw [hhas]
      split
      · exact ⟨hanon.symm, hnext⟩
      · exact ⟨(h.handles x x' hx).symm, h.numbers⟩

theorem addCommand (h : r.Like T ι r') (ht : List.Forall₂ T.names ts ts') (name : String)
    (parent : Option CommandId) (inherits : List CommandId) {l l' : Nat} (hl : T.lines l l') :
    (r'.addCommand ts' name (parent.map ι) (inherits.map ι) l').1 =
        ι (r.addCommand ts name parent inherits l).1 ∧
      (r.addCommand ts name parent inherits l).2.Like T ι
        (r'.addCommand ts' name (parent.map ι) (inherits.map ι) l').2 := by
  obtain ⟨hid, hnext⟩ := h.allocate ht
  refine ⟨hid, ?_⟩
  refine ⟨h.numbered.addCommand, h.numbered'.addCommand, h.injective, h.handles, hnext, ?_, ?_, ?_⟩
  · rw [OrderedMap.Like, h.numbered.addCommand_entries, h.numbered'.addCommand_entries]
    refine List.rel_append h.commands (.cons ⟨hid, ?_⟩ .nil)
    exact ⟨hid, rfl, rfl, rfl, hl⟩
  · intro x x' hx
    rw [addCommand_bindings, addCommand_bindings, hid]
    exact (h.bind ht (.command (r.allocate ts).1)).bindings x x' hx
  · rw [addCommand_arguments, addCommand_arguments]
    exact h.arguments

end Like

end Registry

namespace Registering

open Registry

def Resolved (T : Translation) (ι : CommandId → CommandId) (p p' : CommandId × Registry) : Prop :=
  p'.1 = ι p.1 ∧ p.2.Like T ι p'.2

def ResolvedAll (T : Translation) (ι : CommandId → CommandId)
    (p p' : List CommandId × Registry) : Prop :=
  p'.1 = p.1.map ι ∧ p.2.Like T ι p'.2

def addTo (owner : CommandId) (name : Except ExtractionError String) (targets : List String)
    (parents : List CommandExpr) (line : Nat) : Registering CommandId := do
  let name ← liftM name
  match (← get).child? owner name with
  | some id =>
      modify (·.bind targets (.command id))
      return id
  | none =>
      let inherits ← commands parents
      modifyGet (·.addCommand targets name (some owner) inherits line)

theorem command_added (group : GroupExpr) (name : Except ExtractionError String)
    (targets : List String) (parents : List CommandExpr) (line : Nat) :
    command (.added group name targets parents line) =
      groupOwner group >>= fun owner => addTo owner name targets parents line := by
  rw [command]
  rfl

theorem addTo_ok (owner : CommandId) (n : String) (targets : List String)
    (parents : List CommandExpr) (line : Nat) (r : Registry) :
    addTo owner (.ok n) targets parents line r = match r.child? owner n with
      | some id => .ok (id, r.bind targets (.command id))
      | none => commands parents r >>= fun p =>
          .ok (p.2.addCommand targets n (some owner) p.1 line) := by
  rw [addTo, bind_eq, liftM_eq, Except.map]
  dsimp only
  rw [bind_eq, get_eq]
  dsimp only
  cases r.child? owner n with
  | some id => rfl
  | none => rfl

variable {r r' : Registry}

theorem addTo_cases {owner id : CommandId} {name : Except ExtractionError String}
    {targets : List String} {parents : List CommandExpr} {line : Nat}
    (h : addTo owner name targets parents line r = .ok (id, r')) : ∃ n, name = .ok n ∧
      ((r.child? owner n = some id ∧ r' = r.bind targets (.command id)) ∨
        (r.child? owner n = none ∧ ∃ ids r₁, commands parents r = .ok (ids, r₁) ∧
          id = (r₁.addCommand targets n (some owner) ids line).1 ∧
          r' = (r₁.addCommand targets n (some owner) ids line).2)) := by
  cases name with
  | error e => cases h
  | ok n =>
      refine ⟨n, rfl, ?_⟩
      rw [addTo_ok] at h
      cases hc : r.child? owner n with
      | some i =>
          rw [hc] at h
          cases h
          exact .inl ⟨rfl, rfl⟩
      | none =>
          rw [hc] at h
          cases hp : commands parents r with
          | error e =>
              rw [hp] at h
              cases h
          | ok p =>
              rw [hp] at h
              obtain ⟨rfl, rfl⟩ := Prod.ext_iff.1 (Except.ok.inj h)
              exact .inr ⟨rfl, p.1, p.2, rfl, rfl, rfl⟩

theorem addTo_bindings {owner id : CommandId} {name : Except ExtractionError String} {v : String}
    {parents : List CommandExpr} {line : Nat}
    (h : addTo owner name [v] parents line r = .ok (id, r')) :
    r'.bindings v = some (.command id) := by
  obtain ⟨n, -, ⟨-, rfl⟩ | ⟨-, ids, r₁, -, rfl, rfl⟩⟩ := addTo_cases h
  · exact bind_bindings_of_mem (List.mem_singleton.2 rfl) _
  · rw [addCommand_bindings]
    exact bind_bindings_of_mem (List.mem_singleton.2 rfl) _

theorem commandNamed_like (h : r.Like T ι r') {x x' : String} {l l' : Nat} (hx : T.names x x')
    (hl : T.lines l l') :
    Alike T.Errors (Resolved T ι) (commandNamed x l r) (commandNamed x' l' r') := by
  unfold commandNamed
  rw [h.bindings x x' hx]
  cases r.bindings x with
  | none => exact .error (.unknownHandle (T.texts_of_names hx) hl)
  | some b =>
      cases b with
      | command id => exact .ok ⟨rfl, h⟩
      | group id => exact .error (.unknownHandle (T.texts_of_names hx) hl)

theorem ownerNamed_like (h : r.Like T ι r') {x x' : String} {l l' : Nat} (hx : T.names x x')
    (hl : T.lines l l') :
    Alike T.Errors (Resolved T ι) (ownerNamed x l r) (ownerNamed x' l' r') := by
  unfold ownerNamed
  rw [h.bindings x x' hx]
  cases r.bindings x with
  | none => exact .error (.unknownHandle (T.texts_of_names hx) hl)
  | some b => exact .ok ⟨b.owner_relabel, h⟩

mutual

theorem command_like : ∀ (e : CommandExpr) {e' : CommandExpr} {r r' : Registry}, e.Like T e' →
    r.Like T ι r' → Alike T.Errors (Resolved T ι) (command e r) (command e' r')
  | .handle x l, e', r, r', he, h => by
      cases he with
      | handle hx hl =>
          rw [command_handle, command_handle]
          exact commandNamed_like h hx hl
  | .grouped owner, e', r, r', he, h => by
      cases he with
      | grouped ho =>
          rw [command_grouped, command_grouped]
          exact command_like owner ho h
  | .refused _, e', r, r', he, h => by
      cases he with
      | refused he =>
          rw [command_refused, command_refused]
          exact .error he
  | .added group name ts ps l, e', r, r', he, h => by
      cases he with
      | added hg hn ht hp hl =>
          rw [command_added, command_added]
          refine (groupOwner_like group hg h).andThen ?_
          rintro owner _ r₁ r₁' ⟨rfl, h₁⟩
          cases hn with
          | error he => exact .error he
          | @ok n _ hn =>
              subst hn
              rw [addTo_ok, addTo_ok, h₁.child? owner n]
              cases r₁.child? owner n with
              | some id => exact .ok ⟨rfl, h₁.bind ht (.command id)⟩
              | none =>
                  refine (commands_like ps hp h₁).bind ?_
                  rintro ⟨ids, r₂⟩ ⟨_, r₂'⟩ ⟨rfl, h₂⟩
                  exact .ok (h₂.addCommand ht n (some owner) ids hl)

theorem groupOwner_like : ∀ (g : GroupExpr) {g' : GroupExpr} {r r' : Registry}, g.Like T g' →
    r.Like T ι r' → Alike T.Errors (Resolved T ι) (groupOwner g r) (groupOwner g' r')
  | .handle x l, g', r, r', hg, h => by
      cases hg with
      | handle hx hl =>
          rw [groupOwner_handle, groupOwner_handle]
          exact ownerNamed_like h hx hl
  | .opened owner, g', r, r', hg, h => by
      cases hg with
      | opened ho =>
          rw [groupOwner_opened, groupOwner_opened]
          exact command_like owner ho h
  | .refused _, g', r, r', hg, h => by
      cases hg with
      | refused he =>
          rw [groupOwner_refused, groupOwner_refused]
          exact .error he

theorem commands_like : ∀ (es : List CommandExpr) {es' : List CommandExpr} {r r' : Registry},
    List.Forall₂ (CommandExpr.Like T) es es' → r.Like T ι r' →
      Alike T.Errors (ResolvedAll T ι) (commands es r) (commands es' r')
  | [], es', r, r', hes, h => by
      cases hes with
      | nil =>
          rw [commands]
          exact .ok ⟨rfl, h⟩
  | e :: es, es', r, r', hes, h => by
      cases hes with
      | cons he hes =>
          rw [commands, commands]
          refine (command_like e he h).andThen ?_
          rintro id _ r₁ r₁' ⟨rfl, h₁⟩
          refine (commands_like es hes h₁).andThen ?_
          rintro ids _ r₂ r₂' ⟨rfl, h₂⟩
          exact .ok ⟨rfl, h₂⟩

end

variable {hints hints' : List Hint}

theorem step_like (hh : T.Hints hints hints') {s s' : Step} (hs : s.Like T s')
    (h : r.Like T ι r') :
    Alike T.Errors (fun p p' => p.2.Like T ι p'.2) (step hints s r) (step hints' s' r') := by
  cases hs with
  | parser ht hp hl =>
      refine (commands_like _ hp h).andThen ?_
      rintro ids _ r₁ r₁' ⟨rfl, h₁⟩
      exact .ok (h₁.addCommand ht "" none ids hl).2
  | subparsers ht he =>
      refine (command_like _ he h).andThen ?_
      rintro id _ r₁ r₁' ⟨rfl, h₁⟩
      exact .ok (h₁.bind ht (.group id))
  | argumentGroup ht he =>
      refine (command_like _ he h).andThen ?_
      rintro id _ r₁ r₁' ⟨rfl, h₁⟩
      exact .ok (h₁.bind ht (.command id))
  | command he =>
      refine (command_like _ he h).andThen ?_
      rintro id _ r₁ r₁' ⟨rfl, h₁⟩
      exact .ok h₁
  | argument he hd hl =>
      refine (command_like _ he h).andThen ?_
      rintro id _ r₁ r₁' ⟨rfl, h₁⟩
      cases hd with
      | error he => exact .error he
      | @ok d _ hd =>
          subst hd
          exact .ok (h₁.addArgument ⟨rfl, rfl, rfl, hh _ _ hl, hl⟩)

theorem steps_like (hh : T.Hints hints hints') {ss ss' : List Step}
    (hss : List.Forall₂ (Step.Like T) ss ss') (h : r.Like T ι r') :
    Alike T.Errors (fun p p' => p.2.Like T ι p'.2) (steps hints ss r) (steps hints' ss' r') := by
  induction hss generalizing r r' with
  | nil => exact .ok h
  | cons hs _ ih =>
      refine (step_like hh hs h).andThen ?_
      intro _ _ r₁ r₁' h₁
      exact ih h₁

end Registering

namespace Registry.Like

variable {r r' : Registry}

theorem hasChildren (h : r.Like T ι r') (id : CommandId) :
    r'.hasChildren (ι id) = r.hasChildren id :=
  any_eq_any_of_forall₂ h.commands.values fun _ _ hc => hc.parent_beq h.injective id

theorem isInherited (h : r.Like T ι r') (id : CommandId) :
    r'.isInherited (ι id) = r.isInherited id :=
  any_eq_any_of_forall₂ h.commands.values fun _ _ hc => hc.contains_inherits h.injective id

theorem topLevel (h : r.Like T ι r') :
    List.Forall₂ (Command.Like T ι) r.topLevel r'.topLevel :=
  forall₂_filter h.commands.values fun _ _ hc => by rw [hc.parent, Option.isNone_map]

theorem root? (h : r.Like T ι r') : r'.root? = r.root?.map ι := by
  have hbusy := rel_find?_of_forall₂ h.topLevel (p := fun c => r.hasChildren c.id)
    (q := fun c => r'.hasChildren c.id) fun c c' hc => by rw [hc.id, h.hasChildren]
  have hfree := rel_find?_of_forall₂ (List.rel_reverse h.topLevel)
    (p := fun c => !r.isInherited c.id) (q := fun c => !r'.isInherited c.id)
    fun c c' hc => by rw [hc.id, h.isInherited]
  have hlast := rel_getLast?_of_forall₂ h.topLevel
  have hroot := rel_or_of_rel hbusy (rel_or_of_rel hfree hlast)
  unfold Registry.root?
  generalize Option.or _ _ = x at hroot ⊢
  generalize Option.or _ _ = y at hroot ⊢
  cases hroot with
  | some hc => exact congrArg some hc.id
  | none => rfl

theorem tree (h : r.Like T ι r') :
    Alike T.Errors (CommandTree.Like T ι) r.tree r'.tree := by
  unfold Registry.tree
  rw [h.root?]
  cases r.root? with
  | none => exact .error .noParser
  | some root => exact .ok ⟨rfl, h.commands, h.arguments⟩

end Registry.Like

theorem CommandTree.ofSteps_like {hints hints' : List Hint} (hh : T.Hints hints hints')
    {ss ss' : List Step} (hss : List.Forall₂ (Step.Like T) ss ss')
    (h : Registry.empty.Like T ι Registry.empty) :
    Alike T.Errors (CommandTree.Like T ι) (ofSteps hints ss) (ofSteps hints' ss') :=
  (Registering.steps_like hh hss h).bind fun _ _ h => h.tree

end CliCompletion
