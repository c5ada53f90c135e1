import CliCompletion.Proofs.Correspondence

namespace CliCompletion

variable {F : Argument → Argument} {r : Registry}

def Registry.mapArguments (F : Argument → Argument) (r : Registry) : Registry :=
  { r with arguments := r.arguments.map F }

def CommandTree.mapArguments (F : Argument → Argument) (t : CommandTree) : CommandTree :=
  { t with arguments := t.arguments.map F }

namespace Registry

theorem mapArguments_addCommand (r : Registry) (targets : List String) (name : String)
    (parent : Option CommandId) (inherits : List CommandId) (line : Nat) :
    (r.mapArguments F).addCommand targets name parent inherits line =
      ((r.addCommand targets name parent inherits line).1,
        (r.addCommand targets name parent inherits line).2.mapArguments F) := by
  have ha : (r.mapArguments F).allocate targets =
      ((r.allocate targets).1, (r.allocate targets).2.mapArguments F) := by
    cases targets with
    | nil => rfl
    | cons handle rest =>
        change (if r.has (.handle handle) then _ else _) = _
        rw [allocate]
        split <;> rfl
  rw [addCommand, ha]
  rfl

theorem mapArguments_addArgument (r : Registry) (a : Argument) :
    (r.addArgument a).mapArguments F = (r.mapArguments F).addArgument (F a) :=
  congrArg (fun as => { r with arguments := as }) List.map_append

theorem mapArguments_tree (F : Argument → Argument) (r : Registry) :
    (r.mapArguments F).tree = r.tree.map (·.mapArguments F) := by
  have hr : (r.mapArguments F).root? = r.root? := rfl
  rw [tree, tree, hr]
  cases r.root? <;> rfl

end Registry

namespace Registering

variable {α β : Type}

def Blind (x : Registering α) : Prop :=
  ∀ (F : Argument → Argument) (r : Registry),
    x (r.mapArguments F) = (x r).map fun p => (p.1, p.2.mapArguments F)

theorem Blind.bind {x : Registering α} {f : α → Registering β} (hx : Blind x)
    (hf : ∀ a, Blind (f a)) : Blind (x >>= f) := by
  intro F r
  rw [bind_eq, bind_eq, hx F r]
  cases x r with
  | error e => rfl
  | ok p => exact hf p.1 F p.2

theorem blind_pure (a : α) : Blind (pure a) :=
  fun _ _ => rfl

theorem blind_modify {g : Registry → Registry}
    (hg : ∀ F r, g (r.mapArguments F) = (g r).mapArguments F) : Blind (modify g) :=
  fun F r => congrArg (fun r' => Except.ok ((), r')) (hg F r)

theorem blind_commandNamed (name : String) (line : Nat) : Blind (commandNamed name line) := by
  intro F r
  have hb : (r.mapArguments F).bindings = r.bindings := rfl
  rw [commandNamed, commandNamed, hb]
  cases r.bindings name with
  | none => rfl
  | some b => cases b <;> rfl

theorem blind_ownerNamed (name : String) (line : Nat) : Blind (ownerNamed name line) := by
  intro F r
  have hb : (r.mapArguments F).bindings = r.bindings := rfl
  rw [ownerNamed, ownerNamed, hb]
  cases r.bindings name <;> rfl

theorem blind_addTo {parents : List CommandExpr} (hp : Blind (commands parents))
    (owner : CommandId) (name : Except ExtractionError String) (targets : List String)
    (line : Nat) : Blind (addTo owner name targets parents line) := by
  intro F r
  cases name with
  | error e => rfl
  | ok n =>
      have hc : (r.mapArguments F).child? owner n = r.child? owner n := rfl
      rw [addTo_ok, addTo_ok, hc, hp F r]
      cases r.child? owner n with
      | some id => rfl
      | none =>
          cases commands parents r with
          | error e => rfl
          | ok p =>
              exact congrArg Except.ok (p.2.mapArguments_addCommand ..)

mutual

theorem blind_command : ∀ e : CommandExpr, Blind (command e)
  | .handle name line => by
      rw [command]
      exact blind_commandNamed name line
  | .grouped owner => by
      rw [command]
      exact blind_command owner
  | .refused e => by
      rw [command]
      exact fun _ _ => rfl
  | .added group name targets parents line => by
      rw [command_added]
      exact (blind_groupOwner group).bind fun owner =>
        blind_addTo (blind_commands parents) owner name targets line

theorem blind_groupOwner : ∀ g : GroupExpr, Blind (groupOwner g)
  | .handle name line => by
      rw [groupOwner]
      exact blind_ownerNamed name line
  | .opened owner => by
      rw [groupOwner]
      exact blind_command owner
  | .refused e => by
      rw [groupOwner]
      exact fun _ _ => rfl

theorem blind_commands : ∀ es : List CommandExpr, Blind (commands es)
  | [] => by
      rw [commands]
      exact blind_pure []
  | e :: es => by
      rw [commands]
      exact (blind_command e).bind fun id => (blind_commands es).bind fun ids =>
        blind_pure (id :: ids)

end

theorem blind_step (hints : List Hint) : ∀ {s : Step},
    (∀ owner content lastLine, s ≠ .argument owner content lastLine) → Blind (step hints s)
  | .parser _ parents _, _ => (blind_commands parents).bind fun _ =>
      blind_modify fun _ r => congrArg Prod.snd (r.mapArguments_addCommand ..)
  | .subparsers _ owner, _ => (blind_command owner).bind fun _ => blind_modify fun _ _ => rfl
  | .argumentGroup _ owner, _ => (blind_command owner).bind fun _ => blind_modify fun _ _ => rfl
  | .command e, _ => (blind_command e).bind fun _ => blind_pure ()
  | .argument owner content lastLine, h => absurd rfl (h owner content lastLine)

theorem step_argument_eq (hints : List Hint) (owner : CommandExpr)
    (content : Except ExtractionError Declaration) (lastLine : Nat) (r : Registry) :
    step hints (.argument owner content lastLine) r =
      (command owner r).bind fun p => content.map fun d => ((), p.2.addArgument
        ⟨p.1, d.literals, d.options, Hint.onLine hints lastLine, lastLine⟩) := by
  rw [step, bind_eq]
  cases command owner r with
  | error e => rfl
  | ok p => cases content <;> rfl

end Registering

def Argument.hintedBy (hints : List Hint) (a : Argument) : Argument :=
  { a with hint := Hint.onLine hints a.line }

namespace Registering

variable (hints₀ hints : List Hint)

theorem step_hintedBy (s : Step) (r : Registry) :
    step hints s (r.mapArguments (.hintedBy hints)) =
      (step hints₀ s r).map fun p => (p.1, p.2.mapArguments (.hintedBy hints)) := by
  cases s with
  | argument owner content lastLine =>
      rw [step_argument_eq, step_argument_eq, blind_command owner]
      cases command owner r with
      | error e => rfl
      | ok p =>
          cases content with
          | error e => rfl
          | ok d =>
              refine congrArg (fun r' => Except.ok ((), r')) ?_
              exact (p.2.mapArguments_addArgument (F := .hintedBy hints)
                ⟨p.1, d.literals, d.options, Hint.onLine hints₀ lastLine, lastLine⟩).symm
  | parser _ _ _ => exact blind_step hints (by simp) _ r
  | subparsers _ _ => exact blind_step hints (by simp) _ r
  | argumentGroup _ _ => exact blind_step hints (by simp) _ r
  | command _ => exact blind_step hints (by simp) _ r

theorem steps_hintedBy (ss : List Step) (r : Registry) :
    steps hints ss (r.mapArguments (.hintedBy hints)) =
      (steps hints₀ ss r).map fun p => (p.1, p.2.mapArguments (.hintedBy hints)) := by
  induction ss generalizing r with
  | nil => rfl
  | cons s ss ih =>
      rw [steps, steps, bind_eq, bind_eq, step_hintedBy hints₀]
      cases step hints₀ s r with
      | error e => rfl
      | ok p => exact ih p.2

end Registering

namespace CommandTree

theorem ofSteps_hintedBy (hints₀ hints : List Hint) (ss : List Step) :
    ofSteps hints ss = (ofSteps hints₀ ss).map (·.mapArguments (.hintedBy hints)) := by
  have hs := Registering.steps_hintedBy hints₀ hints ss .empty
  have he : Registry.empty.mapArguments (.hintedBy hints) = .empty := rfl
  rw [he] at hs
  change Registering.steps hints ss .empty >>= _ = _
  rw [hs]
  change _ = Except.map _ (Registering.steps hints₀ ss .empty >>= _)
  cases Registering.steps hints₀ ss .empty with
  | error e => rfl
  | ok p => exact p.2.mapArguments_tree _

theorem hintedBy_of_ofSteps {hints : List Hint} {ss : List Step} {t : CommandTree}
    (h : ofSteps hints ss = .ok t) : t.mapArguments (.hintedBy hints) = t := by
  have hm := ofSteps_hintedBy hints hints ss
  rw [h] at hm
  exact (Except.ok.inj hm).symm

theorem mapArguments_namesTo (F : Argument → Argument) (t : CommandTree) (n : Nat) (c : Command) :
    (t.mapArguments F).namesTo n c = t.namesTo n c := by
  induction n generalizing c with
  | zero => rfl
  | succ n ih =>
      rw [namesTo, namesTo]
      cases c.parent with
      | none => rfl
      | some p =>
          have hf : (t.mapArguments F).find? p = t.find? p := rfl
          simp only [hf, ih]

theorem mapArguments_path (F : Argument → Argument) (t : CommandTree) (tool : String)
    (id : CommandId) : (t.mapArguments F).path tool id = t.path tool id := by
  have ha : (t.mapArguments F).ancestry id = t.ancestry id :=
    Option.bind_congr fun c _ => t.mapArguments_namesTo F _ c
  rw [path, path, ha]

theorem mapArguments_enumerations (F : Argument → Argument) (t : CommandTree) (tool : String) :
    (t.mapArguments F).enumerations tool = t.enumerations tool := by
  refine List.filterMap_congr fun id _ => ?_
  rw [enumeration, enumeration, mapArguments_path]
  rfl

theorem mapArguments_receivers (F : Argument → Argument) (t : CommandTree) (id : CommandId) :
    (t.mapArguments F).receivers id = t.receivers id := by
  have hs : ∀ n next found, (t.mapArguments F).spread n next found = t.spread n next found := by
    intro n
    induction n with
    | zero => exact fun _ _ => rfl
    | succ n ih =>
        intro next found
        rw [spread, spread]
        split
        · rfl
        · exact ih _ _
  exact hs _ _ _

theorem directives_mapArguments_congr (t : CommandTree) {F G : Argument → Argument}
    (ho : ∀ a, (F a).owner = (G a).owner) (hd : ∀ a, (F a).directive = (G a).directive)
    (tool : String) :
    (t.mapArguments F).directives tool = (t.mapArguments G).directives tool := by
  have ha : ∀ a, (t.mapArguments F).argumentDirectives tool (F a) =
      (t.mapArguments G).argumentDirectives tool (G a) := by
    intro a
    simp only [argumentDirectives, mapArguments_receivers, mapArguments_path, ho, hd]
  have hf : (t.mapArguments F).arguments.flatMap ((t.mapArguments F).argumentDirectives tool) =
      (t.mapArguments G).arguments.flatMap ((t.mapArguments G).argumentDirectives tool) := by
    change (t.arguments.map F).flatMap _ = (t.arguments.map G).flatMap _
    rw [List.flatMap_map, List.flatMap_map, funext ha]
  rw [directives, directives, mapArguments_enumerations, mapArguments_enumerations, hf]

end CommandTree

end CliCompletion
