import CliCompletion.Proofs.Likeness
import Mathlib.Logic.Equiv.Basic

namespace CliCompletion

variable {f : String → String}

namespace CommandId

def rename (f : String → String) : CommandId → CommandId
  | handle x => .handle (f x)
  | anonymous n => .anonymous n

theorem rename_injective (hf : Function.Injective f) : Function.Injective (rename f) := by
  intro id id' h
  cases id with
  | handle x =>
      cases id' with
      | handle y => rw [hf (handle.inj h)]
      | anonymous m => cases h
  | anonymous n =>
      cases id' with
      | handle y => cases h
      | anonymous m => exact h

end CommandId

def Command.rename (f : String → String) (c : Command) : Command :=
  ⟨c.id.rename f, c.name, c.parent.map (.rename f), c.inherits.map (.rename f), c.line⟩

structure CommandTree.Renamed (f : String → String) (t t' : CommandTree) : Prop where
  root : t'.root = t.root.rename f
  commands : t'.commands.entries = t.commands.entries.map fun e => (e.1.rename f, e.2.rename f)
  arguments : t'.arguments = t.arguments.map fun a => { a with owner := a.owner.rename f }

def Translation.renaming (hf : Function.Injective f)
    (hp : f Vocabulary.parserClass = Vocabulary.parserClass) : Translation where
  names x x' := x' = f x
  texts _ _ := True
  lines := Eq
  lastLines := Eq
  unique := by
    rintro x _ y _ rfl rfl
    exact hf.eq_iff.symm
  parserClass_iff := by
    rintro x _ rfl
    rw [← hf.eq_iff, hp]
  texts_of_names _ := trivial
  texts_refl _ := trivial

variable (hf : Function.Injective f) (hp : f Vocabulary.parserClass = Vocabulary.parserClass)

namespace Node

mutual

def rename (f : String → String) : Node → Node
  | comment x => comment x
  | join x => join x
  | atom .identifier x => atom .identifier { x with text := f x.text }
  | atom kind x => atom kind x
  | string x fields => string x (renameAll f fields)
  | signed sign x operand => signed sign x (operand.rename f)
  | group kind x items => group kind x (renameAll f items)
  | member x object name => member x (object.rename f) name
  | keyword x name value => keyword x name (value.rename f)
  | call x function arguments => call x (function.rename f) (arguments.rename f)
  | assignment x target typing value =>
      assignment x (target.rename f) (renameAll f typing) (value.rename f)
  | construct kind x parts => construct kind x (renameAll f parts)

def renameAll (f : String → String) : List Node → List Node
  | [] => []
  | n :: ns => n.rename f :: renameAll f ns

end

mutual

theorem like_rename : ∀ n : Node, n.Like (.renaming hf hp) (n.rename f)
  | .comment _ => .comment ⟨trivial, rfl⟩
  | .join _ => .join ⟨trivial, rfl⟩
  | .atom kind x => by
      cases kind with
      | identifier => exact .identifier rfl rfl
      | _ => exact .atom (by decide) rfl rfl
  | .string _ fields => .string ⟨trivial, rfl⟩ (fun _ => rfl) (like_renameAll fields)
  | .signed _ _ operand => .signed ⟨trivial, rfl⟩ (like_rename operand)
  | .group _ _ items => .group ⟨trivial, rfl⟩ (like_renameAll items)
  | .member _ object _ => .member ⟨trivial, rfl⟩ (like_rename object)
  | .keyword _ _ value => .keyword ⟨trivial, rfl⟩ (like_rename value)
  | .call _ function arguments =>
      .call ⟨trivial, rfl⟩ rfl (like_rename function) (like_rename arguments)
  | .assignment _ target typing value =>
      .assignment ⟨trivial, rfl⟩ (like_rename target) (like_renameAll typing) (like_rename value)
  | .construct _ _ parts => .construct ⟨trivial, rfl⟩ (like_renameAll parts)

theorem like_renameAll : ∀ ns : List Node,
    List.Forall₂ (Node.Like (.renaming hf hp)) ns (renameAll f ns)
  | [] => .nil
  | n :: ns => .cons (like_rename n) (like_renameAll ns)

end

end Node

section Results

variable {hf hp}

theorem Command.Like.eq_rename {c c' : Command} (h : c.Like (.renaming hf hp) (.rename f) c') :
    c' = c.rename f := by
  obtain ⟨hid, hname, hparent, hinherits, hline⟩ := h
  cases c'
  cases hid
  cases hname
  cases hparent
  cases hinherits
  cases hline
  rfl

theorem Hint.Like.eq {a a' : Hint} (h : a.Like (.renaming hf hp) a') : a' = a := by
  obtain ⟨htext, hpairs, hline⟩ := h
  cases a'
  cases htext
  cases hpairs
  cases hline
  rfl

theorem Argument.Like.eq_rename {a a' : Argument}
    (h : a.Like (.renaming hf hp) (.rename f) a') :
    a' = { a with owner := a.owner.rename f } := by
  obtain ⟨howner, hliterals, hoptions, hhint, hline⟩ := h
  have hhint : a'.hint = a.hint := by
    generalize a.hint = x at hhint ⊢
    generalize a'.hint = y at hhint ⊢
    cases hhint with
    | some hxy => rw [hxy.eq]
    | none => rfl
  cases a'
  cases howner
  cases hliterals
  cases hoptions
  cases hhint
  cases hline
  rfl

theorem CommandTree.Like.renamed {t t' : CommandTree}
    (h : t.Like (.renaming hf hp) (.rename f) t') : t.Renamed f t' where
  root := h.root
  commands := by
    refine (List.map_id _).symm.trans (map_eq_map_of_forall₂ h.commands fun e e' he => ?_)
    exact Prod.ext he.1 he.2.eq_rename
  arguments :=
    (List.map_id _).symm.trans
      (map_eq_map_of_forall₂ h.arguments fun _ _ ha => ha.eq_rename)

end Results

namespace CommandTree

theorem ofNode_renamed (o : ExtractionOptions) (hints : List Hint) {n n' : Node}
    (h : n.Like (.renaming hf hp) n') :
    Alike (fun e e' => e'.kind = e.kind ∧ e'.line? = e.line?)
      (fun t t' => t.Renamed f t' ∧ ∀ tool, t'.directives tool = t.directives tool)
      (ofNode o hints n) (ofNode o hints n') := by
  have hι := CommandId.rename_injective hf
  have h₀ : Registry.empty.Like (.renaming hf hp) (.rename f) .empty :=
    .empty hι (by rintro x _ rfl; rfl) fun _ => rfl
  refine (ofSteps_like (Translation.hints_of_lastLines rfl hints) h.steps h₀).imp ?_ ?_
  · intro e e' he
    refine ⟨he.kind_eq, ?_⟩
    have hl : Option.Rel Eq e.line? e'.line? := he.rel_line?
    generalize e.line? = x at hl ⊢
    generalize e'.line? = y at hl ⊢
    cases hl with
    | some h => rw [h]
    | none => rfl
  · intro t t' ht
    exact ⟨ht.renamed, fun tool => ht.directives hι tool⟩

def groupedScript (p g : String) : Node :=
  .construct .part ⟨p ++ " = ArgumentParser()\n" ++ g ++ " = " ++ p ++ ".add_subparsers()\n" ++ g ++
      ".add_parser(\"x\")\n", 1, 4⟩ [
    .assignment ⟨p ++ " = ArgumentParser()", 1, 1⟩ (.atom .identifier ⟨p, 1, 1⟩) []
      (.call ⟨"ArgumentParser()", 1, 1⟩ (.atom .identifier ⟨"ArgumentParser", 1, 1⟩)
        (.group .arguments ⟨"()", 1, 1⟩ [])),
    .assignment ⟨g ++ " = " ++ p ++ ".add_subparsers()", 2, 2⟩ (.atom .identifier ⟨g, 2, 2⟩) []
      (.call ⟨p ++ ".add_subparsers()", 2, 2⟩
        (.member ⟨p ++ ".add_subparsers", 2, 2⟩ (.atom .identifier ⟨p, 2, 2⟩) "add_subparsers")
        (.group .arguments ⟨"()", 2, 2⟩ [])),
    .call ⟨g ++ ".add_parser(\"x\")", 3, 3⟩
      (.member ⟨g ++ ".add_parser", 3, 3⟩ (.atom .identifier ⟨g, 3, 3⟩) "add_parser")
      (.group .arguments ⟨"(\"x\")", 3, 3⟩ [.string ⟨"\"x\"", 3, 3⟩ []])]

theorem groupedScript_like {p g : String} (hf : Function.Injective f)
    (hp : f Vocabulary.parserClass = Vocabulary.parserClass) :
    (groupedScript p g).Like (.renaming hf hp) (groupedScript (f p) (f g)) := by
  have hx : ∀ {s s' : String} {l m m' : Nat},
      Extent.Like (.renaming hf hp) ⟨s, l, m⟩ ⟨s', l, m'⟩ := ⟨trivial, rfl⟩
  have hparser : Node.Like (.renaming hf hp) (.atom .identifier ⟨"ArgumentParser", 1, 1⟩)
      (.atom .identifier ⟨"ArgumentParser", 1, 1⟩) := .identifier hp.symm rfl
  refine .construct hx (.cons (.assignment hx (.identifier rfl rfl) .nil ?_) (.cons
    (.assignment hx (.identifier rfl rfl) .nil ?_) (.cons ?_ .nil)))
  · exact .call hx rfl hparser (.group hx .nil)
  · exact .call hx rfl (.member hx (.identifier rfl rfl)) (.group hx .nil)
  · exact .call hx rfl (.member hx (.identifier rfl rfl))
      (.group hx (.cons (.string hx (fun _ => rfl) .nil) .nil))

theorem ofNode_renamed_groupedScript :
    ∃ (hf : Function.Injective (Equiv.swap "p" "g"))
      (hp : Equiv.swap "p" "g" Vocabulary.parserClass = Vocabulary.parserClass),
      (groupedScript "p" "g").Like (.renaming hf hp) (groupedScript "g" "p") ∧
      ∃ t t', ofNode ⟨"m", []⟩ [] (groupedScript "p" "g") = .ok t ∧
        ofNode ⟨"m", []⟩ [] (groupedScript "g" "p") = .ok t' ∧
        t.Renamed (Equiv.swap "p" "g") t' ∧ ∀ tool, t'.directives tool = t.directives tool := by
  have hf : Function.Injective (Equiv.swap "p" "g") := (Equiv.swap "p" "g").injective
  have hp : Equiv.swap "p" "g" Vocabulary.parserClass = Vocabulary.parserClass := by decide
  have h : (groupedScript "p" "g").Like (.renaming hf hp) (groupedScript "g" "p") := by
    have h := groupedScript_like (p := "p") (g := "g") hf hp
    rwa [Equiv.swap_apply_left, Equiv.swap_apply_right] at h
  have hok : (ofNode ⟨"m", []⟩ [] (groupedScript "p" "g")).toOption.isSome = true := by
    decide +kernel
  exact ⟨hf, hp, h, (ofNode_renamed hf hp ⟨"m", []⟩ [] h).exists_ok hok⟩

end CommandTree

end CliCompletion
