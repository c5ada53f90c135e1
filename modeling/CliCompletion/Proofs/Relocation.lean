import CliCompletion.Proofs.Likeness
import CliCompletion.Proofs.Records
import CliCompletion.Proofs.WellFormed

namespace CliCompletion

variable {f : Nat → Nat} {hints hints' : List Hint}

def Translation.moving (f : Nat → Nat) : Translation where
  names := Eq
  texts := Eq
  lines l l' := l' = f l
  lastLines l l' := l' = f l
  unique := by
    rintro x _ y _ rfl rfl
    rfl
  parserClass_iff := by
    rintro x _ rfl
    rfl
  texts_of_names := id
  texts_refl _ := rfl

namespace ExtractionError

def move (f : Nat → Nat) : ExtractionError → ExtractionError
  | unsupported context kind text line => unsupported context kind text (f line)
  | unknownHandle handle line => unknownHandle handle (f line)
  | missingName call line => missingName call (f line)
  | nameNotText call line => nameNotText call (f line)
  | noParser => noParser
  | malformed fault => malformed { fault with line := f fault.line }

end ExtractionError

theorem Translation.Errors.eq_move {e e' : ExtractionError}
    (h : (Translation.moving f).Errors e e') : e' = e.move f := by
  cases h with
  | unsupported ht hl =>
      cases ht
      cases hl
      rfl
  | unknownHandle hx hl =>
      cases hx
      cases hl
      rfl
  | missingName hl =>
      cases hl
      rfl
  | nameNotText hl =>
      cases hl
      rfl
  | noParser => rfl

def Extent.move (f : Nat → Nat) (x : Extent) : Extent :=
  { x with line := f x.line, lastLine := f x.lastLine }

namespace Node

mutual

def move (f : Nat → Nat) : Node → Node
  | comment x => comment (x.move f)
  | join x => join (x.move f)
  | atom kind x => atom kind (x.move f)
  | string x fields => string (x.move f) (moveAll f fields)
  | signed sign x operand => signed sign (x.move f) (operand.move f)
  | group kind x items => group kind (x.move f) (moveAll f items)
  | member x object name => member (x.move f) (object.move f) name
  | keyword x name value => keyword (x.move f) name (value.move f)
  | call x function arguments => call (x.move f) (function.move f) (arguments.move f)
  | assignment x target typing value =>
      assignment (x.move f) (target.move f) (moveAll f typing) (value.move f)
  | construct kind x parts => construct kind (x.move f) (moveAll f parts)

def moveAll (f : Nat → Nat) : List Node → List Node
  | [] => []
  | n :: ns => n.move f :: moveAll f ns

end

mutual

theorem like_move (f : Nat → Nat) : ∀ n : Node, n.Like (.moving f) (n.move f)
  | .comment _ => .comment ⟨rfl, rfl⟩
  | .join _ => .join ⟨rfl, rfl⟩
  | .atom kind x => by
      by_cases hk : kind = .identifier
      · subst hk
        exact .identifier rfl rfl
      · exact .atom hk rfl rfl
  | .string _ fields => .string ⟨rfl, rfl⟩ (fun _ => rfl) (like_moveAll f fields)
  | .signed _ _ operand => .signed ⟨rfl, rfl⟩ (like_move f operand)
  | .group _ _ items => .group ⟨rfl, rfl⟩ (like_moveAll f items)
  | .member _ object _ => .member ⟨rfl, rfl⟩ (like_move f object)
  | .keyword _ _ value => .keyword ⟨rfl, rfl⟩ (like_move f value)
  | .call _ function arguments =>
      .call ⟨rfl, rfl⟩ rfl (like_move f function) (like_move f arguments)
  | .assignment _ target typing value =>
      .assignment ⟨rfl, rfl⟩ (like_move f target) (like_moveAll f typing) (like_move f value)
  | .construct _ _ parts => .construct ⟨rfl, rfl⟩ (like_moveAll f parts)

theorem like_moveAll (f : Nat → Nat) : ∀ ns : List Node,
    List.Forall₂ (Node.Like (.moving f)) ns (moveAll f ns)
  | [] => .nil
  | n :: ns => .cons (like_move f n) (like_moveAll f ns)

end

end Node

namespace Hint

structure Moved (f : Nat → Nat) (h h' : Hint) : Prop where
  pairs : h'.pairs = h.pairs
  line : h'.line = f h.line

def Correspond (f : Nat → Nat) (hints hints' : List Hint) : Prop :=
  ∀ l, (onLine hints' (f l)).map pairs = (onLine hints l).map pairs

theorem line_of_onLine {l : Nat} {h : Hint} (hl : onLine hints l = some h) : h.line = l := by
  have hp := List.find?_some hl
  exact beq_iff_eq.1 hp

theorem Correspond.rel_onLine (h : Correspond f hints hints') (l : Nat) :
    Option.Rel (Moved f) (onLine hints l) (onLine hints' (f l)) := by
  have hl := h l
  cases hx : onLine hints l with
  | none =>
      rw [hx, Option.map_none, Option.map_eq_none_iff] at hl
      rw [hl]
      exact .none
  | some a =>
      rw [hx, Option.map_some] at hl
      obtain ⟨a', ha', hp⟩ := Option.map_eq_some_iff.1 hl
      rw [ha']
      exact .some ⟨hp, by rw [line_of_onLine ha', line_of_onLine hx]⟩

theorem onLine_map {g : Hint → Hint} (hg : ∀ h, (g h).line = f h.line)
    (hf : Function.Injective f) (hints : List Hint) (l : Nat) :
    onLine (hints.map g) (f l) = (onLine hints l).map g := by
  rw [onLine, List.find?_map]
  congr 2
  funext h
  rw [Function.comp_apply, hg, Bool.eq_iff_iff, beq_iff_eq, beq_iff_eq, hf.eq_iff]

def move (f : Nat → Nat) (h : Hint) : Hint :=
  { h with line := f h.line }

theorem correspond_move (hf : Function.Injective f) (hints : List Hint) :
    Correspond f hints (hints.map (move f)) := by
  intro l
  rw [onLine_map (fun _ => rfl) hf, Option.map_map]
  rfl

def bare (h : Hint) : Hint :=
  { h with text := "" }

theorem onLine_map_bare (hints : List Hint) (l : Nat) :
    onLine (hints.map bare) l = (onLine hints l).map bare :=
  onLine_map (f := id) (g := bare) (fun _ => rfl) Function.injective_id hints l

theorem Correspond.bare (h : Correspond f hints hints') :
    (Translation.moving f).Hints (hints.map bare) (hints'.map bare) := by
  rintro l _ rfl
  rw [onLine_map_bare, onLine_map_bare]
  exact rel_map_of_rel (h.rel_onLine l) fun a a' ha => ⟨rfl, ha.pairs, ha.line⟩

end Hint

theorem Argument.directive_hintedBy_bare (hints : List Hint) (a : Argument) :
    (a.hintedBy (hints.map Hint.bare)).directive = (a.hintedBy hints).directive := by
  have hc : (a.hintedBy (hints.map Hint.bare)).completer = (a.hintedBy hints).completer := by
    rw [completer, completer, hintedBy, hintedBy, Hint.onLine_map_bare, Option.bind_map]
    rfl
  funext path
  rw [directive, directive, hc]
  rfl

structure Argument.Moved (f : Nat → Nat) (hints hints' : List Hint) (a a' : Argument) : Prop where
  owner : a'.owner = a.owner
  literals : a'.literals = a.literals
  options : a'.options = a.options
  line : a'.line = f a.line
  hint : Option.Rel (Hint.Moved f) a.hint a'.hint
  hinted : a.hint = Hint.onLine hints a.line ∧ a'.hint = Hint.onLine hints' a'.line

namespace CommandTree

structure Moved (f : Nat → Nat) (hints hints' : List Hint) (t t' : CommandTree) : Prop where
  root : t'.root = t.root
  commands : t'.commands.entries =
    t.commands.entries.map fun e => (e.1, { e.2 with line := f e.2.line })
  arguments : List.Forall₂ (Argument.Moved f hints hints') t.arguments t'.arguments

theorem Like.moved {t t' : CommandTree} (h : t.Like (.moving f) id t')
    (hh : Hint.Correspond f hints hints') :
    (t.mapArguments (.hintedBy hints)).Moved f hints hints'
      (t'.mapArguments (.hintedBy hints')) where
  root := h.root
  commands := by
    refine (List.map_id _).symm.trans (map_eq_map_of_forall₂ h.commands ?_)
    rintro ⟨k, c⟩ ⟨k', c'⟩ ⟨hk, hid, hname, hparent, hinherits, hline⟩
    cases c'
    simp only [Option.map_id, List.map_id, id_eq] at hk hid hname hparent hinherits hline
    subst hk hid hname hparent hinherits hline
    rfl
  arguments := by
    refine List.forall₂_map_left_iff.2 (List.forall₂_map_right_iff.2 (h.arguments.imp ?_))
    intro a a' ha
    refine ⟨ha.owner, ha.literals, ha.options, ha.line, ?_, rfl, rfl⟩
    have hl : a'.line = f a.line := ha.line
    rw [Argument.hintedBy, Argument.hintedBy, hl]
    exact hh.rel_onLine a.line

theorem directives_hintedBy_bare (t : CommandTree) (hints : List Hint) (tool : String) :
    (t.mapArguments (.hintedBy (hints.map .bare))).directives tool =
      (t.mapArguments (.hintedBy hints)).directives tool :=
  t.directives_mapArguments_congr (F := .hintedBy (hints.map .bare)) (G := .hintedBy hints)
    (fun _ => rfl) (fun a => a.directive_hintedBy_bare hints) tool

theorem ofNode_moved (o : ExtractionOptions) {n n' : Node} (hn : n.Like (.moving f) n')
    (hh : Hint.Correspond f hints hints') :
    Alike (fun e e' => e' = e.move f)
      (fun t t' => t.Moved f hints hints' t' ∧ ∀ tool, t'.directives tool = t.directives tool)
      (ofNode o hints n) (ofNode o hints' n') := by
  have h₀ : Registry.empty.Like (.moving f) id .empty :=
    .empty Function.injective_id (by rintro x _ rfl; rfl) fun _ => rfl
  have hlike := ofSteps_like hh.bare (hn.steps (o := o)) h₀
  rw [ofNode, ofNode, ofSteps_hintedBy (hints.map .bare) hints,
    ofSteps_hintedBy (hints'.map .bare) hints']
  refine (hlike.and_ok.imp (fun _ _ he => he.eq_move) fun _ _ h => h).map_both ?_
  rintro t t' ⟨ht, hx, hy⟩
  refine ⟨ht.moved hh, fun tool => ?_⟩
  rw [← t.directives_hintedBy_bare hints, ← t'.directives_hintedBy_bare hints',
    hintedBy_of_ofSteps hx, hintedBy_of_ofSteps hy]
  exact ht.directives Function.injective_id tool

def sharedLine : List Char :=
  "p = ArgumentParser()
p.add_argument(
  \"a\"); p.add_argument(\"b\")  # m func=branchname
".toList

theorem ofNode_moved_sharedLine :
    ∃ (hints hints' : List Hint) (n : Node) (t t' : CommandTree),
      Node.ofSource sharedLine = .ok n ∧ hints = Hint.scan "m" (Comment.ofSource sharedLine) ∧
      n.Like (.moving (2 * ·)) (n.move (2 * ·)) ∧ Hint.Correspond (2 * ·) hints hints' ∧
      ofNode ⟨"m", []⟩ hints n = .ok t ∧
      ofNode ⟨"m", []⟩ hints' (n.move (2 * ·)) = .ok t' ∧
      t.Moved (2 * ·) hints hints' t' ∧ ∀ tool, t'.directives tool = t.directives tool := by
  have hs : (ofSource ⟨"m", []⟩ sharedLine).toOption.isSome = true := by decide +kernel
  obtain ⟨t, ht⟩ := exists_eq_ok hs
  obtain ⟨n, hn, ht⟩ := ofSource_ok.1 ht
  have hlike := Node.like_move (2 * ·) n
  have hf : Function.Injective fun l => 2 * l := fun a b h =>
    Nat.eq_of_mul_eq_mul_left Nat.two_pos h
  have hh := Hint.correspond_move hf (Hint.scan "m" (Comment.ofSource sharedLine))
  have hok : (ofNode ⟨"m", []⟩ (Hint.scan "m" (Comment.ofSource sharedLine)) n).toOption.isSome =
      true := by
    rw [ht]
    rfl
  obtain ⟨t, t', h⟩ := (ofNode_moved ⟨"m", []⟩ hlike hh).exists_ok hok
  exact ⟨_, _, n, t, t', hn, rfl, hlike, hh, h⟩

end CommandTree

end CliCompletion
