import CliCompletion.Proofs.Chains
import CliCompletion.Proofs.Likeness
import CliCompletion.Proofs.Relabelling
import CliCompletion.Proofs.Revisits

namespace CliCompletion

open Vocabulary Node Registering Registry

variable {o : ExtractionOptions} {hints : List Hint} {r r' : Registry} {fresh : List String}
  {ι ι' : CommandId → CommandId} {v : String}

namespace Node

def identifiers (n : Node) : List String :=
  n.preorder.filterMap identifier?

inductive Statement (n : Node) : Node → Prop
  | bare : Statement n n
  | whole {x : Extent} : Statement n (.construct .statement x [n])

inductive Unfolds (T : Translation) : Denoted → Node → List String → List Node → Node → Prop
  | base {d : Denoted} {x x' : Extent} (hx : T.names x'.text x.text) :
      Unfolds T d (.atom .identifier x) [] [] (.atom .identifier x')
  | link {d d' : Denoted} {x x' y y' z a b : Extent} {name : String}
      {object last arguments arguments' s : Node} {vs : List String} {ss : List Node}
      (hm : d.Method name d') (h : Unfolds T d object vs ss last) (ha : arguments.calls = [])
      (hl : arguments'.Like T arguments) (hab : a.text = b.text)
      (hs : Statement (.assignment z (.atom .identifier a) []
        (.call x' (.member y' last name) arguments')) s) :
      Unfolds T d' (.call x (.member y object name) arguments) (vs ++ [b.text]) (ss ++ [s])
        (.atom .identifier b)

inductive Replaced (s : Node) (ss : List Node) : Node → Node → Prop
  | here {kind : Construct} {x x' : Extent} {before after : List Node} :
      Replaced s ss (.construct kind x (before ++ s :: after))
        (.construct kind x' (before ++ ss ++ after))
  | within {kind : Construct} {x x' : Extent} {before after : List Node} {n n' : Node}
      (h : Replaced s ss n n') :
      Replaced s ss (.construct kind x (before ++ n :: after))
        (.construct kind x' (before ++ n' :: after))

inductive Unfolded (fresh : List String) : Node → Node → Prop
  | intro {x y x' y' : Extent} {chain last arguments arguments' s s' n n' : Node} {ss : List Node}
      (hd : fresh.Nodup) (hf : ∀ v ∈ fresh, v ∉ n.identifiers)
      (hu : chain.Unfolds (.apart fresh) .command fresh ss last)
      (hl : arguments'.Like (.apart fresh) arguments) (hx : x'.lastLine = x.lastLine)
      (hs : Statement (.call x (.member y chain addArgument) arguments) s)
      (hs' : Statement (.call x' (.member y' last addArgument) arguments') s')
      (hr : Replaced s (ss ++ [s']) n n') : Unfolded fresh n n'

variable {n n' : Node}

mutual

theorem like_apart : ∀ n : Node, (∀ v ∈ n.identifiers, v ∉ fresh) → n.Like (.apart fresh) n
  | .comment _, _ => .comment ⟨trivial, trivial⟩
  | .join _, _ => .join ⟨trivial, trivial⟩
  | .atom kind x, h => by
      cases kind with
      | identifier => exact .identifier ⟨rfl, h x.text (List.mem_singleton.2 rfl)⟩ trivial
      | _ => exact .atom (by decide) rfl trivial
  | .string _ fields, h =>
      .string ⟨trivial, trivial⟩ (fun _ => rfl) (like_apart_all fields h)
  | .signed _ _ operand, h => .signed ⟨trivial, trivial⟩ (like_apart operand h)
  | .group _ _ items, h => .group ⟨trivial, trivial⟩ (like_apart_all items h)
  | .member _ object _, h => .member ⟨trivial, trivial⟩ (like_apart object h)
  | .keyword _ _ value, h => .keyword ⟨trivial, trivial⟩ (like_apart value h)
  | .call _ function arguments, h => by
      have h : ∀ v ∈ function.identifiers ++ arguments.identifiers, v ∉ fresh := by
        rw [identifiers, identifiers, ← List.filterMap_append]
        exact h
      obtain ⟨hf, ha⟩ := List.forall_mem_append.1 h
      exact .call ⟨trivial, trivial⟩ rfl (like_apart function hf) (like_apart arguments ha)
  | .assignment _ target typing value, h => by
      have h : ∀ v ∈ target.identifiers ++ (preorderAll typing).filterMap identifier? ++
          value.identifiers, v ∉ fresh := by
        rw [identifiers, identifiers, ← List.filterMap_append, ← List.filterMap_append]
        exact h
      obtain ⟨h, hv⟩ := List.forall_mem_append.1 h
      obtain ⟨ht, hs⟩ := List.forall_mem_append.1 h
      exact .assignment ⟨trivial, trivial⟩ (like_apart target ht) (like_apart_all typing hs)
        (like_apart value hv)
  | .construct _ _ parts, h => .construct ⟨trivial, trivial⟩ (like_apart_all parts h)

theorem like_apart_all : ∀ ns : List Node,
    (∀ v ∈ (preorderAll ns).filterMap identifier?, v ∉ fresh) →
      List.Forall₂ (Node.Like (.apart fresh)) ns ns
  | [], _ => .nil
  | n :: ns, h => by
      have h : ∀ v ∈ n.identifiers ++ (preorderAll ns).filterMap identifier?, v ∉ fresh := by
        rw [identifiers, ← List.filterMap_append]
        exact h
      obtain ⟨hn, hns⟩ := List.forall_mem_append.1 h
      exact .cons (like_apart n hn) (like_apart_all ns hns)

end

theorem Statement.calls_eq {s : Node} (h : Statement n s) : s.calls = n.calls := by
  cases h with
  | bare => rfl
  | whole => exact List.append_nil _

theorem Replaced.calls {s : Node} {ss : List Node} (h : Replaced s ss n n') : ∃ before after,
    n.calls = before ++ s.calls ++ after ∧ n'.calls = before ++ callsAll ss ++ after := by
  induction h with
  | @here kind x x' before after =>
      refine ⟨callsAll before, callsAll after, ?_, ?_⟩
      · rw [Node.calls, callsInto, callsAll_append, callsAll, List.append_assoc]
        rfl
      · rw [Node.calls, callsInto, callsAll_append, callsAll_append]
  | @within kind x x' before after n n' _ ih =>
      obtain ⟨cs, ds, hn, hn'⟩ := ih
      refine ⟨callsAll before ++ cs, ds ++ callsAll after, ?_, ?_⟩
      · rw [Node.calls, callsInto, callsAll_append, callsAll, ← Node.calls, hn]
        simp only [List.append_assoc]
      · rw [Node.calls, callsInto, callsAll_append, callsAll, ← Node.calls, hn']
        simp only [List.append_assoc]

theorem Unfolds.chain {T : Translation} {d : Denoted} {vs : List String} {ss : List Node}
    {last : Node} (h : n.Unfolds T d vs ss last) : n.Chain d := by
  induction h with
  | base _ => exact .base
  | link hm _ ha _ _ _ ih => exact .link hm ih ha

theorem Chain.exists_unfolds {d : Denoted} (h : n.Chain d) : ∃ k, ∀ {T : Translation}
    {vs : List String}, n.Like T n → vs.length = k → ∃ ss last, n.Unfolds T d vs ss last := by
  induction h with
  | base =>
      refine ⟨0, fun {T vs} hn hk => ?_⟩
      cases List.length_eq_zero_iff.1 hk
      cases hn with
      | identifier hx hl => exact ⟨[], _, .base hx⟩
      | atom hk _ _ => exact absurd rfl hk
  | @link d d' x y object arguments name hm _ ha ih =>
      obtain ⟨k, ih⟩ := ih
      refine ⟨k + 1, fun {T vs} hn hk => ?_⟩
      rcases List.eq_nil_or_concat vs with rfl | ⟨vs, v, rfl⟩
      · cases hk
      · rw [List.length_concat] at hk
        cases hn with
        | call hx _ hf hl =>
            cases hf with
            | member hy ho =>
                obtain ⟨ss, last, hu⟩ := ih ho (Nat.succ.inj hk)
                have hs : Statement (.assignment x (.atom .identifier ⟨v, x.line, x.line⟩) []
                    (.call x (.member y last name) arguments)) _ := .bare
                rw [List.concat_eq_append]
                exact ⟨_, _, .link (b := ⟨v, x.line, x.line⟩) hm hu ha hl rfl hs⟩

theorem Unfolds.last_calls {T : Translation} {d : Denoted} {vs : List String} {ss : List Node}
    {last : Node} (h : n.Unfolds T d vs ss last) : last.calls = [] := by
  cases h <;> rfl

end Node

namespace Registering

def extend (o : ExtractionOptions) (c : Call) (name : String) (owner : CommandId) :
    Registering CommandId :=
  if name = addParser then
    addTo owner (subcommandName c.arguments c.extent.line) c.targets (c.parents o) c.extent.line
  else fun r =>
    .ok (owner, r.bind c.targets (if name = addSubparsers then .group owner else .command owner))

variable {d d' : Denoted} {x y : Extent} {object arguments : Node} {name : String}

theorem extend_addParser (c : Call) (owner : CommandId) : extend o c addParser owner =
    addTo owner (subcommandName c.arguments c.extent.line) c.targets (c.parents o)
      c.extent.line :=
  if_pos rfl

theorem extend_of_ne (hn : name ≠ addParser) (c : Call) (owner : CommandId) (r : Registry) :
    extend o c name owner r = .ok (owner, r.bind c.targets
      (if name = addSubparsers then .group owner else .command owner)) := by
  rw [extend, if_neg hn]

theorem resolve_link (hm : d.Method name d') (r : Registry) :
    d'.resolve o (.call x (.member y object name) arguments) r =
      (d.resolve o object >>= extend o ⟨[], x, .member y object name, arguments⟩ name) r := by
  have hself : name ≠ addParser → (d.resolve o object >>=
      extend o ⟨[], x, .member y object name, arguments⟩ name) r = d.resolve o object r := by
    intro hn
    rw [bind_eq]
    rcases d.resolve o object r with e | ⟨owner, r₁⟩
    · rfl
    · exact extend_of_ne hn ..
  cases hm with
  | addSubparsers =>
      rw [Denoted.resolve_addSubparsers]
      exact (hself (by decide)).symm
  | argumentGroup hg =>
      rw [Denoted.resolve_argumentGroup hg]
      exact (hself (ne_addParser_of_argumentGroup hg)).symm
  | addParser =>
      rw [Denoted.resolve, commandExpr_addParser, Call.addition, command_added]
      rfl

theorem step_link (hm : d.Method name d') (b : Extent) (r : Registry) :
    (Registering.steps hints
        (Call.step? o ⟨[b.text], x, .member y object name, arguments⟩).toList >>= fun _ =>
      d'.resolve o (.atom .identifier b)) r =
    (d.resolve o object >>= extend o ⟨[b.text], x, .member y object name, arguments⟩ name) r := by
  cases hm with
  | addSubparsers =>
      rw [Call.step?_of_addSubparsers rfl (List.cons_ne_nil _ _), Option.toList_some,
        steps_singleton, step, bind_assoc]
      refine bind_congr_ok fun owner r₁ _ => ?_
      rw [extend_of_ne (by decide), if_pos rfl]
      exact ownerNamed_ok.2 ⟨⟨_, bind_bindings_of_mem (List.mem_singleton.2 rfl) _, rfl⟩, rfl⟩
  | argumentGroup hg =>
      have hn := List.contains_iff_mem.1 hg
      rw [Call.step?_of_argumentGroup rfl hn (List.cons_ne_nil _ _), Option.toList_some,
        steps_singleton, step, bind_assoc]
      refine bind_congr_ok fun owner r₁ _ => ?_
      rw [extend_of_ne (ne_addParser_of_argumentGroup hg),
        if_neg (ne_addSubparsers_of_argumentGroup hg)]
      exact commandNamed_ok.2 ⟨bind_bindings_of_mem (List.mem_singleton.2 rfl) _, rfl⟩
  | addParser =>
      rw [Call.step?_of_addParser rfl, Option.toList_some, steps_singleton, step, bind_assoc,
        Call.addition, command_added, bind_assoc]
      refine bind_congr_ok fun owner r₁ _ => ?_
      rw [extend_addParser, bind_eq]
      cases h : addTo owner _ _ _ _ r₁ with
      | error e => rfl
      | ok p => exact commandNamed_ok.2 ⟨addTo_bindings h, rfl⟩

-- An unfolded set-up goes on from `r`. It may name commands after the variables in `used`, and comes
-- to what the set-up of a chain comes to but for those names.
structure Continues (fresh used : List String) (ι : CommandId → CommandId) (r : Registry)
    (p p' : CommandId × Registry) : Prop where
  sound : p.2.Sound
  mem : p.1 ∈ p.2.commands.keys
  like : ∃ ι', p'.1 = ι' p.1 ∧ p.2.Like (.apart fresh) ι' p'.2 ∧
    ∀ w ∈ fresh, w ∉ used → Spare ι r w → Spare ι' p.2 w

variable {x' y' : Extent} {function function' arguments' : Node} {owner : CommandId}

theorem bind_continues (h : r.Like (.apart fresh) ι r') (hs : r.Sound) (hv : v ∈ fresh)
    {id : CommandId} {b : Binding} (hid : id ∈ r.commands.keys) (hb : b.owner = id) :
    Continues fresh [v] ι r (id, r.bind [v] b) (ι id, r') := by
  subst hb
  exact ⟨hs.bind hid, hid, ι, rfl, h.bind_spare hs hv _, fun w _ _ hw => ⟨hw.fixed, hw.unused⟩⟩

theorem addTo_continues (h : r.Like (.apart fresh) ι r') (hs : r.Sound) (hv : v ∈ fresh)
    (hsp : Spare ι r v) (ho : owner ∈ r.commands.keys) {e e' : Except ExtractionError String}
    (he : Alike (Translation.apart fresh).Errors Eq e e') {ps ps' : List CommandExpr}
    (hp : List.Forall₂ (CommandExpr.Like (.apart fresh)) ps ps') (hps : ∀ p ∈ ps, p.Simple)
    (l l' : Nat) : Alike (Translation.apart fresh).Errors (Continues fresh [v] ι r)
      (addTo owner e [v] ps l r) (addTo (ι owner) e' [] ps' l' r') := by
  cases he with
  | error he => exact .error he
  | @ok n _ hn =>
      subst hn
      rw [addTo_ok, addTo_ok, h.child? owner n]
      cases hc : r.child? owner n with
      | some id => exact .ok (bind_continues h hs hv (mem_keys_of_child? hs hc) rfl)
      | none =>
          refine (commands_like ps hp h).and_ok.bind ?_
          rintro ⟨ids, r₁⟩ ⟨_, r₁'⟩ ⟨⟨rfl, h₁⟩, hrun, -⟩
          have hids := (commands_reaches ps hs hrun).2
          obtain rfl := commands_simple hps hrun
          have hd : ∀ id, some owner = some id ∨ id ∈ ids → id ∈ r₁.commands.keys := by
            rintro id (hid | hid)
            · exact Option.some.inj hid ▸ ho
            · exact hids id hid
          obtain ⟨ι', hid, hlike, hspare⟩ := h₁.addCommand_spare hs hv hsp n hd l l'
          refine .ok ⟨hs.addCommand hd, mem_keys_addCommand hs, ι', hid, hlike, ?_⟩
          intro w hw hwv
          exact hspare w hw (List.ne_of_not_mem_cons hwv)

theorem extend_continues (h : r.Like (.apart fresh) ι r') (hs : r.Sound) (hv : v ∈ fresh)
    (hsp : Spare ι r v) (ho : owner ∈ r.commands.keys) (ha : arguments.calls = [])
    (hl : arguments'.Like (.apart fresh) arguments) :
    Alike (Translation.apart fresh).Errors (Continues fresh [v] ι r)
      (extend o ⟨[v], x', function', arguments'⟩ name owner r)
      (extend o ⟨[], x, function, arguments⟩ name (ι owner) r') := by
  by_cases hn : name = addParser
  · subst hn
    rw [extend_addParser, extend_addParser]
    exact addTo_continues h hs hv hsp ho (subcommandName_like hl trivial) (Call.parents_like hl)
      (Call.parents_simple (hl.calls_eq_nil ha)) _ _
  · rw [extend_of_ne hn, extend_of_ne hn]
    refine .ok (bind_continues h hs hv ho ?_)
    split <;> rfl

theorem assigned_calls {a b z : Extent} {s last : Node} (hlast : last.calls = [])
    (ha : arguments'.calls = []) (hab : a.text = b.text)
    (hs : Statement (.assignment z (.atom .identifier a) []
      (.call x' (.member y' last name) arguments')) s) :
    s.calls = [⟨[b.text], x', .member y' last name, arguments'⟩] := by
  have hcall : (Node.call x' (.member y' last name) arguments').callsInto [b.text] =
      [⟨[b.text], x', .member y' last name, arguments'⟩] := by
    rw [method_calls, hlast, ha, List.append_nil]
  rw [hs.calls_eq, ← hcall, ← hab]
  rfl

theorem argument_calls {s : Node}
    (hs : Statement (.call x (.member y object addArgument) arguments) s) : s.calls =
      [⟨[], x, .member y object addArgument, arguments⟩] ++ (object.calls ++ arguments.calls) := by
  rw [hs.calls_eq, Node.calls, method_calls]
  rfl

theorem resolve_continues {n last : Node} {vs : List String} {ss : List Node}
    (hu : n.Unfolds (.apart fresh) d vs ss last) (h : r.Like (.apart fresh) ι r') (hs : r.Sound)
    (hd : vs.Nodup) (hv : ∀ v ∈ vs, v ∈ fresh ∧ Spare ι r v) :
    Alike (Translation.apart fresh).Errors (Continues fresh vs ι r)
      ((walk o hints (callsAll ss) >>= fun _ => d.resolve o last) r) (d.resolve o n r') := by
  -- Each link first does what the chain does up to it, then names what the call comes to.
  induction hu with
  | @base d x x' hx =>
      have hl : (Node.atom .identifier x').Like (.apart fresh) (.atom .identifier x) :=
        .identifier hx trivial
      cases d with
      | command =>
          refine (command_like _ (commandExpr_like (o := o) hl) h).and_ok.imp (fun _ _ h => h) ?_
          rintro ⟨id, q⟩ ⟨_, q'⟩ ⟨⟨rfl, hq⟩, hrun, -⟩
          have hid := (command_reaches _ hs hrun).2
          obtain rfl := command_simple (commandExpr_simple rfl) hrun
          exact ⟨hs, hid, ι, rfl, hq, fun _ _ _ hw => hw⟩
      | group =>
          refine (groupOwner_like _ (groupExpr_like (o := o) hl) h).and_ok.imp (fun _ _ h => h) ?_
          rintro ⟨id, q⟩ ⟨_, q'⟩ ⟨⟨rfl, hq⟩, hrun, -⟩
          have hid := (groupOwner_reaches _ hs hrun).2
          rw [groupExpr, groupOwner_handle] at hrun
          obtain ⟨-, rfl⟩ := ownerNamed_ok.1 hrun
          exact ⟨hs, hid, ι, rfl, hq, fun _ _ _ hw => hw⟩
  | @link d d' x x' y y' z a b name object last arguments arguments' s vs ss hm hu ha hl hab hst ih =>
      have hcalls := assigned_calls hu.last_calls (hl.calls_eq_nil ha) hab hst
      have hrun : (walk o hints (callsAll (ss ++ [s])) >>= fun _ =>
          d'.resolve o (.atom .identifier b)) r =
          ((walk o hints (callsAll ss) >>= fun _ => d.resolve o last) >>=
            extend o ⟨[b.text], x', .member y' last name, arguments'⟩ name) r := by
        rw [callsAll_append, callsAll, callsAll, ← Node.calls, List.append_nil, hcalls, walk_append,
          bind_assoc, bind_assoc, walk_singleton]
        exact bind_congr_ok fun _ r₁ _ => step_link hm b r₁
      rw [hrun, resolve_link hm]
      obtain ⟨hd, -, hnew⟩ := List.nodup_append.1 hd
      refine (ih hd fun v hm => hv v (List.mem_append_left _ hm)).andThen ?_
      rintro owner _ q q' ⟨hq, ho, ι', rfl, hlike, hspare⟩
      obtain ⟨hb, hsp⟩ := hv b.text (List.mem_append_right _ (List.mem_singleton.2 rfl))
      have hbv : b.text ∉ vs := fun hm => hnew _ hm _ (List.mem_singleton.2 rfl) rfl
      refine (extend_continues hlike hq hb (hspare _ hb hbv hsp) ho ha hl).imp (fun _ _ h => h) ?_
      rintro p p' ⟨hp, hmem, ι'', hid, hlike', hspare'⟩
      refine ⟨hp, hmem, ι'', hid, hlike', fun w hw hwv hwsp => ?_⟩
      have hvs : w ∉ vs := fun hm => hwv (List.mem_append_left _ hm)
      have hb' : w ∉ [b.text] := fun hm => hwv (List.mem_append_right _ hm)
      exact hspare' w hw hb' (hspare w hw hvs hwsp)

theorem found?_addArgument {n : Node} {a : Argument} :
    Denoted.found? o (r.addArgument a) .command n = Denoted.found? o r .command n := by
  have h : (r.addArgument a).commands = r.commands := rfl
  exact find?_congr h _

theorem argument_like {chain last s s' : Node} {ss : List Node}
    (hu : chain.Unfolds (.apart fresh) .command fresh ss last)
    (hl : arguments'.Like (.apart fresh) arguments) (hx : x'.lastLine = x.lastLine)
    (hs : Statement (.call x (.member y chain addArgument) arguments) s)
    (hs' : Statement (.call x' (.member y' last addArgument) arguments') s')
    (h : r.Like (.apart fresh) ι r') (hr : r.Sound) (hr' : r'.Sound) (hd : fresh.Nodup)
    (hv : ∀ v ∈ fresh, Spare ι r v) :
    Alike (Translation.apart fresh).Errors (fun p p' => ∃ ι', p.2.Like (.apart fresh) ι' p'.2)
      (walk o hints (callsAll (ss ++ [s'])) r) (walk o hints s.calls r') := by
  rw [callsAll_append, callsAll, callsAll, List.append_nil, ← Node.calls, argument_calls hs,
    argument_calls hs', hu.last_calls, List.nil_append, walk_append, walk_append, walk_append,
    walk_append, walk_singleton, walk_singleton, Call.step?_addArgument, Call.step?_addArgument,
    Option.toList_some, Option.toList_some, steps_singleton, steps_singleton, step, step,
    bind_assoc, bind_assoc, ← bind_assoc]
  -- The chain is resolved as its links are; once it has the argument, its calls are walked again.
  refine (resolve_continues hu h hr hd fun v hm => ⟨hm, hv v hm⟩).and_ok.andThen ?_
  rintro id _ q q' ⟨⟨hq, hid, ι', rfl, hlike, -⟩, -, hrun⟩
  have hf := hu.chain.found_of_resolve hr' hrun
  have hdecl : Alike (Translation.apart fresh).Errors Eq (declaration o arguments' x'.line)
      (declaration o arguments x.line) := declaration_like hl trivial
  generalize declaration o arguments' x'.line = c at hdecl ⊢
  generalize declaration o arguments x.line = c' at hdecl ⊢
  cases hdecl with
  | error he => exact .error he
  | @ok e _ he =>
      subst he
      let a : Argument := ⟨id, e.literals, e.options, Hint.onLine hints x'.lastLine, x'.lastLine⟩
      let a' : Argument := ⟨ι' id, e.literals, e.options, Hint.onLine hints x.lastLine, x.lastLine⟩
      have hnew : (q.addArgument a).Like (.apart fresh) ι' (q'.addArgument a') :=
        hlike.addArgument ⟨rfl, rfl, rfl, Translation.hints_of_lastLines rfl hints _ _ hx, hx⟩
      have hrest : Alike (Translation.apart fresh).Errors
          (fun p p' => p.2.Like (.apart fresh) ι' p'.2)
          (walk o hints arguments'.calls (q.addArgument a))
          (walk o hints arguments.calls (q'.addArgument a')) :=
        steps_like (Translation.hints_of_lastLines rfl hints)
          (forall₂_steps_of_calls (callsInto_like arguments' .nil hl)) hnew
      have hchain : walk o hints chain.calls (q'.addArgument a') = .ok ((), q'.addArgument a') :=
        hu.chain.steps_of_found (found?_addArgument.trans hf)
      have hskip : (walk o hints chain.calls >>= fun _ => walk o hints arguments.calls)
          (q'.addArgument a') = walk o hints arguments.calls (q'.addArgument a') := by
        rw [bind_eq, hchain]
      exact (hskip ▸ hrest).imp (fun _ _ h => h) fun _ _ h => ⟨ι', h⟩

theorem spare_of_walk {cs : List Call} (hcs : ∀ c ∈ cs, c.Like (.apart fresh) c)
    (hw : walk o hints cs .empty = .ok ((), r)) (hv : v ∈ fresh) : Spare id r v where
  fixed := rfl
  unused := by
    intro hm
    have hb : r.HandlesBound :=
      (walk_reaches sound_empty hw).handlesBound sound_empty fun _ hx => absurd hx List.not_mem_nil
    refine hb v hm (walk_bindings (fun c hc hvc => ?_) hw)
    exact ((List.forall₂_same.1 (hcs c hc).targets) v hvc).2 hv

theorem walk_alike {cs : List Call} (hcs : ∀ c ∈ cs, c.Like (.apart fresh) c)
    (h : r.Like (.apart fresh) ι r') :
    Alike (Translation.apart fresh).Errors (fun p p' => p.2.Like (.apart fresh) ι p'.2)
      (walk o hints cs r) (walk o hints cs r') := by
  have hss := forall₂_steps_of_calls (o := o) (List.forall₂_same.2 hcs)
  exact steps_like (Translation.hints_of_lastLines rfl hints) hss h

theorem walk_unfolded {n n' : Node} (h : n.Unfolded fresh n') :
    Alike (Translation.apart fresh).Errors (fun p p' => ∃ ι, p.2.Like (.apart fresh) ι p'.2)
      (walk o hints n'.calls .empty) (walk o hints n.calls .empty) := by
  obtain ⟨hd, hf, hu, hl, hx, hs, hs', hr⟩ := h
  obtain ⟨before, after, hn, hn'⟩ := hr.calls
  have hself := callsInto_like n .nil (like_apart n fun v hv hm => hf v hm hv)
  rw [← Node.calls, hn, List.forall₂_same] at hself
  obtain ⟨hself, hafter⟩ := List.forall_mem_append.1 hself
  obtain ⟨hbefore, -⟩ := List.forall_mem_append.1 hself
  have h₀ : Registry.empty.Like (.apart fresh) id .empty :=
    .empty Function.injective_id (by rintro x _ ⟨rfl, -⟩; rfl) fun _ => rfl
  rw [hn, hn', walk_append, walk_append, walk_append, walk_append]
  refine Alike.andThen (P := fun p p' => ∃ ι, p.2.Like (.apart fresh) ι p'.2) ?_ ?_
  · refine (walk_alike hbefore h₀).and_ok.andThen ?_
    rintro _ _ q q' ⟨hq, hw, hw'⟩
    have hsound := walk_sound sound_empty hw
    have hsound' := walk_sound sound_empty hw'
    exact argument_like hu hl hx hs hs' hq hsound hsound' hd
      fun v hv => spare_of_walk hbefore hw hv
  · rintro _ _ q q' ⟨ι, hq⟩
    exact (walk_alike hafter hq).imp (fun _ _ h => h) fun _ _ h => ⟨ι, h⟩

end Registering

namespace CommandTree

theorem ofNode_unfolded (o : ExtractionOptions) (hints : List Hint) {n n' : Node}
    (h : n.Unfolded fresh n') :
    Alike (fun e e' => e'.kind = e.kind)
      (fun t t' => ∀ tool, t'.directives tool = t.directives tool)
      (ofNode o hints n) (ofNode o hints n') := by
  have htrees : Alike (Translation.apart fresh).Errors
      (fun t' t => ∃ ι, Function.Injective ι ∧ t'.Like (.apart fresh) ι t)
      (ofNode o hints n') (ofNode o hints n) := by
    refine (Registering.walk_unfolded h).bind ?_
    rintro p p' ⟨ι, hr⟩
    exact hr.tree.imp (fun _ _ h => h) fun _ _ ht => ⟨ι, hr.injective, ht⟩
  refine htrees.swap.imp (fun _ _ he => he.kind_eq.symm) ?_
  rintro t t' ⟨ι, hι, ht⟩ tool
  exact (ht.directives hι tool).symm

def invocation (object : Node) (name : String) (arguments : Node) : Node :=
  .call ⟨object.text ++ "." ++ name ++ arguments.text, object.line, arguments.lastLine⟩
    (.member ⟨object.text ++ "." ++ name, object.line, object.lastLine⟩ object name) arguments

def assigned (x : String) (value : Node) : Node :=
  .assignment ⟨x ++ " = " ++ value.text, value.line, value.lastLine⟩
    (.atom .identifier ⟨x, value.line, value.line⟩) [] value

def quoted (gap s : String) (first last : Nat) : Node :=
  .group .arguments ⟨"(" ++ gap ++ s ++ ")", first, last⟩ [.string ⟨s, last, last⟩ []]

def script (parser : String) (statements : List Node) : Node :=
  .construct .part ⟨String.intercalate "\n" (statements.map Node.text), 1, 6⟩
    (assigned parser (.call ⟨"ArgumentParser()", 1, 1⟩ (.atom .identifier ⟨"ArgumentParser", 1, 1⟩)
      (.group .arguments ⟨"()", 1, 1⟩ [])) :: statements)

def chain : Node :=
  invocation (invocation (invocation (.atom .identifier ⟨"p", 2, 2⟩) "add_subparsers"
    (.group .arguments ⟨"(\n)", 2, 3⟩ [])) "add_parser" (quoted "\n" "\"x\"" 3 4))
    "add_argument_group" (quoted "\n" "\"g\"" 4 5)

def chainLinks : List Node :=
  [assigned "a" (invocation (.atom .identifier ⟨"p", 2, 2⟩) "add_subparsers"
    (.group .arguments ⟨"()", 2, 2⟩ [])),
    assigned "b" (invocation (.atom .identifier ⟨"a", 3, 3⟩) "add_parser" (quoted "" "\"x\"" 3 3)),
    assigned "c" (invocation (.atom .identifier ⟨"b", 4, 4⟩) "add_argument_group"
      (quoted "" "\"g\"" 4 4))]

def chainedScript : Node :=
  script "p" [invocation chain "add_argument" (quoted "" "\"y\"" 5 5)]

def unfoldedScript : Node :=
  script "p" (chainLinks ++
    [invocation (.atom .identifier ⟨"c", 5, 5⟩) "add_argument" (quoted "" "\"y\"" 5 5)])

theorem unfolds_invocation {T : Translation} {d d' : Denoted} {name : String}
    {object last arguments arguments' : Node} {vs : List String} {ss : List Node}
    (hm : d.Method name d') (h : object.Unfolds T d vs ss last)
    (hl : arguments'.Like T arguments) (ha : arguments.calls = []) (x : String) (l : Nat) :
    (invocation object name arguments).Unfolds T d' (vs ++ [x])
      (ss ++ [assigned x (invocation last name arguments')]) (.atom .identifier ⟨x, l, l⟩) := by
  refine .link (b := ⟨x, l, l⟩) hm h ha hl ?_ .bare
  rfl

theorem chain_unfolds : chain.Unfolds (.apart ["a", "b", "c"]) .command ["a", "b", "c"] chainLinks
    (.atom .identifier ⟨"c", 5, 5⟩) := by
  have hp : (Node.atom .identifier ⟨"p", 2, 2⟩).Unfolds (.apart ["a", "b", "c"]) .command [] []
      (.atom .identifier ⟨"p", 2, 2⟩) := .base ⟨rfl, by decide⟩
  have hg : Vocabulary.argumentGroups.contains "add_argument_group" = true := by decide
  have hl₁ : (Node.group .arguments ⟨"()", 2, 2⟩ []).Like (.apart ["a", "b", "c"])
      (.group .arguments ⟨"(\n)", 2, 3⟩ []) := .group ⟨trivial, trivial⟩ .nil
  have hl₂ : (quoted "" "\"x\"" 3 3).Like (.apart ["a", "b", "c"]) (quoted "\n" "\"x\"" 3 4) :=
    .group ⟨trivial, trivial⟩ (.cons (.string ⟨trivial, trivial⟩ (fun _ => rfl) .nil) .nil)
  have hl₃ : (quoted "" "\"g\"" 4 4).Like (.apart ["a", "b", "c"]) (quoted "\n" "\"g\"" 4 5) :=
    .group ⟨trivial, trivial⟩ (.cons (.string ⟨trivial, trivial⟩ (fun _ => rfl) .nil) .nil)
  have ha := unfolds_invocation .addSubparsers hp hl₁ rfl "a" 3
  have hb := unfolds_invocation .addParser ha hl₂ rfl "b" 4
  exact unfolds_invocation (.argumentGroup hg) hb hl₃ rfl "c" 5

theorem unfolded_chainedScript : chainedScript.Unfolded ["a", "b", "c"] unfoldedScript := by
  have hl : (quoted "" "\"y\"" 5 5).Like (.apart ["a", "b", "c"]) (quoted "" "\"y\"" 5 5) :=
    like_apart _ (by decide)
  have hr : (invocation chain "add_argument" (quoted "" "\"y\"" 5 5)).Replaced
      (chainLinks ++ [invocation (.atom .identifier ⟨"c", 5, 5⟩) "add_argument"
        (quoted "" "\"y\"" 5 5)]) chainedScript unfoldedScript :=
    @Node.Replaced.here _ _ _ _ _ [_] []
  refine .intro (by decide) (by decide) chain_unfolds hl ?_ .bare .bare hr
  rfl

theorem ofNode_unfolded_chainedScript : chainedScript.Unfolded ["a", "b", "c"] unfoldedScript ∧
    ∃ t t', ofNode ⟨"m", []⟩ [⟨5, "func=branchname", [("func", "branchname")]⟩] chainedScript =
        .ok t ∧
      ofNode ⟨"m", []⟩ [⟨5, "func=branchname", [("func", "branchname")]⟩] unfoldedScript =
        .ok t' ∧
      ∀ tool, t'.directives tool = t.directives tool := by
  have hok : (ofNode ⟨"m", []⟩ [⟨5, "func=branchname", [("func", "branchname")]⟩]
      chainedScript).toOption.isSome = true := by decide +kernel
  exact ⟨unfolded_chainedScript, (ofNode_unfolded _ _ unfolded_chainedScript).exists_ok hok⟩

end CommandTree

end CliCompletion
