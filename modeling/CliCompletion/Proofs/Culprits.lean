import CliCompletion.Proofs.Constants
import CliCompletion.Proofs.Growth

namespace CliCompletion

variable {α β : Type} {P Q : ExtractionError → Prop} {o : ExtractionOptions} {context : String}

namespace Node

def isPositional : Node → Bool
  | comment _ => false
  | keyword _ _ _ => false
  | _ => true

inductive Culprit : Node → ExtractionError → Prop
  | unsupported (n : Node) (context : String) :
      Culprit n (.unsupported context n.kindName n.text n.line)
  | unknownHandle (x : Extent) : Culprit (.atom .identifier x) (.unknownHandle x.text x.line)
  | missingName {x y z : Extent} {object : Node} {method : String} {items : List Node}
      (hitems : ∀ m ∈ items, m.isPositional = false) :
      Culprit (.call x (.member y object method) (.group .arguments z items))
        (.missingName method x.line)
  | nameNotText {x y z : Extent} {object first : Node} {method context : String}
      {before after : List Node} {l : Literal} (hbefore : ∀ m ∈ before, m.isPositional = false)
      (hfirst : first.isPositional = true) (hl : first.scalar context = .ok l)
      (htext : l.text? = none) :
      Culprit (.call x (.member y object method) (.group .arguments z (before ++ first :: after)))
        (.nameNotText method x.line)

def Holds (n : Node) (e : ExtractionError) : Prop :=
  ∃ c ∈ n.preorder, c.Culprit e

def HoldsAmong (ns : List Node) (e : ExtractionError) : Prop :=
  ∃ c ∈ preorderAll ns, c.Culprit e

variable {n m : Node} {ns : List Node} {e : ExtractionError}

theorem Culprit.line?_eq (h : n.Culprit e) : e.line? = some n.line := by
  cases h <;> rfl

theorem Culprit.holds (h : n.Culprit e) : n.Holds e :=
  ⟨n, n.self_mem_preorder, h⟩

theorem holds_unsupported (n : Node) (context : String) : n.Holds (n.unsupported context) :=
  (Culprit.unsupported n context).holds

theorem Refuses.holds (h : n.Refuses context e) : n.Holds e := by
  obtain ⟨c, hc, rfl⟩ := h
  exact ⟨c, hc, .unsupported c context⟩

theorem Holds.among (h : n.Holds e) : HoldsAmong (n :: ns) e := by
  obtain ⟨c, hc, he⟩ := h
  exact ⟨c, List.mem_append_left _ hc, he⟩

theorem HoldsAmong.cons (h : HoldsAmong ns e) : HoldsAmong (n :: ns) e := by
  obtain ⟨c, hc, he⟩ := h
  exact ⟨c, List.mem_append_right _ hc, he⟩

theorem Holds.value {x : Extent} {name : String} (h : n.Holds e) :
    (Node.keyword x name n).Holds e :=
  h.imp fun _ hc => ⟨List.mem_cons_of_mem _ hc.1, hc.2⟩

theorem HoldsAmong.group {kind : Grouping} {x : Extent} (h : HoldsAmong ns e) :
    (Node.group kind x ns).Holds e :=
  h.imp fun _ hc => ⟨List.mem_cons_of_mem _ hc.1, hc.2⟩

end Node

def ErrorsIn (P : ExtractionError → Prop) (x : Except ExtractionError α) : Prop :=
  ∀ e, x = .error e → P e

namespace ErrorsIn

theorem ok (a : α) : ErrorsIn P (.ok a) :=
  fun _ h => nomatch h

theorem error {e : ExtractionError} (h : P e) :
    ErrorsIn P (.error e : Except ExtractionError α) := by
  intro e' he
  cases he
  exact h

theorem imp {x : Except ExtractionError α} (h : ErrorsIn P x) (hpq : ∀ e, P e → Q e) :
    ErrorsIn Q x :=
  fun e he => hpq e (h e he)

theorem bind {x : Except ExtractionError α} {f : α → Except ExtractionError β} (hx : ErrorsIn P x)
    (hf : ∀ a, x = .ok a → ErrorsIn P (f a)) : ErrorsIn P (x >>= f) := by
  cases x with
  | error e => exact error (hx e rfl)
  | ok a => exact hf a rfl

theorem map {x : Except ExtractionError α} (hx : ErrorsIn P x) (f : α → β) :
    ErrorsIn P (x.map f) := by
  cases x with
  | error e => exact error (hx e rfl)
  | ok a => exact ok _

end ErrorsIn

namespace Node

open ErrorsIn

variable {n : Node} {ns : List Node}

theorem scalar_errorsIn (n : Node) : ErrorsIn n.Holds (n.scalar context) :=
  fun _ he => (n.scalar_outcome.of_error he).holds

theorem value_errorsIn (n : Node) : ErrorsIn n.Holds (n.value context) :=
  fun _ he => (n.value_outcome.of_error he).holds

theorem argumentItems_errorsIn (n : Node) : ErrorsIn n.Holds (n.argumentItems context) := by
  unfold argumentItems
  split
  · exact ok _
  · exact error (n.holds_unsupported context)

theorem positionals_cons (context : String) (n : Node) (ns : List Node) :
    positionals context (n :: ns) = if n.isPositional then do
        let value ← n.scalar context
        let rest ← positionals context ns
        return value :: rest
      else positionals context ns := by
  cases n <;> simp [positionals, isPositional, isComment]

theorem declared_positional (hn : n.isPositional = true) (d : Declaration) :
    declared o context d (n :: ns) = n.scalar context >>= fun l =>
      declared o context { d with literals := d.literals ++ [l] } ns := by
  cases n with
  | comment x => cases hn
  | keyword x name value => cases hn
  | _ => simp [declared, isComment]

theorem declared_comment (x : Extent) (d : Declaration) :
    declared o context d (.comment x :: ns) = declared o context d ns := by
  simp [declared, isComment]

theorem declared_keyword (x : Extent) (name : String) (value : Node) (d : Declaration) :
    declared o context d (.keyword x name value :: ns) =
      if o.ignores name then declared o context d ns
      else value.value context >>= fun l =>
        declared o context { d with options := d.options.insert name l } ns := by
  rw [declared]

theorem isPositional_cases (n : Node) : n.isPositional = true ∨ (∃ x, n = .comment x) ∨
    ∃ x name value, n = .keyword x name value := by
  cases n with
  | comment x => exact .inr (.inl ⟨x, rfl⟩)
  | keyword x name value => exact .inr (.inr ⟨x, name, value, rfl⟩)
  | _ => exact .inl rfl

theorem positionals_errorsIn (ns : List Node) :
    ErrorsIn (HoldsAmong ns) (positionals context ns) := by
  induction ns with
  | nil => exact ok _
  | cons n ns ih =>
      have hrest : ErrorsIn (HoldsAmong (n :: ns)) (positionals context ns) :=
        ih.imp fun _ => HoldsAmong.cons
      rw [positionals_cons]
      split_ifs
      · refine bind (n.scalar_errorsIn.imp fun _ => Holds.among) fun v _ => ?_
        exact hrest.bind fun rest _ => ok _
      · exact hrest

theorem declared_errorsIn (d : Declaration) (ns : List Node) :
    ErrorsIn (HoldsAmong ns) (declared o context d ns) := by
  induction ns generalizing d with
  | nil => exact ok d
  | cons n ns ih =>
      have hrest := fun d => (ih d).imp fun _ => HoldsAmong.cons (n := n)
      rcases n.isPositional_cases with hn | ⟨x, rfl⟩ | ⟨x, name, value, rfl⟩
      · rw [declared_positional hn]
        exact bind (n.scalar_errorsIn.imp fun _ => Holds.among) fun l _ =>
          hrest _
      · rw [declared_comment]
        exact hrest d
      · rw [declared_keyword]
        split_ifs
        · exact hrest d
        · exact bind ((value_errorsIn value).imp fun _ he => he.value.among) fun l _ => hrest _

theorem positionals_of_declared {d d' : Declaration} (h : declared o context d ns = .ok d') :
    ∃ ls, positionals context ns = .ok ls ∧ d'.literals = d.literals ++ ls := by
  induction ns generalizing d with
  | nil =>
      cases h
      exact ⟨[], rfl, (List.append_nil _).symm⟩
  | cons n ns ih =>
      rw [positionals_cons]
      rcases n.isPositional_cases with hn | ⟨x, rfl⟩ | ⟨x, name, value, rfl⟩
      · rw [declared_positional hn] at h
        obtain ⟨l, hl, h⟩ := bind_eq_ok.1 h
        obtain ⟨ls, hls, hd⟩ := ih h
        rw [if_pos hn, hl, hls]
        exact ⟨l :: ls, rfl, by rw [hd, List.append_assoc]; rfl⟩
      · rw [declared_comment] at h
        exact ih h
      · rw [declared_keyword] at h
        split_ifs at h
        · exact ih h
        · obtain ⟨l, -, h⟩ := bind_eq_ok.1 h
          obtain ⟨ls, hls, hd⟩ := ih h
          exact ⟨ls, hls, hd⟩

inductive Given (context : String) : List Node → List Literal → Prop
  | nothing {ns : List Node} (h : ∀ m ∈ ns, m.isPositional = false) : Given context ns []
  | starting {before after : List Node} {first : Node} {l : Literal} {rest : List Literal}
      (hbefore : ∀ m ∈ before, m.isPositional = false) (hfirst : first.isPositional = true)
      (hl : first.scalar context = .ok l) : Given context (before ++ first :: after) (l :: rest)

theorem Given.cons {ls : List Literal} (h : Given context ns ls) (hn : n.isPositional = false) :
    Given context (n :: ns) ls := by
  cases h with
  | nothing h => exact .nothing (List.forall_mem_cons.2 ⟨hn, h⟩)
  | @starting before after first l rest hb hf hl =>
      have hbefore : ∀ m ∈ n :: before, m.isPositional = false := List.forall_mem_cons.2 ⟨hn, hb⟩
      exact .starting hbefore hf hl

theorem given_of_positionals {ls : List Literal} (h : positionals context ns = .ok ls) :
    Given context ns ls := by
  induction ns generalizing ls with
  | nil =>
      cases h
      exact .nothing (by simp)
  | cons n ns ih =>
      rw [positionals_cons] at h
      split_ifs at h with hn
      · obtain ⟨l, hl, h⟩ := bind_eq_ok.1 h
        obtain ⟨rest, -, h⟩ := bind_eq_ok.1 h
        cases h
        have hbefore : ∀ m ∈ ([] : List Node), m.isPositional = false := by simp
        exact .starting hbefore hn hl
      · exact (ih h).cons (Bool.eq_false_iff.2 hn)

section Naming

variable {arguments : Node}

theorem Holds.call {e : ExtractionError} (h : arguments.Holds e) (x : Extent) (function : Node) :
    (Node.call x function arguments).Holds e := by
  obtain ⟨c, hc, he⟩ := h
  exact ⟨c, List.mem_cons_of_mem _ (List.mem_append_right _ hc), he⟩

theorem nameOf_errorsIn (x y z : Extent) (object : Node) (method : String) {items : List Node}
    {ls : List Literal} (h : positionals context items = .ok ls) :
    ErrorsIn (Node.call x (.member y object method) (.group .arguments z items)).Holds
      (nameOf ls method x.line) := by
  cases given_of_positionals h with
  | nothing hnone => exact error (Culprit.missingName hnone).holds
  | @starting before after first l rest hb hf hl =>
      have htext : l.text? = none → (Node.call x (.member y object method)
          (.group .arguments z (before ++ first :: after))).Holds (.nameNotText method x.line) :=
        fun ht => (Culprit.nameNotText hb hf hl ht).holds
      cases l with
      | text s => exact ok s
      | _ => exact error (htext rfl)

theorem argumentItems_ok {items : List Node} (h : arguments.argumentItems context = .ok items) :
    ∃ z, arguments = .group .arguments z items := by
  unfold argumentItems at h
  split at h
  · next z items' =>
      cases h
      exact ⟨z, rfl⟩
  · cases h

theorem subcommandName_errorsIn (x y : Extent) (object arguments : Node) :
    ErrorsIn (Node.call x (.member y object Vocabulary.addParser) arguments).Holds
      (subcommandName arguments x.line) := by
  refine bind ((argumentItems_errorsIn arguments).imp fun e he => he.call x _) fun items hi => ?_
  obtain ⟨z, rfl⟩ := argumentItems_ok hi
  refine bind ((positionals_errorsIn items).imp fun e he => he.group.call x _) fun ls hls => ?_
  exact nameOf_errorsIn x y z object _ hls

theorem declaration_errorsIn (x y : Extent) (object arguments : Node) :
    ErrorsIn (Node.call x (.member y object Vocabulary.addArgument) arguments).Holds
      (declaration o arguments x.line) := by
  refine bind ((argumentItems_errorsIn arguments).imp fun e he => he.call x _) fun items hi => ?_
  obtain ⟨z, rfl⟩ := argumentItems_ok hi
  refine bind ((declared_errorsIn _ items).imp fun e he => he.group.call x _) fun d hd => ?_
  obtain ⟨ls, hls, hd⟩ := positionals_of_declared hd
  rw [hd, List.nil_append]
  exact bind (nameOf_errorsIn x y z object _ hls) fun name _ => ok d

end Naming

end Node

end CliCompletion
