import CliCompletion.Literal.Evaluation
import Mathlib.Data.List.Forall2
import Mathlib.Tactic.SplitIfs

namespace CliCompletion

variable {α β : Type}

inductive Outcome (E : ExtractionError → Prop) (P : α → Prop) : Except ExtractionError α → Prop
  | ok {a : α} (h : P a) : Outcome E P (.ok a)
  | error {e : ExtractionError} (h : E e) : Outcome E P (.error e)

namespace Outcome

variable {E F : ExtractionError → Prop} {P : α → Prop} {Q : β → Prop}
  {r : Except ExtractionError α}

theorem of_ok (h : Outcome E P r) {a : α} (hr : r = .ok a) : P a := by
  subst hr
  cases h with
  | ok h => exact h

theorem of_error (h : Outcome E P r) {e : ExtractionError} (hr : r = .error e) : E e := by
  subst hr
  cases h with
  | error h => exact h

theorem imp {P' : α → Prop} (h : Outcome E P r) (hP : ∀ a, P a → P' a) : Outcome E P' r := by
  cases h with
  | ok h => exact .ok (hP _ h)
  | error h => exact .error h

theorem within (h : Outcome E P r) (hE : ∀ e, E e → F e) : Outcome F P r := by
  cases h with
  | ok h => exact .ok h
  | error h => exact .error (hE _ h)

theorem map (h : Outcome E P r) {f : α → β} (hf : ∀ a, P a → Q (f a)) : Outcome E Q (r.map f) := by
  cases h with
  | ok h => exact .ok (hf _ h)
  | error h => exact .error h

theorem bind (h : Outcome E P r) {f : α → Except ExtractionError β}
    (hf : ∀ a, P a → Outcome E Q (f a)) : Outcome E Q (r >>= f) := by
  cases h with
  | ok h => exact hf _ h
  | error h => exact .error h

end Outcome

theorem exists_mem_of_forall₂ {R : α → β → Prop} {as : List α} {bs : List β} {b : β}
    (h : List.Forall₂ R as bs) (hb : b ∈ bs) : ∃ a ∈ as, R a b := by
  induction h with
  | nil => simp at hb
  | cons hr _ ih =>
      rcases List.mem_cons.1 hb with rfl | hb
      · exact ⟨_, List.mem_cons_self, hr⟩
      · obtain ⟨a, ha, hr⟩ := ih hb
        exact ⟨a, List.mem_cons_of_mem _ ha, hr⟩

namespace Literal

def Flat : Literal → Prop
  | .list items => ∀ l ∈ items, ∀ inner, l ≠ .list inner
  | _ => True

end Literal

namespace Node

variable {context : String} {n e : Node} {ns : List Node} {l l' : Literal} {ls : List Literal}

section Grammar

def contents (items : List Node) : List Node :=
  items.filter fun m => !m.isComment

inductive ConstantText : Node → String → Prop
  | token {x : Extent} {s : List Char} (h : Quoted.decode x.text.toList = some s) :
      ConstantText (.string x []) (String.ofList s)

inductive SignedNumber : Sign → Literal → Literal → Prop
  | minusInt (k : Int) : SignedNumber .minus (.int k) (.int (-k))
  | minusFloat (y : Binary64) : SignedNumber .minus (.float y) (.float y.neg)
  | plusInt (k : Int) : SignedNumber .plus (.int k) (.int k)
  | plusFloat (y : Binary64) : SignedNumber .plus (.float y) (.float y)

inductive ConstantScalar : Node → Literal → Prop
  | text {n : Node} {s : String} (h : ConstantText n s) : ConstantScalar n (.text s)
  | adjacent {x : Extent} {items : List Node} {ss : List String}
      (h : List.Forall₂ ConstantText (contents items) ss) :
      ConstantScalar (.group .adjacentStrings x items) (.text (String.join ss))
  | integer {x : Extent} {k : Int} (h : Numeral.int x.text.toList = some k) :
      ConstantScalar (.atom .integer x) (.int k)
  | float {x : Extent} {y : Binary64} (h : Numeral.float x.text.toList = some y) :
      ConstantScalar (.atom .float x) (.float y)
  | true (x : Extent) : ConstantScalar (.atom .true x) (.bool true)
  | false (x : Extent) : ConstantScalar (.atom .false x) (.bool false)
  | none (x : Extent) : ConstantScalar (.atom .none x) .none
  | signed {sign : Sign} {x : Extent} {e : Node} {l l' : Literal} (hs : SignedNumber sign l l')
      (h : ConstantScalar e l) : ConstantScalar (.signed sign x e) l'
  | parentheses {x : Extent} {items : List Node} {e : Node} {l : Literal}
      (hitems : contents items = [e]) (h : ConstantScalar e l) :
      ConstantScalar (.group .parentheses x items) l

def IsEmptyDisplay : Node → Prop
  | .group kind _ items => kind ∈ [.list, .tuple] ∧ contents items = []
  | _ => False

theorem contents_eq_nil_iff : contents ns = [] ↔ ns.all isComment = true := by
  simp [contents]

theorem isPlaceholder_iff (n : Node) : n.isPlaceholder = true ↔ n.IsEmptyDisplay := by
  cases n with
  | group kind x items =>
      cases kind <;> simp [isPlaceholder, IsEmptyDisplay, contents_eq_nil_iff]
  | _ => simp [isPlaceholder, IsEmptyDisplay]

instance : DecidablePred IsEmptyDisplay :=
  fun n => decidable_of_iff _ n.isPlaceholder_iff

def elementsOf (items : List Node) : List Node :=
  (contents items).filter fun e => ¬ e.IsEmptyDisplay

inductive ConstantValue : Node → Literal → Prop
  | scalar {n : Node} {l : Literal} (h : ConstantScalar n l) : ConstantValue n l
  | display {kind : Grouping} {x : Extent} {items : List Node} {ls : List Literal}
      (hk : kind ∈ [.list, .tuple, .set]) (h : List.Forall₂ ConstantScalar (elementsOf items) ls) :
      ConstantValue (.group kind x items) (.list ls)
  | parentheses {x : Extent} {items : List Node} {e : Node} {l : Literal}
      (hitems : contents items = [e]) (h : ConstantValue e l) :
      ConstantValue (.group .parentheses x items) l

end Grammar

section Items

theorem contents_cons (m : Node) (ns : List Node) :
    contents (m :: ns) = if m.isComment then contents ns else m :: contents ns := by
  cases h : m.isComment <;> simp [contents, h]

theorem elementsOf_cons (m : Node) (ns : List Node) : elementsOf (m :: ns) =
    if m.isComment ∨ m.IsEmptyDisplay then elementsOf ns else m :: elementsOf ns := by
  rw [elementsOf, contents_cons]
  by_cases hc : m.isComment = true
  · simp [hc, elementsOf]
  · by_cases he : m.IsEmptyDisplay
    · simp [hc, he, elementsOf]
    · simp [hc, he, elementsOf]

theorem scalars_eq_map (items : List Node) :
    scalars context items = (contents items).map (scalar context) := by
  induction items with
  | nil => rfl
  | cons m items ih =>
      rw [scalars, contents_cons]
      split_ifs
      · exact ih
      · rw [ih, List.map_cons]

theorem values_eq_map (items : List Node) :
    values context items = (contents items).map (value context) := by
  induction items with
  | nil => rfl
  | cons m items ih =>
      rw [values, contents_cons]
      split_ifs
      · exact ih
      · rw [ih, List.map_cons]

theorem elements_cons (m : Node) (ns : List Node) : elements context (m :: ns) =
    if m.isComment ∨ m.IsEmptyDisplay then elements context ns
    else do
      let value ← m.scalar context
      let rest ← elements context ns
      return value :: rest := by
  simp [elements, ← isPlaceholder_iff]

end Items

section Refusal

def Refuses (context : String) (n : Node) (e : ExtractionError) : Prop :=
  ∃ c ∈ n.preorder, e = c.unsupported context

def RefusesAmong (context : String) (ns : List Node) (e : ExtractionError) : Prop :=
  ∃ m ∈ ns, m.Refuses context e

variable {m : Node} {error : ExtractionError}

theorem self_mem_preorder (n : Node) : n ∈ n.preorder := by
  cases n <;> simp [preorder]

theorem mem_preorderAll_iff : m ∈ preorderAll ns ↔ ∃ n ∈ ns, m ∈ n.preorder := by
  induction ns with
  | nil => simp [preorderAll]
  | cons n ns ih => simp [preorderAll, ih]

theorem refuses_self (n : Node) : n.Refuses context (n.unsupported context) :=
  ⟨n, n.self_mem_preorder, rfl⟩

theorem Refuses.operand {sign : Sign} {x : Extent} (h : n.Refuses context error) :
    (Node.signed sign x n).Refuses context error := by
  obtain ⟨c, hc, he⟩ := h
  exact ⟨c, List.mem_cons_of_mem _ hc, he⟩

theorem RefusesAmong.group {kind : Grouping} {x : Extent} (h : RefusesAmong context ns error) :
    (Node.group kind x ns).Refuses context error := by
  obtain ⟨m, hm, c, hc, he⟩ := h
  exact ⟨c, List.mem_cons_of_mem _ (mem_preorderAll_iff.2 ⟨m, hm, hc⟩), he⟩

theorem RefusesAmong.cons (h : RefusesAmong context ns error) :
    RefusesAmong context (m :: ns) error := by
  obtain ⟨n, hn, h⟩ := h
  exact ⟨n, List.mem_cons_of_mem _ hn, h⟩

theorem Refuses.among (h : m.Refuses context error) : RefusesAmong context (m :: ns) error :=
  ⟨m, List.mem_cons_self, h⟩

end Refusal

section Evaluation

theorem stringText_outcome (n : Node) :
    Outcome (n.Refuses context) n.ConstantText (n.stringText context) := by
  have he : Outcome (n.Refuses context) n.ConstantText (.error (n.unsupported context)) :=
    .error n.refuses_self
  unfold stringText
  split
  · next x fields =>
      split_ifs with hf
      · obtain rfl := List.isEmpty_iff.1 hf
        split
        · next s hs => exact .ok (.token hs)
        · exact he
      · exact he
  · exact he

theorem stringsText_outcome (ns : List Node) : Outcome (RefusesAmong context ns)
    (fun s => ∃ ss, List.Forall₂ ConstantText (contents ns) ss ∧ s = String.join ss)
    (stringsText context ns) := by
  induction ns with
  | nil => exact .ok ⟨[], .nil, rfl⟩
  | cons n ns ih =>
      rw [stringsText, contents_cons]
      have hrest := ih.within fun _ => RefusesAmong.cons (m := n)
      split_ifs
      · exact hrest
      · refine (n.stringText_outcome.within fun _ => Refuses.among).bind fun s hs => ?_
        refine hrest.bind fun rest hrest => ?_
        obtain ⟨ss, hss, rfl⟩ := hrest
        exact .ok ⟨s :: ss, .cons hs hss, String.join_cons.symm⟩

theorem orUnsupported_outcome {P : Literal → Prop} {r : Option Literal}
    (h : ∀ l, r = some l → P l) : Outcome (n.Refuses context) P (n.orUnsupported context r) := by
  cases r with
  | none => exact .error n.refuses_self
  | some l => exact .ok (h l rfl)

theorem atomValue_outcome (kind : Atom) (x : Extent) :
    Outcome ((Node.atom kind x).Refuses context) (Node.atom kind x).ConstantScalar
      (atomValue context kind x) := by
  cases kind with
  | integer =>
      refine orUnsupported_outcome fun l hl => ?_
      obtain ⟨k, hk, rfl⟩ := Option.map_eq_some_iff.1 hl
      exact .integer hk
  | float =>
      refine orUnsupported_outcome fun l hl => ?_
      obtain ⟨y, hy, rfl⟩ := Option.map_eq_some_iff.1 hl
      exact .float hy
  | true => exact .ok (.true x)
  | false => exact .ok (.false x)
  | none => exact .ok (.none x)
  | identifier => exact .error (refuses_self _)
  | ellipsis => exact .error (refuses_self _)

theorem applySign_eq_some_iff {sign : Sign} :
    applySign sign l = some l' ↔ SignedNumber sign l l' := by
  constructor
  · intro h
    cases sign <;> cases l <;> cases h <;> constructor
  · intro h
    cases h <;> rfl

theorem mem_of_contents_eq {items : List Node} (h : contents items = [e]) : e ∈ items :=
  List.mem_of_mem_filter (h ▸ List.mem_singleton_self e)

theorem sole_outcome {kind : Grouping} {x : Extent} {P : Literal → Prop}
    {f : Node → Except ExtractionError Literal}
    (h : ∀ e, contents ns = [e] → Outcome (e.Refuses context) P (f e)) :
    Outcome ((Node.group kind x ns).Refuses context) P
      (match (contents ns).map f with
        | [value] => value
        | _ => .error ((Node.group kind x ns).unsupported context)) := by
  split
  · next value hv =>
      obtain ⟨e, he, rfl⟩ := List.map_eq_singleton_iff.1 hv
      have hm := mem_of_contents_eq he
      exact (h e he).within fun _ hr => RefusesAmong.group ⟨e, hm, hr⟩
  · exact .error (refuses_self _)

theorem scalar_outcome : ∀ n : Node,
    Outcome (n.Refuses context) n.ConstantScalar (n.scalar context)
  | .atom kind x => by
      simp only [scalar]
      exact atomValue_outcome kind x
  | .string x fields => by
      simp only [scalar]
      exact (stringText_outcome _).map fun _ => .text
  | .group kind x items => by
      cases kind with
      | adjacentStrings =>
          simp only [scalar]
          refine ((stringsText_outcome items).within fun _ => RefusesAmong.group).map fun s hs => ?_
          obtain ⟨ss, hss, rfl⟩ := hs
          exact .adjacent hss
      | parentheses =>
          simp only [scalar, scalars_eq_map]
          refine sole_outcome fun e he => ?_
          have hm := List.sizeOf_lt_of_mem (mem_of_contents_eq he)
          exact (scalar_outcome e).imp fun _ => .parentheses he
      | list | tuple | set | arguments =>
          simp only [scalar]
          exact .error (refuses_self _)
  | .signed sign x operand => by
      simp only [scalar]
      refine ((scalar_outcome operand).within fun _ => Refuses.operand).bind fun l hl => ?_
      exact orUnsupported_outcome fun l' hs => .signed (applySign_eq_some_iff.1 hs) hl
  | .comment _ | .join _ | .member _ _ _ | .keyword _ _ _ | .call _ _ _ | .assignment _ _ _ _
  | .construct _ _ _ => by
      simp only [scalar]
      exact .error (refuses_self _)

theorem elements_outcome (ns : List Node) : Outcome (RefusesAmong context ns)
    (List.Forall₂ ConstantScalar (elementsOf ns)) (elements context ns) := by
  induction ns with
  | nil => exact .ok .nil
  | cons n ns ih =>
      rw [elements_cons, elementsOf_cons]
      have hrest := ih.within fun _ => RefusesAmong.cons (m := n)
      split_ifs
      · exact hrest
      · refine (n.scalar_outcome.within fun _ => Refuses.among).bind fun l hl => ?_
        exact hrest.bind fun ls hls => .ok (.cons hl hls)

theorem value_outcome : ∀ n : Node, Outcome (n.Refuses context) n.ConstantValue (n.value context)
  | .group kind x items => by
      have hdisplay (hk : kind ∈ [.list, .tuple, .set]) :
          Outcome ((Node.group kind x items).Refuses context)
            (Node.group kind x items).ConstantValue ((elements context items).map .list) :=
        ((elements_outcome items).within fun _ => RefusesAmong.group).map fun _ => .display hk
      cases kind with
      | list | tuple | set =>
          simp only [value]
          exact hdisplay (by simp)
      | parentheses =>
          simp only [value, values_eq_map]
          refine sole_outcome fun e he => ?_
          have hm := List.sizeOf_lt_of_mem (mem_of_contents_eq he)
          exact (value_outcome e).imp fun _ => .parentheses he
      | arguments | adjacentStrings =>
          simp only [value]
          exact (scalar_outcome _).imp fun _ => .scalar
  | .atom _ _ | .string _ _ | .signed _ _ _ | .comment _ | .join _ | .member _ _ _
  | .keyword _ _ _ | .call _ _ _ | .assignment _ _ _ _ | .construct _ _ _ => by
      simp only [value]
      exact (scalar_outcome _).imp fun _ => .scalar

theorem ConstantText.stringText_eq {s : String} (h : n.ConstantText s) :
    n.stringText context = .ok s := by
  cases h with
  | token h => simp [stringText, h]

theorem stringsText_eq {ss : List String} (h : List.Forall₂ ConstantText (contents ns) ss) :
    stringsText context ns = .ok (String.join ss) := by
  induction ns generalizing ss with
  | nil =>
      cases h
      rfl
  | cons n ns ih =>
      rw [contents_cons] at h
      rw [stringsText]
      split_ifs at h ⊢
      · exact ih h
      · cases h with
        | cons hs hss =>
            rw [hs.stringText_eq, ih hss, String.join_cons]
            rfl

theorem ConstantScalar.scalar_eq (h : n.ConstantScalar l) : n.scalar context = .ok l := by
  induction h with
  | text h =>
      cases h with
      | token h =>
          rw [scalar, (ConstantText.token h).stringText_eq]
          rfl
  | adjacent h =>
      rw [scalar, stringsText_eq h]
      rfl
  | integer h => simp [scalar, atomValue, h, orUnsupported]
  | float h => simp [scalar, atomValue, h, orUnsupported]
  | true x => rw [scalar, atomValue]
  | false x => rw [scalar, atomValue]
  | none x => rw [scalar, atomValue]
  | signed hs _ ih =>
      rw [scalar, ih]
      change orUnsupported _ _ (applySign _ _) = _
      rw [applySign_eq_some_iff.2 hs]
      rfl
  | parentheses hitems _ ih => simp only [scalar, scalars_eq_map, hitems, List.map_singleton, ih]

theorem scalar_eq_ok_iff : n.scalar context = .ok l ↔ n.ConstantScalar l :=
  ⟨n.scalar_outcome.of_ok, ConstantScalar.scalar_eq⟩

theorem elements_eq (h : List.Forall₂ ConstantScalar (elementsOf ns) ls) :
    elements context ns = .ok ls := by
  induction ns generalizing ls with
  | nil =>
      cases h
      rfl
  | cons n ns ih =>
      rw [elementsOf_cons] at h
      rw [elements_cons]
      split_ifs at h ⊢
      · exact ih h
      · cases h with
        | cons hl hls =>
            rw [hl.scalar_eq, ih hls]
            rfl

theorem ConstantScalar.value_eq (h : n.ConstantScalar l) : n.value context = .ok l := by
  have hs : n.scalar context = .ok l := h.scalar_eq
  induction h with
  | text h =>
      cases h with
      | token _ => simpa only [value] using hs
  | parentheses hitems h ih =>
      simp only [value, values_eq_map, hitems, List.map_singleton]
      exact ih h.scalar_eq
  | _ => simpa only [value] using hs

theorem value_display {kind : Grouping} (hk : kind ∈ [.list, .tuple, .set]) (x : Extent)
    (items : List Node) :
    (Node.group kind x items).value context = (elements context items).map .list := by
  simp only [List.mem_cons, List.not_mem_nil, or_false] at hk
  rcases hk with rfl | rfl | rfl <;> rw [value]

theorem ConstantValue.value_eq (h : n.ConstantValue l) : n.value context = .ok l := by
  induction h with
  | scalar h => exact h.value_eq
  | display hk h =>
      rw [value_display hk, elements_eq h]
      rfl
  | parentheses hitems _ ih => simp only [value, values_eq_map, hitems, List.map_singleton, ih]

theorem value_eq_ok_iff : n.value context = .ok l ↔ n.ConstantValue l :=
  ⟨n.value_outcome.of_ok, ConstantValue.value_eq⟩

end Evaluation

section Lists

theorem ConstantScalar.ne_list (h : n.ConstantScalar l) (ls : List Literal) : l ≠ .list ls := by
  induction h with
  | parentheses _ _ ih => exact ih
  | signed hs _ _ => cases hs <;> simp
  | _ => simp

theorem ConstantScalar.flat (h : n.ConstantScalar l) : l.Flat := by
  cases l with
  | list ls => exact absurd rfl (h.ne_list ls)
  | _ => trivial

theorem ConstantValue.flat (h : n.ConstantValue l) : l.Flat := by
  induction h with
  | scalar h => exact h.flat
  | display _ h =>
      intro l hl
      obtain ⟨e, -, he⟩ := exists_mem_of_forall₂ h hl
      exact he.ne_list
  | parentheses _ _ ih => exact ih

end Lists

structure Evaluated (context : String) (n : Node) : Prop where
  scalar : ∀ l, n.scalar context = .ok l ↔ n.ConstantScalar l
  value : ∀ l, n.value context = .ok l ↔ n.ConstantValue l
  display : ∀ kind x items l, n = .group kind x items → kind ∈ [.list, .tuple, .set] →
    n.value context = .ok l → ∃ ls, l = .list ls ∧
      List.Forall₂ (fun e v => e.scalar context = .ok v) (elementsOf items) ls
  flat : ∀ l, n.value context = .ok l → l.Flat
  refused : ∀ error, n.scalar context = .error error ∨ n.value context = .error error →
    ∃ c ∈ n.preorder, error = c.unsupported context

theorem evaluated_constants (context : String) (n : Node) : n.Evaluated context where
  scalar _ := scalar_eq_ok_iff
  value _ := value_eq_ok_iff
  display := by
    rintro kind x items l rfl hk h
    rw [value_display hk] at h
    cases hr : elements context items with
    | error e =>
        rw [hr] at h
        cases h
    | ok ls =>
        rw [hr] at h
        cases h
        have hscalars := (elements_outcome items).of_ok hr
        exact ⟨ls, rfl, hscalars.imp fun _ _ => ConstantScalar.scalar_eq⟩
  flat _ h := (value_eq_ok_iff.1 h).flat
  refused error h := h.elim n.scalar_outcome.of_error n.value_outcome.of_error

def mixedDisplay : Node :=
  .group .list ⟨"[..]", 1, 3⟩
    [.signed .minus ⟨"-(1)", 1, 1⟩ (.group .parentheses ⟨"(1)", 1, 1⟩ [.atom .integer ⟨"1", 1, 1⟩]),
      .comment ⟨"# no element", 1, 1⟩, .group .tuple ⟨"()", 2, 2⟩ [],
      .group .adjacentStrings ⟨"..", 2, 3⟩
        [.string ⟨"\"a\"", 2, 2⟩ [], .comment ⟨"# no text", 2, 2⟩, .string ⟨"'b'", 3, 3⟩ []]]

example : (mixedDisplay.value "choices").map Literal.word = .ok "-1 ab" := by decide +kernel

end Node

end CliCompletion
