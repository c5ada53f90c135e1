import CliCompletion.Proofs.Correspondence
import Mathlib.Tactic.SplitIfs

namespace CliCompletion

variable {T : Translation} {o : ExtractionOptions} {context : String}

structure Extent.Like (T : Translation) (x x' : Extent) : Prop where
  text : T.texts x.text x'.text
  line : T.lines x.line x'.line

inductive Node.Like (T : Translation) : Node → Node → Prop
  | comment {x x' : Extent} (hx : x.Like T x') : Node.Like T (.comment x) (.comment x')
  | join {x x' : Extent} (hx : x.Like T x') : Node.Like T (.join x) (.join x')
  | identifier {x x' : Extent} (hn : T.names x.text x'.text) (hl : T.lines x.line x'.line) :
      Node.Like T (.atom .identifier x) (.atom .identifier x')
  | atom {kind : Atom} {x x' : Extent} (hk : kind ≠ .identifier) (ht : x'.text = x.text)
      (hl : T.lines x.line x'.line) : Node.Like T (.atom kind x) (.atom kind x')
  | string {x x' : Extent} {fields fields' : List Node} (hx : x.Like T x')
      (ht : fields = [] → x'.text = x.text) (hs : List.Forall₂ (Node.Like T) fields fields') :
      Node.Like T (.string x fields) (.string x' fields')
  | signed {sign : Sign} {x x' : Extent} {operand operand' : Node} (hx : x.Like T x')
      (h : Node.Like T operand operand') :
      Node.Like T (.signed sign x operand) (.signed sign x' operand')
  | group {kind : Grouping} {x x' : Extent} {items items' : List Node} (hx : x.Like T x')
      (hs : List.Forall₂ (Node.Like T) items items') :
      Node.Like T (.group kind x items) (.group kind x' items')
  | member {x x' : Extent} {object object' : Node} {name : String} (hx : x.Like T x')
      (h : Node.Like T object object') :
      Node.Like T (.member x object name) (.member x' object' name)
  | keyword {x x' : Extent} {name : String} {value value' : Node} (hx : x.Like T x')
      (h : Node.Like T value value') :
      Node.Like T (.keyword x name value) (.keyword x' name value')
  | call {x x' : Extent} {function function' arguments arguments' : Node} (hx : x.Like T x')
      (hl : T.lastLines x.lastLine x'.lastLine) (hf : Node.Like T function function')
      (ha : Node.Like T arguments arguments') :
      Node.Like T (.call x function arguments) (.call x' function' arguments')
  | assignment {x x' : Extent} {target target' value value' : Node} {typing typing' : List Node}
      (hx : x.Like T x') (ht : Node.Like T target target')
      (hs : List.Forall₂ (Node.Like T) typing typing') (h : Node.Like T value value') :
      Node.Like T (.assignment x target typing value) (.assignment x' target' typing' value')
  | construct {kind : Construct} {x x' : Extent} {parts parts' : List Node} (hx : x.Like T x')
      (hs : List.Forall₂ (Node.Like T) parts parts') :
      Node.Like T (.construct kind x parts) (.construct kind x' parts')

namespace Node

variable {n n' : Node} {ns ns' : List Node}

theorem Like.extent (h : n.Like T n') : n.extent.Like T n'.extent := by
  cases h with
  | identifier hn hl => exact ⟨T.texts_of_names hn, hl⟩
  | @atom kind x x' _ ht hl => exact ⟨by rw [Node.extent, Node.extent, ht]; exact T.texts_refl _, hl⟩
  | _ => assumption

theorem Like.kindName (h : n.Like T n') : n'.kindName = n.kindName := by
  cases h <;> rfl

theorem Like.isComment (h : n.Like T n') : n'.isComment = n.isComment := by
  cases h <;> rfl

theorem Like.unsupported (h : n.Like T n') (context : String) :
    T.Errors (n.unsupported context) (n'.unsupported context) := by
  rw [Node.unsupported, Node.unsupported, h.kindName]
  exact .unsupported h.extent.text h.extent.line

theorem all_isComment_like (h : List.Forall₂ (Node.Like T) ns ns') :
    ns'.all Node.isComment = ns.all Node.isComment := by
  have hm := congrArg (List.all · id) (map_eq_map_of_forall₂ h fun _ _ hn => Like.isComment hn)
  simpa [List.all_map] using hm

theorem Like.isPlaceholder (h : n.Like T n') : n'.isPlaceholder = n.isPlaceholder := by
  cases h with
  | @group kind x x' items items' hx hs =>
      cases kind with
      | list => exact all_isComment_like hs
      | tuple => exact all_isComment_like hs
      | _ => rfl
  | _ => rfl

theorem stringText_like (h : n.Like T n') :
    Alike T.Errors Eq (n.stringText context) (n'.stringText context) := by
  have he := h.unsupported context
  cases h with
  | @string x x' fields fields' hx ht hs =>
      rw [stringText, stringText]
      cases hs with
      | nil =>
          rw [ht rfl]
          cases Quoted.decode x.text.toList with
          | none => exact .error he
          | some s => exact .ok rfl
      | cons _ _ => exact .error he
  | _ => exact .error he

theorem stringsText_like (h : List.Forall₂ (Node.Like T) ns ns') :
    Alike T.Errors Eq (stringsText context ns) (stringsText context ns') := by
  induction h with
  | nil => exact .ok rfl
  | cons hn _ ih =>
      rw [stringsText, stringsText, hn.isComment]
      split
      · exact ih
      · refine (stringText_like hn).bind ?_
        rintro s _ rfl
        refine ih.bind ?_
        rintro rest _ rfl
        exact .ok rfl

theorem orUnsupported_like (h : n.Like T n') (l : Option Literal) :
    Alike T.Errors Eq (n.orUnsupported context l) (n'.orUnsupported context l) := by
  cases l with
  | none => exact .error (h.unsupported context)
  | some l => exact .ok rfl

theorem atomValue_like {kind : Atom} {x x' : Extent}
    (h : (Node.atom kind x).Like T (.atom kind x')) :
    Alike T.Errors Eq (atomValue context kind x) (atomValue context kind x') := by
  have he := h.unsupported context
  have ho : ∀ l, Alike T.Errors Eq ((Node.atom kind x).orUnsupported context l)
    ((Node.atom kind x').orUnsupported context l) := orUnsupported_like h
  cases h with
  | identifier hn hl => exact .error he
  | atom hk ht hl =>
      unfold atomValue
      cases kind with
      | integer =>
          rw [ht]
          exact ho _
      | float =>
          rw [ht]
          exact ho _
      | identifier => exact .error he
      | ellipsis => exact .error he
      | _ => exact .ok rfl

theorem sole_like {e e' : ExtractionError} (he : T.Errors e e')
    {xs ys : List (Except ExtractionError Literal)} : List.Forall₂ (Alike T.Errors Eq) xs ys →
    Alike T.Errors Eq (match xs with | [value] => value | _ => .error e)
      (match ys with | [value] => value | _ => .error e') := by
  intro h
  cases h with
  | nil => exact .error he
  | cons hx hs =>
      cases hs with
      | nil => exact hx
      | cons _ _ => exact .error he

mutual

theorem scalar_like : ∀ (n : Node) {n' : Node}, n.Like T n' →
    Alike T.Errors Eq (n.scalar context) (n'.scalar context)
  | .atom kind x, n', h => by
      cases h with
      | identifier hn hl =>
          simp only [scalar]
          exact atomValue_like (.identifier hn hl)
      | atom hk ht hl =>
          simp only [scalar]
          exact atomValue_like (.atom hk ht hl)
  | .string x fields, n', h => by
      have ht : Alike T.Errors Eq ((Node.string x fields).stringText context)
        (n'.stringText context) := stringText_like h
      cases h with
      | string hx he hs =>
          simp only [scalar]
          exact ht.map _
  | .group kind x items, n', h => by
      have he := h.unsupported context
      cases h with
      | group hx hs =>
          cases kind with
          | adjacentStrings =>
              simp only [scalar]
              exact (stringsText_like hs).map _
          | parentheses =>
              simp only [scalar]
              exact sole_like he (scalars_like items hs)
          | _ =>
              simp only [scalar]
              exact .error he
  | .signed sign x operand, n', h => by
      have ho : ∀ l, Alike T.Errors Eq ((Node.signed sign x operand).orUnsupported context l)
        (n'.orUnsupported context l) := orUnsupported_like h
      cases h with
      | signed hx hop =>
          simp only [scalar]
          refine (scalar_like operand hop).bind ?_
          rintro value _ rfl
          exact ho _
  | .comment _, n', h | .join _, n', h | .member _ _ _, n', h | .keyword _ _ _, n', h
  | .call _ _ _, n', h | .assignment _ _ _ _, n', h | .construct _ _ _, n', h => by
      have he := h.unsupported context
      cases h
      simp only [scalar]
      exact .error he

theorem scalars_like : ∀ (ns : List Node) {ns' : List Node}, List.Forall₂ (Node.Like T) ns ns' →
    List.Forall₂ (Alike T.Errors Eq) (scalars context ns) (scalars context ns')
  | [], ns', h => by
      cases h
      simp only [scalars]
      exact .nil
  | n :: ns, ns', h => by
      cases h with
      | cons hn hs =>
          simp only [scalars, hn.isComment]
          split
          · exact scalars_like ns hs
          · exact .cons (scalar_like n hn) (scalars_like ns hs)

end

theorem elements_like (h : List.Forall₂ (Node.Like T) ns ns') :
    Alike T.Errors Eq (elements context ns) (elements context ns') := by
  induction h with
  | nil => exact .ok rfl
  | cons hn _ ih =>
      rw [elements, elements, hn.isComment, hn.isPlaceholder]
      split
      · exact ih
      · refine (scalar_like _ hn).bind ?_
        rintro value _ rfl
        refine ih.bind ?_
        rintro rest _ rfl
        exact .ok rfl

mutual

theorem value_like : ∀ (n : Node) {n' : Node}, n.Like T n' →
    Alike T.Errors Eq (n.value context) (n'.value context)
  | .group kind x items, n', h => by
      have he := h.unsupported context
      have hv : Alike T.Errors Eq ((Node.group kind x items).scalar context)
        (n'.scalar context) := scalar_like _ h
      cases h with
      | group hx hs =>
          cases kind with
          | list | tuple | set =>
              simp only [value]
              exact (elements_like hs).map _
          | parentheses =>
              simp only [value]
              exact sole_like he (values_like items hs)
          | arguments | adjacentStrings =>
              simp only [value]
              exact hv
  | .atom _ _, n', h | .string _ _, n', h | .signed _ _ _, n', h | .comment _, n', h
  | .join _, n', h | .member _ _ _, n', h | .keyword _ _ _, n', h | .call _ _ _, n', h
  | .assignment _ _ _ _, n', h | .construct _ _ _, n', h => by
      have hv : Alike T.Errors Eq (Node.scalar context _) (n'.scalar context) := scalar_like _ h
      cases h <;> simpa only [value] using hv

theorem values_like : ∀ (ns : List Node) {ns' : List Node}, List.Forall₂ (Node.Like T) ns ns' →
    List.Forall₂ (Alike T.Errors Eq) (values context ns) (values context ns')
  | [], ns', h => by
      cases h
      simp only [values]
      exact .nil
  | n :: ns, ns', h => by
      cases h with
      | cons hn hs =>
          simp only [values, hn.isComment]
          split
          · exact values_like ns hs
          · exact .cons (value_like n hn) (values_like ns hs)

end

section Arguments

theorem argumentItems_like (h : n.Like T n') : Alike T.Errors (List.Forall₂ (Node.Like T))
    (n.argumentItems context) (n'.argumentItems context) := by
  have he := h.unsupported context
  cases h with
  | @group kind x x' items items' hx hs =>
      cases kind with
      | arguments => exact .ok hs
      | _ => exact .error he
  | _ => exact .error he

theorem positionals_like (h : List.Forall₂ (Node.Like T) ns ns') :
    Alike T.Errors Eq (positionals context ns) (positionals context ns') := by
  induction h with
  | nil => exact .ok rfl
  | @cons n n' ns ns' hn _ ih =>
      have hv : Alike T.Errors Eq (n.scalar context) (n'.scalar context) := scalar_like _ hn
      have hc := hn.isComment
      have hrest : Alike T.Errors Eq (do
          let value ← n.scalar context
          let rest ← positionals context ns
          return value :: rest) (do
          let value ← n'.scalar context
          let rest ← positionals context ns'
          return value :: rest) := by
        refine hv.bind ?_
        rintro value _ rfl
        refine ih.bind ?_
        rintro rest _ rfl
        exact .ok rfl
      cases hn with
      | keyword hx h =>
          simp only [positionals]
          exact ih
      | _ =>
          simp only [positionals, hc]
          split
          · exact ih
          · exact hrest

theorem declared_like (h : List.Forall₂ (Node.Like T) ns ns') (d : Declaration) :
    Alike T.Errors Eq (declared o context d ns) (declared o context d ns') := by
  induction h generalizing d with
  | nil => exact .ok rfl
  | @cons n n' ns ns' hn _ ih =>
      have hs : Alike T.Errors Eq (n.scalar context) (n'.scalar context) := scalar_like _ hn
      have hc := hn.isComment
      have hrest : Alike T.Errors Eq (do
          let l ← n.scalar context
          declared o context { d with literals := d.literals ++ [l] } ns) (do
          let l ← n'.scalar context
          declared o context { d with literals := d.literals ++ [l] } ns') := by
        refine hs.bind ?_
        rintro l _ rfl
        exact ih _
      cases hn with
      | keyword hx h =>
          simp only [declared]
          split
          · exact ih d
          · refine (value_like _ h).bind ?_
            rintro l _ rfl
            exact ih _
      | _ =>
          simp only [declared, hc]
          split
          · exact ih d
          · exact hrest

theorem nameOf_like {l l' : Nat} (hl : T.lines l l') (literals : List Literal) (call : String) :
    Alike T.Errors Eq (nameOf literals call l) (nameOf literals call l') := by
  unfold nameOf
  split
  · exact .ok rfl
  · exact .error (.nameNotText hl)
  · exact .error (.missingName hl)

theorem subcommandName_like (h : n.Like T n') {l l' : Nat} (hl : T.lines l l') :
    Alike T.Errors Eq (n.subcommandName l) (n'.subcommandName l') := by
  refine (argumentItems_like h).bind fun items items' hs => ?_
  refine (positionals_like hs).bind ?_
  rintro literals _ rfl
  exact nameOf_like hl literals _

theorem declaration_like (h : n.Like T n') {l l' : Nat} (hl : T.lines l l') :
    Alike T.Errors Eq (n.declaration o l) (n'.declaration o l') := by
  refine (argumentItems_like h).bind fun items items' hs => ?_
  refine (declared_like hs _).bind ?_
  rintro d _ rfl
  refine (nameOf_like hl d.literals _).bind ?_
  rintro name _ rfl
  exact .ok rfl

end Arguments

section Expressions

theorem Like.ne_identifier (h : n.Like T n') (hn : ∀ x, n = .atom .identifier x → False) :
    ∀ x, n' = .atom .identifier x → False := by
  rintro x rfl
  cases h with
  | identifier _ _ => exact hn _ rfl
  | atom hk _ _ => exact hk rfl

theorem Like.ne_method (h : n.Like T n')
    (hn : ∀ x y object name arguments, n = .call x (.member y object name) arguments → False) :
    ∀ x y object name arguments, n' = .call x (.member y object name) arguments → False := by
  rintro x y object name arguments rfl
  cases h with
  | call _ _ hf _ =>
      cases hf with
      | member _ _ => exact hn _ _ _ _ _ rfl

theorem Like.ne_group (h : n.Like T n') {kind : Grouping}
    (hn : ∀ x items, n = .group kind x items → False) :
    ∀ x items, n' = .group kind x items → False := by
  rintro x items rfl
  cases h with
  | group _ _ => exact hn _ _ rfl

theorem Like.ne_keyword (h : n.Like T n') (hn : ∀ x name value, n = .keyword x name value → False) :
    ∀ x name value, n' = .keyword x name value → False := by
  rintro x name value rfl
  cases h with
  | keyword _ _ => exact hn _ _ _ rfl

variable (T o) in
theorem exprs_like :
    (∀ n n', n.Like T n' → (commandExpr o n).Like T (commandExpr o n')) ∧
    (∀ n n', n.Like T n' →
      List.Forall₂ (CommandExpr.Like T) (parentExprs o n) (parentExprs o n')) ∧
    (∀ ns ns', List.Forall₂ (Node.Like T) ns ns' →
      List.Forall₂ (CommandExpr.Like T) (parentsAmong o ns) (parentsAmong o ns')) ∧
    (∀ n n', n.Like T n' →
      List.Forall₂ (CommandExpr.Like T) (parentList o n) (parentList o n')) ∧
    (∀ ns ns', List.Forall₂ (Node.Like T) ns ns' →
      List.Forall₂ (CommandExpr.Like T) (commandExprs o ns) (commandExprs o ns')) ∧
    ∀ n n', n.Like T n' → (groupExpr o n).Like T (groupExpr o n') := by
  refine Node.commandExpr.mutual_induct
    (fun n => ∀ n', n.Like T n' → (commandExpr o n).Like T (commandExpr o n'))
    (fun n => ∀ n', n.Like T n' →
      List.Forall₂ (CommandExpr.Like T) (parentExprs o n) (parentExprs o n'))
    (fun ns => ∀ ns', List.Forall₂ (Node.Like T) ns ns' →
      List.Forall₂ (CommandExpr.Like T) (parentsAmong o ns) (parentsAmong o ns'))
    (fun n => ∀ n', n.Like T n' →
      List.Forall₂ (CommandExpr.Like T) (parentList o n) (parentList o n'))
    (fun ns => ∀ ns', List.Forall₂ (Node.Like T) ns ns' →
      List.Forall₂ (CommandExpr.Like T) (commandExprs o ns) (commandExprs o ns'))
    (fun n => ∀ n', n.Like T n' → (groupExpr o n).Like T (groupExpr o n'))
    ?_ ?_ ?_ ?_ ?_ ?_ ?_ ?_ ?_ ?_ ?_ ?_ ?_ ?_ ?_ ?_ ?_ ?_ ?_ ?_ ?_
  · intro x n' h
    cases h with
    | identifier hn hl =>
        simp only [commandExpr]
        exact .handle hn hl
    | atom hk _ _ => exact absurd rfl hk
  · intro x y object arguments hobject harguments n' h
    cases h with
    | call hx _ hf ha =>
        cases hf with
        | member hy ho =>
            simp only [commandExpr, if_true]
            refine .added (hobject _ ho) (subcommandName_like ha hx.line) .nil ?_ hx.line
            split
            · exact .nil
            · exact harguments _ ha
  · intro x y object name arguments hn hg hobject n' h
    cases h with
    | call hx _ hf ha =>
        cases hf with
        | member hy ho =>
            simp only [commandExpr, if_neg hn, if_pos hg]
            exact .grouped (hobject _ ho)
  · intro x y object name arguments hn hg n' h
    have he := h.unsupported Vocabulary.parserReceiver
    cases h with
    | call hx _ hf ha =>
        cases hf with
        | member hy ho =>
            simp only [commandExpr, if_neg hn, if_neg hg]
            exact .refused he
  · intro n hn hc n' h
    rw [commandExpr, commandExpr]
    · exact .refused (h.unsupported _)
    · exact h.ne_identifier hn
    · exact h.ne_method hc
    · exact hn
    · exact hc
  · intro kind x items hitems n' h
    cases h with
    | group _ hs =>
        simp only [parentExprs]
        exact hitems _ hs
  · intro n hn n' h
    rw [parentExprs, parentExprs]
    · exact .nil
    · exact fun kind => h.ne_group (hn kind)
    · exact hn
  · intro x items hitems n' h
    cases h with
    | group _ hs =>
        simp only [parentList]
        exact hitems _ hs
  · intro x items hitems n' h
    cases h with
    | group _ hs =>
        simp only [parentList]
        exact hitems _ hs
  · intro n hl ht n' h
    rw [parentList, parentList]
    · exact .cons (.refused (h.unsupported _)) .nil
    · exact h.ne_group hl
    · exact h.ne_group ht
    · exact hl
    · exact ht
  · intro x n' h
    cases h with
    | identifier hn hl =>
        simp only [groupExpr]
        exact .handle hn hl
    | atom hk _ _ => exact absurd rfl hk
  · intro x y object arguments hobject n' h
    cases h with
    | call hx _ hf ha =>
        cases hf with
        | member hy ho =>
            simp only [groupExpr, if_true]
            exact .opened (hobject _ ho)
  · intro x y object name arguments hn n' h
    have he := h.unsupported Vocabulary.addParserReceiver
    cases h with
    | call hx _ hf ha =>
        cases hf with
        | member hy ho =>
            simp only [groupExpr, if_neg hn]
            exact .refused he
  · intro n hn hc n' h
    rw [groupExpr, groupExpr]
    · exact .refused (h.unsupported _)
    · exact h.ne_identifier hn
    · exact h.ne_method hc
    · exact hn
    · exact hc
  · intro ns' h
    cases h
    simp only [parentsAmong]
    exact .nil
  · intro x value ns hvalue ns' h
    cases h with
    | cons hn _ =>
        cases hn with
        | keyword _ hv =>
            simp only [parentsAmong, if_true]
            exact hvalue _ hv
  · intro x name value ns hname hns ns' h
    cases h with
    | cons hn hs =>
        cases hn with
        | keyword _ _ =>
            simp only [parentsAmong, if_neg hname]
            exact hns _ hs
  · intro n ns hn hns ns' h
    cases h with
    | cons hn' hs =>
        rw [parentsAmong, parentsAmong]
        · exact hns _ hs
        · exact hn'.ne_keyword hn
        · exact hn
  · intro ns' h
    cases h
    simp only [commandExprs]
    exact .nil
  · intro n ns hc hns ns' h
    cases h with
    | cons hn hs =>
        rw [commandExprs, commandExprs, hn.isComment, if_pos hc, if_pos hc]
        exact hns _ hs
  · intro n ns hc hexpr hns ns' h
    cases h with
    | cons hn hs =>
        rw [commandExprs, commandExprs, hn.isComment, if_neg hc, if_neg hc]
        exact .cons (hexpr _ hn) (hns _ hs)

theorem commandExpr_like (h : n.Like T n') : (commandExpr o n).Like T (commandExpr o n') :=
  (exprs_like T o).1 _ _ h

theorem parentExprs_like (h : n.Like T n') :
    List.Forall₂ (CommandExpr.Like T) (parentExprs o n) (parentExprs o n') :=
  (exprs_like T o).2.1 _ _ h

theorem groupExpr_like (h : n.Like T n') : (groupExpr o n).Like T (groupExpr o n') :=
  (exprs_like T o).2.2.2.2.2 _ _ h

end Expressions

end Node

structure Call.Like (T : Translation) (c c' : Call) : Prop where
  targets : List.Forall₂ T.names c.targets c'.targets
  extent : c.extent.Like T c'.extent
  lastLine : T.lastLines c.extent.lastLine c'.extent.lastLine
  function : c.function.Like T c'.function
  arguments : c.arguments.Like T c'.arguments

namespace Node

theorem targets_like {target target' : Node} (h : target.Like T target') {ts ts' : List String}
    (ht : List.Forall₂ T.names ts ts') : List.Forall₂ T.names
      (target.identifier?.toList ++ ts) (target'.identifier?.toList ++ ts') := by
  cases h with
  | identifier hn _ => exact .cons hn ht
  | @atom kind x x' hk _ _ =>
      cases kind with
      | identifier => exact absurd rfl hk
      | _ => exact ht
  | _ => exact ht

mutual

theorem callsInto_like : ∀ (n : Node) {n' : Node} {ts ts' : List String},
    List.Forall₂ T.names ts ts' → n.Like T n' →
      List.Forall₂ (Call.Like T) (n.callsInto ts) (n'.callsInto ts')
  | .comment _, n', ts, ts', ht, h | .join _, n', ts, ts', ht, h
  | .atom _ _, n', ts, ts', ht, h => by
      cases h <;> exact .nil
  | .string _ fields, n', ts, ts', ht, h => by
      cases h with
      | string _ _ hs => exact callsAll_like fields hs
  | .signed _ _ operand, n', ts, ts', ht, h => by
      cases h with
      | signed _ h =>
          rw [callsInto, callsInto]
          exact callsInto_like operand .nil h
  | .group _ _ items, n', ts, ts', ht, h => by
      cases h with
      | group _ hs => exact callsAll_like items hs
  | .member _ object _, n', ts, ts', ht, h => by
      cases h with
      | member _ h =>
          rw [callsInto, callsInto]
          exact callsInto_like object .nil h
  | .keyword _ _ value, n', ts, ts', ht, h => by
      cases h with
      | keyword _ h =>
          rw [callsInto, callsInto]
          exact callsInto_like value .nil h
  | .call x function arguments, n', ts, ts', ht, h => by
      cases h with
      | call hx hl hf ha =>
          exact .cons ⟨ht, hx, hl, hf, ha⟩ (List.rel_append (callsInto_like function .nil hf)
            (callsInto_like arguments .nil ha))
  | .assignment _ target typing value, n', ts, ts', ht, h => by
      cases h with
      | assignment _ htarget hs hv =>
          exact List.rel_append (List.rel_append (callsInto_like target .nil htarget)
            (callsAll_like typing hs)) (callsInto_like value (targets_like htarget ht) hv)
  | .construct _ _ parts, n', ts, ts', ht, h => by
      cases h with
      | construct _ hs => exact callsAll_like parts hs

theorem callsAll_like : ∀ (ns : List Node) {ns' : List Node},
    List.Forall₂ (Node.Like T) ns ns' → List.Forall₂ (Call.Like T) (callsAll ns) (callsAll ns')
  | [], ns', h => by
      cases h
      exact .nil
  | n :: ns, ns', h => by
      cases h with
      | cons hn hs => exact List.rel_append (callsInto_like n .nil hn) (callsAll_like ns hs)

end

theorem Like.calls_eq_nil {n n' : Node} (h : n.Like T n') (hn : n'.calls = []) : n.calls = [] := by
  have hc := callsInto_like n .nil h
  rw [← calls, ← calls, hn] at hc
  exact List.forall₂_nil_right_iff.1 hc

end Node

namespace Call

variable {c c' : Call}

theorem parents_like (h : c.arguments.Like T c'.arguments) :
    List.Forall₂ (CommandExpr.Like T) (c.parents o) (c'.parents o) := by
  unfold Call.parents
  split
  · exact .nil
  · exact Node.parentExprs_like h

theorem step?_like (h : c.Like T c') : Option.Rel (Step.Like T) (c.step? o) (c'.step? o) := by
  have hp := parents_like (o := o) h.arguments
  obtain ⟨ht, hx, hlast, hf, ha⟩ := h
  have hempty : c'.targets.isEmpty = c.targets.isEmpty := isEmpty_eq_of_forall₂ ht
  have hparser : Option.Rel (Step.Like T)
      (if c.targets.isEmpty then none
        else some (.parser c.targets (c.parents o) c.extent.line))
      (if c'.targets.isEmpty then none
        else some (.parser c'.targets (c'.parents o) c'.extent.line)) := by
    rw [hempty]
    split
    · exact .none
    · exact .some (.parser ht hp hx.line)
  unfold step?
  dsimp only
  generalize c.function = function at hf ⊢
  generalize c'.function = function' at hf ⊢
  cases hf with
  | identifier hn _ =>
      dsimp only
      simp only [T.parserClass_iff hn]
      split
      · exact hparser
      · exact .none
  | @atom kind _ _ hk _ _ =>
      cases kind with
      | identifier => exact absurd rfl hk
      | _ => exact .none
  | member _ ho =>
      dsimp only
      rw [hempty]
      split_ifs
      · exact .none
      · exact .some (.parser ht hp hx.line)
      · exact .none
      · exact .some (.subparsers ht (Node.commandExpr_like ho))
      · exact .some (.command (.added (Node.groupExpr_like ho)
          (Node.subcommandName_like ha hx.line) ht hp hx.line))
      · exact .some (.argument (Node.commandExpr_like ho) (Node.declaration_like ha hx.line) hlast)
      · exact .none
      · exact .some (.argumentGroup ht (Node.commandExpr_like ho))
      · exact .none
  | _ => exact .none

end Call

theorem forall₂_steps_of_calls {cs cs' : List Call} (h : List.Forall₂ (Call.Like T) cs cs') :
    List.Forall₂ (Step.Like T) (cs.filterMap (Call.step? o)) (cs'.filterMap (Call.step? o)) :=
  List.rel_filterMap (fun _ _ hc => Call.step?_like hc) h

theorem Node.Like.steps {n n' : Node} (h : n.Like T n') :
    List.Forall₂ (Step.Like T) (n.steps o) (n'.steps o) :=
  forall₂_steps_of_calls (Node.callsInto_like n .nil h)

end CliCompletion
