import CliCompletion.Proofs.Records
import CliCompletion.Proofs.Revisits

namespace CliCompletion

namespace Registry

variable {r r' r'' : Registry}

structure Precedes (r r' : Registry) : Prop where
  commands : r.commands.entries <+: r'.commands.entries
  arguments : r.arguments <+: r'.arguments

theorem Precedes.refl (r : Registry) : r.Precedes r :=
  ⟨List.prefix_rfl, List.prefix_rfl⟩

theorem Precedes.trans (h : r.Precedes r') (h' : r'.Precedes r'') : r.Precedes r'' :=
  ⟨h.commands.trans h'.commands, h.arguments.trans h'.arguments⟩

theorem Move.precedes (hm : Move r r') (h : r.Numbered) : r.Precedes r' where
  commands := hm.prefix_entries h
  arguments := by
    cases hm with
    | bind _ => exact List.prefix_rfl
    | addCommand _ => exact addCommand_arguments ▸ List.prefix_rfl
    | addArgument _ => exact List.prefix_append _ _

theorem Reaches.precedes (hr : r.Reaches r') (h : r.Sound) : r.Precedes r' := by
  induction hr with
  | refl => exact .refl r
  | tail hr hm ih => exact ih.trans (hm.precedes (Reaches.sound hr h).numbered)

end Registry

namespace CommandTree

open Registering

variable {o : ExtractionOptions} {hints : List Hint}

theorem eq_noParser_of_tree {r : Registry} {e : ExtractionError} (h : r.tree = .error e) :
    e = .noParser := by
  rw [Registry.tree] at h
  cases hr : r.root? with
  | none =>
      rw [hr] at h
      exact (Except.error.inj h).symm
  | some root =>
      rw [hr] at h
      cases h

structure Begins (hints : List Hint) (t₁ t : CommandTree) : Prop where
  commands : t₁.commands.entries <+: t.commands.entries
  arguments : (t₁.mapArguments (.hintedBy hints)).arguments <+: t.arguments

theorem hintedBy_hintedBy (t : CommandTree) (hints₁ hints : List Hint) :
    (t.mapArguments (.hintedBy hints₁)).mapArguments (.hintedBy hints) =
      t.mapArguments (.hintedBy hints) := by
  simp only [mapArguments, List.map_map]
  rfl

theorem tree_of_append {kind : Construct} {x : Extent} {first rest : List Node}
    {t : CommandTree} (h : ofNode o hints (.construct kind x (first ++ rest)) = .ok t)
    (x₁ : Extent) : ∃ r : Registry, ofNode o hints (.construct kind x₁ first) = r.tree ∧
      r.commands.entries <+: t.commands.entries ∧ r.arguments <+: t.arguments := by
  obtain ⟨r', hs, ht⟩ := ofSteps_ok.1 h
  have hw : walk o hints (Node.callsAll first ++ Node.callsAll rest) .empty = .ok ((), r') := by
    rw [← Node.callsAll_append]
    exact hs
  obtain ⟨r, hr, hr'⟩ := walk_append_ok.1 hw
  have hfirst : steps hints ((Node.construct kind x₁ first).steps o) .empty = .ok ((), r) := hr
  have hsound := walk_sound Registry.sound_empty hr
  have hp := (walk_reaches hsound hr').precedes hsound
  obtain ⟨root, -, rfl⟩ := Registry.tree_ok.1 ht
  exact ⟨r, by rw [ofNode, ofSteps_eq, hfirst], hp.commands, hp.arguments⟩

theorem registrations_append_only (o : ExtractionOptions) (hints : List Hint) :
    (∀ (cs ds : List Call) (r r' : Registry), walk o hints cs .empty = .ok ((), r) →
      walk o hints ds r = .ok ((), r') → r.Precedes r') ∧
    ∀ (kind : Construct) (x x₁ : Extent) (first rest : List Node) (hints₁ : List Hint)
      (t : CommandTree), ofNode o hints (.construct kind x (first ++ rest)) = .ok t →
      (∀ t₁, ofNode o hints₁ (.construct kind x₁ first) = .ok t₁ → t₁.Begins hints t) ∧
      ∀ e, ofNode o hints₁ (.construct kind x₁ first) = .error e → e = .noParser := by
  constructor
  · intro cs ds r r' hr hr'
    have hs := walk_sound Registry.sound_empty hr
    exact (walk_reaches hs hr').precedes hs
  · intro kind x x₁ first rest hints₁ t h
    obtain ⟨r, hr, hc, ha⟩ := tree_of_append h x₁
    have h₁ : ofNode o hints₁ (.construct kind x₁ first) =
        r.tree.map (·.mapArguments (.hintedBy hints₁)) := by
      rw [← hr]
      exact ofSteps_hintedBy hints hints₁ _
    rw [h₁]
    cases ht : r.tree with
    | error e =>
        refine ⟨fun t₁ h₁ => (nomatch h₁), fun e' he => ?_⟩
        cases he
        exact eq_noParser_of_tree ht
    | ok t₀ =>
        refine ⟨fun t₁ h₁ => ?_, fun e he => (nomatch he)⟩
        cases h₁
        have h₀ := hintedBy_of_ofSteps (hr.trans ht)
        obtain ⟨root, -, rfl⟩ := Registry.tree_ok.1 ht
        refine ⟨hc, ?_⟩
        rw [hintedBy_hintedBy, h₀]
        exact ha

def parserStatement : Node :=
  .assignment ⟨"p = ArgumentParser()", 1, 1⟩ (.atom .identifier ⟨"p", 1, 1⟩) []
    (.call ⟨"ArgumentParser()", 1, 1⟩ (.atom .identifier ⟨"ArgumentParser", 1, 1⟩)
      (.group .arguments ⟨"()", 1, 1⟩ []))

def reusingStatement : Node :=
  .assignment ⟨"p = p.add_parser(\"x\")", 2, 2⟩ (.atom .identifier ⟨"p", 2, 2⟩) []
    (.call ⟨"p.add_parser(\"x\")", 2, 2⟩
      (.member ⟨"p.add_parser", 2, 2⟩ (.atom .identifier ⟨"p", 2, 2⟩) "add_parser")
      (.group .arguments ⟨"(\"x\")", 2, 2⟩ [.string ⟨"\"x\"", 2, 2⟩ []]))

theorem append_only_of_reused_handle :
    ∃ (r r' : Registry) (t t₁ : CommandTree),
      walk ⟨"m", []⟩ [] parserStatement.calls .empty = .ok ((), r) ∧
      walk ⟨"m", []⟩ [] reusingStatement.calls r = .ok ((), r') ∧ r.Precedes r' ∧
      ofNode ⟨"m", []⟩ [] (.construct .part ⟨"", 1, 3⟩ [parserStatement, reusingStatement]) =
        .ok t ∧
      ofNode ⟨"m", []⟩ [] (.construct .part ⟨"", 1, 2⟩ [parserStatement]) = .ok t₁ ∧
      t₁.Begins [] t := by
  have hw : (walk ⟨"m", []⟩ [] (parserStatement.calls ++ reusingStatement.calls)
      .empty).toOption.isSome = true := by decide +kernel
  have ht : (ofNode ⟨"m", []⟩ [] (.construct .part ⟨"", 1, 3⟩
      ([parserStatement] ++ [reusingStatement]))).toOption.isSome = true := by decide +kernel
  have ht₁ : (ofNode ⟨"m", []⟩ [] (.construct .part ⟨"", 1, 2⟩
      [parserStatement])).toOption.isSome = true := by decide +kernel
  obtain ⟨⟨⟨⟩, r'⟩, hw⟩ := exists_eq_ok hw
  obtain ⟨r, hr, hr'⟩ := walk_append_ok.1 hw
  obtain ⟨t, ht⟩ := exists_eq_ok ht
  obtain ⟨t₁, ht₁⟩ := exists_eq_ok ht₁
  obtain ⟨hgrow, hbegin⟩ := registrations_append_only ⟨"m", []⟩ []
  exact ⟨r, r', t, t₁, hr, hr', hgrow _ _ r r' hr hr', ht, ht₁,
    (hbegin _ _ _ _ _ [] t ht).1 t₁ ht₁⟩

end CommandTree

end CliCompletion
