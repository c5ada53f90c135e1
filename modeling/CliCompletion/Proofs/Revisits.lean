import CliCompletion.Proofs.Calls

namespace CliCompletion

namespace Registering

open Registry

variable {o : ExtractionOptions} {hints : List Hint} {s : Step} {c d : Call} {cs ds : List Call}
  {r r' r₁ r₂ r₃ : Registry} {e owner : CommandExpr}

theorem step_owner_ok (ho : s.owner? = some owner) (hs : step hints s r = .ok ((), r')) :
    ∃ id r₁, command owner r = .ok (id, r₁) ∧ r'.commands = r₁.commands ∧
      ∀ x, x ∉ s.targets → r'.bindings x = r₁.bindings x := by
  cases s with
  | parser targets parents line => cases ho
  | subparsers targets owner =>
      cases ho
      obtain ⟨i, r₁, ho, rfl⟩ := step_subparsers_ok.1 hs
      exact ⟨i, r₁, ho, rfl, fun x hx => bind_bindings_of_not_mem hx _⟩
  | argumentGroup targets owner =>
      cases ho
      obtain ⟨i, r₁, ho, rfl⟩ := step_argumentGroup_ok.1 hs
      exact ⟨i, r₁, ho, rfl, fun x hx => bind_bindings_of_not_mem hx _⟩
  | command e => cases ho
  | argument owner content lastLine =>
      cases ho
      obtain ⟨i, r₁, d, ho, -, rfl⟩ := step_argument_ok.1 hs
      exact ⟨i, r₁, ho, rfl, fun _ _ => rfl⟩

def walk (o : ExtractionOptions) (hints : List Hint) (cs : List Call) : Registering Unit :=
  steps hints (cs.filterMap (Call.step? o))

theorem walk_append (cs ds : List Call) :
    walk o hints (cs ++ ds) = walk o hints cs >>= fun _ => walk o hints ds := by
  rw [walk, List.filterMap_append, walk, walk]
  induction cs.filterMap (Call.step? o) with
  | nil => exact (pure_bind _ _).symm
  | cons s ss ih =>
      rw [List.cons_append, steps, steps, ih, bind_assoc]

theorem walk_singleton (c : Call) :
    walk o hints [c] = steps hints (c.step? o).toList := by
  rw [walk]
  cases hs : c.step? o with
  | none => rw [List.filterMap_cons_none hs]; rfl
  | some s => rw [List.filterMap_cons_some hs]; rfl

theorem walk_nil_ok : walk o hints [] r = .ok ((), r') ↔ r' = r :=
  steps_nil_ok

theorem walk_append_ok : walk o hints (cs ++ ds) r = .ok ((), r') ↔
    ∃ r₁, walk o hints cs r = .ok ((), r₁) ∧ walk o hints ds r₁ = .ok ((), r') := by
  simp only [walk, List.filterMap_append]
  exact steps_append_ok

theorem walk_cons_ok : walk o hints (c :: cs) r = .ok ((), r') ↔
    ∃ r₁, walk o hints [c] r = .ok ((), r₁) ∧ walk o hints cs r₁ = .ok ((), r') :=
  @walk_append_ok o hints [c] cs r r'

theorem walk_reaches (h : r.Sound) (hw : walk o hints cs r = .ok ((), r')) : r.Reaches r' :=
  steps_reaches h hw

theorem walk_sound (h : r.Sound) (hw : walk o hints cs r = .ok ((), r')) : r'.Sound :=
  (walk_reaches h hw).sound h

theorem walk_prefix_entries (h : r.Sound) (hw : walk o hints cs r = .ok ((), r')) :
    r.commands.entries <+: r'.commands.entries :=
  (walk_reaches h hw).prefix_entries h

theorem call_cases (hw : walk o hints [c] r = .ok ((), r')) :
    (c.step? o = none ∧ r' = r) ∨ ∃ s, c.step? o = some s ∧ step hints s r = .ok ((), r') := by
  cases hs : c.step? o with
  | none =>
      rw [walk, List.filterMap_cons_none hs, List.filterMap_nil] at hw
      exact .inl ⟨rfl, steps_nil_ok.1 hw⟩
  | some s =>
      rw [walk, List.filterMap_cons_some hs, List.filterMap_nil] at hw
      obtain ⟨r₁, hstep, hnil⟩ := steps_cons_ok.1 hw
      rw [steps_nil_ok.1 hnil]
      exact .inr ⟨s, rfl, hstep⟩

theorem call_step_ok (hs : c.step? o = some s) (hw : walk o hints [c] r = .ok ((), r')) :
    step hints s r = .ok ((), r') := by
  rcases call_cases hw with ⟨hnone, -⟩ | ⟨s', hs', hstep⟩
  · rw [hs] at hnone
    cases hnone
  · rw [hs] at hs'
    cases hs'
    exact hstep

theorem call_bindings (hw : walk o hints [c] r = .ok ((), r')) {x : String}
    (hx : x ∉ c.targets) : r'.bindings x = r.bindings x := by
  rcases call_cases hw with ⟨-, rfl⟩ | ⟨s, hs, hstep⟩
  · rfl
  · rcases Call.step?_cases hs with ⟨rfl, -⟩ | ⟨y, object, hf, rfl⟩ | ⟨y, object, name, hf, ho, ht⟩
    · obtain ⟨ids, r₁, hps, rfl⟩ := step_parser_ok.1 hstep
      rw [addCommand_bindings, ← commands_bindings _ (c.parents_plain o) hps]
      exact bind_bindings_of_not_mem hx _
    · obtain ⟨id, he⟩ := step_command_ok.1 hstep
      exact command_bindings _ (c.addition_plain o object c.targets) he x hx
    · obtain ⟨id, r₁, he, -, hb⟩ := step_owner_ok ho hstep
      have hp := Node.commandExpr_plain o object
      rw [hb x fun h => hx (ht h), command_bindings _ hp.inner he x (by simp [hp.targets])]

theorem walk_bindings {x : String} (hx : ∀ c ∈ cs, x ∉ c.targets)
    (hw : walk o hints cs r = .ok ((), r')) : r'.bindings x = r.bindings x := by
  induction cs generalizing r with
  | nil => rw [walk_nil_ok.1 hw]
  | cons c cs ih =>
      obtain ⟨r₁, hc, hcs⟩ := walk_cons_ok.1 hw
      exact (ih (fun d hd => hx d (List.mem_cons_of_mem _ hd)) hcs).trans
        (call_bindings hc (hx c (List.mem_cons_self ..)))

structure Visit (o : ExtractionOptions) (hints : List Hint) (cs : List Call) (r₀ : Registry)
    (c : Call) (r r₁ : Registry) : Prop where
  reached : ∃ before after, cs = before ++ c :: after ∧ walk o hints before r₀ = .ok ((), r)
  taken : walk o hints [c] r = .ok ((), r₁)

-- The step of `c` has resolved `e`, and the walk now comes to the call inside of `c` that `e` is.
structure Revisit (o : ExtractionOptions) (hints : List Hint) (cs : List Call) (r₀ : Registry)
    (c d : Call) (e : CommandExpr) (r r₁ r₂ r₃ : Registry) : Prop
    extends Visit o hints cs r₀ c r r₁ where
  resolved : ∃ s, c.step? o = some s ∧ s.Resolves r e
  between : ∃ mid rest, c.inner = mid ++ d :: rest ∧ walk o hints mid r₁ = .ok ((), r₂)
  addition : d.addition? o = some e
  retaken : walk o hints [d] r₂ = .ok ((), r₃)

def Idle (o : ExtractionOptions) (hints : List Hint) (cs : List Call) (r₀ : Registry) : Prop :=
  ∀ c d e r r₁ r₂ r₃, Revisit o hints cs r₀ c d e r r₁ r₂ r₃ → r₃.commands = r₂.commands

variable {r₀ : Registry}

theorem Visit.sound (hv : Visit o hints cs r₀ c r r₁) (h₀ : r₀.Sound) : r.Sound := by
  obtain ⟨before, after, -, hw⟩ := hv.reached
  exact walk_sound h₀ hw

theorem Visit.prefix_entries (hv : Visit o hints cs r₀ c r r₁) (h₀ : r₀.Sound)
    (hw : walk o hints cs r₀ = .ok ((), r')) :
    r₁.commands.entries <+: r'.commands.entries := by
  have h₁ := walk_sound (hv.sound h₀) hv.taken
  obtain ⟨⟨before, after, rfl, hbefore⟩, hc⟩ := hv
  obtain ⟨q, hq, hw⟩ := walk_append_ok.1 hw
  cases hbefore.symm.trans hq
  obtain ⟨q₁, hq₁, hw⟩ := walk_cons_ok.1 hw
  cases hc.symm.trans hq₁
  exact walk_prefix_entries h₁ hw

theorem Revisit.commands_ne_iff (hv : Revisit o hints cs r₀ c d e r r₁ r₂ r₃) (h₀ : r₀.Sound) :
    r₃.commands ≠ r₂.commands ↔ r₂.find? r₂.bindings e = none := by
  obtain ⟨mid, rest, -, hmid⟩ := hv.between
  have h₂ := walk_sound (walk_sound (hv.sound h₀) hv.taken) hmid
  obtain ⟨x, object, -, rfl, hs⟩ := Call.step?_of_addition? hv.addition
  obtain ⟨id, he⟩ := step_command_ok.1 (call_step_ok hs hv.retaken)
  rw [command_commands_ne_iff (d.addition_plain o object d.targets) h₂ he]
  exact Eq.congr_left (find?_added _)

theorem idle_iff (h₀ : r₀.Sound) : Idle o hints cs r₀ ↔
    ∀ c d e r r₁ r₂ r₃, Revisit o hints cs r₀ c d e r r₁ r₂ r₃ →
      r₂.find? r₂.bindings e ≠ none := by
  constructor
  · intro h c d e r r₁ r₂ r₃ hv hf
    exact (hv.commands_ne_iff h₀).2 hf (h c d e r r₁ r₂ r₃ hv)
  · intro h c d e r r₁ r₂ r₃ hv
    refine Classical.byContradiction fun hne => ?_
    exact h c d e r r₁ r₂ r₃ hv ((hv.commands_ne_iff h₀).1 hne)

theorem Revisit.found (hv : Revisit o hints cs r₀ c d e r r₁ r₂ r₃) (h₀ : r₀.Sound)
    (hn : r₁.commands.places.Nodup) : r₁.find? r.bindings e ≠ none := by
  have h := hv.sound h₀
  obtain ⟨s, hs, hr⟩ := hv.resolved
  have hstep := call_step_ok hs hv.taken
  rcases Call.step?_cases hs with ⟨rfl, -⟩ | ⟨x, object, -, rfl⟩ | ⟨x, object, name, -, ho, -⟩
  · obtain ⟨ids, q, hps, rfl⟩ := step_parser_ok.1 hstep
    have hq := ((commands_reaches _ h hps).1.sound h).numbered
    have hle := hq.prefix_addCommand c.targets "" none ids c.extent.line
    have hf := commands_resolves_found _ (c.parents_plain o) h hps (prefix_places_nodup hle hn) hr
    exact find?_ne_none_mono hle hf
  · obtain ⟨id, hrun⟩ := step_command_ok.1 hstep
    exact resolves_found _ (c.addition_plain o object c.targets) h hrun hn hr
  · obtain ⟨id, q, hrun, hcs, -⟩ := step_owner_ok ho hstep
    rw [hcs] at hn
    have hp := (Node.commandExpr_plain o object).inner
    have hf := resolves_found _ hp h hrun hn ((Step.resolves_of_owner? ho).1 hr)
    rwa [find?_congr hcs]

theorem Revisit.rebinds (hv : Revisit o hints cs r₀ c d e r r₁ r₂ r₃) (h₀ : r₀.Sound)
    (hn : r₁.commands.places.Nodup) (hf : r₂.find? r₂.bindings e = none) :
    ∃ x, e.start? = some x ∧ c.rebinds x := by
  obtain ⟨mid, rest, hinner, hmid⟩ := hv.between
  have h₁ := walk_sound (hv.sound h₀) hv.taken
  refine Classical.byContradiction fun hnot => ?_
  have hstart : ∀ x, e.start? = some x → r₂.bindings x = r.bindings x := by
    intro x hx
    have hkept : c.rebinds x = false := Bool.eq_false_iff.2 fun hx' => hnot ⟨x, hx, hx'⟩
    simp only [Call.rebinds, Bool.or_eq_false_iff, List.any_eq_false, List.contains_iff_mem]
      at hkept
    have hc : x ∉ c.targets := by simpa using hkept.1
    have hd : ∀ d ∈ mid, x ∉ d.targets := by
      intro d hd
      exact hkept.2 d (hinner ▸ List.mem_append_left _ hd)
    exact (walk_bindings hd hmid).trans (call_bindings hv.taken hc)
  obtain ⟨id, hid⟩ := Option.ne_none_iff_exists'.1 (hv.found h₀ hn)
  rw [find?_mono (walk_prefix_entries h₁ hmid) e hstart hid] at hf
  cases hf

theorem Revisit.restarts (hv : Revisit o hints cs r₀ c d e r r₁ r₂ r₃)
    (hx : ∃ x, e.start? = some x ∧ c.rebinds x) : ∃ c ∈ cs, c.restarts o = true := by
  obtain ⟨x, hx, hr⟩ := hx
  obtain ⟨before, after, hcs, -⟩ := hv.reached
  obtain ⟨mid, rest, hinner, -⟩ := hv.between
  have hd : d ∈ c.inner := hinner ▸ List.mem_append_right _ (List.mem_cons_self ..)
  refine ⟨c, hcs ▸ List.mem_append_right _ (List.mem_cons_self ..), ?_⟩
  refine List.any_eq_true.2 ⟨e, List.mem_filterMap.2 ⟨d, hd, hv.addition⟩, ?_⟩
  rw [hx]
  exact hr

end Registering

end CliCompletion
