import CliCompletion.Proofs.Revisits

namespace CliCompletion

def Call.quota (cs : List Call) : Nat :=
  cs.countP Call.makesParser + cs.countP Call.addsParser

theorem Call.quota_append (cs ds : List Call) :
    Call.quota (cs ++ ds) = Call.quota cs + Call.quota ds := by
  simp only [Call.quota, List.countP_append]
  omega

theorem Call.quota_cons (c : Call) (cs : List Call) :
    Call.quota (c :: cs) = Call.quota [c] + Call.quota cs :=
  Call.quota_append [c] cs

namespace Registering

open Registry

variable {o : ExtractionOptions} {hints : List Hint} {c : Call} {cs ds : List Call}
  {r r' r₁ q q' : Registry} {settled : CommandExpr → Prop}

theorem Idle.left (h : Idle o hints (cs ++ ds) q) : Idle o hints cs q := by
  intro c d e r r₁ r₂ r₃ hv
  obtain ⟨before, after, hcs, hw⟩ := hv.reached
  refine h c d e r r₁ r₂ r₃ { hv with reached := ⟨before, after ++ ds, ?_, hw⟩ }
  rw [hcs, List.append_assoc, List.cons_append]

theorem Idle.right (h : Idle o hints (cs ++ ds) q) (hcs : walk o hints cs q = .ok ((), q')) :
    Idle o hints ds q' := by
  intro c d e r r₁ r₂ r₃ hv
  obtain ⟨before, after, hds, hw⟩ := hv.reached
  have hw := walk_append_ok.2 ⟨q', hcs, hw⟩
  refine h c d e r r₁ r₂ r₃ { hv with reached := ⟨cs ++ before, after, ?_, hw⟩ }
  rw [hds, List.append_assoc]

-- The calls of a walk whose expressions are settled register nothing.
def Quiet (o : ExtractionOptions) (hints : List Hint) (settled : CommandExpr → Prop)
    (cs : List Call) (q : Registry) : Prop :=
  ∀ mid d rest e q₂ q₃, cs = mid ++ d :: rest → walk o hints mid q = .ok ((), q₂) →
    d.addition? o = some e → settled e → walk o hints [d] q₂ = .ok ((), q₃) →
    q₃.commands = q₂.commands

theorem Quiet.left (h : Quiet o hints settled (cs ++ ds) q) : Quiet o hints settled cs q := by
  intro mid d rest e q₂ q₃ hcs
  refine h mid d (rest ++ ds) e q₂ q₃ ?_
  rw [hcs, List.append_assoc, List.cons_append]

theorem Quiet.right (h : Quiet o hints settled (cs ++ ds) q)
    (hcs : walk o hints cs q = .ok ((), q')) : Quiet o hints settled ds q' := by
  intro mid d rest e q₂ q₃ hds hw
  refine h (cs ++ mid) d rest e q₂ q₃ ?_ (walk_append_ok.2 ⟨q', hcs, hw⟩)
  rw [hds, List.append_assoc]

structure Walk (o : ExtractionOptions) (hints : List Hint) (cs : List Call) (q q' : Registry) :
    Prop where
  sound : q.Sound
  walked : walk o hints cs q = .ok ((), q')
  idle : Idle o hints cs q

structure Rewalk (o : ExtractionOptions) (hints : List Hint) (settled : CommandExpr → Prop)
    (cs : List Call) (q q' : Registry) : Prop extends Walk o hints cs q q' where
  quiet : Quiet o hints settled cs q

theorem Walk.append (h : Walk o hints (cs ++ ds) q q') :
    ∃ m, Walk o hints cs q m ∧ Walk o hints ds m q' := by
  obtain ⟨m, hcs, hds⟩ := walk_append_ok.1 h.walked
  exact ⟨m, ⟨h.sound, hcs, h.idle.left⟩, ⟨walk_sound h.sound hcs, hds, h.idle.right hcs⟩⟩

theorem Rewalk.append (h : Rewalk o hints settled (cs ++ ds) q q') :
    ∃ m, Rewalk o hints settled cs q m ∧ Rewalk o hints settled ds m q' := by
  obtain ⟨m, hcs, hds⟩ := h.toWalk.append
  exact ⟨m, ⟨hcs, h.quiet.left⟩, ⟨hds, h.quiet.right hcs.walked⟩⟩

def Bounded (o : ExtractionOptions) (hints : List Hint) (cs : List Call) : Prop :=
  ∀ q q', Walk o hints cs q q' → q'.commands.length ≤ q.commands.length + Call.quota cs

theorem bounded_nil : Bounded o hints [] := by
  intro q q' h
  rw [walk_nil_ok.1 h.walked]
  exact Nat.le_add_right _ _

theorem Bounded.append (hcs : Bounded o hints cs) (hds : Bounded o hints ds) :
    Bounded o hints (cs ++ ds) := by
  intro q q' h
  obtain ⟨m, hw₁, hw₂⟩ := h.append
  have hfirst := hcs q m hw₁
  have hlast := hds m q' hw₂
  rw [Call.quota_append]
  omega

structure Evaluation where
  runs : Registry → Registry → Prop
  resolves : Registry → CommandExpr → Prop

-- The walk may start from another registry than the evaluation: names are rebound in between.
def Accounted (o : ExtractionOptions) (hints : List Hint) (v : Evaluation) (extra : Nat)
    (cs : List Call) : Prop :=
  ∀ r r' settled q q', r.Sound → v.runs r r' → (∀ e, v.resolves r e → settled e) →
    Rewalk o hints settled cs q q' →
    r'.commands.length + q'.commands.length ≤
      r.commands.length + q.commands.length + extra + Call.quota cs

variable {v : Evaluation} {k : Nat}

theorem Accounted.then_bounded (h : Accounted o hints v k cs) (hds : Bounded o hints ds) :
    Accounted o hints v k (cs ++ ds) := by
  intro r r' settled q q' hs hr hd hw
  obtain ⟨p, hw₁, hw₂⟩ := hw.append
  have hfirst := h r r' settled q p hs hr hd hw₁
  have hlast := hds p q' hw₂.toWalk
  rw [Call.quota_append]
  omega

theorem Bounded.then_accounted (hcs : Bounded o hints cs) (h : Accounted o hints v k ds) :
    Accounted o hints v k (cs ++ ds) := by
  intro r r' settled q q' hs hr hd hw
  obtain ⟨p, hw₁, hw₂⟩ := hw.append
  have hfirst := hcs q p hw₁.toWalk
  have hlast := h r r' settled p q' hs hr hd hw₂
  rw [Call.quota_append]
  omega

def Evaluation.Still (v : Evaluation) : Prop :=
  ∀ r r', v.runs r r' → r'.commands = r.commands

theorem Bounded.accounted (h : Bounded o hints cs) (hv : v.Still) : Accounted o hints v 0 cs := by
  intro r r' settled q q' _ hr _ hw
  have hq := h q q' hw.toWalk
  rw [hv r r' hr]
  omega

end Registering

open Registering

def CommandExpr.evaluation (e : CommandExpr) : Evaluation :=
  ⟨fun r r' => ∃ id, command e r = .ok (id, r'), e.Resolves⟩

def GroupExpr.evaluation (g : GroupExpr) : Evaluation :=
  ⟨fun r r' => ∃ id, groupOwner g r = .ok (id, r'), g.Resolves⟩

def CommandExpr.evaluations (es : List CommandExpr) : Evaluation :=
  ⟨fun r r' => ∃ ids, commands es r = .ok (ids, r'), CommandExpr.AnyResolves es⟩

theorem CommandExpr.evaluation_grouped (owner : CommandExpr) :
    (grouped owner).evaluation = owner.evaluation := by
  have hr : (grouped owner).Resolves = owner.Resolves := by
    funext r e
    rw [Resolves]
  simp only [evaluation, command_grouped, hr]

theorem GroupExpr.evaluation_opened (owner : CommandExpr) :
    (opened owner).evaluation = owner.evaluation := by
  have hr : (opened owner).Resolves = owner.Resolves := by
    funext r e
    rw [Resolves]
  simp only [evaluation, CommandExpr.evaluation, groupOwner_opened, hr]

def Call.evaluation (o : ExtractionOptions) (hints : List Hint) (c : Call) : Evaluation :=
  ⟨fun r r' => walk o hints [c] r = .ok ((), r'),
    fun r e => ∃ s, c.step? o = some s ∧ s.Resolves r e⟩

namespace Registering

open Registry

variable {o : ExtractionOptions} {hints : List Hint} {c : Call} {cs ds : List Call}

theorem accounted_cons {e : CommandExpr} {es : List CommandExpr}
    (he : Accounted o hints e.evaluation 0 cs)
    (hes : Accounted o hints (CommandExpr.evaluations es) 0 ds) :
    Accounted o hints (CommandExpr.evaluations (e :: es)) 0 (cs ++ ds) := by
  rintro r r' settled q q' hs ⟨ids, hr⟩ hd hw
  obtain ⟨id, is, m, hid, his, -⟩ := commands_cons_ok.1 hr
  obtain ⟨p, hw₁, hw₂⟩ := hw.append
  have hm := (command_reaches e hs hid).1.sound hs
  have hfirst := he r m settled q p hs ⟨id, hid⟩ (fun e' h => hd e' (.inl h)) hw₁
  have hlast := hes m r' settled p q' hm ⟨is, his⟩
    (fun e' h => hd e' (.inr ⟨id, m, hid, h⟩)) hw₂
  rw [Call.quota_append]
  omega

section Call

variable (hparents : Accounted o hints (CommandExpr.evaluations (c.parents o)) 0 c.arguments.calls)
  (harguments : Bounded o hints c.arguments.calls)

include hparents harguments

theorem accounted_addition {object : Node}
    (hgroup : Accounted o hints (object.groupExpr o).evaluation 0 c.function.calls)
    (targets : List String) :
    Accounted o hints (c.addition o object targets).evaluation 1 c.inner := by
  rintro r r' settled q q' hs ⟨id, he⟩ hd hw
  obtain ⟨owner, m, n, hg, hm, hn, -, ha⟩ := command_added_cases hs he
  obtain ⟨p, hw₁, hw₂⟩ := hw.append
  have hfirst := hgroup r m settled q p hs ⟨owner, hg⟩ (fun e h => hd e (.inr (.inl h))) hw₁
  rw [Call.inner, Call.quota_append]
  rcases ha with ⟨-, rfl⟩ | ⟨hc, ids, s, hps, hsound, -, -, rfl⟩
  · have hlast := harguments p q' hw₂.toWalk
    have hsame : (m.bind targets (.command id)).commands.length = m.commands.length := rfl
    omega
  · have hlast := hparents m s settled p q' hm ⟨ids, hps⟩
      (fun e h => hd e (.inr (.inr ⟨owner, m, n, hg, hn, hc, h⟩))) hw₂
    rw [hsound.numbered.length_addCommand]
    omega

theorem accounted_call (hfunction : Bounded o hints c.function.calls)
    (hobject : ∀ x object name, c.function = .member x object name →
      Accounted o hints (object.commandExpr o).evaluation 0 c.function.calls ∧
        Accounted o hints (object.groupExpr o).evaluation 0 c.function.calls) :
    Accounted o hints (c.evaluation o hints) (Call.quota [c]) c.inner := by
  intro r r' settled q q' hs hr hd hw
  rcases call_cases hr with ⟨-, rfl⟩ | ⟨s, hstep?, hstep⟩
  · have hinner := hfunction.append harguments q q' hw.toWalk
    rw [Call.inner]
    omega
  · have hd : ∀ e, s.Resolves r e → settled e := fun e h => hd e ⟨s, hstep?, h⟩
    rcases Call.step?_cases hstep? with ⟨rfl, hp⟩ | ⟨x, object, hf, rfl⟩ |
      ⟨x, object, name, hf, ho, -⟩
    · have hone : Call.quota [c] = 1 + [c].countP Call.addsParser := by
        simp [Call.quota, hp]
      obtain ⟨ids, m, hps, rfl⟩ := step_parser_ok.1 hstep
      have hm := ((commands_reaches _ hs hps).1.sound hs).numbered
      have hq := (hfunction.then_accounted hparents) r m settled q q' hs ⟨ids, hps⟩ hd hw
      rw [hm.length_addCommand, Call.inner]
      omega
    · have hone : Call.quota [c] = [c].countP Call.makesParser + 1 := by
        simp [Call.quota, Call.addsParser, hf]
      obtain ⟨id, he⟩ := step_command_ok.1 hstep
      have hadded := accounted_addition hparents harguments (hobject _ _ _ hf).2 c.targets
      have hq := hadded r r' settled q q' hs ⟨id, he⟩ hd hw
      omega
    · obtain ⟨id, m, he, hcs, -⟩ := step_owner_ok ho hstep
      have hq := ((hobject _ _ _ hf).1.then_bounded harguments) r m settled q q' hs ⟨id, he⟩
        (fun e h => hd e ((Step.resolves_of_owner? ho).2 h)) hw
      rw [hcs, Call.inner]
      omega

omit hparents in
theorem accounted_receiver {v : Evaluation} (hstep : c.step? o = none)
    (hv : Accounted o hints v 0 c.function.calls) : Accounted o hints v 0 (c :: c.inner) := by
  have hself : Bounded o hints [c] := by
    intro q q' hw
    rcases call_cases hw.walked with ⟨-, rfl⟩ | ⟨s, hs, -⟩
    · exact Nat.le_add_right _ _
    · rw [hstep] at hs
      cases hs
  exact hself.then_accounted (hv.then_bounded harguments)

end Call

theorem Accounted.bounded (h : Accounted o hints (c.evaluation o hints) (Call.quota [c]) c.inner) :
    Bounded o hints (c :: c.inner) := by
  intro q q' hw
  have hsplit : Walk o hints ([c] ++ c.inner) q q' := hw
  obtain ⟨m, hc, hinner⟩ := hsplit.append
  have hquiet : Quiet o hints ((c.evaluation o hints).resolves q) c.inner m := by
    intro mid d rest e q₂ q₃ hcs hmid hadd hres hagain
    have hreached : ∃ before after, c :: c.inner = before ++ c :: after ∧
        walk o hints before q = .ok ((), q) :=
      ⟨[], c.inner, rfl, walk_nil_ok.2 rfl⟩
    exact hw.idle c d e q m q₂ q₃
      ⟨⟨hreached, hc.walked⟩, hres, ⟨mid, rest, hcs, hmid⟩, hadd, hagain⟩
  have hq := h q m _ m q' hw.sound hc.walked (fun _ h => h) ⟨hinner, hquiet⟩
  rw [Call.quota_cons]
  omega

theorem Accounted.retaken {x : Extent} {object : Node}
    (hf : c.function = .member x object Vocabulary.addParser)
    (h : Accounted o hints (c.addition o object []).evaluation 1 c.inner) :
    Accounted o hints (c.addition o object []).evaluation 0 (c :: c.inner) := by
  intro r r' settled q q' hs hr hd hw
  have hsplit : Rewalk o hints settled ([c] ++ c.inner) q q' := hw
  obtain ⟨m, hc, hinner⟩ := hsplit.append
  have hadd : c.addition? o = some (c.addition o object []) := by
    rw [Call.addition?, hf]
    exact if_pos rfl
  have hsame : m.commands = q.commands :=
    hc.quiet [] c [] _ q m rfl (walk_nil_ok.2 rfl) hadd (hd _ (.inl rfl)) hc.walked
  have hq := h r r' settled m q' hs hr hd hinner
  have hone : 1 ≤ Call.quota [c] := by
    simp [Call.quota, Call.addsParser, hf]
  rw [hsame] at hq
  rw [Call.quota_cons]
  omega

end Registering

end CliCompletion
