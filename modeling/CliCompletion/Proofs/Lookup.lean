import CliCompletion.Proofs.Siblings

namespace CliCompletion

open Registering

def Binding.command? : Binding → Option CommandId
  | command id => some id
  | group _ => none

mutual

def Registry.find? (r : Registry) (bindings : String → Option Binding) :
    CommandExpr → Option CommandId
  | .handle name _ => (bindings name).bind Binding.command?
  | .grouped owner => r.find? bindings owner
  | .refused _ => none
  | .added group name _ _ _ => (r.findOwner? bindings group).bind fun owner =>
      name.toOption.bind fun n => r.child? owner n

def Registry.findOwner? (r : Registry) (bindings : String → Option Binding) :
    GroupExpr → Option CommandId
  | .handle name _ => (bindings name).map Binding.owner
  | .opened owner => r.find? bindings owner
  | .refused _ => none

end

mutual

def CommandExpr.start? : CommandExpr → Option String
  | .handle name _ => some name
  | .grouped owner => owner.start?
  | .refused _ => none
  | .added group _ _ _ _ => group.start?

def GroupExpr.start? : GroupExpr → Option String
  | .handle name _ => some name
  | .opened owner => owner.start?
  | .refused _ => none

end

mutual

def CommandExpr.Plain : CommandExpr → Prop
  | .handle _ _ => True
  | .grouped owner => owner.Plain
  | .refused _ => True
  | .added group _ targets parents _ =>
      targets = [] ∧ group.Plain ∧ CommandExpr.AllPlain parents

def GroupExpr.Plain : GroupExpr → Prop
  | .handle _ _ => True
  | .opened owner => owner.Plain
  | .refused _ => True

def CommandExpr.AllPlain : List CommandExpr → Prop
  | [] => True
  | e :: es => e.Plain ∧ CommandExpr.AllPlain es

end

def CommandExpr.targets : CommandExpr → List String
  | .added _ _ targets _ _ => targets
  | _ => []

def CommandExpr.InnerPlain : CommandExpr → Prop
  | .added group _ _ parents _ => group.Plain ∧ CommandExpr.AllPlain parents
  | e => e.Plain

theorem CommandExpr.Plain.inner {e : CommandExpr} (h : e.Plain) : e.InnerPlain := by
  cases e with
  | added group name targets parents line =>
      rw [CommandExpr.Plain] at h
      exact h.2
  | _ => exact h

theorem CommandExpr.InnerPlain.owner {owner : CommandExpr} (h : (grouped owner).InnerPlain) :
    owner.Plain := by
  have h : (grouped owner).Plain := h
  rwa [CommandExpr.Plain] at h

theorem CommandExpr.Plain.targets {e : CommandExpr} (h : e.Plain) : e.targets = [] := by
  cases e with
  | added group name targets parents line =>
      rw [CommandExpr.Plain] at h
      exact h.1
  | _ => rfl

-- The sub-commands that an evaluation comes by. Those in `parents` count only for a new one, since
-- the list is not looked at otherwise.
mutual

def CommandExpr.Resolves : CommandExpr → Registry → CommandExpr → Prop
  | .handle _ _, _, _ => False
  | .grouped owner, r, e => owner.Resolves r e
  | .refused _, _, _ => False
  | .added group name _ parents line, r, e =>
      e = .added group name [] parents line ∨ group.Resolves r e ∨
        ∃ owner r₁ n, groupOwner group r = .ok (owner, r₁) ∧ name = .ok n ∧
          r₁.child? owner n = none ∧ CommandExpr.AnyResolves parents r₁ e

def GroupExpr.Resolves : GroupExpr → Registry → CommandExpr → Prop
  | .handle _ _, _, _ => False
  | .opened owner, r, e => owner.Resolves r e
  | .refused _, _, _ => False

def CommandExpr.AnyResolves : List CommandExpr → Registry → CommandExpr → Prop
  | [], _, _ => False
  | e₀ :: es, r, e => e₀.Resolves r e ∨
      ∃ id r₁, command e₀ r = .ok (id, r₁) ∧ CommandExpr.AnyResolves es r₁ e

end

namespace Registry

variable {r r' : Registry} {bindings bindings' : String → Option Binding}

theorem child?_mono (h : r.commands.entries <+: r'.commands.entries) {owner id : CommandId}
    {name : String} (hc : r.child? owner name = some id) : r'.child? owner name = some id := by
  obtain ⟨rest, hr⟩ := h
  obtain ⟨c, hf, rfl⟩ := Option.map_eq_some_iff.1 hc
  have hv : r'.commands.values = r.commands.values ++ rest.map (·.2) := by
    rw [OrderedMap.values, ← hr, List.map_append]
    rfl
  rw [child?, hv, List.find?_append, hf]
  rfl

mutual

theorem find?_mono (h : r.commands.entries <+: r'.commands.entries) :
    ∀ (e : CommandExpr) {id : CommandId},
      (∀ x, e.start? = some x → bindings' x = bindings x) →
      r.find? bindings e = some id → r'.find? bindings' e = some id
  | .handle x line, id, hb, he => by
      rw [find?] at he ⊢
      rw [hb x rfl]
      exact he
  | .grouped owner, id, hb, he => by
      rw [find?] at he ⊢
      exact find?_mono h owner hb he
  | .refused e, id, hb, he => by
      rw [find?] at he
      cases he
  | .added group name targets parents line, id, hb, he => by
      rw [find?] at he ⊢
      obtain ⟨owner, hg, he⟩ := Option.bind_eq_some_iff.1 he
      obtain ⟨n, hn, he⟩ := Option.bind_eq_some_iff.1 he
      rw [findOwner?_mono h group hb hg, Option.bind_some, hn, Option.bind_some]
      exact child?_mono h he

theorem findOwner?_mono (h : r.commands.entries <+: r'.commands.entries) :
    ∀ (g : GroupExpr) {id : CommandId},
      (∀ x, g.start? = some x → bindings' x = bindings x) →
      r.findOwner? bindings g = some id → r'.findOwner? bindings' g = some id
  | .handle x line, id, hb, hg => by
      rw [findOwner?] at hg ⊢
      rw [hb x rfl]
      exact hg
  | .opened owner, id, hb, hg => by
      rw [findOwner?] at hg ⊢
      exact find?_mono h owner hb hg
  | .refused e, id, hb, hg => by
      rw [findOwner?] at hg
      cases hg

end

theorem find?_ne_none_mono (h : r.commands.entries <+: r'.commands.entries) {e : CommandExpr}
    (he : r.find? bindings e ≠ none) : r'.find? bindings e ≠ none := by
  obtain ⟨id, hid⟩ := Option.ne_none_iff_exists'.1 he
  rw [find?_mono h e (fun _ _ => rfl) hid]
  exact Option.some_ne_none id

theorem find?_congr (h : r.commands = r'.commands) (e : CommandExpr) :
    r.find? bindings e = r'.find? bindings e := by
  refine Option.ext fun id => ⟨fun he => ?_, fun he => ?_⟩
  · exact find?_mono (h ▸ List.prefix_rfl) e (fun _ _ => rfl) he
  · exact find?_mono (h ▸ List.prefix_rfl) e (fun _ _ => rfl) he

theorem Numbered.child?_addCommand (h : r.Numbered) {owner : CommandId} {name : String}
    {targets : List String} {inherits : List CommandId} {line : Nat}
    (hc : r.child? owner name = none) :
    (r.addCommand targets name (some owner) inherits line).2.child? owner name =
      some (r.addCommand targets name (some owner) inherits line).1 := by
  have hc := Option.map_eq_none_iff.1 hc
  rw [child?, OrderedMap.values, h.addCommand_entries, List.map_append, List.find?_append]
  rw [OrderedMap.values] at hc
  rw [hc, addCommand_fst]
  simp

theorem Numbered.length_addCommand (h : r.Numbered) {parent : Option CommandId} {name : String}
    {targets : List String} {inherits : List CommandId} {line : Nat} :
    (r.addCommand targets name parent inherits line).2.commands.length =
      r.commands.length + 1 := by
  simp [OrderedMap.length, h.addCommand_entries]

theorem find?_added {group : GroupExpr} {name : Except ExtractionError String}
    (targets : List String) {parents : List CommandExpr} {line : Nat} :
    r.find? bindings (.added group name targets parents line) =
      r.find? bindings (.added group name [] parents line) := by
  rw [find?, find?]

theorem prefix_places_nodup (h : r.commands.entries <+: r'.commands.entries)
    (hn : r'.commands.places.Nodup) : r.commands.places.Nodup :=
  hn.sublist ((h.sublist.filter _).map _)

end Registry

namespace Registering

open Registry

variable {r r' : Registry} {id : CommandId}

theorem command_added_cases {group : GroupExpr} {name : Except ExtractionError String}
    {targets : List String} {parents : List CommandExpr} {line : Nat} (h : r.Sound)
    (he : command (.added group name targets parents line) r = .ok (id, r')) :
    ∃ owner r₁ n, groupOwner group r = .ok (owner, r₁) ∧ r₁.Sound ∧ name = .ok n ∧
      r₁.commands.entries <+: r'.commands.entries ∧
      ((r₁.child? owner n = some id ∧ r' = r₁.bind targets (.command id)) ∨
        (r₁.child? owner n = none ∧ ∃ ids r₂, commands parents r₁ = .ok (ids, r₂) ∧ r₂.Sound ∧
          r₁.commands.entries <+: r₂.commands.entries ∧
          id = (r₂.addCommand targets n (some owner) ids line).1 ∧
          r' = (r₂.addCommand targets n (some owner) ids line).2)) := by
  obtain ⟨owner, r₁, n, hg, hn, ha⟩ := command_added_ok.1 he
  have h₁ := (groupOwner_reaches group h hg).1.sound h
  refine ⟨owner, r₁, n, hg, h₁, hn, ?_⟩
  rcases ha with ⟨hc, rfl⟩ | ⟨hc, ids, r₂, hp, ha⟩
  · exact ⟨List.prefix_rfl, .inl ⟨hc, rfl⟩⟩
  · have hr₂ := (commands_reaches parents h₁ hp).1
    have h₂ := hr₂.sound h₁
    have hle := hr₂.prefix_entries h₁
    obtain ⟨rfl, rfl⟩ := Prod.ext_iff.1 ha
    exact ⟨hle.trans (h₂.numbered.prefix_addCommand ..),
      .inr ⟨hc, ids, r₂, hp, h₂, hle, rfl, rfl⟩⟩

mutual

theorem command_bindings : ∀ (e : CommandExpr) {r r' : Registry} {id : CommandId},
    e.InnerPlain → command e r = .ok (id, r') →
      ∀ x, x ∉ e.targets → r'.bindings x = r.bindings x
  | .handle y line, r, r', id, hp, he, x, hx => by
      rw [command_handle] at he
      rw [(commandNamed_ok.1 he).2]
  | .grouped owner, r, r', id, hp, he, x, hx => by
      exact command_bindings owner hp.owner.inner (command_grouped ▸ he) x
        (by simp [hp.owner.targets])
  | .refused e, r, r', id, hp, he, x, hx => by
      rw [command_refused] at he
      cases he
  | .added group name targets parents line, r, r', id, hp, he, x, hx => by
      obtain ⟨owner, r₁, n, hg, -, ha⟩ := command_added_ok.1 he
      have hx : x ∉ targets := hx
      rw [← groupOwner_bindings group hp.1 hg]
      rcases ha with ⟨-, rfl⟩ | ⟨-, ids, r₂, hps, ha⟩
      · exact bind_bindings_of_not_mem hx _
      · obtain rfl : r' = (r₂.addCommand targets n (some owner) ids line).2 :=
          congrArg Prod.snd ha
        rw [addCommand_bindings, ← commands_bindings parents hp.2 hps]
        exact bind_bindings_of_not_mem hx _

theorem groupOwner_bindings : ∀ (g : GroupExpr) {r r' : Registry} {id : CommandId},
    g.Plain → groupOwner g r = .ok (id, r') → r'.bindings = r.bindings
  | .handle y line, r, r', id, hp, hg => by
      rw [groupOwner_handle] at hg
      rw [(ownerNamed_ok.1 hg).2]
  | .opened owner, r, r', id, hp, hg => by
      rw [GroupExpr.Plain] at hp
      funext x
      exact command_bindings owner hp.inner (groupOwner_opened ▸ hg) x (by simp [hp.targets])
  | .refused e, r, r', id, hp, hg => by
      rw [groupOwner_refused] at hg
      cases hg

theorem commands_bindings : ∀ (es : List CommandExpr) {r r' : Registry}
    {ids : List CommandId}, CommandExpr.AllPlain es → commands es r = .ok (ids, r') →
      r'.bindings = r.bindings
  | [], r, r', ids, hp, hes => by
      rw [(commands_nil_ok.1 hes).2]
  | e :: es, r, r', ids, hp, hes => by
      obtain ⟨i, is, r₁, he, hrest, -⟩ := commands_cons_ok.1 hes
      rw [CommandExpr.AllPlain] at hp
      rw [commands_bindings es hp.2 hrest]
      funext x
      exact command_bindings e hp.1.inner he x (by simp [hp.1.targets])

end

theorem command_bindings_plain {e : CommandExpr} (hp : e.Plain)
    (he : command e r = .ok (id, r')) : r'.bindings = r.bindings := by
  funext x
  exact command_bindings e hp.inner he x (by simp [hp.targets])

mutual

theorem command_find : ∀ (e : CommandExpr) {r r' : Registry} {id : CommandId},
    e.InnerPlain → r.Sound → command e r = .ok (id, r') →
      (r.find? r.bindings e = some id ∧ r'.commands = r.commands) ∨
        (r.find? r.bindings e = none ∧ r.commands.length < r'.commands.length)
  | .handle x line, r, r', id, hp, h, he => by
      rw [command_handle] at he
      obtain ⟨hx, rfl⟩ := commandNamed_ok.1 he
      refine .inl ⟨?_, rfl⟩
      rw [find?, hx]
      rfl
  | .grouped owner, r, r', id, hp, h, he => by
      rw [find?]
      exact command_find owner hp.owner.inner h (command_grouped ▸ he)
  | .refused e, r, r', id, hp, h, he => by
      rw [command_refused] at he
      cases he
  | .added group name targets parents line, r, r', id, hp, h, he => by
      obtain ⟨owner, r₁, n, hg, h₁, rfl, hle, ha⟩ := command_added_cases h he
      rcases groupOwner_find group hp.1 h hg with ⟨hf, hcs⟩ | ⟨hf, hlt⟩
      · have hchild : r.find? r.bindings (.added group (.ok n) targets parents line) =
            r₁.child? owner n := by
          rw [find?, hf, child?, hcs]
          rfl
        rw [hchild]
        rcases ha with ⟨hc, rfl⟩ | ⟨hc, ids, r₂, -, h₂, hle₂, -, rfl⟩
        · exact .inl ⟨hc, hcs⟩
        · refine .inr ⟨hc, ?_⟩
          rw [h₂.numbered.length_addCommand, ← hcs]
          exact Nat.lt_succ_of_le hle₂.length_le
      · refine .inr ⟨?_, Nat.lt_of_lt_of_le hlt hle.length_le⟩
        rw [find?, hf]
        rfl

theorem groupOwner_find : ∀ (g : GroupExpr) {r r' : Registry} {id : CommandId},
    g.Plain → r.Sound → groupOwner g r = .ok (id, r') →
      (r.findOwner? r.bindings g = some id ∧ r'.commands = r.commands) ∨
        (r.findOwner? r.bindings g = none ∧ r.commands.length < r'.commands.length)
  | .handle x line, r, r', id, hp, h, hg => by
      rw [groupOwner_handle] at hg
      obtain ⟨⟨b, hx, rfl⟩, rfl⟩ := ownerNamed_ok.1 hg
      refine .inl ⟨?_, rfl⟩
      rw [findOwner?, hx]
      rfl
  | .opened owner, r, r', id, hp, h, hg => by
      rw [GroupExpr.Plain] at hp
      rw [findOwner?]
      exact command_find owner hp.inner h (groupOwner_opened ▸ hg)
  | .refused e, r, r', id, hp, h, hg => by
      rw [groupOwner_refused] at hg
      cases hg

end

theorem command_commands_ne_iff {e : CommandExpr} (hp : e.InnerPlain) (h : r.Sound)
    (he : command e r = .ok (id, r')) :
    r'.commands ≠ r.commands ↔ r.find? r.bindings e = none := by
  rcases command_find e hp h he with ⟨hf, hcs⟩ | ⟨hf, hlt⟩
  · simp [hf, hcs]
  · refine ⟨fun _ => hf, fun _ hcs => ?_⟩
    rw [hcs] at hlt
    exact Nat.lt_irrefl _ hlt

mutual

theorem command_found : ∀ (e : CommandExpr) {r r' : Registry} {id : CommandId},
    e.InnerPlain → r.Sound → command e r = .ok (id, r') → r'.commands.places.Nodup →
      r'.find? r.bindings e = some id
  | .handle x line, r, r', id, hp, h, he, hn => by
      rw [command_handle] at he
      obtain ⟨hx, rfl⟩ := commandNamed_ok.1 he
      rw [find?, hx]
      rfl
  | .grouped owner, r, r', id, hp, h, he, hn => by
      rw [find?]
      exact command_found owner hp.owner.inner h (command_grouped ▸ he) hn
  | .refused e, r, r', id, hp, h, he, hn => by
      rw [command_refused] at he
      cases he
  | .added group name targets parents line, r, r', id, hp, h, he, hn => by
      obtain ⟨owner, r₁, n, hg, h₁, rfl, hle, ha⟩ := command_added_cases h he
      have hf := groupOwner_found group hp.1 h hg (prefix_places_nodup hle hn)
      have hchild : r'.child? owner n = some id := by
        rcases ha with ⟨hc, rfl⟩ | ⟨-, ids, r₂, -, h₂, -, rfl, rfl⟩
        · exact hc
        · exact h₂.numbered.child?_addCommand (h₂.numbered.nodup_places_addCommand.1 hn).2
      rw [find?, findOwner?_mono hle group (fun _ _ => rfl) hf]
      exact hchild

theorem groupOwner_found : ∀ (g : GroupExpr) {r r' : Registry} {id : CommandId},
    g.Plain → r.Sound → groupOwner g r = .ok (id, r') → r'.commands.places.Nodup →
      r'.findOwner? r.bindings g = some id
  | .handle x line, r, r', id, hp, h, hg, hn => by
      rw [groupOwner_handle] at hg
      obtain ⟨⟨b, hx, rfl⟩, rfl⟩ := ownerNamed_ok.1 hg
      rw [findOwner?, hx]
      rfl
  | .opened owner, r, r', id, hp, h, hg, hn => by
      rw [GroupExpr.Plain] at hp
      rw [findOwner?]
      exact command_found owner hp.inner h (groupOwner_opened ▸ hg) hn
  | .refused e, r, r', id, hp, h, hg, hn => by
      rw [groupOwner_refused] at hg
      cases hg

end

mutual

theorem resolves_found : ∀ (e₀ : CommandExpr) {r r' : Registry} {id : CommandId}
    {e : CommandExpr}, e₀.InnerPlain → r.Sound → command e₀ r = .ok (id, r') →
      r'.commands.places.Nodup → e₀.Resolves r e → r'.find? r.bindings e ≠ none
  | .handle x line, r, r', id, e, hp, h, he, hn, hr => by
      rw [CommandExpr.Resolves] at hr
      cases hr
  | .grouped owner, r, r', id, e, hp, h, he, hn, hr => by
      rw [CommandExpr.Resolves] at hr
      exact resolves_found owner hp.owner.inner h (command_grouped ▸ he) hn hr
  | .refused _, r, r', id, e, hp, h, he, hn, hr => by
      rw [CommandExpr.Resolves] at hr
      cases hr
  | .added group name targets parents line, r, r', id, e, hp, h, he, hn, hr => by
      have hself := command_found (.added group name targets parents line) hp h he hn
      obtain ⟨owner, r₁, n, hg, h₁, rfl, hle, ha⟩ := command_added_cases h he
      have hn₁ := prefix_places_nodup hle hn
      rw [CommandExpr.Resolves] at hr
      rcases hr with rfl | hr | ⟨owner', q, n', hq, hn', hc', hr⟩
      · rw [← find?_added targets, hself]
        exact Option.some_ne_none id
      · have hf := groupOwner_resolves_found group hp.1 h hg hn₁ hr
        exact find?_ne_none_mono hle hf
      · cases hg.symm.trans hq
        cases hn'
        rcases ha with ⟨hc, -⟩ | ⟨-, ids, r₂, hps, h₂, -, -, rfl⟩
        · rw [hc] at hc'
          cases hc'
        · have hle₂ := h₂.numbered.prefix_addCommand targets n (some owner) ids line
          have hf := commands_resolves_found parents hp.2 h₁ hps (prefix_places_nodup hle₂ hn) hr
          rw [groupOwner_bindings group hp.1 hg] at hf
          exact find?_ne_none_mono hle₂ hf

theorem groupOwner_resolves_found : ∀ (g : GroupExpr) {r r' : Registry} {id : CommandId}
    {e : CommandExpr}, g.Plain → r.Sound → groupOwner g r = .ok (id, r') →
      r'.commands.places.Nodup → g.Resolves r e → r'.find? r.bindings e ≠ none
  | .handle x line, r, r', id, e, hp, h, hg, hn, hr => by
      rw [GroupExpr.Resolves] at hr
      cases hr
  | .opened owner, r, r', id, e, hp, h, hg, hn, hr => by
      rw [GroupExpr.Resolves] at hr
      rw [GroupExpr.Plain] at hp
      exact resolves_found owner hp.inner h (groupOwner_opened ▸ hg) hn hr
  | .refused _, r, r', id, e, hp, h, hg, hn, hr => by
      rw [GroupExpr.Resolves] at hr
      cases hr

theorem commands_resolves_found : ∀ (es : List CommandExpr) {r r' : Registry}
    {ids : List CommandId} {e : CommandExpr}, CommandExpr.AllPlain es → r.Sound →
      commands es r = .ok (ids, r') → r'.commands.places.Nodup →
      CommandExpr.AnyResolves es r e → r'.find? r.bindings e ≠ none
  | [], r, r', ids, e, hp, h, hes, hn, hr => by
      rw [CommandExpr.AnyResolves] at hr
      cases hr
  | e₀ :: es, r, r', ids, e, hp, h, hes, hn, hr => by
      obtain ⟨i, is, r₁, he, hrest, -⟩ := commands_cons_ok.1 hes
      rw [CommandExpr.AllPlain] at hp
      have h₁ := (command_reaches e₀ h he).1.sound h
      have hle := (commands_reaches es h₁ hrest).1.prefix_entries h₁
      rw [CommandExpr.AnyResolves] at hr
      rcases hr with hr | ⟨id', q, hq, hr⟩
      · have hf := resolves_found e₀ hp.1.inner h he (prefix_places_nodup hle hn) hr
        exact find?_ne_none_mono hle hf
      · cases he.symm.trans hq
        have hf := commands_resolves_found es hp.2 h₁ hrest hn hr
        rwa [command_bindings_plain hp.1 he] at hf

end

end Registering

end CliCompletion
