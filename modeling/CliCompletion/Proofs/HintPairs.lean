import CliCompletion.Hint
import CliCompletion.Proofs.Blanks
import Mathlib.Data.List.Basic

namespace CliCompletion.Hint

open Text (IsWord Spaced spaced_words)

variable {h : Hint} {p : String × String} {w : List Char} {key value : String}

structure IsPair (p : String × String) : Prop where
  key : IsWord p.1.toList
  plain : '=' ∉ p.1.toList
  value : IsWord p.2.toList

def written (p : String × String) : List Char :=
  p.1.toList ++ '=' :: p.2.toList

structure IsNoise (w : List Char) : Prop where
  word : IsWord w
  malformed : '=' ∉ w ∨ w.head? = some '=' ∨ ∃ key, '=' ∉ key ∧ w = key ++ ['=']

inductive Word where
  | pair (p : String × String) (h : IsPair p)
  | noise (w : List Char) (h : IsNoise w)

namespace Word

variable {u : Word} {us : List Word}

def text : Word → List Char
  | pair p _ => written p
  | noise w _ => w

def pair? : Word → Option (String × String)
  | pair p _ => some p
  | noise _ _ => none

def FirstValue (us : List Word) (key value : String) : Prop :=
  ∃ before u after, us = before ++ u :: after ∧ u.pair? = some (key, value) ∧
    ∀ v ∈ before, ∀ other, v.pair? ≠ some (key, other)

end Word

section Pairs

theorem pair_eq_some_iff : pair w = some p ↔
    w = written p ∧ '=' ∉ p.1.toList ∧ p.1.toList ≠ [] ∧ p.2.toList ≠ [] := by
  obtain ⟨key, value⟩ := p
  constructor
  · intro hp
    unfold pair at hp
    split at hp
    · next k v hs =>
        split at hp
        · cases hp
        · next hne =>
            cases hp
            obtain ⟨rfl, hk⟩ := Text.splitAtFirst_eq_some_iff.1 hs
            simpa [written, hk] using hne
    · cases hp
  · rintro ⟨rfl, hk, hkey, hvalue⟩
    rw [pair, written, Text.splitAtFirst_append hk]
    simp [hkey, hvalue]

theorem isWord_written (hp : IsPair p) : IsWord (written p) where
  nonempty := by simp [written]
  solid := by
    have hsign : Text.isBlank '=' = false := rfl
    intro c hc
    rcases List.mem_append.1 hc with hc | hc
    · exact hp.key.solid c hc
    · rcases List.mem_cons.1 hc with rfl | hc
      · exact hsign
      · exact hp.value.solid c hc

theorem isPair_of_pair (hw : IsWord w) (hp : pair w = some p) : IsPair p := by
  obtain ⟨rfl, hplain, hkey, hvalue⟩ := pair_eq_some_iff.1 hp
  have hsolid := hw.solid
  rw [written, List.forall_mem_append, List.forall_mem_cons] at hsolid
  exact ⟨⟨hkey, hsolid.1⟩, hplain, ⟨hvalue, hsolid.2.2⟩⟩

theorem isNoise_of_pair (hw : IsWord w) (hp : pair w = none) : IsNoise w := by
  refine ⟨hw, ?_⟩
  cases hs : Text.splitAtFirst '=' w with
  | none => exact .inl (Text.splitAtFirst_eq_none_iff.1 hs)
  | some q =>
      obtain ⟨k, v⟩ := q
      have hkv := Text.splitAtFirst_eq_some_iff.1 hs
      rw [pair, hs] at hp
      cases k with
      | nil => exact .inr (.inl (by rw [hkv.1]; rfl))
      | cons c k =>
          cases v with
          | nil => exact .inr (.inr ⟨c :: k, hkv.2, hkv.1⟩)
          | cons d v => simp at hp

theorem pair_of_isNoise (hw : IsNoise w) : pair w = none := by
  rw [Option.eq_none_iff_forall_ne_some]
  intro p hp
  obtain ⟨rfl, hplain, hkey, hvalue⟩ := pair_eq_some_iff.1 hp
  rcases hw.malformed with hnone | hhead | ⟨key, hk, he⟩
  · exact hnone (by simp [written])
  · cases hs : p.1.toList with
    | nil => exact hkey hs
    | cons c k =>
        rw [written, hs] at hhead
        obtain rfl : c = '=' := Option.some.inj hhead
        exact hplain (hs ▸ List.mem_cons_self)
  · have hfirst := Text.splitAtFirst_append hplain p.2.toList
    have hlast := Text.splitAtFirst_append hk []
    rw [written] at he
    rw [he, hlast] at hfirst
    exact hvalue (Prod.ext_iff.1 (Option.some.inj hfirst)).2.symm

theorem Word.pair_text (u : Word) : Hint.pair u.text = u.pair? := by
  cases u with
  | pair p h => exact pair_eq_some_iff.2 ⟨rfl, h.plain, h.key.nonempty, h.value.nonempty⟩
  | noise w h => exact pair_of_isNoise h

theorem exists_word (hw : IsWord w) : ∃ u : Word, u.text = w := by
  cases hp : pair w with
  | none => exact ⟨.noise w (isNoise_of_pair hw hp), rfl⟩
  | some p => exact ⟨.pair p (isPair_of_pair hw hp), (pair_eq_some_iff.1 hp).1.symm⟩

theorem exists_words {ws : List (List Char)} (hws : ∀ w ∈ ws, IsWord w) :
    ∃ us : List Word, us.map Word.text = ws := by
  induction ws with
  | nil => exact ⟨[], rfl⟩
  | cons w ws ih =>
      obtain ⟨hw, hws⟩ := List.forall_mem_cons.1 hws
      obtain ⟨u, hu⟩ := exists_word hw
      obtain ⟨us, hus⟩ := ih hws
      exact ⟨u :: us, by rw [List.map_cons, hu, hus]⟩

end Pairs

section Reading

variable {us : List Word} {s : List Char}

theorem pairsOf_spaced (hs : Spaced (us.map Word.text) s) :
    pairsOf s = us.filterMap Word.pair? := by
  have hpair : pair ∘ Word.text = Word.pair? := funext Word.pair_text
  rw [pairsOf, hs.words_eq, List.filterMap_map, hpair]

theorem exists_spaced_words (s : List Char) : ∃ us : List Word, Spaced (us.map Word.text) s := by
  obtain ⟨us, hus⟩ := exists_words (spaced_words s).isWord
  exact ⟨us, hus ▸ spaced_words s⟩

theorem isPair_of_mem_pairs (hp : p ∈ us.filterMap Word.pair?) : IsPair p := by
  obtain ⟨u, -, hu⟩ := List.mem_filterMap.1 hp
  cases u with
  | pair q h =>
      cases hu
      exact h
  | noise w h => cases hu

theorem pair_written (hp : IsPair p) : pair (written p) = some p :=
  (Word.pair p hp).pair_text

theorem pairsOf_written {ps : List (String × String)} (hps : ∀ p ∈ ps, IsPair p)
    (hs : Spaced (ps.map written) s) : pairsOf s = ps := by
  rw [pairsOf, hs.words_eq, List.filterMap_map]
  calc ps.filterMap (pair ∘ written) = ps.filterMap some :=
        List.filterMap_congr fun p hp => pair_written (hps p hp)
    _ = ps := List.filterMap_some

theorem firstValue_cons {u : Word} : Word.FirstValue (u :: us) key value ↔
    u.pair? = some (key, value) ∨
      (∀ other, u.pair? ≠ some (key, other)) ∧ Word.FirstValue us key value := by
  constructor
  · rintro ⟨before, v, after, he, hv, hb⟩
    cases before with
    | nil =>
        cases he
        exact .inl hv
    | cons w before =>
        cases he
        obtain ⟨hw, hb⟩ := List.forall_mem_cons.1 hb
        exact .inr ⟨hw, before, v, after, rfl, hv, hb⟩
  · rintro (hu | ⟨hu, before, v, after, rfl, hv, hb⟩)
    · exact ⟨[], u, us, rfl, hu, by simp⟩
    · exact ⟨u :: before, v, after, rfl, hv, List.forall_mem_cons.2 ⟨hu, hb⟩⟩

theorem find?_eq_some_iff_firstValue : ((us.filterMap Word.pair?).find? (·.1 == key)).map (·.2) =
    some value ↔ Word.FirstValue us key value := by
  induction us with
  | nil =>
      constructor
      · intro h
        cases h
      · rintro ⟨before, u, after, he, -⟩
        simp at he
  | cons u us ih =>
      rw [firstValue_cons, ← ih]
      cases u with
      | noise w h => simp [Word.pair?]
      | pair q h =>
          obtain ⟨k, v⟩ := q
          by_cases hk : k = key
          · simp [Word.pair?, hk]
          · simp [Word.pair?, hk]

end Reading

structure ReadFrom (us : List Word) (h : Hint) : Prop where
  pairs : h.pairs = us.filterMap Word.pair?
  get : ∀ key value, h.get key = some value ↔ Word.FirstValue us key value
  completer : ∀ func, Word.FirstValue us "func" func → h.completer = Completer.ofName func
  no_completer : (∀ func, ¬ Word.FirstValue us "func" func) → h.completer = none

structure WritesBack (h : Hint) : Prop where
  shape : ∀ p ∈ h.pairs, IsPair p
  writable : ∃ s, Spaced (h.pairs.map written) s
  again : ∀ line text, Spaced (h.pairs.map written) text.toList → (ofText line text).pairs = h.pairs

theorem readFrom_ofText {us : List Word} {text : String} (line : Nat)
    (hs : Spaced (us.map Word.text) text.toList) : (ofText line text).ReadFrom us := by
  have hpairs : (ofText line text).pairs = us.filterMap Word.pair? := pairsOf_spaced hs
  have hget : ∀ key value, (ofText line text).get key = some value ↔
      Word.FirstValue us key value := by
    intro key value
    rw [get, hpairs]
    exact find?_eq_some_iff_firstValue
  refine ⟨hpairs, hget, ?_, ?_⟩
  · intro func hfunc
    rw [completer, (hget "func" func).2 hfunc, Option.bind_some]
  · intro hnone
    have hfunc : (ofText line text).get "func" = none := by
      rw [Option.eq_none_iff_forall_ne_some]
      exact fun func h => hnone func ((hget "func" func).1 h)
    rw [completer, hfunc, Option.bind_none]

theorem writesBack_ofText (line : Nat) (text : String) : (ofText line text).WritesBack := by
  obtain ⟨us, hus⟩ := exists_spaced_words text.toList
  have hpairs : (ofText line text).pairs = us.filterMap Word.pair? := pairsOf_spaced hus
  have hshape : ∀ p ∈ (ofText line text).pairs, IsPair p := by
    rw [hpairs]
    exact fun p hp => isPair_of_mem_pairs hp
  refine ⟨hshape, ?_, fun line' text' hs => pairsOf_written hshape hs⟩
  refine Text.exists_spaced fun w hw => ?_
  obtain ⟨p, hp, rfl⟩ := List.mem_map.1 hw
  exact isWord_written (hshape p hp)

theorem ofText_inverts_writing (line : Nat) (text : String) :
    (∃ us : List Word, Spaced (us.map Word.text) text.toList) ∧
    (∀ us : List Word, Spaced (us.map Word.text) text.toList → (ofText line text).ReadFrom us) ∧
    (ofText line text).WritesBack :=
  ⟨exists_spaced_words text.toList, fun _ => readFrom_ofText line, writesBack_ofText line text⟩

def noisyText : String :=
  "\u2003func=other\toops =x y= func=branchname k=a=b "

theorem ofText_inverts_writing_noisy : ∃ us : List Word,
    Spaced (us.map Word.text) noisyText.toList ∧ (ofText 3 noisyText).ReadFrom us ∧
    (ofText 3 noisyText).WritesBack ∧
    (ofText 3 noisyText).pairs = [("func", "other"), ("func", "branchname"), ("k", "a=b")] ∧
    (ofText 3 noisyText).completer = none := by
  obtain ⟨⟨us, hus⟩, hread, hback⟩ := ofText_inverts_writing 3 noisyText
  exact ⟨us, hus, hread us hus, hback, by decide +kernel, by decide +kernel⟩

end CliCompletion.Hint
