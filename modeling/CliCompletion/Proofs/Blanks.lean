import CliCompletion.Text.Blank
import Mathlib.Data.List.TakeWhile

namespace CliCompletion.Text

variable {c d sep : Char} {g s t w k v rest : List Char} {ws : List (List Char)}

def Gap (s : List Char) : Prop :=
  ∀ c ∈ s, isBlank c = true

def EndsWord (s : List Char) : Prop :=
  ∀ c ∈ s.head?, isBlank c = true

structure IsWord (w : List Char) : Prop where
  nonempty : w ≠ []
  solid : ∀ c ∈ w, isBlank c = false

inductive Spaced : List (List Char) → List Char → Prop
  | nil {g : List Char} (hg : Gap g) : Spaced [] g
  | cons {g w rest : List Char} {ws : List (List Char)} (hg : Gap g) (hw : IsWord w)
      (he : EndsWord rest) (hr : Spaced ws rest) : Spaced (w :: ws) (g ++ w ++ rest)

def Trimmed (s t : List Char) : Prop :=
  ∃ before after, s = before ++ t ++ after ∧ Gap before ∧ Gap after ∧
    (∀ c ∈ t.head?, isBlank c = false) ∧ ∀ c ∈ t.getLast?, isBlank c = false

theorem gap_nil : Gap [] := by
  simp [Gap]

theorem gap_cons : Gap (c :: s) ↔ isBlank c = true ∧ Gap s := by
  simp [Gap]

theorem gap_append : Gap (s ++ t) ↔ Gap s ∧ Gap t := by
  simp [Gap, or_imp, forall_and]

section Words

theorem words_blank (hc : isBlank c = true) (s : List Char) : words (c :: s) = words s := by
  cases s <;> simp [words, hc]

theorem words_gap (h : Gap g) (s : List Char) : words (g ++ s) = words s := by
  induction g with
  | nil => rfl
  | cons c g ih =>
      obtain ⟨hc, hg⟩ := gap_cons.1 h
      rw [List.cons_append, words_blank hc, ih hg]

theorem words_append (hw : IsWord w) (he : EndsWord rest) :
    words (w ++ rest) = w :: words rest := by
  obtain ⟨hne, hsolid⟩ := hw
  induction w with
  | nil => exact absurd rfl hne
  | cons c w ih =>
      obtain ⟨hc, hw⟩ := List.forall_mem_cons.1 hsolid
      cases w with
      | nil =>
          cases rest with
          | nil => simp [words, hc]
          | cons d rest =>
              have hd : isBlank d = true := he d rfl
              rw [List.singleton_append, words]
              simp [hc, hd]
      | cons d w =>
          have hd : isBlank d = false := hw d List.mem_cons_self
          have hrest : words (d :: (w ++ rest)) = (d :: w) :: words rest := ih (by simp) hw
          rw [List.cons_append, List.cons_append, words]
          simp [hc, hd, hrest]

theorem Spaced.words_eq (h : Spaced ws s) : words s = ws := by
  induction h with
  | @nil g hg => rw [← List.append_nil g, words_gap hg, words]
  | cons hg hw he _ ih => rw [List.append_assoc, words_gap hg, words_append hw he, ih]

theorem Spaced.blank (h : Spaced ws s) (hc : isBlank c = true) : Spaced ws (c :: s) := by
  cases h with
  | nil hg => exact .nil (gap_cons.2 ⟨hc, hg⟩)
  | cons hg hw he hr => exact .cons (gap_cons.2 ⟨hc, hg⟩) hw he hr

theorem Spaced.word (h : Spaced ws s) (hc : isBlank c = false) (he : EndsWord s) :
    Spaced ([c] :: ws) (c :: s) :=
  .cons gap_nil ⟨by simp, by simpa using hc⟩ he h

theorem Spaced.letter (h : Spaced (w :: ws) (d :: s)) (hc : isBlank c = false)
    (hd : isBlank d = false) : Spaced ((c :: w) :: ws) (c :: d :: s) := by
  generalize hs : d :: s = t at h
  cases h with
  | @cons g w rest ws hg hw he hr =>
      cases g with
      | nil => exact .cons gap_nil ⟨by simp, List.forall_mem_cons.2 ⟨hc, hw.solid⟩⟩ he hr
      | cons b g =>
          obtain rfl : d = b := (List.cons.inj hs).1
          rw [(gap_cons.1 hg).1] at hd
          cases hd

theorem spaced_words (s : List Char) : Spaced (words s) s := by
  fun_induction words s with
  | case1 => exact .nil gap_nil
  | case2 c s hc ih => exact ih.blank hc
  | case3 c hc => exact (Spaced.nil gap_nil).word (by simpa using hc) (by simp [EndsWord])
  | case4 c hc d s hd ih => exact ih.word (by simpa using hc) (by simpa [EndsWord] using hd)
  | case5 c hc d s hd hws ih =>
      rw [hws] at ih
      cases ih with
      | nil hg => exact absurd (gap_cons.1 hg).1 hd
  | case6 c hc d s hd w ws hws ih =>
      rw [hws] at ih ⊢
      exact ih.letter (by simpa using hc) (by simpa using hd)

theorem Spaced.isWord (h : Spaced ws s) : ∀ w ∈ ws, IsWord w := by
  induction h with
  | nil _ => simp
  | cons _ hw _ _ ih => exact List.forall_mem_cons.2 ⟨hw, ih⟩

theorem exists_spaced (h : ∀ w ∈ ws, IsWord w) : ∃ s, Spaced ws s := by
  induction ws with
  | nil => exact ⟨[], .nil gap_nil⟩
  | cons w ws ih =>
      obtain ⟨hw, hws⟩ := List.forall_mem_cons.1 h
      obtain ⟨s, hs⟩ := ih hws
      exact ⟨[] ++ w ++ ' ' :: s, .cons gap_nil hw (by simp [EndsWord, isBlank]) (hs.blank rfl)⟩

end Words

section Ends

theorem trimStart_gap (h : Gap g) (s : List Char) : trimStart (g ++ s) = trimStart s :=
  List.dropWhile_append_of_pos h

theorem trimStart_of_head (h : ∀ c ∈ s.head?, isBlank c = false) : trimStart s = s := by
  cases s with
  | nil => rfl
  | cons c s => rw [trimStart, List.dropWhile_cons_of_neg (by simp [h c rfl])]

theorem trimEnd_eq_reverse (s : List Char) : trimEnd s = (trimStart s.reverse).reverse :=
  rfl

theorem gap_reverse : Gap s.reverse ↔ Gap s := by
  simp [Gap]

theorem trim_of_gap (h : Gap s) : trim s = [] := by
  have hs : trimStart (s ++ []) = [] := trimStart_gap h []
  rw [List.append_nil] at hs
  rw [trim, hs]
  rfl

theorem Trimmed.trim_eq (h : Trimmed s t) : trim s = t := by
  obtain ⟨before, after, rfl, hb, ha, hhead, hlast⟩ := h
  cases t with
  | nil => exact trim_of_gap (gap_append.2 ⟨by simpa using hb, ha⟩)
  | cons c t =>
      have hstart : trimStart (before ++ (c :: t) ++ after) = (c :: t) ++ after := by
        rw [List.append_assoc, trimStart_gap hb]
        exact trimStart_of_head (by simpa using hhead)
      have hend : trimStart (c :: t).reverse = (c :: t).reverse := by
        refine trimStart_of_head ?_
        rwa [List.head?_reverse]
      rw [trim, hstart, trimEnd_eq_reverse, List.reverse_append, trimStart_gap (gap_reverse.2 ha),
        hend, List.reverse_reverse]

end Ends

theorem not_mem_takeWhile_ne (sep : Char) (s : List Char) : sep ∉ s.takeWhile (· != sep) :=
  fun hm => by simpa using List.mem_takeWhile_imp hm

theorem eq_of_mem_head?_dropWhile_ne (hc : c ∈ (s.dropWhile (· != sep)).head?) : c = sep := by
  have h := List.head?_dropWhile_not (· != sep) s
  rw [Option.mem_def.1 hc] at h
  simpa using h

theorem splitAtFirst_append (h : sep ∉ k) (v : List Char) :
    splitAtFirst sep (k ++ sep :: v) = some (k, v) := by
  induction k with
  | nil => simp [splitAtFirst]
  | cons c k ih =>
      have hc : c ≠ sep := (List.ne_of_not_mem_cons h).symm
      rw [List.cons_append, splitAtFirst, if_neg hc, ih (List.not_mem_of_not_mem_cons h)]
      rfl

theorem splitAtFirst_eq_some_iff :
    splitAtFirst sep s = some (k, v) ↔ s = k ++ sep :: v ∧ sep ∉ k := by
  refine ⟨fun h => ?_, fun h => h.1 ▸ splitAtFirst_append h.2 v⟩
  induction s generalizing k with
  | nil => cases h
  | cons c s ih =>
      rw [splitAtFirst] at h
      split at h
      · next hc =>
          cases h
          exact ⟨by rw [hc]; rfl, List.not_mem_nil⟩
      · next hc =>
          obtain ⟨⟨k', v'⟩, hkv, he⟩ := Option.map_eq_some_iff.1 h
          cases he
          obtain ⟨rfl, hk⟩ := ih hkv
          exact ⟨rfl, List.not_mem_cons_of_ne_of_not_mem (Ne.symm hc) hk⟩

theorem splitAtFirst_eq_none_iff : splitAtFirst sep s = none ↔ sep ∉ s := by
  induction s with
  | nil => simp [splitAtFirst]
  | cons c s ih =>
      rw [splitAtFirst]
      split
      · next hc => simp [hc]
      · next hc => simp [ih, Ne.symm hc]

end CliCompletion.Text
