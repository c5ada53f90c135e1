import CliCompletion.Source
import Mathlib.Data.List.Induction
import Mathlib.Logic.ExistsUnique
import Mathlib.Tactic.SplitIfs

namespace CliCompletion

namespace Text

def Closed (s : List Char) : Prop :=
  s = [] ∨ ∃ r, s = r ++ ['\n']

structure LineAt (text : List Char) (number : Nat) (before line after : List Char) : Prop where
  whole : text = before ++ line ++ after
  number_eq : number = before.count '\n' + 1
  closed : Closed before
  ended : ∃ body, line = body ++ ['\n'] ∧ '\n' ∉ body

variable {s t before line after : List Char} {k : Nat}

theorem Closed.append (hs : Closed s) (ht : Closed t) : Closed (s ++ t) := by
  rcases ht with rfl | ⟨r, rfl⟩
  · rwa [List.append_nil]
  · exact .inr ⟨s ++ r, (List.append_assoc ..).symm⟩

theorem LineAt.pos (h : LineAt s k before line after) : 0 < k := by
  rw [h.number_eq]
  exact Nat.succ_pos _

theorem LineAt.le_count (h : LineAt s k before line after) : k ≤ s.count '\n' := by
  obtain ⟨body, hb, -⟩ := h.ended
  rw [h.whole, h.number_eq, hb]
  simp only [List.count_append, List.count_singleton_self]
  omega

theorem LineAt.within (h : LineAt s k before line after) (ht : Closed t) (rest : List Char) :
    LineAt (t ++ s ++ rest) (t.count '\n' + k) (t ++ before) line (after ++ rest) where
  whole := by
    rw [h.whole]
    simp only [List.append_assoc]
  number_eq := by rw [h.number_eq, List.count_append, Nat.add_assoc]
  closed := ht.append h.closed
  ended := h.ended

theorem LineAt.cons (h : LineAt s k before line after) {c : Char} (hc : c ≠ '\n') :
    ∃ before line, LineAt (c :: s) k before line after := by
  obtain ⟨hwhole, hnumber, hclosed, body, hbody, hnot⟩ := h
  have hcount : ∀ r : List Char, (c :: r).count '\n' = r.count '\n' := fun r =>
    List.count_cons_of_ne hc
  rcases hclosed with rfl | ⟨r, rfl⟩
  · refine ⟨[], c :: line, by rw [hwhole]; rfl, hnumber, .inl rfl, c :: body, by rw [hbody]; rfl, ?_⟩
    simp [hc.symm, hnot]
  · refine ⟨c :: (r ++ ['\n']), line, by rw [hwhole]; rfl, ?_, .inr ⟨c :: r, rfl⟩, body, hbody, hnot⟩
    rw [hcount, hnumber]

theorem exists_lineAt (hk : 0 < k) (hle : k ≤ s.count '\n') :
    ∃ before line after, LineAt s k before line after := by
  induction s generalizing k with
  | nil => exact absurd hle (Nat.not_le.2 hk)
  | cons c s ih =>
      by_cases hc : c = '\n'
      · subst hc
        rw [List.count_cons_self] at hle
        obtain ⟨k, rfl⟩ := Nat.exists_eq_succ_of_ne_zero (Nat.ne_of_gt hk)
        rcases Nat.eq_zero_or_pos k with rfl | hpos
        · exact ⟨[], ['\n'], s, rfl, rfl, .inl rfl, [], rfl, List.not_mem_nil⟩
        · obtain ⟨before, line, after, h⟩ := ih hpos (Nat.le_of_succ_le_succ hle)
          have hw := h.within (t := ['\n']) (.inr ⟨[], rfl⟩) []
          rw [List.append_nil, List.count_singleton_self, Nat.add_comm] at hw
          exact ⟨_, _, _, hw⟩
      · rw [List.count_cons_of_ne hc] at hle
        obtain ⟨before, line, after, h⟩ := ih hk hle
        obtain ⟨before, line, h⟩ := h.cons hc
        exact ⟨before, line, after, h⟩

end Text

structure Source where
  name : String
  content : String
  deriving DecidableEq, Repr

namespace Source

open Text

def text (s : Source) : List Char :=
  s.content.toList ++ ['\n']

def lines (s : Source) : Nat :=
  s.text.count '\n'

def joint (ss : List Source) : List Char :=
  ss.flatMap text

def LineOf (ss : List Source) (i k line : Nat) : Prop :=
  ∃ s before body after, ss[i]? = some s ∧ LineAt s.text k before body after ∧
    LineAt (joint ss) line (joint (ss.take i) ++ before) body (after ++ joint (ss.drop (i + 1)))

variable {ss : List Source} {s : Source} {i j k l line : Nat}

theorem lines_eq (s : Source) : s.lines = s.content.toList.count '\n' + 1 := by
  rw [lines, text, List.count_append, List.count_singleton_self]

theorem closed_joint (ss : List Source) : Closed (joint ss) := by
  induction ss with
  | nil => exact .inl rfl
  | cons s ss ih => exact Closed.append (s := s.text) (.inr ⟨_, rfl⟩) ih

theorem joint_eq (h : ss[i]? = some s) :
    joint ss = joint (ss.take i) ++ s.text ++ joint (ss.drop (i + 1)) := by
  obtain ⟨hi, hs⟩ := List.getElem?_eq_some_iff.1 h
  have hd : ss = ss.take i ++ s :: ss.drop (i + 1) := by
    rw [← hs, ← List.drop_eq_getElem_cons hi, List.take_append_drop]
  rw [List.append_assoc]
  exact (congrArg joint hd).trans (List.flatMap_append.trans (congrArg _ List.flatMap_cons))

theorem lineOf_iff : LineOf ss i k line ↔ ∃ s, ss[i]? = some s ∧ 0 < k ∧ k ≤ s.lines ∧
    line = (joint (ss.take i)).count '\n' + k := by
  constructor
  · rintro ⟨s, before, body, after, hs, h, hline⟩
    refine ⟨s, hs, h.pos, h.le_count, ?_⟩
    rw [hline.number_eq, List.count_append, h.number_eq, Nat.add_assoc]
  · rintro ⟨s, hs, hk, hle, rfl⟩
    obtain ⟨before, body, after, h⟩ := exists_lineAt hk hle
    refine ⟨s, before, body, after, hs, h, ?_⟩
    have hw := h.within (closed_joint (ss.take i)) (joint (ss.drop (i + 1)))
    rwa [← joint_eq hs] at hw

theorem count_take_add_lines_le (h : ss[i]? = some s) :
    (joint (ss.take i)).count '\n' + s.lines ≤ (joint ss).count '\n' := by
  rw [joint_eq h, List.count_append, List.count_append]
  exact Nat.le_add_right _ _

theorem LineOf.le_count (h : LineOf ss i k line) : line ≤ (joint ss).count '\n' := by
  obtain ⟨s, hs, -, hk, rfl⟩ := lineOf_iff.1 h
  exact Nat.le_trans (Nat.add_le_add_left hk _) (count_take_add_lines_le hs)

theorem LineOf.not_lt (h : LineOf ss i k line) (h' : LineOf ss j l line) : ¬ i < j := by
  intro hij
  obtain ⟨s, hs, -, hk, rfl⟩ := lineOf_iff.1 h
  obtain ⟨s', hs', hl, -, he⟩ := lineOf_iff.1 h'
  have htake : (ss.take j)[i]? = some s := by rw [List.getElem?_take_of_lt hij, hs]
  have hle := count_take_add_lines_le htake
  rw [List.take_take, Nat.min_eq_left (Nat.le_of_lt hij)] at hle
  omega

theorem LineOf.unique (h : LineOf ss i k line) (h' : LineOf ss j l line) : i = j ∧ k = l := by
  obtain rfl := Nat.le_antisymm (Nat.not_lt.1 (h'.not_lt h)) (Nat.not_lt.1 (h.not_lt h'))
  obtain ⟨-, -, -, -, hk⟩ := lineOf_iff.1 h
  obtain ⟨-, -, -, -, hl⟩ := lineOf_iff.1 h'
  exact ⟨rfl, Nat.add_left_cancel (hk.symm.trans hl)⟩

theorem joint_append (ss : List Source) (s : Source) : joint (ss ++ [s]) = joint ss ++ s.text := by
  rw [joint, List.flatMap_append, List.flatMap_singleton]
  rfl

theorem lineOf_append_singleton : LineOf (ss ++ [s]) i k line ↔ LineOf ss i k line ∨
    (i = ss.length ∧ 0 < k ∧ k ≤ s.lines ∧ line = (joint ss).count '\n' + k) := by
  simp only [lineOf_iff]
  rcases Nat.lt_trichotomy i ss.length with hi | rfl | hi
  · rw [List.getElem?_append_left hi, List.take_append_of_le_length (Nat.le_of_lt hi)]
    simp [Nat.ne_of_lt hi]
  · simp
  · have hnone : ss[i]? = none := List.getElem?_eq_none (Nat.le_of_lt hi)
    have hnone' : (ss ++ [s])[i]? = none := by
      rw [List.getElem?_eq_none]
      rw [List.length_append]
      exact hi
    simp [hnone, hnone', Nat.ne_of_gt hi]

theorem exists_lineOf (hpos : 0 < line) (hle : line ≤ (joint ss).count '\n') :
    ∃ i k, LineOf ss i k line := by
  induction ss using List.reverseRecOn with
  | nil => exact absurd hle (Nat.not_le.2 hpos)
  | append_singleton ss s ih =>
      rw [joint_append, List.count_append] at hle
      by_cases hl : line ≤ (joint ss).count '\n'
      · obtain ⟨i, k, h⟩ := ih hl
        exact ⟨i, k, lineOf_append_singleton.2 (.inl h)⟩
      · refine ⟨ss.length, line - (joint ss).count '\n', lineOf_append_singleton.2 (.inr ⟨rfl, ?_⟩)⟩
        rw [lines]
        omega

end Source

namespace SourceUnit

open Source

variable {ss : List Source} {s : Source} {line k : Nat} {name : String}

def ofSources (ss : List Source) : SourceUnit :=
  ss.foldl (fun u s => u.push s.name s.content) .empty

theorem ofSources_append (ss : List Source) (s : Source) :
    ofSources (ss ++ [s]) = (ofSources ss).push s.name s.content :=
  List.foldl_append

theorem text_ofSources (ss : List Source) :
    (ofSources ss).text = String.join (ss.map fun s => s.content ++ "\n") := by
  induction ss using List.reverseRecOn with
  | nil => rfl
  | append_singleton ss s ih =>
      rw [ofSources_append, push, ih]
      simp [String.append_assoc]

theorem toList_text_ofSources (ss : List Source) : (ofSources ss).text.toList = joint ss := by
  have htext : Source.text = fun s => (s.content ++ "\n").toList := by
    funext s
    rw [String.toList_append]
    rfl
  rw [text_ofSources, String.toList_join, List.flatMap_map, joint, htext]

theorem nextLine_push (u : SourceUnit) (name content : String) :
    (u.push name content).nextLine = u.nextLine + (content.toList.count '\n' + 1) := by
  simp [push, nextLine]

theorem nextLine_ofSources (ss : List Source) :
    (ofSources ss).nextLine = (joint ss).count '\n' + 1 := by
  induction ss using List.reverseRecOn with
  | nil => rfl
  | append_singleton ss s ih =>
      rw [ofSources_append, nextLine_push, ih, ← s.lines_eq, joint_append, List.count_append, lines]
      omega

theorem locate_push (u : SourceUnit) (name content : String) (line : Nat) :
    (u.push name content).locate line = (u.locate line).or
      (if u.nextLine ≤ line ∧ line < u.nextLine + (content.toList.count '\n' + 1) then
        some (name, line - u.nextLine + 1) else none) := by
  rw [locate, push, List.find?_append, Option.map_or]
  congr 1
  rw [List.find?_singleton, apply_ite (Option.map _)]
  simp

theorem locate_ofSources : (ofSources ss).locate line = some (name, k) ↔
    ∃ i s, ss[i]? = some s ∧ s.name = name ∧ LineOf ss i k line := by
  induction ss using List.reverseRecOn generalizing name k with
  | nil => simp [ofSources, empty, locate]
  | append_singleton ss s ih =>
      rw [ofSources_append, locate_push, nextLine_ofSources, ← s.lines_eq]
      constructor
      · intro h
        rcases Option.or_eq_some_iff.1 h with h | ⟨-, h⟩
        · obtain ⟨i, s', hi, hname, hline⟩ := ih.1 h
          refine ⟨i, s', ?_, hname, lineOf_append_singleton.2 (.inl hline)⟩
          rwa [List.getElem?_append_left (List.getElem?_eq_some_iff.1 hi).1]
        · split_ifs at h with hl
          obtain ⟨rfl, rfl⟩ := Prod.ext_iff.1 (Option.some.inj h)
          refine ⟨ss.length, s, by simp, rfl, lineOf_append_singleton.2 (.inr ⟨rfl, ?_⟩)⟩
          dsimp only
          omega
      · rintro ⟨i, s', hi, rfl, hline⟩
        rcases lineOf_append_singleton.1 hline with hline | ⟨rfl, hk, hle, rfl⟩
        · obtain ⟨s'', hs'', -⟩ := lineOf_iff.1 hline
          rw [List.getElem?_append_left (List.getElem?_eq_some_iff.1 hs'').1] at hi
          rw [ih.2 ⟨i, s', hi, rfl, hline⟩]
          rfl
        · have hs : s = s' := by simpa using hi
          subst hs
          have hnone : (ofSources ss).locate ((joint ss).count '\n' + k) = none := by
            rw [Option.eq_none_iff_forall_ne_some]
            rintro ⟨name, k'⟩ h
            obtain ⟨i, s', -, -, hline⟩ := ih.1 h
            have hc := hline.le_count
            omega
          rw [hnone, Option.none_or, if_pos (by omega)]
          congr 2
          omega

structure Joins (u : SourceUnit) (ss : List Source) : Prop where
  text : u.text = String.join (ss.map fun s => s.content ++ "\n")
  chars : u.text.toList = joint ss
  located : ∀ line name k, u.locate line = some (name, k) ↔
    ∃ i s, ss[i]? = some s ∧ s.name = name ∧ LineOf ss i k line
  lost : ∀ line, u.locate line = none ↔ line = 0 ∨ u.text.toList.count '\n' < line
  reached : ∀ i k, (∃! line, LineOf ss i k line) ↔
    ∃ s, ss[i]? = some s ∧ 0 < k ∧ k ≤ s.content.toList.count '\n' + 1
  sole : ∀ line i j k l, LineOf ss i k line → LineOf ss j l line → i = j ∧ k = l

theorem joins_ofSources (ss : List Source) : (ofSources ss).Joins ss where
  text := text_ofSources ss
  chars := toList_text_ofSources ss
  located _ _ _ := locate_ofSources
  lost line := by
    rw [toList_text_ofSources, Option.eq_none_iff_forall_ne_some]
    constructor
    · intro h
      by_contra hc
      obtain ⟨hz, hle⟩ := not_or.1 hc
      obtain ⟨i, k, hline⟩ := exists_lineOf (Nat.pos_of_ne_zero hz) (Nat.not_lt.1 hle)
      obtain ⟨s, hs, -⟩ := lineOf_iff.1 hline
      exact h (s.name, k) (locate_ofSources.2 ⟨i, s, hs, rfl, hline⟩)
    · rintro h ⟨name, k⟩ hk
      obtain ⟨i, s, -, -, hline⟩ := locate_ofSources.1 hk
      have hle := hline.le_count
      obtain ⟨-, -, hpos, -, rfl⟩ := lineOf_iff.1 hline
      omega
  reached i k := by
    constructor
    · rintro ⟨line, hline, -⟩
      obtain ⟨s, hs, hk, hle, -⟩ := lineOf_iff.1 hline
      exact ⟨s, hs, hk, s.lines_eq ▸ hle⟩
    · rintro ⟨s, hs, hk, hle⟩
      refine ⟨_, lineOf_iff.2 ⟨s, hs, hk, s.lines_eq ▸ hle, rfl⟩, fun line hline => ?_⟩
      obtain ⟨-, -, -, -, h⟩ := lineOf_iff.1 hline
      exact h
  sole _ _ _ _ _ h h' := h.unique h'

end SourceUnit

end CliCompletion
