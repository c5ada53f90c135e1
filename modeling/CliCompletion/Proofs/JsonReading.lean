import CliCompletion.Proofs.JsonGrammar
import Mathlib.Data.List.TakeWhile

namespace CliCompletion

namespace Text

variable {count n m : Nat} {ds s r : List Char}

theorem hex_append (h : hex count n ds = some (m, [])) (r : List Char) :
    hex count n (ds ++ r) = some (m, r) := by
  induction count generalizing n ds with
  | zero =>
      cases h
      rfl
  | succ count ih =>
      cases ds with
      | nil => cases h
      | cons d ds =>
          obtain ⟨k, hk, h⟩ := Option.bind_eq_some_iff.1 h
          exact Option.bind_eq_some_iff.2 ⟨k, hk, ih h⟩

theorem exists_hex_append (h : hex count n s = some (m, r)) :
    ∃ ds, s = ds ++ r ∧ hex count n ds = some (m, []) := by
  induction count generalizing n s with
  | zero =>
      cases h
      exact ⟨[], rfl, rfl⟩
  | succ count ih =>
      cases s with
      | nil => cases h
      | cons d s =>
          obtain ⟨k, hk, h⟩ := Option.bind_eq_some_iff.1 h
          obtain ⟨ds, hs, hds⟩ := ih h
          exact ⟨d :: ds, by rw [hs]; rfl, Option.bind_eq_some_iff.2 ⟨k, hk, hds⟩⟩

end Text

namespace Json

variable {c : Char} {s t g w r b : List Char} {cs : List Char} {v : Value}

section Gaps

theorem skipGap_append (h : Gap b) (s : List Char) : skipGap (b ++ s) = skipGap s :=
  List.dropWhile_append_of_pos h

theorem skipGap_cons (h : isBlank c = false) (s : List Char) : skipGap (c :: s) = c :: s :=
  List.dropWhile_cons_of_neg (by simp [h])

theorem exists_gap (s : List Char) : ∃ b, Gap b ∧ s = b ++ skipGap s :=
  ⟨s.takeWhile isBlank, fun _ hc => List.mem_takeWhile_imp hc,
    List.takeWhile_append_dropWhile.symm⟩

theorem gap_of_skipGap (h : skipGap s = []) : Gap s :=
  List.dropWhile_eq_nil_iff.1 h

end Gaps

section Glyphs

theorem isHigh_toNat (c : Char) : isHigh c.toNat = false := by
  have hc : c.toNat.isValidChar := c.valid
  rw [isHigh, Bool.and_eq_false_iff, decide_eq_false_iff_not, decide_eq_false_iff_not]
  rcases hc with hc | ⟨hc, -⟩ <;> omega

theorem readUnit_unit (h : Text.hex 4 0 g = some (c.toNat, [])) (r : List Char) :
    readUnit (g ++ r) = some (c, r) := by
  rw [readUnit, Text.hex_append h]
  simp [isHigh_toNat, Text.scalar_eq_some.2 rfl]

theorem Glyph.read (h : Glyph c g) (r : List Char) : readGlyph (g ++ r) = some (c, r) := by
  cases h with
  | plain hc hq hb =>
      rw [List.singleton_append, readGlyph]
      · simp [hq, hb, Nat.not_lt.2 hc]
      · exact fun _ h => absurd h hb
      · exact fun _ _ h => absurd h hb
  | @short e _ he =>
      rw [List.cons_append, List.singleton_append, readGlyph, he]
      · rfl
      · rintro rfl
        cases he
  | unit h => exact readUnit_unit h r
  | @pair _ ds es high low hds hes hhigh hlow hc =>
      change readUnit ((ds ++ '\\' :: 'u' :: es) ++ r) = some (c, r)
      rw [List.append_assoc, readUnit, Text.hex_append hds]
      simp [hhigh, hlow, Text.hex_append hes, Text.scalar_eq_some.2 hc]

theorem readUnit_eq_some (h : readUnit s = some (c, r)) :
    ∃ g, s = g ++ r ∧ Glyph c ('\\' :: 'u' :: g) := by
  unfold readUnit at h
  split at h
  · cases h
  · rename_i high s₁ hhex
    obtain ⟨ds, rfl, hds⟩ := Text.exists_hex_append hhex
    split_ifs at h with hhigh
    · split at h
      · rename_i s₂
        obtain ⟨⟨low, s₃⟩, hlow, hjoin⟩ := Option.bind_eq_some_iff.1 h
        obtain ⟨es, rfl, hes⟩ := Text.exists_hex_append hlow
        split_ifs at hjoin with hl
        obtain ⟨d, hd, hjoin⟩ := Option.map_eq_some_iff.1 hjoin
        cases hjoin
        refine ⟨ds ++ '\\' :: 'u' :: es, by simp, ?_⟩
        exact .pair hds hes hhigh hl (Text.scalar_eq_some.1 hd)
      · cases h
    · obtain ⟨d, hd, h⟩ := Option.map_eq_some_iff.1 h
      cases h
      rw [← Text.scalar_eq_some.1 hd] at hds
      exact ⟨ds, rfl, .unit hds⟩

theorem readGlyph_eq_some (h : readGlyph s = some (c, r)) : ∃ g, s = g ++ r ∧ Glyph c g := by
  unfold readGlyph at h
  split at h
  · cases h
  · obtain ⟨g, rfl, hg⟩ := readUnit_eq_some h
    exact ⟨_, rfl, hg⟩
  · obtain ⟨d, hd, h⟩ := Option.map_eq_some_iff.1 h
    cases h
    exact ⟨_, rfl, .short hd⟩
  · split_ifs at h with hc
    cases h
    simp only [Bool.or_eq_true, decide_eq_true_eq, beq_iff_eq, not_or, Nat.not_lt] at hc
    exact ⟨_, rfl, .plain hc.1.1 hc.1.2 hc.2⟩

theorem Glyph.head (h : Glyph c g) : ∃ d s, g = d :: s ∧ d ≠ '"' := by
  cases h with
  | plain _ hq _ => exact ⟨c, [], rfl, hq⟩
  | short _ => exact ⟨_, _, rfl, by decide⟩
  | unit _ => exact ⟨_, _, rfl, by decide⟩
  | pair _ _ _ _ _ => exact ⟨_, _, rfl, by decide⟩

end Glyphs

section Texts

theorem Written.read (h : Written cs w) (r : List Char) {n : Nat} (hn : w.length < n) :
    readChars n (w ++ '"' :: r) = some (cs, r) := by
  induction h generalizing n with
  | nil =>
      obtain ⟨n, rfl⟩ := Nat.exists_eq_add_one.2 hn
      rfl
  | @cons c g cs w hg hw ih =>
      obtain ⟨n, rfl⟩ := Nat.exists_eq_add_one.2 (Nat.zero_lt_of_lt hn)
      obtain ⟨d, g', rfl, hd⟩ := hg.head
      have hlength : w.length < n := by
        simp only [List.length_append, List.length_cons] at hn
        omega
      have hread := hg.read (w ++ '"' :: r)
      rw [List.cons_append] at hread
      rw [List.append_assoc, List.cons_append, readChars]
      · rw [hread, Option.bind_some, ih hlength]
        rfl
      · exact fun _ h => absurd (List.cons.inj h).1 hd

theorem readChars_eq_some {n : Nat} (h : readChars n s = some (cs, r)) :
    ∃ w, s = w ++ '"' :: r ∧ Written cs w := by
  induction n generalizing s cs with
  | zero => cases h
  | succ n ih =>
      unfold readChars at h
      split at h
      · cases h
      · cases h
        exact ⟨[], rfl, .nil⟩
      · rename_i hn _
        cases hn
        obtain ⟨⟨c, s₁⟩, hglyph, h⟩ := Option.bind_eq_some_iff.1 h
        obtain ⟨⟨cs', r'⟩, hr, h⟩ := Option.map_eq_some_iff.1 h
        cases h
        obtain ⟨g, rfl, hg⟩ := readGlyph_eq_some hglyph
        obtain ⟨w, rfl, hw⟩ := ih hr
        exact ⟨g ++ w, by simp, .cons hg hw⟩

theorem SpellsText.read {k : String} (h : SpellsText k t) (r : List Char) :
    readText (t ++ r) = some (k, r) := by
  obtain ⟨w, rfl, hw⟩ := h
  have hn : w.length < (w ++ ['"'] ++ r).length := by
    simp only [List.length_append, List.length_cons]
    omega
  rw [List.cons_append, readText]
  rw [List.append_assoc] at hn ⊢
  rw [List.singleton_append] at hn ⊢
  rw [hw.read r hn, Option.map_some, String.ofList_toList]

theorem readText_eq_some {k : String} (h : readText s = some (k, r)) :
    ∃ t, s = t ++ r ∧ SpellsText k t := by
  unfold readText at h
  split at h
  · obtain ⟨⟨cs, r'⟩, hr, h⟩ := Option.map_eq_some_iff.1 h
    cases h
    obtain ⟨w, rfl, hw⟩ := readChars_eq_some hr
    refine ⟨'"' :: (w ++ ['"']), by simp, w, rfl, ?_⟩
    rwa [String.toList_ofList]
  · cases h

end Texts

section Words

def IsWord (w : List Char) : Prop :=
  ∀ c ∈ w, isWordChar c = true

theorem isWordChar_of_isDigit (h : c.isDigit = true) : isWordChar c = true := by
  simp [isWordChar, Char.isAlphanum, h]

theorem isWord_of_dropWhile (h : IsWord (s.dropWhile Char.isDigit)) : IsWord s := by
  intro c hc
  rw [← List.takeWhile_append_dropWhile (p := Char.isDigit) (l := s), List.mem_append] at hc
  rcases hc with hc | hc
  · exact isWordChar_of_isDigit (List.mem_takeWhile_imp hc)
  · exact h c hc

theorem IsWord.cons (hc : isWordChar c = true) (h : IsWord s) : IsWord (c :: s) :=
  List.forall_mem_cons.2 ⟨hc, h⟩

theorem isWord_of_isDigits (h : isDigits s = true) : IsWord s := by
  rw [isDigits, Bool.and_eq_true, List.all_eq_true] at h
  exact fun c hc => isWordChar_of_isDigit (h.2 c hc)

theorem isWordChar_of_exponent (h : (c == 'e' || c == 'E') = true) : isWordChar c = true := by
  rw [Bool.or_eq_true, beq_iff_eq, beq_iff_eq] at h
  rcases h with rfl | rfl <;> decide

theorem isWord_of_isExponent (h : isExponent s = true) : IsWord s := by
  unfold isExponent at h
  split at h
  · exact fun _ hc => nomatch hc
  · rw [Bool.and_eq_true] at h
    exact .cons (isWordChar_of_exponent h.1) (.cons (by decide) (isWord_of_isDigits h.2))
  · rw [Bool.and_eq_true] at h
    exact .cons (isWordChar_of_exponent h.1) (.cons (by decide) (isWord_of_isDigits h.2))
  · rw [Bool.and_eq_true] at h
    exact .cons (isWordChar_of_exponent h.1) (isWord_of_isDigits h.2)

theorem isWord_of_isFraction (h : isFraction s = true) : IsWord s := by
  unfold isFraction at h
  split at h
  · rw [Bool.and_eq_true] at h
    exact .cons (by decide) (.cons (isWordChar_of_isDigit h.1)
      (isWord_of_dropWhile (isWord_of_isExponent h.2)))
  · exact isWord_of_isExponent h

theorem isWord_of_isUnsigned (h : isUnsigned s = true) : s ≠ [] ∧ IsWord s := by
  unfold isUnsigned at h
  split at h
  · exact ⟨List.cons_ne_nil _ _, .cons (by decide) (isWord_of_isFraction h)⟩
  · rw [Bool.and_eq_true] at h
    exact ⟨List.cons_ne_nil _ _, .cons (isWordChar_of_isDigit h.1)
      (isWord_of_dropWhile (isWord_of_isFraction h.2))⟩
  · cases h

theorem isWord_of_isNumeral (h : isNumeral s = true) : s ≠ [] ∧ IsWord s := by
  unfold isNumeral at h
  split at h
  · exact ⟨List.cons_ne_nil _ _, .cons (by decide) (isWord_of_isUnsigned h).2⟩
  · exact isWord_of_isUnsigned h

theorem isWord_of_all (h : s.all isWordChar = true) : IsWord s :=
  List.all_eq_true.1 h

theorem isWord_of_wordValue (h : wordValue w = some v) : w ≠ [] ∧ IsWord w := by
  unfold wordValue at h
  split_ifs at h with hnull htrue hfalse hnumeral
  · subst hnull
    exact ⟨List.cons_ne_nil _ _, isWord_of_all rfl⟩
  · subst htrue
    exact ⟨List.cons_ne_nil _ _, isWord_of_all rfl⟩
  · subst hfalse
    exact ⟨List.cons_ne_nil _ _, isWord_of_all rfl⟩
  · exact isWord_of_isNumeral hnumeral

def EndsWord (r : List Char) : Prop :=
  ∀ c s, r = c :: s → isWordChar c = false

theorem takeWhile_word (hw : IsWord w) (hr : EndsWord r) :
    (w ++ r).takeWhile isWordChar = w ∧ (w ++ r).dropWhile isWordChar = r := by
  rw [List.takeWhile_append_of_pos hw, List.dropWhile_append_of_pos hw]
  cases r with
  | nil => simp
  | cons c r => simp [hr c r rfl]

theorem endsWord_cons (h : isWordChar c = false) (s : List Char) : EndsWord (c :: s) := by
  rintro _ _ ⟨⟩
  exact h

theorem not_isWordChar_of_isBlank (h : isBlank c = true) : isWordChar c = false := by
  simp only [isBlank, Bool.or_eq_true, beq_iff_eq] at h
  rcases h with ((rfl | rfl) | rfl) | rfl <;> decide

theorem EndsWord.gap (h : EndsWord r) (hg : Gap g) : EndsWord (g ++ r) := by
  cases g with
  | nil => exact h
  | cons c g => exact endsWord_cons (not_isWordChar_of_isBlank (hg c List.mem_cons_self)) _

end Words

section Values

theorem Spells.head (h : Spells v t) : ∃ c s, t = c :: s ∧ isBlank c = false ∧ c ≠ ']' := by
  cases h with
  | word h =>
      obtain ⟨hne, hw⟩ := isWord_of_wordValue h
      obtain ⟨c, s, rfl⟩ := List.exists_cons_of_ne_nil hne
      have hc := hw c List.mem_cons_self
      refine ⟨c, s, rfl, ?_, ?_⟩
      · rw [← Bool.not_eq_true]
        intro hblank
        rw [not_isWordChar_of_isBlank hblank] at hc
        cases hc
      · rintro rfl
        exact absurd hc (by decide)
  | text h =>
      obtain ⟨w, rfl, -⟩ := h
      exact ⟨_, _, rfl, by decide, by decide⟩
  | noItems _ => exact ⟨_, _, rfl, by decide, by decide⟩
  | items _ => exact ⟨_, _, rfl, by decide, by decide⟩
  | noFields _ => exact ⟨_, _, rfl, by decide, by decide⟩
  | fields _ => exact ⟨_, _, rfl, by decide, by decide⟩

theorem Spells.skipGap (h : Spells v t) (hb : Gap b) (r : List Char) :
    Json.skipGap (b ++ (t ++ r)) = t ++ r := by
  obtain ⟨c, s, rfl, hc, -⟩ := h.head
  rw [skipGap_append hb, List.cons_append, skipGap_cons hc]

theorem SpellsText.skipGap {k : String} (h : SpellsText k t) (hb : Gap b) (r : List Char) :
    Json.skipGap (b ++ (t ++ r)) = t ++ r := by
  obtain ⟨w, rfl, -⟩ := h
  rw [skipGap_append hb, List.cons_append, skipGap_cons (by decide)]

theorem skipGap_mark (ha : Gap g) (hc : isBlank c = false) (r : List Char) :
    skipGap (g ++ c :: r) = c :: r := by
  rw [skipGap_append ha, skipGap_cons hc]

theorem SpellsItems.skipGap_ne {vs : List Value} (h : SpellsItems vs t) (r u : List Char) :
    Json.skipGap (t ++ r) ≠ ']' :: u := by
  have hne {v : Value} {b t : List Char} (hb : Gap b) (hv : Spells v t) (r : List Char) :
      Json.skipGap (b ++ (t ++ r)) ≠ ']' :: u := by
    rw [hv.skipGap hb]
    obtain ⟨c, s, rfl, -, hc⟩ := hv.head
    exact fun h => absurd (List.cons.inj h).1 hc
  cases h with
  | last hb hv ha =>
      rw [List.append_assoc, List.append_assoc]
      exact hne hb hv _
  | more hb hv ha _ =>
      rw [List.append_assoc, List.append_assoc]
      exact hne hb hv _

theorem SpellsFields.skipGap_ne {fs : List (String × Value)} (h : SpellsFields fs t)
    (r u : List Char) : Json.skipGap (t ++ r) ≠ '\x7d' :: u := by
  have hne {k : String} {b t : List Char} (hb : Gap b) (hk : SpellsText k t) (r : List Char) :
      Json.skipGap (b ++ (t ++ r)) ≠ '\x7d' :: u := by
    rw [hk.skipGap hb]
    obtain ⟨w, rfl, -⟩ := hk
    exact fun h => absurd (List.cons.inj h).1 (by decide)
  cases h with
  | last hb hk ha hb' hv ha' =>
      rw [List.append_assoc, List.append_assoc]
      exact hne hb hk _
  | more hb hk ha hb' hv ha' _ =>
      rw [List.append_assoc, List.append_assoc]
      exact hne hb hk _

section Steps

variable {n : Nat} {k : String} {u : List Char}

theorem readItems_last (hv : readValue n (Json.skipGap s) = some (v, u))
    (hu : Json.skipGap u = ']' :: r) : readItems (n + 1) s = some ([v], r) := by
  rw [readItems, hv, Option.bind_some, hu]
  rfl

theorem readItems_more (hv : readValue n (Json.skipGap s) = some (v, u))
    (hu : Json.skipGap u = ',' :: r) :
    readItems (n + 1) s = (readItems n r).map fun q => (v :: q.1, q.2) := by
  rw [readItems, hv, Option.bind_some, hu]
  rfl

variable {s' u' : List Char}

theorem readFields_last (hk : readText (Json.skipGap s) = some (k, u))
    (hu : Json.skipGap u = ':' :: s') (hv : readValue n (Json.skipGap s') = some (v, u'))
    (hu' : Json.skipGap u' = '\x7d' :: r) : readFields (n + 1) s = some ([(k, v)], r) := by
  rw [readFields, hk, Option.bind_some, hu]
  change ((readValue n (Json.skipGap s')).bind fun p => _) = _
  rw [hv, Option.bind_some, hu']
  rfl

theorem readFields_more (hk : readText (Json.skipGap s) = some (k, u))
    (hu : Json.skipGap u = ':' :: s') (hv : readValue n (Json.skipGap s') = some (v, u'))
    (hu' : Json.skipGap u' = ',' :: r) :
    readFields (n + 1) s = (readFields n r).map fun q => ((k, v) :: q.1, q.2) := by
  rw [readFields, hk, Option.bind_some, hu]
  change ((readValue n (Json.skipGap s')).bind fun p => _) = _
  rw [hv, Option.bind_some, hu']
  rfl

end Steps

theorem endsWord_mark (ha : Gap g) (hc : isWordChar c = false) (r : List Char) :
    EndsWord (g ++ c :: r) :=
  (endsWord_cons hc r).gap ha

mutual

theorem Spells.read : ∀ {v : Value} {t : List Char}, Spells v t → ∀ {n : Nat} {r : List Char},
    t.length ≤ n → EndsWord r → readValue n (t ++ r) = some (v, r)
  | v, t, .word h, n, r, hn, hr => by
      obtain ⟨hne, hw⟩ := isWord_of_wordValue h
      obtain ⟨hword, hrest⟩ := takeWhile_word hw hr
      obtain ⟨c, s, rfl⟩ := List.exists_cons_of_ne_nil hne
      obtain ⟨n, rfl⟩ := Nat.exists_eq_add_one.2 (Nat.zero_lt_of_lt hn)
      have hc := hw c List.mem_cons_self
      have hmark : ∀ m, isWordChar m = false → ∀ u, c :: (s ++ r) = m :: u → False := by
        rintro m hm u h
        rw [(List.cons.inj h).1, hm] at hc
        cases hc
      rw [List.cons_append] at hword hrest ⊢
      rw [readValue, hword, hrest, h]
      · rfl
      · exact hmark _ (by decide)
      · exact hmark _ (by decide)
      · exact hmark _ (by decide)
  | _, _, @Spells.text s t h, n, r, hn, hr => by
      have hread := h.read r
      obtain ⟨w, rfl, -⟩ := h
      obtain ⟨n, rfl⟩ := Nat.exists_eq_add_one.2 (Nat.zero_lt_of_lt hn)
      rw [List.cons_append] at hread ⊢
      rw [readValue, hread]
      rfl
  | _, _, .noItems hg, n, r, hn, hr => by
      obtain ⟨n, rfl⟩ := Nat.exists_eq_add_one.2 (Nat.zero_lt_of_lt hn)
      rw [List.cons_append, List.append_assoc, List.singleton_append, readValue,
        skipGap_mark hg (by decide)]
      rfl
  | _, _, @Spells.items vs t h, n, r, hn, hr => by
      obtain ⟨n, rfl⟩ := Nat.exists_eq_add_one.2 (Nat.zero_lt_of_lt hn)
      have hlength : t.length < n := by
        simp only [List.length_cons, List.length_append, List.length_nil] at hn
        omega
      rw [List.cons_append, List.append_assoc, List.singleton_append, readValue]
      split
      · rename_i hskip
        exact absurd hskip (h.skipGap_ne _ _)
      · rw [h.read hlength]
        rfl
  | _, _, .noFields hg, n, r, hn, hr => by
      obtain ⟨n, rfl⟩ := Nat.exists_eq_add_one.2 (Nat.zero_lt_of_lt hn)
      rw [List.cons_append, List.append_assoc, List.singleton_append, readValue,
        skipGap_mark hg (by decide)]
      rfl
  | _, _, @Spells.fields fs t h, n, r, hn, hr => by
      obtain ⟨n, rfl⟩ := Nat.exists_eq_add_one.2 (Nat.zero_lt_of_lt hn)
      have hlength : t.length < n := by
        simp only [List.length_cons, List.length_append, List.length_nil] at hn
        omega
      rw [List.cons_append, List.append_assoc, List.singleton_append, readValue]
      split
      · rename_i hskip
        exact absurd hskip (h.skipGap_ne _ _)
      · rw [h.read hlength]
        rfl

theorem SpellsItems.read : ∀ {vs : List Value} {t : List Char}, SpellsItems vs t →
    ∀ {n : Nat} {r : List Char}, t.length < n → readItems n (t ++ ']' :: r) = some (vs, r)
  | _, _, @SpellsItems.last v b t a hb h ha, n, r, hn => by
      obtain ⟨n, rfl⟩ := Nat.exists_eq_add_one.2 (Nat.zero_lt_of_lt hn)
      have hlength : t.length ≤ n := by
        simp only [List.length_append] at hn
        omega
      rw [List.append_assoc, List.append_assoc]
      refine readItems_last (u := a ++ ']' :: r) ?_ (skipGap_mark ha (by decide) r)
      rw [h.skipGap hb]
      exact h.read hlength (endsWord_mark ha (by decide) r)
  | _, _, @SpellsItems.more v vs b t a u hb h ha hs, n, r, hn => by
      obtain ⟨n, rfl⟩ := Nat.exists_eq_add_one.2 (Nat.zero_lt_of_lt hn)
      have hlength : t.length ≤ n ∧ u.length < n := by
        simp only [List.length_append, List.length_cons] at hn
        omega
      rw [List.append_assoc, List.append_assoc, List.append_assoc, List.cons_append]
      have hv : readValue n (Json.skipGap (b ++ (t ++ (a ++ ',' :: (u ++ ']' :: r))))) =
          some (v, a ++ ',' :: (u ++ ']' :: r)) := by
        rw [h.skipGap hb]
        exact h.read hlength.1 (endsWord_mark ha (by decide) _)
      rw [readItems_more hv (skipGap_mark ha (by decide) _), hs.read hlength.2]
      rfl

theorem SpellsFields.read : ∀ {fs : List (String × Value)} {t : List Char}, SpellsFields fs t →
    ∀ {n : Nat} {r : List Char}, t.length < n → readFields n (t ++ '\x7d' :: r) = some (fs, r)
  | _, _, @SpellsFields.last k v b t a b' t' a' hb hk ha hb' h ha', n, r, hn => by
      obtain ⟨n, rfl⟩ := Nat.exists_eq_add_one.2 (Nat.zero_lt_of_lt hn)
      have hlength : t'.length ≤ n := by
        simp only [List.length_append, List.length_cons] at hn
        omega
      simp only [List.append_assoc, List.cons_append]
      refine readFields_last (u := a ++ ':' :: (b' ++ (t' ++ (a' ++ '\x7d' :: r)))) ?_
        (skipGap_mark ha (by decide) _) ?_ (skipGap_mark ha' (by decide) r)
      · rw [hk.skipGap hb]
        exact hk.read _
      · rw [h.skipGap hb']
        exact h.read hlength (endsWord_mark ha' (by decide) r)
  | _, _, @SpellsFields.more k v fs b t a b' t' a' u hb hk ha hb' h ha' hs, n, r, hn => by
      obtain ⟨n, rfl⟩ := Nat.exists_eq_add_one.2 (Nat.zero_lt_of_lt hn)
      have hlength : t'.length ≤ n ∧ u.length < n := by
        simp only [List.length_append, List.length_cons] at hn
        omega
      simp only [List.append_assoc, List.cons_append]
      have hkey : readText (Json.skipGap
          (b ++ (t ++ (a ++ ':' :: (b' ++ (t' ++ (a' ++ ',' :: (u ++ '\x7d' :: r)))))))) =
          some (k, a ++ ':' :: (b' ++ (t' ++ (a' ++ ',' :: (u ++ '\x7d' :: r))))) := by
        rw [hk.skipGap hb]
        exact hk.read _
      have hv : readValue n (Json.skipGap (b' ++ (t' ++ (a' ++ ',' :: (u ++ '\x7d' :: r))))) =
          some (v, a' ++ ',' :: (u ++ '\x7d' :: r)) := by
        rw [h.skipGap hb']
        exact h.read hlength.1 (endsWord_mark ha' (by decide) _)
      rw [readFields_more hkey (skipGap_mark ha (by decide) _) hv (skipGap_mark ha' (by decide) _),
        hs.read hlength.2]
      rfl

end

theorem exists_gap_of_skipGap (h : Json.skipGap s = t) : ∃ b, Gap b ∧ s = b ++ t :=
  h ▸ exists_gap s

section Soundness

variable {n : Nat}

theorem spells_of_readValue
    (hitems : ∀ {s vs r}, readItems n s = some (vs, r) → ∃ t, s = t ++ ']' :: r ∧ SpellsItems vs t)
    (hfields : ∀ {s fs r}, readFields n s = some (fs, r) →
      ∃ t, s = t ++ '\x7d' :: r ∧ SpellsFields fs t)
    (h : readValue (n + 1) s = some (v, r)) : ∃ t, s = t ++ r ∧ Spells v t := by
  unfold readValue at h
  split at h
  · cases ‹n + 1 = 0›
  · obtain ⟨⟨k, u⟩, hk, h⟩ := Option.map_eq_some_iff.1 h
    cases h
    obtain ⟨t, ht, hk⟩ := readText_eq_some hk
    exact ⟨t, ht, .text hk⟩
  · cases ‹n + 1 = _›
    split at h
    · rename_i hskip
      cases h
      obtain ⟨b, hb, rfl⟩ := exists_gap_of_skipGap hskip
      exact ⟨'[' :: (b ++ [']']), by simp, .noItems hb⟩
    · obtain ⟨⟨vs, u⟩, hvs, h⟩ := Option.map_eq_some_iff.1 h
      cases h
      obtain ⟨t, rfl, ht⟩ := hitems hvs
      exact ⟨'[' :: (t ++ [']']), by simp, .items ht⟩
  · cases ‹n + 1 = _›
    split at h
    · rename_i hskip
      cases h
      obtain ⟨b, hb, rfl⟩ := exists_gap_of_skipGap hskip
      exact ⟨'\x7b' :: (b ++ ['\x7d']), by simp, .noFields hb⟩
    · obtain ⟨⟨fs, u⟩, hfs, h⟩ := Option.map_eq_some_iff.1 h
      cases h
      obtain ⟨t, rfl, ht⟩ := hfields hfs
      exact ⟨'\x7b' :: (t ++ ['\x7d']), by simp, .fields ht⟩
  · obtain ⟨w, hw, h⟩ := Option.map_eq_some_iff.1 h
    cases h
    exact ⟨_, List.takeWhile_append_dropWhile.symm, .word hw⟩

theorem spells_of_readItems {vs : List Value}
    (hvalue : ∀ {s v r}, readValue n s = some (v, r) → ∃ t, s = t ++ r ∧ Spells v t)
    (hitems : ∀ {s vs r}, readItems n s = some (vs, r) → ∃ t, s = t ++ ']' :: r ∧ SpellsItems vs t)
    (h : readItems (n + 1) s = some (vs, r)) : ∃ t, s = t ++ ']' :: r ∧ SpellsItems vs t := by
  rw [readItems] at h
  obtain ⟨⟨v, u⟩, hv, hnext⟩ := Option.bind_eq_some_iff.1 h
  obtain ⟨t, hskip, ht⟩ := hvalue hv
  obtain ⟨b, hb, rfl⟩ := exists_gap_of_skipGap hskip
  split at hnext
  · rename_i hmark
    obtain ⟨a, ha, rfl⟩ := exists_gap_of_skipGap hmark
    obtain ⟨⟨ws, u⟩, hws, h⟩ := Option.map_eq_some_iff.1 hnext
    cases h
    obtain ⟨q, rfl, hq⟩ := hitems hws
    exact ⟨b ++ (t ++ (a ++ ',' :: q)), by simp, .more hb ht ha hq⟩
  · rename_i hmark
    obtain ⟨a, ha, rfl⟩ := exists_gap_of_skipGap hmark
    cases hnext
    exact ⟨b ++ (t ++ a), by simp, .last hb ht ha⟩
  · cases hnext

theorem spells_of_readFields {fs : List (String × Value)}
    (hvalue : ∀ {s v r}, readValue n s = some (v, r) → ∃ t, s = t ++ r ∧ Spells v t)
    (hfields : ∀ {s fs r}, readFields n s = some (fs, r) →
      ∃ t, s = t ++ '\x7d' :: r ∧ SpellsFields fs t)
    (h : readFields (n + 1) s = some (fs, r)) :
    ∃ t, s = t ++ '\x7d' :: r ∧ SpellsFields fs t := by
  rw [readFields] at h
  obtain ⟨⟨k, u⟩, hk, hcolon⟩ := Option.bind_eq_some_iff.1 h
  obtain ⟨t, hskip, ht⟩ := readText_eq_some hk
  obtain ⟨b, hb, rfl⟩ := exists_gap_of_skipGap hskip
  split at hcolon
  · rename_i s' hmark
    obtain ⟨a, ha, rfl⟩ := exists_gap_of_skipGap hmark
    obtain ⟨⟨v, u⟩, hv, hnext⟩ := Option.bind_eq_some_iff.1 hcolon
    obtain ⟨t', hskip, ht'⟩ := hvalue hv
    obtain ⟨b', hb', rfl⟩ := exists_gap_of_skipGap hskip
    split at hnext
    · rename_i hmark
      obtain ⟨a', ha', rfl⟩ := exists_gap_of_skipGap hmark
      obtain ⟨⟨gs, u⟩, hgs, h⟩ := Option.map_eq_some_iff.1 hnext
      cases h
      obtain ⟨q, rfl, hq⟩ := hfields hgs
      exact ⟨_, by simp, .more hb ht ha hb' ht' ha' hq⟩
    · rename_i hmark
      obtain ⟨a', ha', rfl⟩ := exists_gap_of_skipGap hmark
      cases hnext
      exact ⟨_, by simp, .last hb ht ha hb' ht' ha'⟩
    · cases hnext
  · cases hcolon

theorem reading_sound (n : Nat) :
    (∀ {s v r}, readValue n s = some (v, r) → ∃ t, s = t ++ r ∧ Spells v t) ∧
    (∀ {s vs r}, readItems n s = some (vs, r) → ∃ t, s = t ++ ']' :: r ∧ SpellsItems vs t) ∧
    ∀ {s fs r}, readFields n s = some (fs, r) →
      ∃ t, s = t ++ '\x7d' :: r ∧ SpellsFields fs t := by
  induction n with
  | zero => exact ⟨fun h => (nomatch h), fun h => (nomatch h), fun h => (nomatch h)⟩
  | succ n ih =>
      obtain ⟨hvalue, hitems, hfields⟩ := ih
      exact ⟨fun h => spells_of_readValue hitems hfields h,
        fun h => spells_of_readItems hvalue hitems h,
        fun h => spells_of_readFields hvalue hfields h⟩

end Soundness

theorem read_eq_some : Json.read s = some v ↔ Document v s := by
  unfold Json.read
  constructor
  · intro h
    split at h
    · rename_i w r hread
      split_ifs at h with hr
      cases h
      obtain ⟨t, hskip, ht⟩ := (reading_sound _).1 hread
      obtain ⟨b, hb, hs⟩ := exists_gap_of_skipGap hskip
      exact ⟨b, t, r, hs, hb, ht, gap_of_skipGap hr⟩
    · cases h
  · rintro ⟨b, t, a, rfl, hb, ht, ha⟩
    have hend : EndsWord (a ++ []) := EndsWord.gap (fun c s h => nomatch h) ha
    have hskip : Json.skipGap a = [] := List.dropWhile_eq_nil_iff.2 ha
    have hlength : t.length ≤ (b ++ (t ++ a)).length := by
      simp only [List.length_append]
      omega
    rw [List.append_nil] at hend
    rw [ht.skipGap hb, ht.read hlength hend]
    exact if_pos hskip

theorem Document.unique {w : Value} (h : Document v s) (h' : Document w s) : v = w :=
  Option.some.inj ((read_eq_some.2 h).symm.trans (read_eq_some.2 h'))

end Values

end Json

end CliCompletion
