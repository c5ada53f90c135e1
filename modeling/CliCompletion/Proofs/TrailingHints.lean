import CliCompletion.Hint
import CliCompletion.Proofs.Blanks
import CliCompletion.Proofs.Comments
import Mathlib.Data.List.Nodup

namespace CliCompletion.Hint

open Text (Gap EndsWord Trimmed isBlank trim trimStart)

variable {m s t g rest text : List Char} {marker : String} {comments : List Comment}
  {hints : List Hint} {h : Hint} {c : Comment} {line : Nat}

def MarkedBy (marker : String) (text rest : List Char) : Prop :=
  ∃ blanks, text = '#' :: (blanks ++ marker.toList ++ rest) ∧ Gap blanks ∧ EndsWord rest

structure Scanned (source : List Char) (marker : String) (comments : List Comment)
    (hints : List Hint) : Prop where
  entry : ∀ line, (∃ h, onLine hints line = some h) ↔ ∃ c ∈ comments, c.StandsIn source ∧
    c.line = line ∧ (∃ ch ∈ c.lead, isBlank ch = false) ∧ ∃ rest, MarkedBy marker c.text rest
  text : ∀ line h, onLine hints line = some h → ∀ c ∈ comments, c.line = line →
    ∀ rest body, MarkedBy marker c.text rest → Trimmed rest body →
      h = ofText line (String.ofList body)
  kept : (hints.map Hint.line).Nodup

section Marker

theorem afterMarker_eq_some_iff : afterMarker m s = some t ↔
    ∃ rest, s = m ++ rest ∧ EndsWord rest ∧ trim rest = t := by
  unfold afterMarker
  constructor
  · intro h
    split at h
    · next hp =>
        obtain ⟨rest, rfl⟩ := List.isPrefixOf_iff_prefix.1 hp
        rw [List.drop_left] at h
        refine ⟨rest, rfl, ?_⟩
        split at h
        · cases h
          exact ⟨by simp [EndsWord], rfl⟩
        · next c rest =>
            split at h
            · next hc =>
                cases h
                exact ⟨by simpa [EndsWord] using hc, rfl⟩
            · cases h
    · cases h
  · rintro ⟨rest, rfl, he, rfl⟩
    rw [if_pos (List.isPrefixOf_iff_prefix.2 (List.prefix_append m rest)), List.drop_left]
    cases rest with
    | nil => rfl
    | cons c rest => exact if_pos (he c rfl)

theorem trim_eq_of_marked {g₁ g₂ rest₁ rest₂ : List Char} (h₁ : Gap g₁) (h₂ : Gap g₂)
    (h : g₁ ++ m ++ rest₁ = g₂ ++ m ++ rest₂) : trim rest₁ = trim rest₂ := by
  have hstart : trimStart (m ++ rest₁) = trimStart (m ++ rest₂) := by
    rw [← Text.trimStart_gap h₁ (m ++ rest₁), ← List.append_assoc, h, List.append_assoc,
      Text.trimStart_gap h₂]
  rw [trimStart, trimStart, List.dropWhile_append, List.dropWhile_append] at hstart
  split at hstart
  · exact congrArg Text.trimEnd hstart
  · rw [List.append_cancel_left hstart]

theorem exists_of_afterBlanks (h : afterBlanks m s = some t) : ∃ g rest,
    s = g ++ m ++ rest ∧ Gap g ∧ EndsWord rest ∧ trim rest = t := by
  have hhere {s : List Char} (h : afterMarker m s = some t) : ∃ g rest,
      s = g ++ m ++ rest ∧ Gap g ∧ EndsWord rest ∧ trim rest = t := by
    obtain ⟨rest, hs, h⟩ := afterMarker_eq_some_iff.1 h
    exact ⟨[], rest, hs, Text.gap_nil, h⟩
  induction s with
  | nil => exact hhere h
  | cons c s ih =>
      rw [afterBlanks] at h
      split at h
      · next hc =>
          rcases Option.or_eq_some_iff.1 h with h | ⟨-, h⟩
          · obtain ⟨g, rest, rfl, hg, h⟩ := ih h
            exact ⟨c :: g, rest, rfl, Text.gap_cons.2 ⟨hc, hg⟩, h⟩
          · exact hhere h
      · exact hhere h

theorem exists_afterBlanks (hg : Gap g) (he : EndsWord rest) :
    ∃ t, afterBlanks m (g ++ m ++ rest) = some t := by
  induction g with
  | nil =>
      have hhere : afterMarker m (m ++ rest) = some (trim rest) :=
        afterMarker_eq_some_iff.2 ⟨rest, rfl, he, rfl⟩
      rw [List.nil_append]
      cases hs : m ++ rest with
      | nil => exact ⟨_, hs ▸ hhere⟩
      | cons c s =>
          rw [hs] at hhere
          rw [afterBlanks, hhere]
          split
          · cases afterBlanks m s with
            | none => exact ⟨_, rfl⟩
            | some t => exact ⟨t, rfl⟩
          · exact ⟨_, rfl⟩
  | cons c g ih =>
      obtain ⟨hc, hg⟩ := Text.gap_cons.1 hg
      obtain ⟨t, ht⟩ := ih hg
      exact ⟨t, by rw [List.cons_append, List.cons_append, afterBlanks, if_pos hc, ht]; rfl⟩

theorem body_eq_some_iff : body marker.toList text = some t ↔
    ∃ rest, MarkedBy marker text rest ∧ trim rest = t := by
  constructor
  · intro h
    unfold body at h
    split at h
    · obtain ⟨g, rest, rfl, hg, he, ht⟩ := exists_of_afterBlanks h
      exact ⟨rest, ⟨g, rfl, hg, he⟩, ht⟩
    · cases h
  · rintro ⟨rest, ⟨g, rfl, hg, he⟩, rfl⟩
    obtain ⟨t, ht⟩ := exists_afterBlanks (m := marker.toList) hg he
    obtain ⟨g', rest', hs, hg', -, rfl⟩ := exists_of_afterBlanks ht
    rw [body, ht, trim_eq_of_marked hg hg' hs]

end Marker

section Scan

theorem isTrailing_iff : c.isTrailing = true ↔ ∃ ch ∈ c.lead, isBlank ch = false := by
  simp [Comment.isTrailing]

theorem ofComment_eq_some_iff : ofComment marker c = some h ↔
    (∃ ch ∈ c.lead, isBlank ch = false) ∧ ∃ rest, MarkedBy marker c.text rest ∧
      h = ofText c.line (String.ofList (trim rest)) := by
  rw [ofComment, ← isTrailing_iff]
  split
  · next ht =>
      simp only [Option.map_eq_some_iff, body_eq_some_iff, ht, true_and]
      constructor
      · rintro ⟨_, ⟨rest, hm, rfl⟩, rfl⟩
        exact ⟨rest, hm, rfl⟩
      · rintro ⟨rest, hm, rfl⟩
        exact ⟨_, ⟨rest, hm, rfl⟩, rfl⟩
  · next ht => simp [ht]

theorem line_of_ofComment (ho : ofComment marker c = some h) : h.line = c.line := by
  obtain ⟨-, rest, -, rfl⟩ := ofComment_eq_some_iff.1 ho
  rfl

theorem MarkedBy.trim_eq {rest' : List Char} (hm : MarkedBy marker text rest)
    (hm' : MarkedBy marker text rest') : trim rest = trim rest' := by
  obtain ⟨g, rfl, hg, -⟩ := hm
  obtain ⟨g', he, hg', -⟩ := hm'
  exact trim_eq_of_marked hg hg' (List.cons.inj he).2

theorem line_sublist_scan (marker : String) (comments : List Comment) :
    ((scan marker comments).map Hint.line).Sublist (comments.map Comment.line) := by
  induction comments with
  | nil => exact .slnil
  | cons c comments ih =>
      rw [scan, List.filterMap_cons]
      split
      · exact ih.cons _
      · next h ho =>
          rw [List.map_cons, List.map_cons, line_of_ofComment ho]
          exact ih.cons_cons _

theorem mem_scan_iff : h ∈ scan marker comments ↔ ∃ c ∈ comments, ofComment marker c = some h :=
  List.mem_filterMap

theorem onLine_eq_some_iff_mem (hn : (hints.map Hint.line).Nodup) :
    onLine hints line = some h ↔ h ∈ hints ∧ h.line = line := by
  constructor
  · intro hl
    exact ⟨List.mem_of_find?_eq_some hl, by simpa using List.find?_some hl⟩
  · rintro ⟨hm, rfl⟩
    have hsome : (onLine hints h.line).isSome = true :=
      List.find?_isSome.2 ⟨h, hm, beq_self_eq_true h.line⟩
    obtain ⟨h', hl⟩ := Option.isSome_iff_exists.1 hsome
    have he : h'.line = h.line := by simpa using List.find?_some hl
    rw [hl, List.inj_on_of_nodup_map hn (List.mem_of_find?_eq_some hl) hm he]

theorem onLine_scan_iff (hc : (comments.map Comment.line).Nodup) :
    onLine (scan marker comments) line = some h ↔
      ∃ c ∈ comments, c.line = line ∧ ofComment marker c = some h := by
  rw [onLine_eq_some_iff_mem (hc.sublist (line_sublist_scan marker comments)), mem_scan_iff]
  constructor
  · rintro ⟨⟨c, hm, ho⟩, rfl⟩
    exact ⟨c, hm, (line_of_ofComment ho).symm, ho⟩
  · rintro ⟨c, hm, rfl, ho⟩
    exact ⟨⟨c, hm, ho⟩, line_of_ofComment ho⟩

theorem Scanned.of_placed {source : List Char} (hp : Comment.Placed source comments)
    (marker : String) : Scanned source marker comments (scan marker comments) where
  entry line := by
    simp only [onLine_scan_iff hp.sole, ofComment_eq_some_iff]
    constructor
    · rintro ⟨_, c, hm, hl, ht, rest, hr, -⟩
      exact ⟨c, hm, hp.stands c hm, hl, ht, rest, hr⟩
    · rintro ⟨c, hm, -, hl, ht, rest, hr⟩
      exact ⟨_, c, hm, hl, ht, rest, hr, rfl⟩
  text line h hl c hm he rest body hr hb := by
    obtain ⟨c', hm', he', ho⟩ := (onLine_scan_iff hp.sole).1 hl
    obtain rfl := List.inj_on_of_nodup_map hp.sole hm' hm (he'.trans he.symm)
    obtain ⟨-, rest', hr', rfl⟩ := ofComment_eq_some_iff.1 ho
    rw [hr'.trim_eq hr, hb.trim_eq, he]
  kept := hp.sole.sublist (line_sublist_scan marker comments)

theorem scan_keeps_marked_trailing (source : List Char) :
    Comment.Placed source (Comment.ofSource source) ∧
      ∀ marker comments, Comment.Placed source comments →
        Scanned source marker comments (scan marker comments) :=
  ⟨Comment.placed_ofSource source, fun marker _ hp => .of_placed hp marker⟩

theorem scan_keeps_marked_trailing_blank :
    scan " " (Comment.ofSource "# a\nf(x) #   func=y \n".toList) =
        [⟨2, "func=y", [("func", "y")]⟩] ∧
      Scanned "# a\nf(x) #   func=y \n".toList " "
        (Comment.ofSource "# a\nf(x) #   func=y \n".toList)
        (scan " " (Comment.ofSource "# a\nf(x) #   func=y \n".toList)) :=
  ⟨by decide +kernel, (scan_keeps_marked_trailing _).2 " " _ (scan_keeps_marked_trailing _).1⟩

end Scan

end CliCompletion.Hint
