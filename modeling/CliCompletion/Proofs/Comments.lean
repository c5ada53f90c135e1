import CliCompletion.Proofs.Blanks
import CliCompletion.Proofs.SourceLines
import CliCompletion.Script.Token.Lexer

namespace CliCompletion

open Text (Closed)

def Comment.StandsIn (source : List Char) (c : Comment) : Prop :=
  ∃ before after, source = before ++ c.lead ++ c.text ++ after ∧ Closed before ∧
    c.line = before.count '\n' + 1 ∧ '\n' ∉ c.lead ∧ '\n' ∉ c.text ∧ ∀ ch ∈ after.head?, ch = '\n'

structure Comment.Placed (source : List Char) (comments : List Comment) : Prop where
  stands : ∀ c ∈ comments, c.StandsIn source
  sole : (comments.map Comment.line).Nodup

namespace Lexer

variable {s t : Lexer} {source done text rest cs : List Char} {r : Lexer × List Char}

def HasRead (s : Lexer) (done : List Char) : Prop :=
  ∃ before, done = before ++ s.lead.reverse ∧ Closed before ∧ '\n' ∉ s.lead ∧
    s.line = before.count '\n' + 1

structure Reads (s : Lexer) (text : List Char) (t : Lexer) : Prop where
  place : ∀ done, s.HasRead done → t.HasRead (done ++ text)
  comments : t.comments = s.comments

structure ReadsComment (s : Lexer) (text rest : List Char) (t : Lexer) : Prop where
  place : ∀ done, s.HasRead done → t.HasRead (done ++ text)
  comments : t.comments = ⟨s.line, s.lead.reverse, text⟩ :: s.comments
  nonempty : text ≠ []
  within : '\n' ∉ text
  ended : ∀ ch ∈ rest.head?, ch = '\n'

def Goes (s : Lexer) (cs : List Char) (r : Lexer × List Char) : Prop :=
  ∃ text, cs = text ++ r.2 ∧ s.Reads text r.1

section Place

theorem hasRead_start : start.HasRead [] :=
  ⟨[], rfl, .inl rfl, List.not_mem_nil, rfl⟩

theorem HasRead.line_eq (h : s.HasRead done) : s.line = done.count '\n' + 1 := by
  obtain ⟨before, rfl, -, hlead, hline⟩ := h
  rw [hline, List.count_append, List.count_reverse, List.count_eq_zero.2 hlead, Nat.add_zero]

theorem HasRead.through (h : s.HasRead done) (cs : List Char) :
    (s.through cs).HasRead (done ++ cs) := by
  induction cs generalizing s done with
  | nil => rwa [List.append_nil]
  | cons c cs ih =>
      obtain ⟨before, rfl, hclosed, hlead, hline⟩ := h
      rw [Lexer.through, List.foldl_cons, List.append_cons]
      refine ih ?_
      split
      · next hc =>
          subst hc
          refine ⟨before ++ s.lead.reverse ++ ['\n'], by simp, .inr ⟨_, rfl⟩, List.not_mem_nil, ?_⟩
          simp [hline, List.count_eq_zero.2 hlead]
      · next hc =>
          refine ⟨before, by simp, hclosed, ?_, hline⟩
          exact List.not_mem_cons_of_ne_of_not_mem (Ne.symm hc) hlead

theorem comments_through (s : Lexer) (cs : List Char) : (s.through cs).comments = s.comments := by
  induction cs generalizing s with
  | nil => rfl
  | cons c cs ih =>
      rw [through, List.foldl_cons]
      refine (ih _).trans ?_
      split <;> rfl

theorem reads_skip (s : Lexer) (cs : List Char) : s.Reads cs (s.skip cs) :=
  ⟨fun _ h => h.through cs, comments_through s cs⟩

theorem reads_emit (s : Lexer) (kind : TokenKind) (cs : List Char) :
    s.Reads cs (s.emit kind cs) :=
  ⟨fun _ h => h.through cs, comments_through s cs⟩

theorem Reads.push (h : s.Reads text t) (m : LexMode) : s.Reads text (t.push m) :=
  ⟨h.place, h.comments⟩

theorem Reads.pop (h : s.Reads text t) : s.Reads text t.pop :=
  ⟨h.place, h.comments⟩

theorem reads_startLine (s : Lexer) : s.Reads [] s.startLine := by
  unfold startLine
  split
  · exact ⟨fun done h => by rwa [List.append_nil], rfl⟩
  · next n _ =>
      have h := s.reads_emit (.newline n) []
      exact ⟨h.place, h.comments⟩

theorem comments_finish (s : Lexer) : s.finish.comments = s.comments := by
  rw [finish, (reads_emit _ _ _).comments, (reads_startLine _).comments]

theorem Goes.after_startLine (h : s.startLine.Goes cs r) : s.Goes cs r := by
  obtain ⟨text, hcs, hr⟩ := h
  refine ⟨text, hcs, fun done hd => hr.place _ ?_, hr.comments.trans (reads_startLine s).comments⟩
  simpa using (reads_startLine s).place done hd

theorem Goes.push (h : s.Goes cs r) (m : LexMode) : s.Goes cs (r.1.push m, r.2) := by
  obtain ⟨text, hcs, hr⟩ := h
  exact ⟨text, hcs, hr.push m⟩

theorem Goes.pop (h : s.Goes cs r) : s.Goes cs (r.1.pop, r.2) := by
  obtain ⟨text, hcs, hr⟩ := h
  exact ⟨text, hcs, hr.pop⟩

theorem goes_emit (s : Lexer) (kind : TokenKind) (text rest : List Char) :
    s.Goes (text ++ rest) (s.emit kind text, rest) :=
  ⟨text, rfl, s.reads_emit kind text⟩

end Place

section Spans

theorem digitRun_append {isDigit : Char → Bool} (h : digitRun isDigit cs = (text, rest)) :
    text ++ rest = cs := by
  cases h
  exact List.takeWhile_append_dropWhile

theorem suffix_append {letters : List Char} (h : suffix letters cs = (text, rest)) :
    text ++ rest = cs := by
  unfold suffix at h
  grind

theorem fraction_append (h : fraction cs = (text, rest)) : text ++ rest = cs := by
  unfold fraction at h
  grind [digitRun_append]

theorem exponent_append (h : exponent cs = (text, rest)) : text ++ rest = cs := by
  unfold exponent at h
  grind [digitRun_append]

theorem numeral_append (cs : List Char) : (numeral cs).2.1 ++ (numeral cs).2.2 = cs := by
  fun_cases numeral cs with
  | case1 based text rest hb =>
      dsimp only
      subst based
      split at hb
      · dsimp only at hb
        split_ifs at hb
        cases hb
        rw [List.append_assoc, suffix_append (Prod.eta _).symm, List.cons_append, List.cons_append,
          digitRun_append (Prod.eta _).symm]
      · cases hb
  | case2 based _ whole rest hw part rest₁ hp power rest₂ he hempty l rest₃ hl =>
      obtain ⟨rfl, rfl⟩ : part = [] ∧ power = [] := by simpa using hempty
      rw [List.append_assoc, suffix_append hl, ← digitRun_append hw, ← fraction_append hp,
        ← exponent_append he]
      rfl
  | case3 based _ whole rest hw part rest₁ hp power rest₂ he _ l rest₃ hl =>
      rw [List.append_assoc, suffix_append hl, List.append_assoc, exponent_append he,
        List.append_assoc, fraction_append hp, digitRun_append hw]

theorem delimiter_prefix {quote : List Char} (h : Quoted.delimiter cs = some quote) :
    quote <+: cs := by
  rcases cs with _ | ⟨c, _ | ⟨d, _ | ⟨e, s⟩⟩⟩
  · cases h
  · obtain ⟨-, rfl⟩ : _ ∧ [c] = quote := by simpa [Quoted.delimiter] using h
    exact List.prefix_rfl
  · obtain ⟨-, rfl⟩ : _ ∧ [c] = quote := by simpa [Quoted.delimiter] using h
    exact List.prefix_append [c] [d]
  · simp only [Quoted.delimiter] at h
    split_ifs at h with hc he
    · cases h
      rw [he.1, he.2]
      exact List.prefix_append [c, c, c] s
    · cases h
      exact List.prefix_append [c] (d :: e :: s)

theorem opening_append {marks quote : List Char} (h : opening cs = some (marks, quote, rest)) :
    marks ++ quote ++ rest = cs := by
  obtain ⟨quote', hq, he⟩ := Option.map_eq_some_iff.1 h
  cases he
  obtain ⟨rest, hr⟩ := delimiter_prefix hq
  rw [← hr, List.drop_left, List.append_assoc, hr, List.takeWhile_append_dropWhile]

theorem closes_prefix {mark : Char} {triple : Bool} (h : closes mark triple cs = true) :
    List.replicate (if triple then 3 else 1) mark <+: cs := by
  cases triple <;> exact List.isPrefixOf_iff_prefix.1 h

theorem append_of_map (pre : List Char) {o : Option (List Char × List Char)}
    (ih : ∀ {text}, o = some (text, rest) → text ++ rest = cs)
    (h : o.map (fun p => (pre ++ p.1, p.2)) = some (text, rest)) : text ++ rest = pre ++ cs := by
  obtain ⟨⟨text', rest'⟩, ho, he⟩ := Option.map_eq_some_iff.1 h
  cases he
  rw [List.append_assoc, ih ho]

theorem throughClose_append {mark : Char} {triple : Bool} {body : List Char}
    (h : throughClose mark triple cs = some (body, rest)) : body ++ rest = cs := by
  fun_induction throughClose mark triple cs generalizing body with
  | case1 => cases h
  | case2 s ih => exact append_of_map ['\\', '\r', '\n'] ih h
  | case3 c s _ ih => exact append_of_map ['\\', c] ih h
  | case4 c s _ _ hc htriple =>
      obtain ⟨rest', hr⟩ := closes_prefix hc
      rw [if_pos htriple] at hr
      cases hr
      cases h
      rfl
  | case5 c s _ _ hc htriple =>
      obtain ⟨rest', hr⟩ := closes_prefix hc
      rw [if_neg htriple] at hr
      cases hr
      cases h
      rfl
  | case6 => cases h
  | case7 c s _ _ _ _ ih => exact append_of_map [c] ih h

theorem piece_append (q : OpenQuote) (named : Bool) (cs : List Char) :
    (piece q named cs).1 ++ (piece q named cs).2 = cs := by
  fun_induction piece q named cs with
  | case1 | case7 => rfl
  | case2 | case3 | case4 | case5 | case6 | case8 => grind

end Spans

section Steps

theorem goes_sign (s : Lexer) (c : Char) (rest : List Char) :
    s.Goes (c :: rest) (s.sign c rest) := by
  unfold sign
  split
  · next l hl =>
      have hp : l <+: c :: rest := by simpa using List.find?_some hl
      obtain ⟨rest', hr⟩ := hp
      rw [← hr, List.drop_left]
      exact s.goes_emit .sign l rest'
  · have ht := s.goes_emit (if shortSigns.contains c then .sign else .stray) [c] rest
    dsimp only
    split
    · exact ht.push .bracket
    · split
      · exact ht.pop
      · exact ht

theorem goes_string (s : Lexer) (marks quote rest : List Char) :
    s.Goes (marks ++ quote ++ rest) (s.string marks quote rest) := by
  unfold string
  dsimp only
  split
  · exact (s.goes_emit .stringOpen (marks ++ quote) rest).push _
  · split
    · next body rest' hb =>
        rw [← throughClose_append hb, ← List.append_assoc]
        exact s.goes_emit .string _ rest'
    · exact s.goes_emit .stray _ rest

theorem goes_code (s : Lexer) (c : Char) (rest : List Char) :
    s.Goes (c :: rest) (s.code c rest) := by
  unfold code
  split
  · next marks quote rest' ho =>
      rw [← opening_append ho]
      exact s.goes_string marks quote rest'
  · split
    · have hw := s.goes_emit .word (c :: rest.takeWhile Text.continuesIdentifier)
        (rest.dropWhile Text.continuesIdentifier)
      rwa [List.cons_append, List.takeWhile_append_dropWhile] at hw
    · split
      · have hn := s.goes_emit (numeral (c :: rest)).1 (numeral (c :: rest)).2.1
          (numeral (c :: rest)).2.2
        rwa [numeral_append] at hn
      · exact s.goes_sign c rest

theorem goes_formatStep (s : Lexer) (c : Char) (rest : List Char) :
    s.Goes (c :: rest) (s.formatStep c rest) := by
  unfold formatStep
  split
  · exact (s.goes_emit .sign [c] rest).push .field
  · split
    · exact (s.goes_emit .sign [c] rest).pop
    · have ht := s.goes_emit .stringPiece (c :: rest.takeWhile fun d => d != '\x7b' && d != '\x7d')
        (rest.dropWhile fun d => d != '\x7b' && d != '\x7d')
      rwa [List.cons_append, List.takeWhile_append_dropWhile] at ht

theorem goes_textStep (s : Lexer) (q : OpenQuote) (c : Char) (rest : List Char) :
    s.Goes (c :: rest) (s.textStep q c rest) := by
  unfold textStep
  split
  · split
    · next hc =>
        obtain ⟨rest', hr⟩ := closes_prefix hc
        have ht := (s.goes_emit .stringClose (List.replicate (if q.triple then 3 else 1) q.mark)
          rest').pop
        dsimp only
        rwa [← hr, List.drop_left' List.length_replicate]
    · split
      · exact (s.goes_emit .sign [c] rest).push .field
      · exact (s.goes_emit .stray [c] rest).pop
  · next text rest' _ hp =>
      have ht := s.goes_emit .stringPiece text rest'
      rwa [← piece_append q false (c :: rest), hp]

inductive Advances (s : Lexer) (cs : List Char) (r : Lexer × List Char) : Prop
  | goes (h : s.Goes cs r)
  | comment {text : List Char} (hcs : cs = text ++ r.2) (h : s.ReadsComment text r.2 r.1)

theorem lineJoin_append (h : lineJoin rest = some text) :
    text ++ rest.drop (text.length - 1) = '\\' :: rest := by
  unfold lineJoin at h
  split at h
  · cases h
    rfl
  · cases h
    rfl
  · cases h

theorem advances_codeStep (s : Lexer) (c : Char) (rest : List Char) :
    s.Advances (c :: rest) (s.codeStep c rest) := by
  unfold codeStep
  have hskip := s.reads_skip [c]
  split
  · split
    · exact .goes ⟨[c], rfl, hskip.place, hskip.comments⟩
    · exact .goes ⟨[c], rfl, hskip⟩
  · split
    · exact .goes ⟨[c], rfl, hskip.place, hskip.comments⟩
    · split
      · next hc _ _ =>
          have hr := s.reads_skip (c :: rest.takeWhile (· != '\n'))
          refine .comment (congrArg (c :: ·) List.takeWhile_append_dropWhile.symm)
            ⟨hr.place, ?_, List.cons_ne_nil _ _, ?_, fun _ => Text.eq_of_mem_head?_dropWhile_ne⟩
          · rw [← hr.comments]
          · exact List.not_mem_cons_of_ne_of_not_mem (Ne.symm hc)
              (Text.not_mem_takeWhile_ne '\n' rest)
      · split
        · next text hj =>
            split at hj
            · next hc =>
                have hr := s.reads_skip text
                refine .goes ⟨text, ?_, hr.place, hr.comments⟩
                rw [lineJoin_append hj, hc]
            · cases hj
        · exact .goes (s.startLine.goes_code c rest).after_startLine

theorem advances_fieldStep (s : Lexer) (c : Char) (rest : List Char) :
    s.Advances (c :: rest) (s.fieldStep c rest) := by
  have hsign := s.goes_emit .sign [c] rest
  unfold fieldStep
  split
  · exact .goes (hsign.pop.push .format)
  · split
    · exact .goes hsign.pop
    · split
      · exact .goes hsign
      · exact s.advances_codeStep c rest

theorem advances_step (s : Lexer) (c : Char) (rest : List Char) :
    s.Advances (c :: rest) (s.step c rest) := by
  unfold step
  split
  · next q _ => exact .goes (s.goes_textStep q c rest)
  · exact s.advances_fieldStep c rest
  · exact .goes (s.goes_formatStep c rest)
  · exact s.advances_codeStep c rest

end Steps

section Run

structure Found (source done rest : List Char) (s : Lexer) : Prop where
  whole : source = done ++ rest
  place : s.HasRead done
  stands : ∀ c ∈ s.comments, c.StandsIn source
  ordered : (s.comments.map Comment.line).Pairwise (· > ·)
  behind : ∀ c ∈ s.comments, c.line ≤ s.line
  ended : ∀ c ∈ s.comments, c.line = s.line → ∀ ch ∈ rest.head?, ch = '\n'

theorem found_start (source : List Char) : start.Found source [] source where
  whole := rfl
  place := hasRead_start
  stands _ h := by cases h
  ordered := .nil
  behind _ h := by cases h
  ended _ h := by cases h

theorem Found.goes (h : s.Found source done cs) (hg : s.Goes cs r) :
    ∃ done, r.1.Found source done r.2 := by
  obtain ⟨text, rfl, hr⟩ := hg
  have hplace := hr.place done h.place
  have hline : r.1.line = s.line + text.count '\n' := by
    rw [hplace.line_eq, h.place.line_eq, List.count_append]
    omega
  refine ⟨done ++ text, by rw [h.whole, List.append_assoc], hplace, ?_, ?_, ?_, ?_⟩
  · rw [hr.comments]
    exact h.stands
  · rw [hr.comments]
    exact h.ordered
  · intro c hc
    rw [hr.comments] at hc
    exact hline ▸ Nat.le_add_right_of_le (h.behind c hc)
  · intro c hc he
    rw [hr.comments] at hc
    have hle := h.behind c hc
    -- the comment's line goes on only to its end, so a text that stays on it is empty
    cases text with
    | nil => exact h.ended c hc (by simpa [hline] using he)
    | cons a text =>
        rw [hline] at he
        have ha := h.ended c hc (by omega) a rfl
        rw [ha, List.count_cons_self] at he
        omega

theorem Found.comment (h : s.Found source done (text ++ rest)) (hr : s.ReadsComment text rest t) :
    t.Found source (done ++ text) rest := by
  have hplace := hr.place done h.place
  have hline : t.line = s.line := by
    rw [hplace.line_eq, h.place.line_eq, List.count_append, List.count_eq_zero.2 hr.within,
      Nat.add_zero]
  have hbefore : ∀ c ∈ s.comments, c.line < s.line := by
    intro c hc
    refine Nat.lt_of_le_of_ne (h.behind c hc) fun he => ?_
    obtain ⟨a, text', rfl⟩ := List.exists_cons_of_ne_nil hr.nonempty
    exact hr.within (h.ended c hc he a rfl ▸ List.mem_cons_self)
  refine ⟨by rw [h.whole, List.append_assoc], hplace, ?_, ?_, ?_, fun _ _ _ => hr.ended⟩
  · rw [hr.comments]
    refine List.forall_mem_cons.2 ⟨?_, h.stands⟩
    obtain ⟨before, hdone, hclosed, hlead, hl⟩ := h.place
    exact ⟨before, rest, by rw [h.whole, hdone]; simp, hclosed, hl, by simpa using hlead, hr.within,
      hr.ended⟩
  · rw [hr.comments, List.map_cons]
    exact List.pairwise_cons.2 ⟨List.forall_mem_map.2 hbefore, h.ordered⟩
  · rw [hr.comments, hline]
    exact List.forall_mem_cons.2 ⟨Nat.le_refl _, h.behind⟩

theorem Found.step {c : Char} (h : s.Found source done (c :: rest)) :
    ∃ done, (s.step c rest).1.Found source done (s.step c rest).2 := by
  cases s.advances_step c rest with
  | goes hg => exact h.goes hg
  | comment hcs hr => exact ⟨_, (hcs ▸ h).comment hr⟩

theorem Found.placed (h : s.Found source done rest) :
    Comment.Placed source s.comments.reverse where
  stands c hc := h.stands c (List.mem_reverse.1 hc)
  sole := by
    rw [List.map_reverse]
    exact List.pairwise_reverse.2 (h.ordered.imp Nat.ne_of_lt)

theorem Found.run (n : Nat) (h : s.Found source done rest) :
    Comment.Placed source (run n s rest).comments.reverse := by
  induction n generalizing s done rest with
  | zero => exact h.placed
  | succ n ih =>
      cases rest with
      | nil =>
          rw [Lexer.run, comments_finish]
          exact h.placed
      | cons c rest =>
          obtain ⟨done, h⟩ := h.step
          exact ih h

end Run

end Lexer

theorem Comment.placed_ofSource (source : List Char) : Placed source (ofSource source) :=
  (Lexer.found_start source).run _

end CliCompletion
