import CliCompletion.Proofs.Failures
import CliCompletion.Proofs.Runs

namespace CliCompletion

namespace Text

variable {text before after : List Char}

theorem Closed.newline_mem (h : Closed text) (hw : text = before ++ after) (ha : after ≠ []) :
    '\n' ∈ after := by
  rcases h with rfl | ⟨r, rfl⟩
  · exact absurd (List.append_eq_nil_iff.1 hw.symm).2 ha
  · have hlast : (before ++ after).getLast? = some '\n' := by
      rw [← hw, List.getLast?_append_of_ne_nil _ (List.cons_ne_nil _ _)]
      rfl
    rw [List.getLast?_append_of_ne_nil _ ha] at hlast
    exact List.mem_of_getLast? hlast

end Text

namespace Node

variable {n : Node} {text : List Char}

theorem culprit_unknownHandle {name : String} {line : Nat} :
    n.Culprit (.unknownHandle name line) ↔
      ∃ x, n = .atom .identifier x ∧ x.text = name ∧ x.line = line := by
  constructor
  · intro h
    generalize he : ExtractionError.unknownHandle name line = e at h
    cases h with
    | unknownHandle x =>
        cases he
        exact ⟨x, rfl, rfl, rfl⟩
    | _ => cases he
  · rintro ⟨x, rfl, rfl, rfl⟩
    exact .unknownHandle x

def StandsIn (n : Node) (text : List Char) : Prop :=
  n.text ≠ "" ∧ ∃ before after, text = before ++ n.text.toList ++ after ∧
    n.line = before.count '\n' + 1

theorem StandsIn.line_pos (h : n.StandsIn text) : 0 < n.line := by
  obtain ⟨-, before, -, -, hline⟩ := h
  omega

theorem StandsIn.line_le (h : n.StandsIn text) (hc : Text.Closed text) :
    n.line ≤ text.count '\n' := by
  obtain ⟨hne, before, after, htext, hline⟩ := h
  have hrest : n.text.toList ++ after ≠ [] := by simp [hne]
  rw [List.append_assoc] at htext
  have hpos : 0 < (n.text.toList ++ after).count '\n' :=
    List.count_pos_iff.2 (hc.newline_mem htext hrest)
  rw [htext, List.count_append, hline]
  omega

end Node

namespace RunError

variable {u : SourceUnit} {ss : List Source} {e : ExtractionError} {line k : Nat} {name : String}

theorem message_located (hline : e.line? = some line) (hu : u.locate line = some (name, k)) :
    (located u e).message = name ++ ":" ++ toString k ++ ": " ++ e.message := by
  unfold located
  rw [hline, Option.bind_some, hu]
  dsimp only [message]

theorem exists_message_located (hline : e.line? = some line) (hpos : 0 < line)
    (hle : line ≤ (Source.joint ss).count '\n') : ∃ (i k : Nat) (x : Source), ss[i]? = some x ∧
      Source.LineOf ss i k line ∧ (located (.ofSources ss) e).message =
        x.name ++ ":" ++ toString k ++ ": " ++ e.message := by
  obtain ⟨i, k, hk⟩ := Source.exists_lineOf hpos hle
  obtain ⟨x, hx, -⟩ := Source.lineOf_iff.1 hk
  have hlocate := SourceUnit.locate_ofSources.2 ⟨i, x, hx, rfl, hk⟩
  exact ⟨i, k, x, hx, hk, message_located hline hlocate⟩

end RunError

namespace CommandTree

open Program

variable {o : ExtractionOptions} {hints : List Hint} {n : Node} {e : ExtractionError}

theorem ofNode_of_ofSource {source : List Char} (hn : Node.ofSource source = .ok n)
    (h : (ofSource o source).map (fun _ => ()) = .error e) :
    ofNode o (Hint.scan o.marker (Comment.ofSource source)) n = .error e := by
  rw [ofSource, hn] at h
  dsimp only at h
  cases hr : ofNode o (Hint.scan o.marker (Comment.ofSource source)) n with
  | ok t =>
      rw [hr] at h
      cases h
  | error e' =>
      rw [hr] at h
      cases h
      rfl

theorem ofNode_error_located (h : ofNode o hints n = .error e) (hne : e ≠ .noParser) :
    ∃ c ∈ n.preorder, c.Culprit e ∧ e.line? = some c.line ∧
      ∀ ss : List Source, c.StandsIn (Source.joint ss) → ∃ (i k : Nat) (x : Source),
        ss[i]? = some x ∧ Source.LineOf ss i k c.line ∧
        (RunError.located (.ofSources ss) e).message =
          x.name ++ ":" ++ toString k ++ ": " ++ e.message ∧
        ∀ {args : List String} {inv : Invocation} {st : Settings} {s s' : Session},
          Invocation.ofArgs args = .ok inv → s.settings inv = .ok st →
          s.Reads st.sources ss s' →
          Directive.ofSource st.extraction st.toolName (Source.joint ss) = .error e →
          ∃ input, (Program.run args : StateM Session Nat) s = (1, { s with
            input := input
            complaints := s.complaints ++
              ("error: " ++ (x.name ++ ":" ++ toString k ++ ": " ++ e.message) ++ "\n") }) := by
  obtain ⟨c, hc, hculprit⟩ := (ofNode_errorsIn o hints n e h).resolve_left hne
  refine ⟨c, hc, hculprit, hculprit.line?_eq, fun ss hstands => ?_⟩
  obtain ⟨i, k, x, hx, hline, hmessage⟩ := RunError.exists_message_located hculprit.line?_eq
    hstands.line_pos (hstands.line_le (Source.closed_joint ss))
  refine ⟨i, k, x, hx, hline, hmessage, fun hi hset hread hds => ?_⟩
  rw [← hmessage]
  exact run_stops hi (.extraction hset hread hds)

def strayScripts : List Source :=
  [⟨"a.py", "p = ArgumentParser()"⟩, ⟨"b.py", "\nq.add_argument('--x')"⟩]

theorem stray_located : ∃ n, Node.ofSource (Source.joint strayScripts) = .ok n ∧
    ∃ c ∈ n.preorder, c.Culprit (.unknownHandle "q" 3) ∧
      (RunError.located (.ofSources strayScripts) (.unknownHandle "q" 3)).message =
        "b.py:2: `q` is not a known parser or sub-parser group" := by
  have hn : (Node.ofSource (Source.joint strayScripts)).toOption.isSome = true := by
    decide +kernel
  have hs : (ofSource ⟨"m", []⟩ (Source.joint strayScripts)).map (fun _ => ()) =
      .error (.unknownHandle "q" 3) := by
    decide +kernel
  have htext : Source.joint strayScripts = "p = ArgumentParser()\n\n".toList ++ "q".toList ++
    ".add_argument('--x')\n".toList := by decide +kernel
  obtain ⟨n, hn⟩ := exists_eq_ok hn
  obtain ⟨c, hc, hculprit, -, hlocated⟩ :=
    ofNode_error_located (ofNode_of_ofSource hn hs) (by decide)
  refine ⟨n, hn, c, hc, hculprit, ?_⟩
  obtain ⟨x, rfl, hx, hline⟩ := Node.culprit_unknownHandle.1 hculprit
  have hstands : (Node.atom .identifier x).StandsIn (Source.joint strayScripts) := by
    refine ⟨?_, "p = ArgumentParser()\n\n".toList, ".add_argument('--x')\n".toList, ?_, ?_⟩
    · rw [Node.text, Node.extent, hx]
      decide
    · rw [Node.text, Node.extent, hx]
      exact htext
    · rw [Node.line, Node.extent, hline]
      decide +kernel
  obtain ⟨i, k, y, hy, hk, hmessage, -⟩ := hlocated strayScripts hstands
  have hknown : Source.LineOf strayScripts 1 2 3 :=
    Source.lineOf_iff.2 ⟨_, rfl, by decide, by decide +kernel, by decide +kernel⟩
  obtain ⟨rfl, rfl⟩ := hk.unique (hline ▸ hknown)
  cases hy
  rw [hmessage]
  decide +kernel

end CommandTree

end CliCompletion
