import CliCompletion.Program
import CliCompletion.Proofs.SourceLines
import CliCompletion.Proofs.WellFormed
import CliCompletion.Proofs.Writing

namespace CliCompletion

open Program

def FileTree.Delivered (t t' : FileTree) (directory : Location) (text : String) :
    Option Path → Prop
  | none => t' = t
  | some p => ∃ k, t.Rewritten t' directory p text k

def Settings.shown (st : Settings) (text : String) : String :=
  if st.quiet then "" else text

namespace Session

variable {α β : Type} {i : Invocation} {st : Settings} {s s' s₁ : Session} {p : Path}
  {ps : List Path} {x : Source} {xs : List Source} {e : RunError} {text : String}

inductive Gives (s : Session) : Path → Source → Session → Prop
  | input {text : String} (h : FileTree.textOf s.input = .ok text) :
      Gives s .standardInput ⟨"<stdin>", text⟩ { s with input := .empty }
  | file {p : Path} {text : String} (hp : p ≠ .standardInput)
      (h : s.files.read s.directory p = .ok text) : Gives s p ⟨p.text, text⟩ s

inductive Withholds (s : Session) : Path → RunError → Prop
  | input {fault : FileFault} (h : FileTree.textOf s.input = .error fault) :
      Withholds s .standardInput (.unreadableInput fault)
  | file {p : Path} {fault : FileFault} (hp : p ≠ .standardInput)
      (h : s.files.read s.directory p = .error fault) : Withholds s p (.unreadable p fault)

inductive Reads : Session → List Path → List Source → Session → Prop
  | nil (s : Session) : Reads s [] [] s
  | cons {s s₁ s' : Session} {p : Path} {ps : List Path} {x : Source} {xs : List Source}
      (hg : s.Gives p x s₁) (hr : Reads s₁ ps xs s') : Reads s (p :: ps) (x :: xs) s'

def settings (s : Session) (i : Invocation) : Except SettingsError Settings :=
  ((Settings.resolve i : StateM Session (Except SettingsError Settings)) s).1

inductive Produces (s : Session) (i : Invocation) : Settings → String → Prop
  | intro {st : Settings} {xs : List Source} {s' : Session} {ds : List Directive}
      (hset : s.settings i = .ok st) (hread : s.Reads st.sources xs s')
      (hds : Directive.ofSource st.extraction st.toolName (Source.joint xs) = .ok ds) :
      Produces s i st (st.format.render ds)

inductive Stops (s : Session) (i : Invocation) : RunError → Prop
  | settings {e : SettingsError} (hset : s.settings i = .error e) : Stops s i (.settings e)
  | source {st : Settings} {before after : List Path} {p : Path} {xs : List Source}
      {s' : Session} {e : RunError} (hset : s.settings i = .ok st)
      (hsources : st.sources = before ++ p :: after) (hread : s.Reads before xs s')
      (he : s'.Withholds p e) : Stops s i e
  | extraction {st : Settings} {xs : List Source} {s' : Session} {e : ExtractionError}
      (hset : s.settings i = .ok st) (hread : s.Reads st.sources xs s')
      (he : Directive.ofSource st.extraction st.toolName (Source.joint xs) = .error e) :
      Stops s i (.located (.ofSources xs) e)

inductive Ends (s : Session) (i : Invocation) : Nat → Session → Prop
  | all {st : Settings} {text : String} {s' : Session} (h : s.Produces i st text)
      (hfiles : s.files.Delivered s'.files s.directory text st.output)
      (hprinted : s'.printed = s.printed ++ st.shown text)
      (hcomplaints : s'.complaints = s.complaints) : Ends s i 0 s'
  | nothing {e : RunError} {s' : Session} (h : s.Stops i e) (hfiles : s'.files = s.files)
      (hprinted : s'.printed = s.printed)
      (hcomplaints : s'.complaints = s.complaints ++ ("error: " ++ e.message ++ "\n")) :
      Ends s i 1 s'
  | unwritten {st : Settings} {text : String} {p : Path} {fault : FileFault} {s' : Session}
      (h : s.Produces i st text) (hp : st.output = some p)
      (hw : s.files.write s.directory p text = .error fault) (hfiles : s'.files = s.files)
      (hprinted : s'.printed = s.printed ++ st.shown text)
      (hcomplaints : s'.complaints =
        s.complaints ++ ("error: " ++ (RunError.unwritable p fault).message ++ "\n")) :
      Ends s i 1 s'

def showing (s : Session) (st : Settings) (text : String) : Session :=
  { s with printed := s.printed ++ st.shown text }

section Reading

theorem Gives.unique (h : s.Gives p x s₁) {y : Source} {s₂ : Session} (h' : s.Gives p y s₂) :
    x = y ∧ s₁ = s₂ := by
  cases h with
  | input ht =>
      cases h' with
      | input ht' =>
          rw [ht] at ht'
          cases ht'
          exact ⟨rfl, rfl⟩
      | file hp _ => exact absurd rfl hp
  | file hp ht =>
      cases h' with
      | input _ => exact absurd rfl hp
      | file _ ht' =>
          rw [ht] at ht'
          cases ht'
          exact ⟨rfl, rfl⟩

theorem Withholds.not_gives (h : s.Withholds p e) : ¬ s.Gives p x s₁ := by
  intro h'
  cases h with
  | input ht =>
      cases h' with
      | input ht' =>
          rw [ht] at ht'
          cases ht'
      | file hp _ => exact hp rfl
  | file hp ht =>
      cases h' with
      | input _ => exact hp rfl
      | file _ ht' =>
          rw [ht] at ht'
          cases ht'

theorem gives_or_withholds (s : Session) (p : Path) :
    (∃ x s₁, s.Gives p x s₁) ∨ ∃ e, s.Withholds p e := by
  by_cases hp : p = .standardInput
  · subst hp
    cases ht : FileTree.textOf s.input with
    | ok text => exact .inl ⟨_, _, .input ht⟩
    | error fault => exact .inr ⟨_, .input ht⟩
  · cases ht : s.files.read s.directory p with
    | ok text => exact .inl ⟨_, _, .file hp ht⟩
    | error fault => exact .inr ⟨_, .file hp ht⟩

theorem Reads.eq (h : s.Reads ps xs s') : s' = { s with input := s'.input } := by
  induction h with
  | nil s => rfl
  | cons hg _ ih =>
      rw [ih]
      cases hg <;> rfl

theorem Reads.unique (h : s.Reads ps xs s') {ys : List Source} {t : Session}
    (h' : s.Reads ps ys t) : xs = ys ∧ s' = t := by
  induction h generalizing ys with
  | nil s =>
      cases h'
      exact ⟨rfl, rfl⟩
  | cons hg _ ih =>
      cases h' with
      | cons hg' hr' =>
          obtain ⟨rfl, rfl⟩ := hg.unique hg'
          obtain ⟨rfl, rfl⟩ := ih hr'
          exact ⟨rfl, rfl⟩

theorem reads_or_withholds (s : Session) (ps : List Path) :
    (∃ xs s', s.Reads ps xs s') ∨ ∃ before p after xs s' e, ps = before ++ p :: after ∧
      s.Reads before xs s' ∧ s'.Withholds p e := by
  induction ps generalizing s with
  | nil => exact .inl ⟨[], s, .nil s⟩
  | cons p ps ih =>
      rcases s.gives_or_withholds p with ⟨x, s₁, hg⟩ | ⟨e, he⟩
      · rcases ih s₁ with ⟨xs, s', hr⟩ | ⟨before, q, after, xs, s', e, rfl, hr, he⟩
        · exact .inl ⟨x :: xs, s', .cons hg hr⟩
        · exact .inr ⟨p :: before, q, after, x :: xs, s', e, rfl, .cons hg hr, he⟩
      · exact .inr ⟨[], p, ps, [], s, e, rfl, .nil s, he⟩

theorem Reads.not_withholds {before after : List Path} (h : s.Reads (before ++ p :: after) xs s')
    {ys : List Source} (hr : s.Reads before ys s₁) : ¬ s₁.Withholds p e := by
  induction hr generalizing xs with
  | nil s =>
      cases h with
      | cons hg _ => exact fun he => he.not_gives hg
  | cons hg _ ih =>
      cases h with
      | cons hg' hr' =>
          obtain ⟨-, rfl⟩ := hg.unique hg'
          exact ih hr'

theorem produces_or_stops (s : Session) (i : Invocation) :
    (∃ st text, s.Produces i st text) ∨ ∃ e, s.Stops i e := by
  cases hset : s.settings i with
  | error e => exact .inr ⟨_, .settings hset⟩
  | ok st =>
      rcases s.reads_or_withholds st.sources with
        ⟨xs, s', hr⟩ | ⟨before, p, after, xs, s', e, hs, hr, he⟩
      · cases hds : Directive.ofSource st.extraction st.toolName (Source.joint xs) with
        | ok ds => exact .inl ⟨st, _, .intro hset hr hds⟩
        | error e => exact .inr ⟨_, .extraction hset hr hds⟩
      · exact .inr ⟨e, .source hset hs hr he⟩

theorem Stops.not_produces (h : s.Stops i e) : ¬ s.Produces i st text := by
  rintro ⟨hset', hread', hds⟩
  cases h with
  | settings hset =>
      rw [hset] at hset'
      cases hset'
  | source hset hsources hread he =>
      rw [hset] at hset'
      cases hset'
      rw [hsources] at hread'
      exact hread'.not_withholds hread he
  | extraction hset hread he =>
      rw [hset] at hset'
      cases hset'
      obtain ⟨rfl, -⟩ := hread.unique hread'
      rw [he] at hds
      cases hds

end Reading

section Settings

def Keeps (q : StateM Session α) : Prop :=
  ∀ s, (q s).2 = s

theorem Keeps.bind {q : StateM Session α} {f : α → StateM Session β} (hq : Keeps q)
    (hf : ∀ a, Keeps (f a)) : Keeps (q >>= f) := by
  intro s
  change (f (q s).1 (q s).2).2 = s
  rw [hq, hf]

theorem keeps_findM? {f : Path → StateM Session Bool} (hf : ∀ p, Keeps (f p)) (ps : List Path) :
    Keeps (ps.findM? f) := by
  induction ps with
  | nil => exact fun _ => rfl
  | cons p ps ih =>
      refine (hf p).bind fun found => ?_
      cases found with
      | true => exact fun _ => rfl
      | false => exact ih

theorem keeps_configPath (i : Invocation) : Keeps (Settings.configPath i) := by
  unfold Settings.configPath
  split
  · exact fun _ => rfl
  · split
    · exact fun _ => rfl
    · exact Keeps.bind (fun _ => rfl) fun d => keeps_findM? (fun _ _ => rfl) _

theorem keeps_loadConfig (p : Path) : Keeps (Settings.loadConfig p) := by
  refine Keeps.bind (fun _ => rfl) fun read => ?_
  cases read with
  | error fault => exact fun _ => rfl
  | ok text =>
      cases h : Config.ofText text with
      | some c =>
          simp only [h]
          exact fun _ => rfl
      | none =>
          simp only [h]
          exact fun _ => rfl

theorem keeps_resolve (i : Invocation) : Keeps (Settings.resolve i) := by
  refine (keeps_configPath i).bind fun found => ?_
  cases found with
  | none => exact fun _ => rfl
  | some p => exact (keeps_loadConfig p).bind fun _ _ => rfl

theorem resolve_eq (i : Invocation) (s : Session) :
    (Settings.resolve i : StateM Session (Except SettingsError Settings)) s = (s.settings i, s) :=
  Prod.ext rfl (keeps_resolve i s)

end Settings

end Session

namespace Program

open Session

variable {α β : Type} {i : Invocation} {st : Settings} {s s' : Session} {p : Path}
  {ps : List Path} {x : Source} {xs : List Source} {e : RunError} {text : String}

abbrev Stage (α : Type) := ExceptT RunError (StateM Session) α

theorem bind_eq (q : Stage α) (f : α → Stage β) (s : Session) :
    (q >>= f) s = match q s with
      | (.ok a, s₁) => f a s₁
      | (.error e, s₁) => (.error e, s₁) := by
  change ExceptT.bindCont f (q s).1 (q s).2 = _
  obtain ⟨a, s₁⟩ := q s
  cases a <;> rfl

theorem liftM_eq (q : StateM Session α) (s : Session) :
    (liftM q : Stage α) s = (.ok (q s).1, (q s).2) :=
  rfl

theorem bind_liftM_eq (q : StateM Session α) (f : α → Stage β) (s : Session) :
    ((liftM q : Stage α) >>= f) s = f (q s).1 (q s).2 := by
  rw [bind_eq, liftM_eq]

theorem readInput_eq {r : Except FileFault String} (h : FileTree.textOf s.input = r) :
    (Host.readInput : StateM Session (Except FileFault String)) s =
      (r, { s with input := .empty }) := by
  subst h
  rfl

theorem read_eq {r : Except FileFault String} (h : s.files.read s.directory p = r) :
    (Host.read p : StateM Session (Except FileFault String)) s = (r, s) := by
  subst h
  rfl

theorem readSource_gives (h : s.Gives p x s') (u : SourceUnit) :
    (readSource u p : Stage SourceUnit) s = (.ok (u.push x.name x.content), s') := by
  cases h with
  | input ht =>
      rw [readSource, if_pos (beq_self_eq_true _), bind_liftM_eq, readInput_eq ht]
      rfl
  | file hp ht =>
      rw [readSource, if_neg (by simpa using hp), bind_liftM_eq, read_eq ht]
      rfl

theorem readSource_withholds (h : s.Withholds p e) (u : SourceUnit) :
    ∃ input, (readSource u p : Stage SourceUnit) s = (.error e, { s with input := input }) := by
  cases h with
  | input ht =>
      refine ⟨.empty, ?_⟩
      rw [readSource, if_pos (beq_self_eq_true _), bind_liftM_eq, readInput_eq ht]
      rfl
  | file hp ht =>
      refine ⟨s.input, ?_⟩
      rw [readSource, if_neg (by simpa using hp), bind_liftM_eq, read_eq ht]
      rfl

theorem foldlM_readSource_reads (h : s.Reads ps xs s') (rest : List Path) (u : SourceUnit) :
    ((ps ++ rest).foldlM readSource u : Stage SourceUnit) s =
      (rest.foldlM readSource (xs.foldl (fun u x => u.push x.name x.content) u) :
        Stage SourceUnit) s' := by
  induction h generalizing u with
  | nil s => rfl
  | cons hg _ ih =>
      rw [List.cons_append, List.foldlM_cons, bind_eq, readSource_gives hg]
      exact ih _

theorem readSources_reads (h : s.Reads ps xs s') :
    (readSources ps : Stage SourceUnit) s = (.ok (.ofSources xs), s') := by
  have hr := foldlM_readSource_reads h [] .empty
  rw [List.append_nil] at hr
  exact hr

theorem readSources_withholds {before after : List Path} (hr : s.Reads before xs s')
    (he : s'.Withholds p e) : ∃ input,
      (readSources (before ++ p :: after) : Stage SourceUnit) s =
        (.error e, { s with input := input }) := by
  obtain ⟨input, hp⟩ :=
    readSource_withholds he (xs.foldl (fun u x => u.push x.name x.content) .empty)
  refine ⟨input, ?_⟩
  rw [readSources, foldlM_readSource_reads hr, List.foldlM_cons, bind_eq, hp, hr.eq]

theorem produce_eq (hset : s.settings i = .ok st) :
    (produce i : Stage Unit) s = (do
      let u ← readSources st.sources
      match textOf st u with
      | .error e => throw e
      | .ok text => deliver st text : Stage Unit) s := by
  rw [produce, bind_eq, liftM_eq, resolve_eq]
  cases hs : s.settings i with
  | error e =>
      rw [hs] at hset
      cases hset
  | ok st' =>
      rw [hs] at hset
      cases hset
      rfl

theorem produce_reads (hset : s.settings i = .ok st) (hread : s.Reads st.sources xs s') :
    (produce i : Stage Unit) s = (match textOf st (.ofSources xs) with
      | .error e => throw e
      | .ok text => deliver st text : Stage Unit) { s with input := s'.input } := by
  rw [produce_eq hset, bind_eq, readSources_reads hread, ← hread.eq]

theorem textOf_eq (st : Settings) (xs : List Source) :
    textOf st (.ofSources xs) =
      match Directive.ofSource st.extraction st.toolName (Source.joint xs) with
      | .ok ds => .ok (st.format.render ds)
      | .error e => .error (.located (.ofSources xs) e) := by
  delta textOf
  have htext := SourceUnit.toList_text_ofSources xs
  generalize (SourceUnit.ofSources xs).text.toList = text at htext
  subst htext
  cases Directive.ofSource st.extraction st.toolName (Source.joint xs) <;> rfl

theorem produce_produces (h : s.Produces i st text) :
    ∃ input, (produce i : Stage Unit) s =
      (deliver st text : Stage Unit) { s with input := input } := by
  cases h with
  | @intro xs s' ds hset hread hds =>
      refine ⟨s'.input, ?_⟩
      rw [produce_reads hset hread, textOf_eq, hds]

theorem produce_stops (h : s.Stops i e) :
    ∃ input, (produce i : Stage Unit) s = (.error e, { s with input := input }) := by
  cases h with
  | settings hset =>
      refine ⟨s.input, ?_⟩
      rw [produce, bind_eq, liftM_eq, resolve_eq, hset]
      rfl
  | source hset hsources hread he =>
      obtain ⟨input, hr⟩ := readSources_withholds hread he
      refine ⟨input, ?_⟩
      rw [produce_eq hset, bind_eq, hsources, hr]
  | @extraction st xs s' e hset hread he =>
      refine ⟨s'.input, ?_⟩
      rw [produce_reads hset hread, textOf_eq, he]
      rfl

theorem deliver_showing (st : Settings) (text : String) (s : Session) :
    (deliver st text : Stage Unit) s =
      (deliver { st with quiet := true } text : Stage Unit) (s.showing st text) := by
  unfold deliver Session.showing Settings.shown
  cases st.quiet with
  | true =>
      rw [if_pos rfl, String.append_empty]
  | false => rfl

theorem write_eq {r : Except FileFault Unit} (h : s.write p text = (r, s')) :
    (Host.write p text : StateM Session (Except FileFault Unit)) s = (r, s') :=
  h

theorem deliver_eq (st : Settings) (text : String) (s : Session) :
    (deliver st text : Stage Unit) s = match st.output with
      | none => (.ok (), s.showing st text)
      | some p => match s.files.write s.directory p text with
        | .ok files => (.ok (), { s.showing st text with files := files })
        | .error fault => (.error (.unwritable p fault), s.showing st text) := by
  rw [deliver_showing]
  unfold deliver
  cases st.output with
  | none => rfl
  | some p =>
      dsimp only
      rw [if_neg (by decide)]
      cases hw : s.files.write s.directory p text with
      | ok files =>
          have hwrite : (s.showing st text).write p text =
              (.ok (), { s.showing st text with files := files }) := by
            simp [Session.write, Session.showing, hw]
          rw [bind_liftM_eq, write_eq hwrite]
          rfl
      | error fault =>
          have hwrite : (s.showing st text).write p text = (.error fault, s.showing st text) := by
            simp [Session.write, Session.showing, hw]
          rw [bind_liftM_eq, write_eq hwrite]
          rfl

theorem run_eq {args : List String} (h : Invocation.ofArgs args = .ok i) (s : Session) :
    (Program.run args : StateM Session Nat) s = match (produce i : Stage Unit) s with
      | (.ok (), s₁) => (0, s₁)
      | (.error e, s₁) =>
          (1, { s₁ with complaints := s₁.complaints ++ ("error: " ++ e.message ++ "\n") }) := by
  have hbind (f : Except RunError Unit → StateM Session Nat) :
      ((produce i : Stage Unit).run >>= f) s =
        f ((produce i : Stage Unit) s).1 ((produce i : Stage Unit) s).2 := rfl
  unfold Program.run
  rw [h]
  dsimp only
  rw [hbind]
  obtain ⟨a, s₁⟩ := (produce i : Stage Unit) s
  cases a <;> rfl

theorem run_stops {args : List String} (h : Invocation.ofArgs args = .ok i) (he : s.Stops i e) :
    ∃ input, (Program.run args : StateM Session Nat) s = (1, { s with
      input := input, complaints := s.complaints ++ ("error: " ++ e.message ++ "\n") }) := by
  obtain ⟨input, hstop⟩ := produce_stops he
  exact ⟨input, by rw [run_eq h, hstop]⟩

theorem run_produces {args : List String} (h : Invocation.ofArgs args = .ok i)
    (hp : s.Produces i st text) : s.Ends i ((Program.run args : StateM Session Nat) s).1
      ((Program.run args : StateM Session Nat) s).2 := by
  obtain ⟨input, hd⟩ := produce_produces hp
  rw [run_eq h, hd, deliver_eq]
  cases ho : st.output with
  | none =>
      refine .all hp ?_ rfl rfl
      rw [ho]
      rfl
  | some p =>
      dsimp only
      cases hw : s.files.write s.directory p text with
      | ok files =>
          refine .all hp ?_ rfl rfl
          rw [ho]
          exact FileTree.rewritten_of_write hw
      | error fault => exact .unwritten hp ho hw rfl rfl rfl

theorem run_ends {args : List String} (h : Invocation.ofArgs args = .ok i) (s : Session) :
    s.Ends i ((Program.run args : StateM Session Nat) s).1
        ((Program.run args : StateM Session Nat) s).2 ∧
      ∀ e, s.Stops i e → ∃ input, (Program.run args : StateM Session Nat) s = (1, { s with
        input := input, complaints := s.complaints ++ ("error: " ++ e.message ++ "\n") }) := by
  refine ⟨?_, fun e he => run_stops h he⟩
  rcases s.produces_or_stops i with ⟨st, text, hp⟩ | ⟨e, he⟩
  · exact run_produces h hp
  · obtain ⟨input, hr⟩ := run_stops h he
    rw [hr]
    exact .nothing he rfl rfl rfl

def scripts : Session :=
  .fresh ⟨[(["p.py"], .file "p = ArgumentParser()\n".toUTF8)]⟩ [] "p.add_argument('--x')\n".toUTF8

def scriptArgs : List String :=
  ["p.py", "-", "--cliname", "t", "--no-config", "-o", "out"]

theorem run_ends_of_scripts : ∃ i s', Invocation.ofArgs scriptArgs = .ok i ∧
    (Program.run scriptArgs : StateM Session Nat) scripts = (0, s') ∧ scripts.Ends i 0 s' ∧
    s'.printed = "add_option_argument \"t\" \"--x\"\n" := by
  have hi : (Invocation.ofArgs scriptArgs).toOption.isSome = true := by decide +kernel
  have hcode : ((Program.run scriptArgs : StateM Session Nat) scripts).1 = 0 := by decide +kernel
  have hprinted : ((Program.run scriptArgs : StateM Session Nat) scripts).2.printed =
      "add_option_argument \"t\" \"--x\"\n" := by decide +kernel
  obtain ⟨i, hi⟩ := CommandTree.exists_eq_ok hi
  obtain ⟨hends, -⟩ := run_ends hi scripts
  generalize (Program.run scriptArgs : StateM Session Nat) scripts = out at *
  obtain ⟨code, s'⟩ := out
  cases hcode
  exact ⟨i, s', hi, rfl, hends, hprinted⟩

end Program

end CliCompletion
