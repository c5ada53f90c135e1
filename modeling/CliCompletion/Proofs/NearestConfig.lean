import CliCompletion.Proofs.Directories
import CliCompletion.Proofs.Runs

namespace CliCompletion

open Settings

inductive FileTree.Searches (t : FileTree) (directory : Location) : Path → Option Path → Prop
  | found {p : Path} (h : t.isFile directory (p.join Config.fileName) = true) :
      Searches t directory p (some (p.join Config.fileName))
  | outward {p q : Path} {r : Option Path}
      (h : t.isFile directory (p.join Config.fileName) = false) (hp : p.parent = some q)
      (rest : Searches t directory q r) : Searches t directory p r
  | lost {p : Path} (h : t.isFile directory (p.join Config.fileName) = false)
      (hp : p.parent = none) : Searches t directory p none

structure FileTree.Nearest (t : FileTree) (p a : Path) : Prop where
  around : a.Around p
  holds : t.HoldsConfig a.names
  nearest : ∀ ns, ns <+: p.names → a.names.length < ns.length → ¬ t.HoldsConfig ns

structure FileTree.NearestPlace (t : FileTree) (directory l : Location) : Prop where
  around : l <:+ directory
  holds : t.HoldsConfig l.reverse
  nearest : ∀ k, k <:+ directory → l.length < k.length → ¬ t.HoldsConfig k.reverse

structure Invocation.Covers (i : Invocation) (c d : Config) : Prop where
  toolName : i.toolName = none → c.toolName = d.toolName
  sources : i.sources = [] → c.sources = d.sources
  output : i.output = none → c.output = d.output
  format : i.format = none → c.format = d.format
  quiet : i.quiet = false → c.quiet = d.quiet
  marker : i.marker = none → c.marker = d.marker
  ignored : i.ignored = [] → c.ignored = d.ignored

def Session.configFile (s : Session) : Option Path :=
  ((findConfig s.directory.path : StateM Session (Option Path)) s).1

structure Session.FollowsNearest (s : Session) (i : Invocation) : Prop where
  ends : ∀ r, s.files.Searches s.directory s.directory.path r ↔ r = s.configFile
  found : ∀ p, s.configFile = some p →
    ∃ a, s.files.Nearest s.directory.path a ∧ p = a.join Config.fileName
  missing : s.configFile = none ↔ ∀ ns, ns <+: s.directory.path.names → ¬ s.files.HoldsConfig ns
  placed : s.directory.Plain → ∀ l, s.files.NearestPlace s.directory l →
    s.configFile = some (l.path.join Config.fileName)
  same : ∀ s' : Session, s'.files = s.files → s'.configFile = s.configFile →
    s'.settings i = s.settings i
  bare : s.configFile = none → s.settings i = s.settings { i with ignoresConfig := true }

structure Invocation.Overrides (i : Invocation) : Prop where
  covered : ∀ c d base, i.Covers c d → merge i c base = merge i d base
  sources : ∀ c base st, merge i c base = .ok st → i.sources ≠ [] → st.sources = i.sources
  output : ∀ c base st p, merge i c base = .ok st → i.output = some p → st.output = some p

namespace FileTree

variable {t : FileTree} {directory l k : Location} {p q a : Path} {r r' : Option Path}

theorem Searches.unique (h : t.Searches directory p r) (h' : t.Searches directory p r') :
    r = r' := by
  induction h with
  | found h =>
      cases h' with
      | found _ => rfl
      | outward h' _ _ | lost h' _ =>
          rw [h] at h'
          cases h'
  | outward h hp _ ih =>
      cases h' with
      | found h' =>
          rw [h] at h'
          cases h'
      | outward _ hp' rest =>
          rw [hp] at hp'
          cases hp'
          exact ih rest
      | lost _ hp' =>
          rw [hp] at hp'
          cases hp'
  | lost h hp =>
      cases h' with
      | found h' =>
          rw [h] at h'
          cases h'
      | outward _ hp' _ =>
          rw [hp] at hp'
          cases hp'
      | lost _ _ => rfl

theorem not_holdsConfig (hp : p.isAbsolute = true)
    (h : t.isFile directory (p.join Config.fileName) = false) : ¬ t.HoldsConfig p.names := by
  intro hh
  rw [(isFile_join_config_iff hp).2 hh] at h
  cases h

theorem Searches.nearest (h : t.Searches directory p r) (hp : p.isAbsolute = true) :
    (∀ q, r = some q → ∃ a, t.Nearest p a ∧ q = a.join Config.fileName) ∧
      (r = none → ∀ ns, ns <+: p.names → ¬ t.HoldsConfig ns) := by
  induction h with
  | @found p h =>
      refine ⟨?_, fun hr => (nomatch hr)⟩
      rintro q hq
      cases hq
      refine ⟨p, ⟨Path.around_refl hp, (isFile_join_config_iff hp).1 h, ?_⟩, rfl⟩
      exact fun ns hns hlt => absurd hns.length_le (Nat.not_le.2 hlt)
  | outward h hparent _ ih =>
      have hhere := not_holdsConfig hp h
      obtain ⟨haround, n, hnames⟩ := Path.around_of_parent hp hparent
      obtain ⟨hfound, hlost⟩ := ih haround.absolute
      constructor
      · intro q hq
        obtain ⟨a, ha, rfl⟩ := hfound q hq
        refine ⟨a, ⟨ha.around.trans haround, ha.holds, fun ns hns hlt => ?_⟩, rfl⟩
        rw [hnames, List.prefix_concat_iff] at hns
        rcases hns with rfl | hns
        · rwa [hnames] at hhere
        · exact ha.nearest ns hns hlt
      · intro hr ns hns
        rw [hnames, List.prefix_concat_iff] at hns
        rcases hns with rfl | hns
        · rwa [hnames] at hhere
        · exact hlost hr ns hns
  | lost h hparent =>
      refine ⟨fun q hq => (nomatch hq), fun _ ns hns => ?_⟩
      have hnames := Path.names_of_parent_eq_none hp hparent
      rw [hnames, List.prefix_nil] at hns
      rw [hns, ← hnames]
      exact not_holdsConfig hp h

theorem searches_of_nearestPlace {place : Location} (hl : l.Plain)
    (h : t.NearestPlace l place) : t.Searches directory l.path
      (some (place.path.join Config.fileName)) := by
  have hfile (k : Location) (hk : k.Plain) :
      t.isFile directory (k.path.join Config.fileName) = true ↔ t.HoldsConfig k.reverse := by
    rw [isFile_join_config_iff (Location.isAbsolute_path k), Location.names_path hk]
  induction l with
  | nil =>
      obtain rfl := List.suffix_nil.1 h.around
      exact .found ((hfile [] hl).2 h.holds)
  | cons n l ih =>
      rcases List.suffix_cons_iff.1 h.around with rfl | hsuffix
      · exact .found ((hfile _ hl).2 h.holds)
      · have hnot := h.nearest (n :: l) List.suffix_rfl (Nat.lt_succ_of_le hsuffix.length_le)
        refine .outward ?_ (Location.parent_path_cons hl) (ih hl.tail ⟨hsuffix, h.holds, ?_⟩)
        · rw [Bool.eq_false_iff]
          exact fun hf => hnot ((hfile _ hl).1 hf)
        · exact fun k hk => h.nearest k (hk.trans (List.suffix_cons n l))

theorem read_of_isAbsolute (hp : p.isAbsolute = true) (directory l : Location) :
    t.read directory p = t.read l p := by
  have hstart : start directory p = start l p := by rw [start, start, if_pos hp, if_pos hp]
  rw [read, read, readBytes, readBytes, resolve, resolve, hstart]

end FileTree

namespace Session

variable {s s' : Session} {i : Invocation} {p q : Path} {r : Option Path}

theorem findM?_isFile_cons (p : Path) (ps : List Path) (s : Session) :
    (((p :: ps).findM? Host.isFile : StateM Session (Option Path)) s).1 =
      if s.files.isFile s.directory p then some p
      else ((ps.findM? Host.isFile : StateM Session (Option Path)) s).1 := by
  rw [List.findM?]
  change ((match s.files.isFile s.directory p with
    | true => pure (some p)
    | false => ps.findM? Host.isFile : StateM Session (Option Path)) s).1 = _
  cases s.files.isFile s.directory p <;> rfl

theorem findConfig_of_parent (h : p.parent = r) (s : Session) :
    ((findConfig p : StateM Session (Option Path)) s).1 =
      if s.files.isFile s.directory (p.join Config.fileName) then some (p.join Config.fileName)
      else r.bind fun q => ((findConfig q : StateM Session (Option Path)) s).1 := by
  cases r with
  | none =>
      rw [findConfig, Config.candidates, Path.ancestors_of_parent_eq_none h]
      exact findM?_isFile_cons _ [] s
  | some q =>
      rw [findConfig, Config.candidates, Path.ancestors_of_parent h]
      exact findM?_isFile_cons _ _ s

theorem searches_findConfig (p : Path) (s : Session) : s.files.Searches s.directory p
    ((findConfig p : StateM Session (Option Path)) s).1 := by
  induction p using Path.ancestors.induct with
  | case1 p h =>
      rw [findConfig_of_parent h]
      split
      · next hf => exact .found hf
      · next hf => exact .lost (by simpa using hf) h
  | case2 p q h _ ih =>
      rw [findConfig_of_parent h]
      split
      · next hf => exact .found hf
      · next hf => exact .outward (by simpa using hf) h ih

theorem searches_iff (s : Session) :
    s.files.Searches s.directory s.directory.path r ↔ r = s.configFile := by
  have h := searches_findConfig s.directory.path s
  exact ⟨fun hr => hr.unique h, fun hr => hr ▸ h⟩

section Settings

theorem Keeps.fst_bind {α β : Type} {m : StateM Session α} (h : Keeps m)
    (f : α → StateM Session β) (s : Session) : ((m >>= f) s).1 = (f (m s).1 s).1 := by
  change (f (m s).1 (m s).2).1 = _
  rw [h]

theorem settings_eq (i : Invocation) (s : Session) :
    s.settings i = match ((configPath i : StateM Session (Option Path)) s).1 with
      | none => merge i .empty ⟨""⟩
      | some p => ((loadConfig p : StateM Session (Except SettingsError Config)) s).1.bind fun c =>
          merge i c (p.parent.getD ⟨""⟩) := by
  rw [settings, resolve, (keeps_configPath i).fst_bind]
  cases ((configPath i : StateM Session (Option Path)) s).1 with
  | none => rfl
  | some p => exact (keeps_loadConfig p).fst_bind _ s

theorem loadConfig_eq (p : Path) (s : Session) :
    ((loadConfig p : StateM Session (Except SettingsError Config)) s).1 =
      match s.files.read s.directory p with
      | .error fault => .error (.unreadable p fault)
      | .ok text => match Config.ofText text with
        | some c => .ok c
        | none => .error (.malformed p) := by
  have hread : Keeps (Host.read p : StateM Session (Except FileFault String)) := fun _ => rfl
  rw [loadConfig, hread.fst_bind]
  change ((match s.files.read s.directory p with
    | .error fault => return .error (.unreadable p fault)
    | .ok text => match Config.ofText text with
      | some c => return .ok c
      | none => return .error (.malformed p) :
        StateM Session (Except SettingsError Config)) s).1 = _
  cases s.files.read s.directory p with
  | error fault => rfl
  | ok text =>
      dsimp only
      cases Config.ofText text <;> rfl

theorem configPath_eq (hc : i.config = none) (hi : i.ignoresConfig = false) (s : Session) :
    ((configPath i : StateM Session (Option Path)) s).1 = s.configFile := by
  rw [configPath, hi, hc]
  rfl

theorem settings_of_ignoresConfig (hi : i.ignoresConfig = true) (s : Session) :
    s.settings i = merge i .empty ⟨""⟩ := by
  rw [settings_eq, configPath, if_pos hi]
  rfl

theorem isAbsolute_of_configFile (h : s.configFile = some p) : p.isAbsolute = true := by
  have hs := (searches_iff s).2 h.symm
  obtain ⟨a, ha, rfl⟩ := (hs.nearest (Location.isAbsolute_path _)).1 p rfl
  exact (Path.toList_join ha.around.absolute rfl).1

theorem settings_congr (hc : i.config = none) (hi : i.ignoresConfig = false)
    (hfiles : s'.files = s.files) (h : s'.configFile = s.configFile) :
    s'.settings i = s.settings i := by
  rw [settings_eq, settings_eq, configPath_eq hc hi, configPath_eq hc hi, h]
  cases hp : s.configFile with
  | none => rfl
  | some p =>
      dsimp only
      rw [loadConfig_eq, loadConfig_eq, hfiles,
        FileTree.read_of_isAbsolute (isAbsolute_of_configFile hp) s'.directory s.directory]

theorem settings_of_configFile_eq_none (hc : i.config = none) (hi : i.ignoresConfig = false)
    (h : s.configFile = none) : s.settings i = s.settings { i with ignoresConfig := true } := by
  have hbare : s.settings { i with ignoresConfig := true } = _ := settings_of_ignoresConfig rfl s
  rw [hbare, settings_eq, configPath_eq hc hi, h]
  rfl

theorem followsNearest (s : Session) (hc : i.config = none) (hi : i.ignoresConfig = false) :
    s.FollowsNearest i := by
  obtain ⟨hfound, hlost⟩ :=
    ((searches_iff s).2 rfl).nearest (Location.isAbsolute_path s.directory)
  refine ⟨fun _ => searches_iff s, hfound, ⟨hlost, fun h => ?_⟩, fun hd l hl => ?_,
    fun _ => settings_congr hc hi, settings_of_configFile_eq_none hc hi⟩
  · cases hp : s.configFile with
    | none => rfl
    | some p =>
        obtain ⟨a, ha, -⟩ := hfound p hp
        exact absurd ha.holds (h a.names ha.around.names)
  · exact ((searches_iff s).1 (FileTree.searches_of_nearestPlace hd hl)).symm

end Settings

end Session

namespace Invocation

variable {α : Type} {i : Invocation} {c d : Config} {base p : Path} {st : Settings}

theorem or_congr_of_none {a b b' : Option α} (h : a = none → b = b') : a.or b = a.or b' := by
  cases a with
  | none => rw [h rfl]
  | some x => rfl

theorem merge_congr (h : i.Covers c d) (base : Path) : merge i c base = merge i d base := by
  have hsources : (if i.sources.isEmpty then (c.sources.getD []).map base.rebase else i.sources) =
      if i.sources.isEmpty then (d.sources.getD []).map base.rebase else i.sources := by
    split
    · next he => rw [h.sources (List.isEmpty_iff.1 he)]
    · rfl
  have houtput : i.output.or (c.output.map base.rebase) = i.output.or (d.output.map base.rebase) :=
    or_congr_of_none fun ho => by rw [h.output ho]
  have hquiet : (i.quiet || c.quiet.getD false) = (i.quiet || d.quiet.getD false) := by
    cases hq : i.quiet with
    | true => rfl
    | false => rw [h.quiet hq]
  have hignored : (if i.ignored.isEmpty then c.ignored.getD [] else i.ignored) =
      if i.ignored.isEmpty then d.ignored.getD [] else i.ignored := by
    split
    · next he => rw [h.ignored (List.isEmpty_iff.1 he)]
    · rfl
  simp only [merge, hsources, houtput, hquiet, hignored, or_congr_of_none h.toolName,
    or_congr_of_none h.format, or_congr_of_none h.marker]

theorem paths_of_merge (h : merge i c base = .ok st) :
    st.sources = (if i.sources.isEmpty then (c.sources.getD []).map base.rebase else i.sources) ∧
      st.output = i.output.or (c.output.map base.rebase) := by
  unfold merge at h
  split at h
  · cases h
  · dsimp only at h
    generalize (if i.sources.isEmpty then (c.sources.getD []).map base.rebase else i.sources) =
      sources at h ⊢
    by_cases he : sources.isEmpty = true
    · rw [if_pos he] at h
      cases h
    · rw [if_neg he] at h
      cases h
      exact ⟨rfl, rfl⟩

theorem overrides (i : Invocation) : i.Overrides where
  covered _ _ base h := merge_congr h base
  sources c base st h hne := by
    rw [(paths_of_merge h).1, if_neg (by simpa using hne)]
  output c base st p h hp := by
    rw [(paths_of_merge h).2, hp, Option.some_or]

end Invocation

theorem Session.settings_follow_nearest_config (s : Session) (i : Invocation) :
    (i.config = none → i.ignoresConfig = false → s.FollowsNearest i) ∧ i.Overrides :=
  ⟨s.followsNearest, i.overrides⟩

def nested (directory : Location) : Session :=
  .fresh ⟨[(["a"], .directory), (["b", "a"], .directory), (["argcomp.toml", "a"], .directory),
    (["argcomp.toml"], .file "cliname = \"t\"\nsources = [\"x.py\"]\n".toUTF8)]⟩ directory .empty

theorem Session.settings_follow_nearest_config_nested :
    (nested ["b", "a"]).configFile = some ⟨"/argcomp.toml"⟩ ∧
      (nested []).configFile = some ⟨"/argcomp.toml"⟩ ∧
      ((nested []).settings .empty).toOption.map Settings.sources = some [⟨"/x.py"⟩] ∧
      (nested ["b", "a"]).settings .empty = (nested []).settings .empty := by
  have hin : (nested ["b", "a"]).configFile = some ⟨"/argcomp.toml"⟩ := by decide +kernel
  have hroot : (nested []).configFile = some ⟨"/argcomp.toml"⟩ := by decide +kernel
  have hsources : ((nested []).settings .empty).toOption.map Settings.sources =
      some [⟨"/x.py"⟩] := by decide +kernel
  obtain ⟨h, -⟩ := settings_follow_nearest_config (nested []) .empty
  exact ⟨hin, hroot, hsources, (h rfl rfl).same _ rfl (hin.trans hroot.symm)⟩

end CliCompletion
