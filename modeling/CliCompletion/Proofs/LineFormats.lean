import CliCompletion.Directive.Emission
import CliCompletion.Proofs.JsonFidelity

namespace CliCompletion

structure Line where
  path : Option String
  words : Option String
  closure : Option String
  flag : Option String
  nargs : Option String
  choices : Option String
  deriving DecidableEq, Repr

namespace Line

def fields (x : Line) : List String :=
  [x.path, x.words, x.closure, x.flag, x.nargs, x.choices].reduceOption

def ofWords (path : Option String) (words : String) (nargs : Option String) : Line :=
  ⟨path, some words, none, none, nargs, none⟩

def ofClosure (path : Option String) (function : String) (nargs : Option String) : Line :=
  ⟨path, none, some function, none, nargs, none⟩

def ofFlag (path : Option String) (flag : String) (choices : Option String) : Line :=
  ⟨path, none, none, some flag, none, choices⟩

def pieces (s : List Char) : List String :=
  (s.splitOn '"').map String.ofList

def ofCommand (s : List Char) : Option Line :=
  match pieces s with
  | ["add_positional_argument ", path, " ", words, ""] => some (ofWords (some path) words none)
  | ["add_positional_argument ", path, " --closure=", name, ""] =>
      some (ofClosure (some path) name none)
  | ["add_option_argument ", path, " ", flag, ""] => some (ofFlag (some path) flag none)
  | _ => none

def takePath : List String → Option String × List String
  | " -p=" :: path :: ps => (some path, ps)
  | ps => (none, ps)

def lastSetting (name : String) : List String → Option (Option String)
  | [""] => some none
  | [n, value, ""] => if n = name then some (some value) else none
  | _ => none

def ofSlot (ps : List String) : Option Line :=
  match (takePath ps).2 with
  | " --choices=" :: words :: ps' =>
      (lastSetting " --nargs=" ps').map (ofWords (takePath ps).1 words)
  | " --closure=" :: name :: ps' =>
      (lastSetting " --nargs=" ps').map (ofClosure (takePath ps).1 name)
  | _ => none

def ofOption (ps : List String) : Option Line :=
  match (takePath ps).2 with
  | " " :: flag :: ps' => (lastSetting " --choices=" ps').map (ofFlag (takePath ps).1 flag)
  | _ => none

def ofOperation : List Char → Option Line
  | 'p' :: 'o' :: 's' :: s => ofSlot (pieces s)
  | 'o' :: 'p' :: 't' :: s => ofOption (pieces s)
  | _ => none

def marked (kvs : List (String × String)) : String :=
  String.join (kvs.map fun kv => kv.1 ++ Directive.inQuotes kv.2)

def markedPieces (kvs : List (String × String)) : List String :=
  kvs.flatMap (fun kv => [kv.1, kv.2]) ++ [""]

section Pieces

variable {s stem : List Char} {p f : String} {ps : List String} {x : Line}

theorem not_mem_of_mem_splitOn {c : Char} {s piece : List Char} (h : piece ∈ s.splitOn c) :
    c ∉ piece := by
  induction s generalizing piece with
  | nil =>
      rw [List.splitOn_nil, List.mem_singleton] at h
      rw [h]
      exact List.not_mem_nil
  | cons d s ih =>
      rw [List.splitOn_cons_eq_if_modifyHead] at h
      obtain ⟨q, qs, hqs⟩ := List.exists_cons_of_ne_nil (List.splitOn_ne_nil c s)
      rw [hqs] at h ih
      split_ifs at h with hd
      · rcases List.mem_cons.1 h with rfl | h
        · exact List.not_mem_nil
        · exact ih h
      · rw [List.modifyHead_cons] at h
        rcases List.mem_cons.1 h with rfl | h
        · have hq := ih List.mem_cons_self
          have hdc : c ≠ d := fun he => hd (by simp [he])
          simp [hdc, hq]
        · exact ih (List.mem_cons_of_mem _ h)

theorem not_mem_of_mem_pieces (h : p ∈ pieces s) : '"' ∉ p.toList := by
  obtain ⟨piece, hpiece, rfl⟩ := List.mem_map.1 h
  rw [String.toList_ofList]
  exact not_mem_of_mem_splitOn hpiece

theorem fields_ofWords (path nargs : Option String) (words : String) :
    (ofWords path words nargs).fields = path.toList ++ words :: nargs.toList := by
  cases path <;> cases nargs <;> rfl

theorem fields_ofClosure (path nargs : Option String) (name : String) :
    (ofClosure path name nargs).fields = path.toList ++ name :: nargs.toList := by
  cases path <;> cases nargs <;> rfl

theorem fields_ofFlag (path choices : Option String) (flag : String) :
    (ofFlag path flag choices).fields = path.toList ++ flag :: choices.toList := by
  cases path <;> cases choices <;> rfl

theorem fields_of_ofCommand (h : ofCommand s = some x) : x.fields ⊆ pieces s := by
  unfold ofCommand at h
  split at h
  · rename_i hs
    cases h
    rw [hs, fields_ofWords]
    simp
  · rename_i hs
    cases h
    rw [hs, fields_ofClosure]
    simp
  · rename_i hs
    cases h
    rw [hs, fields_ofFlag]
    simp
  · cases h

theorem takePath_subset (ps : List String) :
    (takePath ps).1.toList ⊆ ps ∧ (takePath ps).2 ⊆ ps := by
  unfold takePath
  split
  · simp
  · simp

theorem lastSetting_subset {name : String} {o : Option String} (h : lastSetting name ps = some o) :
    o.toList ⊆ ps := by
  unfold lastSetting at h
  split at h
  · cases h
    simp
  · split_ifs at h
    cases h
    simp
  · cases h

theorem subset_pieces {path last : Option String} {key v : String} {ps' : List String}
    (hp : path.toList ⊆ ps) (hps : key :: v :: ps' ⊆ ps) (hlast : last.toList ⊆ ps') :
    path.toList ++ v :: last.toList ⊆ ps := by
  obtain ⟨-, hv⟩ := List.cons_subset.1 hps
  obtain ⟨hv, hps'⟩ := List.cons_subset.1 hv
  exact List.append_subset.2 ⟨hp, List.cons_subset.2 ⟨hv, List.Subset.trans hlast hps'⟩⟩

theorem fields_of_ofSlot (h : ofSlot ps = some x) : x.fields ⊆ ps := by
  obtain ⟨hp, hps⟩ := takePath_subset ps
  unfold ofSlot at h
  split at h
  · rename_i heq
    obtain ⟨o, ho, rfl⟩ := Option.map_eq_some_iff.1 h
    rw [fields_ofWords]
    exact subset_pieces hp (heq ▸ hps) (lastSetting_subset ho)
  · rename_i heq
    obtain ⟨o, ho, rfl⟩ := Option.map_eq_some_iff.1 h
    rw [fields_ofClosure]
    exact subset_pieces hp (heq ▸ hps) (lastSetting_subset ho)
  · cases h

theorem fields_of_ofOption (h : ofOption ps = some x) : x.fields ⊆ ps := by
  obtain ⟨hp, hps⟩ := takePath_subset ps
  unfold ofOption at h
  split at h
  · rename_i heq
    obtain ⟨o, ho, rfl⟩ := Option.map_eq_some_iff.1 h
    rw [fields_ofFlag]
    exact subset_pieces hp (heq ▸ hps) (lastSetting_subset ho)
  · cases h

theorem not_mem_of_ofCommand (h : ofCommand s = some x) : ∀ f ∈ x.fields, '"' ∉ f.toList :=
  fun _ hf => not_mem_of_mem_pieces (fields_of_ofCommand h hf)

theorem not_mem_of_ofOperation (h : ofOperation s = some x) : ∀ f ∈ x.fields, '"' ∉ f.toList := by
  unfold ofOperation at h
  split at h
  · exact fun _ hf => not_mem_of_mem_pieces (fields_of_ofSlot h hf)
  · exact fun _ hf => not_mem_of_mem_pieces (fields_of_ofOption h hf)
  · cases h

theorem marked_cons (k v : String) (kvs : List (String × String)) :
    marked ((k, v) :: kvs) = k ++ Directive.inQuotes v ++ marked kvs := by
  simp [marked]

theorem marked_append (kvs kvs' : List (String × String)) :
    marked (kvs ++ kvs') = marked kvs ++ marked kvs' := by
  simp [marked]

theorem mem_marked {kvs : List (String × String)} {c : Char} : c ∈ (marked kvs).toList ↔
    ∃ kv ∈ kvs, c ∈ kv.1.toList ∨ c = '"' ∨ c ∈ kv.2.toList := by
  induction kvs with
  | nil => simp [marked]
  | cons kv kvs ih =>
      obtain ⟨k, v⟩ := kv
      have hquoted : c ∈ (k ++ Directive.inQuotes v).toList ↔
          c ∈ k.toList ∨ c = '"' ∨ c ∈ v.toList := by
        simp [Directive.inQuotes, String.toList_append]
        tauto
      rw [marked_cons, String.toList_append, List.mem_append, ih, hquoted]
      simp

theorem toList_marked (kvs : List (String × String)) :
    (marked kvs).toList = ['"'].intercalate ((markedPieces kvs).map String.toList) := by
  induction kvs with
  | nil => rfl
  | cons kv kvs ih =>
      obtain ⟨k, v⟩ := kv
      have hne : (markedPieces kvs).map String.toList ≠ [] := by simp [markedPieces]
      have hpieces : markedPieces ((k, v) :: kvs) = k :: v :: markedPieces kvs := rfl
      rw [marked_cons, hpieces, String.toList_append, ih, List.map_cons, List.map_cons,
        List.intercalate_cons_cons, List.intercalate_cons_of_ne_nil hne]
      simp [Directive.inQuotes, String.toList_append]

theorem pieces_marked {kvs : List (String × String)}
    (h : ∀ kv ∈ kvs, '"' ∉ kv.1.toList ∧ '"' ∉ kv.2.toList) :
    pieces (marked kvs).toList = markedPieces kvs := by
  have hpieces : ∀ q ∈ (markedPieces kvs).map String.toList, '"' ∉ q := by
    intro q hq
    obtain ⟨p, hp, rfl⟩ := List.mem_map.1 hq
    rcases List.mem_append.1 hp with hp | hp
    · obtain ⟨kv, hkv, hp⟩ := List.mem_flatMap.1 hp
      rcases List.mem_pair.1 hp with rfl | rfl
      · exact (h kv hkv).1
      · exact (h kv hkv).2
    · rw [List.mem_singleton.1 hp]
      exact List.not_mem_nil
  rw [pieces, toList_marked, List.splitOn_intercalate _ hpieces (by simp [markedPieces]),
    List.map_map]
  simp

end Pieces

end Line

namespace Directive

def commandTold (d : Directive) : Line where
  path := some d.path.text
  words := d.words?.map joined
  closure := d.completer?.map (·.function)
  flag := d.flag?
  nargs := none
  choices := none

def operationTold (d : Directive) : Line where
  path := d.path.relative
  words := d.words?.map joined
  closure := d.completer?.map (·.function)
  flag := d.flag?
  nargs := d.nargs?
  choices := if d.choices.isEmpty then none else some (joined d.choices)

def ReadBack (read : List Char → Option Line) (told : Directive → Line) (ds : List Directive)
    (text : String) : Prop :=
  ∃ ls : List (List Char), text.toList = ls.flatMap (· ++ ['\n']) ∧ (∀ l ∈ ls, '\n' ∉ l) ∧
    List.Forall₂ (fun d l => read l = some (told d)) ds ls

def Readable (told : Directive → Line) (d : Directive) : Prop :=
  ∀ f ∈ (told d).fields, '"' ∉ f.toList ∧ '\n' ∉ f.toList

structure Laid (line : String) (told : Line) (read : List Char → Option Line) (stem : String)
    (kvs : List (String × String)) : Prop where
  text : line = stem ++ Line.marked kvs
  unbroken : '\n' ∉ stem.toList
  keys : ∀ kv ∈ kvs, '"' ∉ kv.1.toList ∧ '\n' ∉ kv.1.toList
  values : told.fields = kvs.map (·.2)
  reads : ∀ s, Line.pieces s = Line.markedPieces kvs → read (stem.toList ++ s) = some told

theorem marked_pair (k v k' v' : String) :
    k ++ inQuotes v ++ k' ++ inQuotes v' = "" ++ Line.marked [(k, v), (k', v')] := by
  simp [Line.marked, String.append_assoc]

theorem laid_command (d : Directive) :
    ∃ kvs, Laid d.commandLine d.commandTold Line.ofCommand "" kvs := by
  cases d with
  | words path ws nargs =>
      refine ⟨[("add_positional_argument ", path.text), (" ", joined ws)], marked_pair ..,
        List.not_mem_nil, ?_, rfl, fun s hs => ?_⟩
      · simp
      · rw [Line.ofCommand, String.toList_empty, List.nil_append, hs]
        rfl
  | closure path c nargs =>
      refine ⟨[("add_positional_argument ", path.text), (" --closure=", c.function)],
        marked_pair .., List.not_mem_nil, ?_, rfl, fun s hs => ?_⟩
      · simp
      · rw [Line.ofCommand, String.toList_empty, List.nil_append, hs]
        rfl
  | flag path name choices =>
      refine ⟨[("add_option_argument ", path.text), (" ", name)], marked_pair ..,
        List.not_mem_nil, ?_, rfl, fun s hs => ?_⟩
      · simp
      · rw [Line.ofCommand, String.toList_empty, List.nil_append, hs]
        rfl

theorem operationLine_words (path : CommandPath) (ws : List String) (nargs : Option String) :
    (words path ws nargs).operationLine = "pos" ++ setting "-p" path.relative ++
      setting "--choices" (some (joined ws)) ++ setting "--nargs" nargs := rfl

theorem operationLine_closure (path : CommandPath) (c : Completer) (nargs : Option String) :
    (closure path c nargs).operationLine = "pos" ++ setting "-p" path.relative ++
      setting "--closure" (some c.function) ++ setting "--nargs" nargs := rfl

theorem operationLine_flag (path : CommandPath) (name : String) (choices : List String) :
    (flag path name choices).operationLine = "opt" ++ setting "-p" path.relative ++ " " ++
      inQuotes name ++
        setting "--choices" (if choices.isEmpty then none else some (joined choices)) := rfl

def keyed (key : String) : Option String → List (String × String)
  | some value => [(key, value)]
  | none => []

theorem setting_eq {name key : String} (h : " " ++ name ++ "=" = key) (o : Option String) :
    setting name o = Line.marked (keyed key o) := by
  cases o with
  | none => rfl
  | some v =>
      subst h
      simp [setting, keyed, Line.marked]

theorem ofSlot_words (p n : Option String) (ws : String) :
    Line.ofSlot (Line.markedPieces (keyed " -p=" p ++ (" --choices=", ws) :: keyed " --nargs=" n)) =
      some (.ofWords p ws n) := by
  cases p <;> cases n <;> rfl

theorem ofSlot_closure (p n : Option String) (name : String) :
    Line.ofSlot (Line.markedPieces
      (keyed " -p=" p ++ (" --closure=", name) :: keyed " --nargs=" n)) =
      some (.ofClosure p name n) := by
  cases p <;> cases n <;> rfl

theorem ofOption_flag (p c : Option String) (name : String) :
    Line.ofOption (Line.markedPieces (keyed " -p=" p ++ (" ", name) :: keyed " --choices=" c)) =
      some (.ofFlag p name c) := by
  cases p <;> cases c <;> rfl

theorem Laid.of_keyed {line stem key lastKey v : String} {p last : Option String} {told : Line}
    {read : List Char → Option Line}
    (text : line = stem ++ Line.marked (keyed " -p=" p ++ (key, v) :: keyed lastKey last))
    (unbroken : '\n' ∉ stem.toList) (hkey : '"' ∉ key.toList ∧ '\n' ∉ key.toList)
    (hlast : '"' ∉ lastKey.toList ∧ '\n' ∉ lastKey.toList)
    (values : told.fields = p.toList ++ v :: last.toList)
    (reads : ∀ s, Line.pieces s =
      Line.markedPieces (keyed " -p=" p ++ (key, v) :: keyed lastKey last) →
      read (stem.toList ++ s) = some told) :
    Laid line told read stem (keyed " -p=" p ++ (key, v) :: keyed lastKey last) where
  text := text
  unbroken := unbroken
  keys := by
    have hpath : '"' ∉ " -p=".toList ∧ '\n' ∉ " -p=".toList := by simp
    cases p <;> cases last <;> simp_all [keyed]
  values := by
    rw [values]
    cases p <;> cases last <;> rfl
  reads := reads

theorem marked_settings (stem key v lastKey : String) (p last : Option String) :
    stem ++ Line.marked (keyed " -p=" p) ++ Line.marked [(key, v)] ++
      Line.marked (keyed lastKey last) =
      stem ++ Line.marked (keyed " -p=" p ++ (key, v) :: keyed lastKey last) := by
  have happend : keyed " -p=" p ++ (key, v) :: keyed lastKey last =
      keyed " -p=" p ++ ([(key, v)] ++ keyed lastKey last) := rfl
  rw [happend, Line.marked_append, Line.marked_append, String.append_assoc, String.append_assoc]

theorem laid_operation (d : Directive) :
    ∃ stem kvs, Laid d.operationLine d.operationTold Line.ofOperation stem kvs := by
  cases d with
  | words path ws nargs =>
      refine ⟨"pos", keyed " -p=" path.relative ++ (" --choices=", joined ws) ::
        keyed " --nargs=" nargs, .of_keyed ?_ (by simp) (by simp) (by simp)
        (Line.fields_ofWords ..) fun s hs => ?_⟩
      · rw [operationLine_words, setting_eq rfl, setting_eq rfl, setting_eq rfl]
        exact marked_settings ..
      · change Line.ofSlot (Line.pieces s) = _
        rw [hs]
        exact ofSlot_words ..
  | closure path c nargs =>
      refine ⟨"pos", keyed " -p=" path.relative ++ (" --closure=", c.function) ::
        keyed " --nargs=" nargs, .of_keyed ?_ (by simp) (by simp) (by simp)
        (Line.fields_ofClosure ..) fun s hs => ?_⟩
      · rw [operationLine_closure, setting_eq rfl, setting_eq rfl, setting_eq rfl]
        exact marked_settings ..
      · change Line.ofSlot (Line.pieces s) = _
        rw [hs]
        exact ofSlot_closure ..
  | flag path name choices =>
      refine ⟨"opt", keyed " -p=" path.relative ++ (" ", name) :: keyed " --choices="
        (if choices.isEmpty then none else some (joined choices)),
        .of_keyed ?_ (by simp) (by simp) (by simp) (Line.fields_ofFlag ..) fun s hs => ?_⟩
      · have hname (s : String) : s ++ " " ++ inQuotes name = s ++ Line.marked [(" ", name)] := by
          simp [Line.marked, String.append_assoc]
        rw [operationLine_flag, setting_eq rfl, setting_eq rfl, hname]
        exact marked_settings ..
      · change Line.ofOption (Line.pieces s) = _
        rw [hs]
        exact ofOption_flag ..

section Reading

variable {line : Directive → String} {told : Directive → Line} {read : List Char → Option Line}
  {d : Directive} {ds : List Directive} {stem : String} {kvs : List (String × String)}

theorem Laid.unbroken_iff {line : String} {told : Line} (h : Laid line told read stem kvs) :
    '\n' ∉ line.toList ↔ ∀ f ∈ told.fields, '\n' ∉ f.toList := by
  rw [h.text, String.toList_append, List.mem_append, not_or, Line.mem_marked, h.values]
  simp only [List.forall_mem_map]
  constructor
  · rintro ⟨-, hn⟩ kv hkv hv
    exact hn ⟨kv, hkv, .inr (.inr hv)⟩
  · intro hv
    refine ⟨h.unbroken, ?_⟩
    rintro ⟨kv, hkv, hk | hq | hkv'⟩
    · exact (h.keys kv hkv).2 hk
    · cases hq
    · exact hv kv hkv hkv'

theorem Laid.read_eq {line : String} {told : Line} (h : Laid line told read stem kvs)
    (hf : ∀ f ∈ told.fields, '"' ∉ f.toList) : read line.toList = some told := by
  rw [h.values, List.forall_mem_map] at hf
  rw [h.text, String.toList_append]
  exact h.reads _ (Line.pieces_marked fun kv hkv => ⟨(h.keys kv hkv).1, hf kv hkv⟩)

theorem toList_lines (line : Directive → String) (ds : List Directive) :
    (lines line ds).toList = (ds.map fun d => (line d).toList).flatMap (· ++ ['\n']) := by
  rw [lines, String.toList_join, List.flatMap_map, List.flatMap_map]
  simp [String.toList_append]

theorem length_le_count (ls : List (List Char)) :
    ls.length ≤ (ls.flatMap (· ++ ['\n'])).count '\n' := by
  induction ls with
  | nil => exact Nat.zero_le _
  | cons l ls ih =>
      simp only [List.flatMap_cons, List.count_append, List.length_cons,
        List.count_singleton_self]
      omega

theorem count_eq_length {ls : List (List Char)} :
    (ls.flatMap (· ++ ['\n'])).count '\n' = ls.length ↔ ∀ l ∈ ls, '\n' ∉ l := by
  induction ls with
  | nil => simp
  | cons l ls ih =>
      have hle := length_le_count ls
      rw [List.forall_mem_cons, ← ih, ← List.count_eq_zero]
      simp only [List.flatMap_cons, List.count_append, List.length_cons,
        List.count_singleton_self]
      omega

theorem readBack_iff (hlaid : ∀ d, ∃ stem kvs, Laid (line d) (told d) read stem kvs)
    (hread : ∀ {s x}, read s = some x → ∀ f ∈ x.fields, '"' ∉ f.toList) :
    ReadBack read told ds (lines line ds) ↔ ∀ d ∈ ds, Readable told d := by
  constructor
  · rintro ⟨ls, htext, hls, hreads⟩ d hd f hf
    have hquotes : ∀ d ∈ ds, ∀ f ∈ (told d).fields, '"' ∉ f.toList :=
      ((List.forall₂_and_left _ _).1 (hreads.imp fun d l h => ⟨hread h, h⟩)).1
    -- As many line breaks as lines leave none for the inside of a line.
    have hcount := congrArg (List.count '\n') ((toList_lines line ds).symm.trans htext)
    rw [count_eq_length.2 hls, ← hreads.length_eq] at hcount
    have hlines := count_eq_length.1 (hcount.trans (List.length_map _).symm)
    obtain ⟨stem, kvs, hl⟩ := hlaid d
    exact ⟨hquotes d hd f hf, hl.unbroken_iff.1 (hlines _ (List.mem_map_of_mem hd)) f hf⟩
  · intro h
    refine ⟨ds.map fun d => (line d).toList, toList_lines line ds, ?_, ?_⟩
    · rw [List.forall_mem_map]
      intro d hd
      obtain ⟨stem, kvs, hl⟩ := hlaid d
      exact hl.unbroken_iff.2 fun f hf => (h d hd f hf).2
    · rw [List.forall₂_map_right_iff, List.forall₂_same]
      intro d hd
      obtain ⟨stem, kvs, hl⟩ := hlaid d
      exact hl.read_eq fun f hf => (h d hd f hf).1

theorem lines_readBack_iff (ds : List Directive) :
    (ReadBack Line.ofCommand commandTold ds (OutputFormat.directives.render ds) ↔
      ∀ d ∈ ds, Readable commandTold d) ∧
    (ReadBack Line.ofOperation operationTold ds (OutputFormat.operations.render ds) ↔
      ∀ d ∈ ds, Readable operationTold d) :=
  ⟨readBack_iff (fun d => ⟨"", laid_command d⟩) Line.not_mem_of_ofCommand,
    readBack_iff laid_operation Line.not_mem_of_ofOperation⟩

def brokenFlag : String :=
  "p = ArgumentParser()\np.add_argument(\"--a\\nb\")\n"

theorem not_readBack_of_brokenFlag : ∃ ds,
    Directive.ofSource ⟨"m", []⟩ "t" brokenFlag.toList = .ok ds ∧
    ¬ ReadBack Line.ofCommand commandTold ds (OutputFormat.directives.render ds) ∧
    ¬ ReadBack Line.ofOperation operationTold ds (OutputFormat.operations.render ds) := by
  have hds : Directive.ofSource ⟨"m", []⟩ "t" brokenFlag.toList =
      .ok [.flag ⟨"t", []⟩ "--a\nb" []] := by
    decide +kernel
  refine ⟨_, hds, fun h => ?_, fun h => ?_⟩
  · have hread := (readBack_iff (fun d => ⟨"", laid_command d⟩) Line.not_mem_of_ofCommand).1 h
    exact (hread _ List.mem_cons_self "--a\nb" (by decide)).2 (by decide)
  · have hread := (readBack_iff laid_operation Line.not_mem_of_ofOperation).1 h
    exact (hread _ List.mem_cons_self "--a\nb" (by decide)).2 (by decide)

end Reading

end Directive

end CliCompletion
