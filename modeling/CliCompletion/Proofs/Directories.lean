import CliCompletion.Proofs.Blanks
import CliCompletion.Proofs.Writing
import CliCompletion.Settings

namespace CliCompletion

namespace Path

variable {p q a : Path} {s t r w rest : List Char} {c : Char}

def isIdle (name : String) : Bool :=
  name == "" || name == "."

def names (p : Path) : List String :=
  p.components.filter (!isIdle ·)

structure Around (a p : Path) : Prop where
  absolute : a.isAbsolute = true
  text : a.text.toList <+: p.text.toList
  names : a.names <+: p.names

def namesOf (s : List Char) : List String :=
  names ⟨String.ofList s⟩

section Names

theorem names_eq (p : Path) : p.names = namesOf p.text.toList := by
  rw [namesOf, String.ofList_toList]

theorem namesOf_eq (s : List Char) :
    namesOf s = ((s.splitOn '/').map String.ofList).filter (!isIdle ·) := by
  rw [namesOf, names, components, String.toList_ofList]

theorem namesOf_append (s t : List Char) : namesOf (s ++ '/' :: t) = namesOf s ++ namesOf t := by
  simp only [namesOf_eq]
  rw [List.splitOn_append_cons_self, List.map_append, List.filter_append]

theorem namesOf_word (h : '/' ∉ w) :
    namesOf w = if isIdle (String.ofList w) then [] else [String.ofList w] := by
  rw [namesOf_eq, List.splitOn_eq_singleton h, List.map_singleton, List.filter_cons]
  cases isIdle (String.ofList w) <;> rfl

theorem namesOf_nil : namesOf [] = [] :=
  namesOf_word List.not_mem_nil

theorem namesOf_dropIdle (s : List Char) : namesOf (dropIdle s).reverse = namesOf s.reverse := by
  have hdot : namesOf ['.'] = [] := namesOf_word (by decide)
  fun_induction dropIdle s with
  | case1 s ih => rw [ih, List.reverse_cons, namesOf_append, namesOf_nil, List.append_nil]
  | case2 => rw [List.reverse_nil, namesOf_nil, List.reverse_singleton, hdot]
  | case3 s ih =>
      rw [ih, List.reverse_cons, List.reverse_cons, List.append_assoc, List.singleton_append,
        namesOf_append, hdot, List.append_nil]
  | case4 => rfl

end Names

section Parent

theorem dropIdle_suffix (s : List Char) : dropIdle s <:+ s := by
  fun_induction dropIdle s with
  | case1 s ih => exact ih.trans (List.suffix_cons _ _)
  | case2 => exact List.nil_suffix
  | case3 s ih => exact ih.trans ((List.suffix_cons _ _).trans (List.suffix_cons _ _))
  | case4 => exact List.suffix_rfl

theorem dropIdle_dropIdle (s : List Char) : dropIdle (dropIdle s) = dropIdle s := by
  fun_induction dropIdle s with
  | case1 s ih => exact ih
  | case2 => rfl
  | case3 s ih => exact ih
  | case4 s h₁ h₂ h₃ => rw [dropIdle.eq_4 s h₁ h₂ h₃]

structure EndsIn (w rest : List Char) : Prop where
  nonempty : w ≠ []
  solid : '/' ∉ w
  named : w ≠ ['.']
  ended : ∀ c ∈ rest.head?, c = '/'

theorem EndsIn.dropIdle_eq (h : EndsIn w rest) : dropIdle (w ++ rest) = w ++ rest := by
  obtain ⟨hne, hsolid, hnamed, -⟩ := h
  obtain ⟨c, w, rfl⟩ := List.exists_cons_of_ne_nil hne
  cases w with
  | nil =>
      rw [List.singleton_append, dropIdle]
      · rintro s hs
        exact hsolid ((List.cons.inj hs).1 ▸ List.mem_cons_self)
      · intro hs
        exact hnamed (congrArg (· :: []) (List.cons.inj hs).1)
      · intro s hs
        exact hnamed (congrArg (· :: []) (List.cons.inj hs).1)
  | cons d w =>
      rw [List.cons_append, List.cons_append, dropIdle]
      · rintro s hs
        exact hsolid ((List.cons.inj hs).1 ▸ List.mem_cons_self)
      · intro hs
        cases (List.cons.inj hs).2
      · intro s hs
        have hd : d = '/' := (List.cons.inj (List.cons.inj hs).2).1
        exact hsolid (hd ▸ List.mem_cons_of_mem _ List.mem_cons_self)

theorem exists_endsIn_of_dropIdle (h : dropIdle s = c :: r) :
    ∃ w rest, c :: r = w ++ rest ∧ EndsIn w rest := by
  have hhead : c ≠ '/' := by simpa [h] using dropIdle_head_ne s
  have hidle : dropIdle (c :: r) = c :: r := by rw [← h, dropIdle_dropIdle]
  have hended : ∀ d ∈ ((c :: r).dropWhile (· != '/')).head?, d = '/' :=
    fun _ => Text.eq_of_mem_head?_dropWhile_ne
  have hsplit := List.takeWhile_append_dropWhile (p := (· != '/')) (l := c :: r)
  refine ⟨_, _, hsplit.symm, ?_, Text.not_mem_takeWhile_ne '/' _, ?_, hended⟩
  · rw [List.takeWhile_cons_of_pos (by simpa using hhead)]
    exact List.cons_ne_nil _ _
  · intro hdot
    rw [hdot] at hsplit
    rw [← hsplit] at hidle
    generalize (c :: r).dropWhile (· != '/') = rest at hidle hended
    cases rest with
    | nil => cases hidle
    | cons d rest =>
        rw [hended d rfl] at hidle
        have hlen := length_dropIdle_le rest
        have heq : dropIdle rest = '.' :: '/' :: rest := hidle
        rw [heq, List.length_cons, List.length_cons] at hlen
        omega

theorem EndsIn.dropLast_eq (h : EndsIn w rest) : dropLast (w ++ rest) = dropIdle rest := by
  have hw : ∀ c ∈ w, (c != '/') = true := fun c hc => bne_iff_ne.2 fun he => h.solid (he ▸ hc)
  rw [dropLast, List.dropWhile_append_of_pos hw]
  cases rest with
  | nil => rfl
  | cons c rest =>
      rw [h.ended c rfl]
      rfl

theorem EndsIn.namesOf_reverse (h : EndsIn w rest) : namesOf (w ++ rest).reverse =
    namesOf (dropLast (w ++ rest)).reverse ++ [String.ofList w.reverse] := by
  have hw : namesOf w.reverse = [String.ofList w.reverse] := by
    rw [namesOf_word (by simpa using h.solid), if_neg]
    have hempty : String.ofList w.reverse ≠ "" := fun he => by
      have hnil := congrArg String.toList he
      simp [h.nonempty] at hnil
    have hdot : String.ofList w.reverse ≠ "." := fun he => by
      have hone := congrArg (List.reverse ∘ String.toList) he
      simp [h.named] at hone
    simp [isIdle, hempty, hdot]
  rw [h.dropLast_eq, namesOf_dropIdle, List.reverse_append]
  cases rest with
  | nil =>
      rw [List.reverse_nil, List.nil_append, hw, namesOf_nil]
      rfl
  | cons c rest =>
      rw [h.ended c rfl, List.reverse_cons, List.append_assoc, List.singleton_append,
        namesOf_append, hw, namesOf_append, namesOf_nil, List.append_nil]

theorem exists_body (h : p.isAbsolute = true) : ∃ body, p.text.toList = '/' :: body := by
  cases hp : p.text.toList with
  | nil => simp [isAbsolute, hp] at h
  | cons c body =>
      rw [isAbsolute, hp] at h
      exact ⟨body, by rw [Option.some.inj (beq_iff_eq.1 h)]⟩

theorem parent_eq {body : List Char} (h : p.text.toList = '/' :: body) :
    p.parent = match dropIdle body.reverse with
      | [] => none
      | c :: s => some ⟨String.ofList ('/' :: (dropLast (c :: s)).reverse)⟩ := by
  unfold parent
  rw [h]
  rfl

theorem namesOf_cons (s : List Char) : namesOf ('/' :: s) = namesOf s := by
  rw [← List.nil_append ('/' :: s), namesOf_append, namesOf_nil, List.nil_append]

theorem names_of_body {body : List Char} (h : p.text.toList = '/' :: body) :
    p.names = namesOf (dropIdle body.reverse).reverse := by
  rw [names_eq, h, namesOf_cons, namesOf_dropIdle, List.reverse_reverse]

theorem names_of_parent_eq_none (hp : p.isAbsolute = true) (h : p.parent = none) :
    p.names = [] := by
  obtain ⟨body, hbody⟩ := exists_body hp
  rw [parent_eq hbody] at h
  split at h
  · next hidle => rw [names_of_body hbody, hidle, List.reverse_nil, namesOf_nil]
  · cases h

theorem around_of_parent (hp : p.isAbsolute = true) (h : p.parent = some q) :
    q.Around p ∧ ∃ n, p.names = q.names ++ [n] := by
  obtain ⟨body, hbody⟩ := exists_body hp
  rw [parent_eq hbody] at h
  split at h
  · cases h
  · next c s hidle =>
      cases h
      obtain ⟨w, rest, hcs, hw⟩ := exists_endsIn_of_dropIdle hidle
      have hnames : p.names = namesOf (dropLast (c :: s)).reverse ++ [String.ofList w.reverse] := by
        rw [names_of_body hbody, hidle, hcs, hw.namesOf_reverse]
      have hq : names ⟨String.ofList ('/' :: (dropLast (c :: s)).reverse)⟩ =
          namesOf (dropLast (c :: s)).reverse := namesOf_cons _
      refine ⟨⟨?_, ?_, ?_⟩, String.ofList w.reverse, by rw [hnames, hq]⟩
      · simp [isAbsolute]
      · rw [String.toList_ofList, hbody, List.cons_prefix_cons]
        refine ⟨rfl, List.reverse_suffix.1 ?_⟩
        rw [List.reverse_reverse]
        refine List.IsSuffix.trans ?_ (dropIdle_suffix body.reverse)
        rw [hidle]
        exact (dropIdle_suffix _).trans (List.dropWhile_suffix _)
      · rw [hnames, hq]
        exact List.prefix_append _ _

theorem ancestors_of_parent_eq_none (h : p.parent = none) : p.ancestors = [p] := by
  rw [ancestors]
  split
  · rfl
  · next q hq =>
      rw [h] at hq
      cases hq

theorem ancestors_of_parent (h : p.parent = some q) : p.ancestors = p :: q.ancestors := by
  rw [ancestors]
  split
  · next hnone =>
      rw [h] at hnone
      cases hnone
  · next r hr =>
      rw [h] at hr
      cases hr
      rfl

theorem around_refl (hp : p.isAbsolute = true) : p.Around p :=
  ⟨hp, List.prefix_rfl, List.prefix_rfl⟩

theorem Around.trans (h : a.Around q) (h' : q.Around p) : a.Around p :=
  ⟨h.absolute, h.text.trans h'.text, h.names.trans h'.names⟩

end Parent

section Join

theorem isAbsolute_of_toList {body : List Char} (h : p.text.toList = '/' :: body) :
    p.isAbsolute = true := by
  rw [isAbsolute, h]
  rfl

theorem toList_join (ha : a.isAbsolute = true) (hq : q.isAbsolute = false) :
    (a.join q).isAbsolute = true ∧
      ∃ s, (a.join q).text.toList = s ++ '/' :: q.text.toList ∧ namesOf s = a.names := by
  obtain ⟨body, hbody⟩ := exists_body ha
  have hne : a.text.isEmpty = false := by
    rw [Bool.eq_false_iff]
    intro he
    rw [String.isEmpty_iff.1 he] at hbody
    cases hbody
  by_cases hlast : a.text.toList.getLast? = some '/'
  · have hjoin : a.join q = ⟨a.text ++ q.text⟩ := by simp [join, hq, hlast]
    obtain ⟨s, hs⟩ := List.getLast?_eq_some_iff.1 hlast
    rw [hjoin]
    have habs : (a.text ++ q.text).toList = '/' :: (body ++ q.text.toList) := by simp [hbody]
    refine ⟨isAbsolute_of_toList habs, s, by simp [hs], ?_⟩
    rw [names_eq, hs, namesOf_append, namesOf_nil, List.append_nil]
  · have hjoin : a.join q = ⟨a.text ++ "/" ++ q.text⟩ := by simp [join, hq, hlast, hne]
    have habs : (a.text ++ "/" ++ q.text).toList = '/' :: (body ++ '/' :: q.text.toList) := by
      simp [hbody]
    rw [hjoin]
    exact ⟨isAbsolute_of_toList habs, a.text.toList, by simp, (names_eq a).symm⟩

theorem names_join (ha : a.isAbsolute = true) (hq : q.isAbsolute = false) :
    (a.join q).names = a.names ++ q.names := by
  obtain ⟨-, s, hs, hnames⟩ := toList_join ha hq
  rw [names_eq, hs, namesOf_append, hnames, names_eq q]

theorem mem_iff_mem_splitOn (hc : c ≠ '/') : c ∈ s ↔ ∃ w ∈ s.splitOn '/', c ∈ w := by
  induction s with
  | nil => simp
  | cons d s ih =>
      rw [List.splitOn_cons_eq_if_modifyHead, List.mem_cons, ih]
      obtain ⟨w, ws, hs⟩ := List.exists_cons_of_ne_nil (List.splitOn_ne_nil '/' s)
      rw [hs]
      split
      · next hd => simp [beq_iff_eq.1 hd, hc]
      · simp [or_assoc]

theorem mem_toList_iff_mem_names (hc : c ≠ '/') (hdot : c ≠ '.') :
    c ∈ p.text.toList ↔ ∃ n ∈ p.names, c ∈ n.toList := by
  rw [mem_iff_mem_splitOn hc]
  constructor
  · rintro ⟨w, hw, hcw⟩
    refine ⟨String.ofList w, ?_, by simpa using hcw⟩
    refine List.mem_filter.2 ⟨List.mem_map_of_mem hw, ?_⟩
    rw [Bool.not_eq_true', Bool.eq_false_iff]
    intro hi
    have hmem : c ∈ (String.ofList w).toList := by simpa using hcw
    simp only [isIdle, Bool.or_eq_true, beq_iff_eq] at hi
    rcases hi with hi | hi <;> simp [hi, hdot] at hmem
  · rintro ⟨n, hn, hcn⟩
    obtain ⟨w, hw, rfl⟩ := List.mem_map.1 (List.mem_filter.1 hn).1
    exact ⟨w, hw, by simpa using hcn⟩

end Join

end Path

namespace FileTree

variable {t : FileTree} {directory l k : Location} {name : String} {outer : List String} {a : Path}

open CliCompletion.Path (isIdle)

def HoldsConfig (t : FileTree) (names : List String) : Prop :=
  (∀ n ∈ names, '\x00' ∉ n.toList) ∧ ∃ l bytes, t.walk [] names = .ok l ∧
    t.isDirectory l = true ∧ t.find? (Config.fileName.text :: l) = some (.file bytes)

theorem walk_append_eq_ok_iff : t.walk l (outer ++ [name]) = .ok k ↔
    ∃ m, t.walk l outer = .ok m ∧ t.step m name = .ok k := by
  cases h : t.walk l outer with
  | ok m => simp [walk_append_singleton h]
  | error e =>
      rw [walk, List.foldlM_append]
      change t.walk l outer >>= _ = _ ↔ _
      rw [h]
      simp [bind, Except.bind]

theorem walk_of_not_isDirectory (h : t.isDirectory l = false) (name : String)
    (outer : List String) : t.walk l (name :: outer) = .error .notDirectory := by
  rw [walk, List.foldlM_cons, step, h]
  rfl

theorem step_idle (h : t.isDirectory l = true) (hn : isIdle name = true) :
    t.step l name = .ok l := by
  rw [isIdle] at hn
  simp only [step, h, hn]
  rfl

theorem walk_cons (name : String) (outer : List String) (l : Location) :
    t.walk l (name :: outer) = t.step l name >>= fun m => t.walk m outer :=
  List.foldlM_cons

theorem walk_filter (outer : List String) (name : String) (l : Location) :
    t.walk l (outer.filter (!isIdle ·) ++ [name]) = t.walk l (outer ++ [name]) := by
  induction outer generalizing l with
  | nil => rfl
  | cons n outer ih =>
      rw [List.cons_append, walk_cons]
      cases hn : isIdle n with
      | false =>
          rw [List.filter_cons_of_pos (by simp [hn]), List.cons_append, walk_cons]
          exact congrArg _ (funext ih)
      | true =>
          rw [List.filter_cons_of_neg (by simp [hn])]
          cases hl : t.isDirectory l with
          | true =>
              rw [step_idle hl hn, ih]
              rfl
          | false =>
              -- Either way the walk ends here, since there is a next name to look up.
              obtain ⟨next, later, hrest⟩ := List.exists_cons_of_ne_nil
                (List.append_ne_nil_of_right_ne_nil (outer.filter (!isIdle ·))
                  (List.cons_ne_nil name []))
              rw [hrest, walk_of_not_isDirectory hl, step, hl]
              rfl

theorem components_join_config (ha : a.isAbsolute = true) :
    ∃ outer, (a.join Config.fileName).components = outer ++ [Config.fileName.text] ∧
      outer.filter (!isIdle ·) = a.names := by
  obtain ⟨-, s, hs, hnames⟩ := Path.toList_join (q := Config.fileName) ha rfl
  refine ⟨(s.splitOn '/').map String.ofList, ?_, by rw [← hnames, Path.namesOf_eq]⟩
  rw [Path.components, hs, List.splitOn_append_cons_self, List.map_append]
  rfl

theorem checkName_join_config (ha : a.isAbsolute = true) :
    checkName (a.join Config.fileName) = .ok () ↔ ∀ n ∈ a.names, '\x00' ∉ n.toList := by
  obtain ⟨-, s, hs, -⟩ := Path.toList_join (q := Config.fileName) ha rfl
  have hne : (a.join Config.fileName).text.isEmpty = false := by
    rw [Bool.eq_false_iff]
    intro he
    rw [String.isEmpty_iff.1 he] at hs
    cases s <;> cases hs
  have hnul := Path.mem_toList_iff_mem_names (p := a.join Config.fileName) (c := '\x00')
    (by decide) (by decide)
  rw [Path.names_join ha rfl] at hnul
  have hfile : ∀ n ∈ Config.fileName.names, '\x00' ∉ n.toList := by decide
  have hiff : '\x00' ∈ (a.join Config.fileName).text.toList ↔ ∃ n ∈ a.names, '\x00' ∈ n.toList := by
    rw [hnul]
    constructor
    · rintro ⟨n, hn, hc⟩
      exact ⟨n, (List.mem_append.1 hn).resolve_right fun hm => hfile n hm hc, hc⟩
    · rintro ⟨n, hn, hc⟩
      exact ⟨n, List.mem_append_left _ hn, hc⟩
  rw [checkName, hne]
  simp only [List.contains_iff_mem, hiff, Bool.false_eq_true, if_false]
  split_ifs with h
  · simpa using h
  · simpa using h

theorem step_config_eq_ok_iff : t.step l Config.fileName.text = .ok k ↔
    t.isDirectory l = true ∧ (t.find? (Config.fileName.text :: l)).isSome = true ∧
      k = Config.fileName.text :: l := by
  have hsize : ¬ maxNameSize < Config.fileName.text.utf8ByteSize := by decide
  have hidle : (Config.fileName.text == "" || Config.fileName.text == ".") = false := by decide
  have hdots : (Config.fileName.text == "..") = false := by decide
  rw [step, hidle, hdots, if_neg hsize]
  cases t.isDirectory l with
  | false => simp
  | true =>
      cases (t.find? (Config.fileName.text :: l)).isSome with
      | false => simp
      | true => simp [eq_comm]

theorem resolve_join_config_eq_ok_iff (ha : a.isAbsolute = true) :
    t.resolve directory (a.join Config.fileName) = .ok k ↔
      (∀ n ∈ a.names, '\x00' ∉ n.toList) ∧ ∃ l, t.walk [] a.names = .ok l ∧
        t.isDirectory l = true ∧ (t.find? (Config.fileName.text :: l)).isSome = true ∧
        k = Config.fileName.text :: l := by
  obtain ⟨outer, hcomponents, houter⟩ := components_join_config ha
  have hstart : start directory (a.join Config.fileName) = [] := by
    rw [start, (Path.toList_join ha rfl).1]
    rfl
  have hwalk : t.walk [] (a.join Config.fileName).components = .ok k ↔ ∃ l,
      t.walk [] a.names = .ok l ∧ t.isDirectory l = true ∧
        (t.find? (Config.fileName.text :: l)).isSome = true ∧ k = Config.fileName.text :: l := by
    rw [hcomponents, ← walk_filter, houter, walk_append_eq_ok_iff]
    simp only [step_config_eq_ok_iff]
  rw [resolve, hstart, ← checkName_join_config ha, ← hwalk]
  cases checkName (a.join Config.fileName) with
  | ok u => simp [bind, Except.bind]
  | error e => simp [bind, Except.bind]

theorem isFile_join_config_iff (ha : a.isAbsolute = true) :
    t.isFile directory (a.join Config.fileName) = true ↔ t.HoldsConfig a.names := by
  constructor
  · intro h
    rw [isFile] at h
    cases hr : t.resolve directory (a.join Config.fileName) with
    | error e =>
        rw [hr] at h
        cases h
    | ok k =>
        rw [hr] at h
        obtain ⟨hnul, l, hwalk, hl, hsome, rfl⟩ := (resolve_join_config_eq_ok_iff ha).1 hr
        obtain ⟨e, he⟩ := Option.isSome_iff_exists.1 hsome
        cases e with
        | directory => simp [isDirectory, he, Entry.isDirectory] at h
        | file bytes => exact ⟨hnul, l, bytes, hwalk, hl, he⟩
  · rintro ⟨hnul, l, bytes, hwalk, hl, hfile⟩
    have hr : t.resolve directory (a.join Config.fileName) = .ok (Config.fileName.text :: l) :=
      (resolve_join_config_eq_ok_iff ha).2 ⟨hnul, l, hwalk, hl, by rw [hfile]; rfl, rfl⟩
    rw [isFile, hr]
    simp [isDirectory, hfile, Entry.isDirectory]

end FileTree

namespace Location

open CliCompletion.Path (EndsIn dropIdle)

variable {l : Location} {n : String}

def Plain (l : Location) : Prop :=
  ∀ n ∈ l, n ≠ "" ∧ n ≠ "." ∧ '/' ∉ n.toList

def body (l : Location) : List Char :=
  ("/".intercalate l.reverse).toList

theorem toList_path (l : Location) : l.path.text.toList = '/' :: l.body :=
  String.toList_append

theorem isAbsolute_path (l : Location) : l.path.isAbsolute = true :=
  Path.isAbsolute_of_toList (toList_path l)

theorem body_singleton (n : String) : body [n] = n.toList := by
  rw [body, List.reverse_singleton, String.intercalate_singleton]

theorem body_cons (n : String) (h : l ≠ []) : body (n :: l) = l.body ++ '/' :: n.toList := by
  rw [body, List.reverse_cons, String.intercalate_append_of_ne_nil (by simpa using h) (by simp),
    String.intercalate_singleton]
  simp [body]

theorem endsIn (h : Plain (n :: l)) : ∃ rest, (body (n :: l)).reverse = n.toList.reverse ++ rest ∧
    EndsIn n.toList.reverse rest ∧ dropIdle rest = dropIdle l.body.reverse := by
  obtain ⟨hempty, hdot, hslash⟩ := h n List.mem_cons_self
  have hnonempty : n.toList.reverse ≠ [] := by simpa using hempty
  have hnamed : n.toList.reverse ≠ ['.'] := fun he => by
    have hn := congrArg (String.ofList ∘ List.reverse) he
    simp only [Function.comp_apply, List.reverse_reverse, String.ofList_toList] at hn
    exact hdot hn
  cases l with
  | nil =>
      exact ⟨[], by rw [body_singleton, List.append_nil], ⟨hnonempty, by simpa using hslash, hnamed,
        by simp⟩, rfl⟩
  | cons m l =>
      refine ⟨'/' :: (body (m :: l)).reverse, by simp [body_cons], ?_, rfl⟩
      exact ⟨hnonempty, by simpa using hslash, hnamed, by simp⟩

theorem dropIdle_body (h : Plain l) : dropIdle l.body.reverse = l.body.reverse := by
  cases l with
  | nil => rfl
  | cons n l =>
      obtain ⟨rest, hbody, hends, -⟩ := endsIn h
      rw [hbody, hends.dropIdle_eq]

theorem Plain.tail (h : Plain (n :: l)) : Plain l :=
  fun m hm => h m (List.mem_cons_of_mem n hm)

theorem parent_path_cons (h : Plain (n :: l)) : (path (n :: l)).parent = some l.path := by
  obtain ⟨rest, hbody, hends, hrest⟩ := endsIn h
  rw [Path.parent_eq (toList_path _), dropIdle_body h]
  split
  · next hnil =>
      rw [hbody] at hnil
      exact absurd (List.append_eq_nil_iff.1 hnil).1 hends.nonempty
  · next c s hcs =>
      rw [← hcs, hbody, hends.dropLast_eq, hrest, dropIdle_body h.tail, List.reverse_reverse,
        ← toList_path, String.ofList_toList]

theorem names_path (h : Plain l) : l.path.names = l.reverse := by
  induction l with
  | nil => rfl
  | cons n l ih =>
      obtain ⟨rest, hbody, hends, hrest⟩ := endsIn h
      rw [Path.names_of_body (toList_path _), dropIdle_body h, hbody, hends.namesOf_reverse,
        hends.dropLast_eq, hrest, ← Path.names_of_body (toList_path l), ih h.tail,
        List.reverse_reverse, String.ofList_toList, List.reverse_cons]

end Location

end CliCompletion
