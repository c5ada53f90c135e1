import CliCompletion.Files.Tree
import Mathlib.Tactic.SplitIfs

namespace CliCompletion

namespace FileTree

variable {t t' : FileTree} {directory k l l' : Location} {bytes : ByteArray} {name text : String}
  {names : List String} {p : Path}

structure Rewritten (t t' : FileTree) (directory : Location) (p : Path) (text : String)
    (k : Location) : Prop where
  resolved : t'.resolve directory p = .ok k
  content : t'.find? k = some (.file text.toUTF8)
  others : ∀ l, l ≠ k → t'.find? l = t.find? l
  read : t'.read directory p = .ok text

theorem isDirectory_put_of_ne (h : l ≠ k) (e : Entry) :
    (t.put k e).isDirectory l = t.isDirectory l := by
  rw [isDirectory, isDirectory, t.find?_put_of_ne h]

theorem isSome_find?_put (h : (t.find? l).isSome) (e : Entry) :
    ((t.put k e).find? l).isSome := by
  by_cases hl : l = k
  · subst hl
    cases l with
    | nil => rfl
    | cons n l => rw [t.find?_put_self (by simp)]; rfl
  · rwa [t.find?_put_of_ne hl]

theorem step_put (hk : t.isDirectory k = false) (h : t.step l name = .ok l') :
    (t.put k (.file bytes)).step l name = .ok l' := by
  cases hl : t.isDirectory l with
  | false => simp [step, hl] at h
  | true =>
      have hne : l ≠ k := by
        rintro rfl
        rw [hl] at hk
        cases hk
      have hsome : (t.find? (name :: l)).isSome →
          ((t.put k (.file bytes)).find? (name :: l)).isSome := fun hs => isSome_find?_put hs _
      simp only [step, isDirectory_put_of_ne hne] at h ⊢
      cases hs : (t.find? (name :: l)).isSome with
      | true =>
          rw [hs] at h
          rw [hsome hs]
          exact h
      | false =>
          simp only [hs, Bool.false_eq_true, if_false] at h
          split_ifs at h ⊢ <;> exact h

theorem walk_put (hk : t.isDirectory k = false) (h : t.walk l names = .ok l') :
    (t.put k (.file bytes)).walk l names = .ok l' := by
  induction names generalizing l with
  | nil => exact h
  | cons n names ih =>
      rw [walk, List.foldlM_cons] at h ⊢
      cases hs : t.step l n with
      | error e =>
          rw [hs] at h
          cases h
      | ok m =>
          rw [hs] at h
          rw [step_put hk hs]
          exact ih h

theorem walk_append_singleton (h : t.walk l names = .ok l') :
    t.walk l (names ++ [name]) = t.step l' name := by
  rw [walk, List.foldlM_append]
  change t.walk l names >>= _ = _
  rw [h]
  exact bind_pure (t.step l' name)

theorem getLast?_of_splitOn {s : List Char} (h : (s.splitOn '/').getLast? = some []) :
    s = [] ∨ s.getLast? = some '/' := by
  induction s with
  | nil => exact .inl rfl
  | cons c s ih =>
      refine .inr ?_
      have hcons : (c :: s).splitOn '/' = if c == '/' then [] :: s.splitOn '/'
          else (s.splitOn '/').modifyHead (c :: ·) := List.splitOnP_cons_eq_if_modifyHead c s
      rw [hcons] at h
      obtain ⟨part, parts, hparts⟩ := List.exists_cons_of_ne_nil (List.splitOn_ne_nil '/' s)
      rw [hparts] at h ih
      have hlast : s ≠ [] → (c :: s).getLast? = s.getLast? := fun hs => by
        obtain ⟨d, r, rfl⟩ := List.exists_cons_of_ne_nil hs
        exact List.getLast?_cons_cons
      split_ifs at h with hc
      · rw [List.getLast?_cons_cons] at h
        rcases ih h with rfl | hs
        · rw [beq_iff_eq.1 hc]
          rfl
        · rw [hlast (by rintro rfl; cases hs), hs]
      · cases parts with
        | nil => cases h
        | cons q qs =>
            rw [List.modifyHead_cons, List.getLast?_cons_cons] at h
            rw [List.getLast?_cons_cons] at ih
            rcases ih h with rfl | hs
            · cases hparts
            · rw [hlast (by rintro rfl; cases hs), hs]

theorem components_of_dropWhile {outer : List String} (hp : p.text.toList.getLast? ≠ some '/')
    (hne : p.text.isEmpty = false)
    (h : p.components.reverse.dropWhile (·.isEmpty) = name :: outer) :
    p.components = outer.reverse ++ [name] := by
  cases hc : p.components.reverse with
  | nil =>
      rw [hc] at h
      cases h
  | cons last rest =>
      have hlast : last.isEmpty = false := by
        rw [Bool.eq_false_iff]
        intro hl
        have hmap := congrArg List.head? hc
        rw [List.head?_reverse, List.head?_cons, Path.components, List.getLast?_map,
          Option.map_eq_some_iff] at hmap
        obtain ⟨part, hpart, rfl⟩ := hmap
        have hnil : part = [] := by simpa using hl
        rw [hnil] at hpart
        rcases getLast?_of_splitOn hpart with he | he
        · simp_all
        · exact hp he
      rw [hc, List.dropWhile_cons_of_neg (by simp [hlast])] at h
      cases h
      rw [← List.reverse_reverse p.components, hc, List.reverse_cons]

theorem placeFor_ok (h : t.placeFor directory p = .ok k) :
    ∃ outer name l, checkName p = .ok () ∧ p.components = outer ++ [name] ∧
      t.walk (start directory p) outer = .ok l ∧ k = name :: l ∧ t.isDirectory l = true ∧
      t.isDirectory k = false ∧ name ≠ "" ∧ name ≠ "." ∧ name ≠ ".." ∧
      name.utf8ByteSize ≤ maxNameSize := by
  rw [placeFor] at h
  cases hname : checkName p with
  | error e =>
      rw [hname] at h
      cases h
  | ok u =>
      have hne : p.text.isEmpty = false := by
        rw [checkName] at hname
        split_ifs at hname with h₁ h₂
        simpa using h₂
      rw [hname] at h
      simp only [bind, Except.bind] at h
      split at h
      · cases h
      · next name outer hparts =>
          cases hwalk : t.walk (start directory p) outer.reverse with
          | error e =>
              rw [hwalk] at h
              cases h
          | ok l =>
              rw [hwalk] at h
              dsimp only at h
              split_ifs at h with h₁ h₂ h₃ h₄
              cases h
              simp only [Bool.or_eq_true, beq_iff_eq, not_or] at h₂
              obtain ⟨⟨hslash, hdot⟩, hdots⟩ := h₂
              have hcomponents := components_of_dropWhile hslash hne hparts
              have hempty : name ≠ "" := by
                have hhead := List.head?_dropWhile_not (·.isEmpty) p.components.reverse
                rw [hparts] at hhead
                rintro rfl
                cases hhead
              exact ⟨outer.reverse, name, l, rfl, hcomponents, hwalk, rfl, by simpa using h₁,
                by simpa using h₄, hempty, hdot, hdots, Nat.not_lt.1 h₃⟩

theorem resolve_put (h : t.placeFor directory p = .ok k) :
    (t.put k (.file bytes)).resolve directory p = .ok k := by
  obtain ⟨outer, name, l, hname, hparts, hwalk, rfl, hl, hk, hempty, hdot, hdots, hsize⟩ :=
    placeFor_ok h
  have hne : l ≠ name :: l := by simp
  have hstep : (t.put (name :: l) (.file bytes)).step l name = .ok (name :: l) := by
    simp [step, isDirectory_put_of_ne hne, hl, hempty, hdot, hdots, Nat.not_lt.2 hsize,
      find?_put_self]
  rw [resolve, hname]
  change walk _ _ _ = _
  rw [hparts, walk_append_singleton (walk_put hk hwalk), hstep]

theorem fromUTF8?_toUTF8 (s : String) : String.fromUTF8? s.toUTF8 = some s :=
  dif_pos s.isValidUTF8

theorem read_eq (hk : t.resolve directory p = .ok k)
    (hf : t.find? k = some (.file text.toUTF8)) : t.read directory p = .ok text := by
  have hbytes : t.readBytes directory p = .ok text.toUTF8 := by
    simp only [readBytes, hk, bind, Except.bind, hf]
    rfl
  rw [FileTree.read, hbytes]
  change textOf text.toUTF8 = _
  rw [textOf, fromUTF8?_toUTF8]

theorem rewritten_of_write (h : t.write directory p text = .ok t') :
    ∃ k, t.Rewritten t' directory p text k := by
  cases hk : t.placeFor directory p with
  | error e =>
      rw [write, hk] at h
      cases h
  | ok k =>
      rw [write, hk] at h
      cases h
      have hresolved : (t.put k (.file text.toUTF8)).resolve directory p = .ok k := resolve_put hk
      obtain ⟨outer, name, l, -, -, -, rfl, -⟩ := placeFor_ok hk
      have hcontent := find?_put_self t (List.cons_ne_nil name l) (.file text.toUTF8)
      exact ⟨_, hresolved, hcontent, fun l hl => find?_put_of_ne t hl _,
        read_eq hresolved hcontent⟩

end FileTree

end CliCompletion
