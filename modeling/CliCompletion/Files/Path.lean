namespace CliCompletion

structure Path where
  text : String
  deriving DecidableEq, Repr

namespace Path

def isAbsolute (p : Path) : Bool :=
  p.text.toList.head? == some '/'

def components (p : Path) : List String :=
  (p.text.toList.splitOn '/').map String.ofList

def join (p q : Path) : Path :=
  if q.isAbsolute then q
  else if p.text.isEmpty || p.text.toList.getLast? == some '/' then ⟨p.text ++ q.text⟩
  else ⟨p.text ++ "/" ++ q.text⟩

def anchor : List Char → List Char × List Char
  | '/' :: s => (['/'], s)
  | ['.'] => (['.'], [])
  | '.' :: '/' :: s => (['.'], '/' :: s)
  | s => ([], s)

def dropIdle : List Char → List Char
  | '/' :: s => dropIdle s
  | ['.'] => []
  | '.' :: '/' :: s => dropIdle s
  | s => s

def dropLast (s : List Char) : List Char :=
  dropIdle (s.dropWhile (· != '/'))

def parent (p : Path) : Option Path :=
  let (start, body) := anchor p.text.toList
  match dropIdle body.reverse with
  | [] => if start == ['.'] then some ⟨""⟩ else none
  | c :: s => some ⟨String.ofList (start ++ (dropLast (c :: s)).reverse)⟩

theorem anchor_append (s : List Char) : (anchor s).1 ++ (anchor s).2 = s := by
  unfold anchor
  split <;> rfl

theorem length_dropIdle_le (s : List Char) : (dropIdle s).length ≤ s.length := by
  fun_induction dropIdle s with
  | case1 s ih => exact Nat.le_succ_of_le ih
  | case2 => exact Nat.zero_le _
  | case3 s ih => exact Nat.le_succ_of_le (Nat.le_succ_of_le ih)
  | case4 => exact Nat.le_refl _

theorem dropIdle_head_ne (s : List Char) : (dropIdle s).head? ≠ some '/' := by
  fun_induction dropIdle s with
  | case1 s ih => exact ih
  | case2 => simp
  | case3 s ih => exact ih
  | case4 s h _ _ =>
      cases s with
      | nil => simp
      | cons c s => intro hc; simp at hc; exact h s (by rw [hc])

theorem length_dropLast_lt {c : Char} {s : List Char} (h : c ≠ '/') :
    (dropLast (c :: s)).length < (c :: s).length := by
  refine Nat.lt_of_le_of_lt (length_dropIdle_le _) ?_
  rw [List.dropWhile_cons_of_pos (by simp [h])]
  exact Nat.lt_succ_of_le (List.dropWhile_suffix _).length_le

theorem length_parent_lt {p q : Path} (h : p.parent = some q) :
    q.text.length < p.text.length := by
  have hsum := congrArg List.length (anchor_append p.text.toList)
  unfold parent at h
  simp only at h
  generalize hstart : (anchor p.text.toList).1 = start at h hsum
  generalize hbody : (anchor p.text.toList).2 = body at h hsum
  have hidle := length_dropIdle_le body.reverse
  have hhead := dropIdle_head_ne body.reverse
  rw [List.length_append, String.length_toList] at hsum
  rw [List.length_reverse] at hidle
  split at h
  · split at h
    · next hdot =>
        rw [beq_iff_eq] at hdot
        cases h
        simp only [String.length_empty, hdot, List.length_cons, List.length_nil] at hsum ⊢
        omega
    · cases h
  · next c s hcs =>
      cases h
      rw [hcs] at hidle hhead
      have hlt := length_dropLast_lt (s := s) (c := c) (by simpa using hhead)
      simp only [String.length_ofList, List.length_append, List.length_reverse]
      omega

def ancestors (p : Path) : List Path :=
  match h : p.parent with
  | none => [p]
  | some q =>
      have := length_parent_lt h
      p :: q.ancestors
termination_by p.text.length

end Path

end CliCompletion
