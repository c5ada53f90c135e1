import CliCompletion.Text.Numbered

namespace CliCompletion.Quoted

open Text (octalDigit hex scalar)

def isQuote (c : Char) : Bool :=
  c == '"' || c == '\''

def isMark (c : Char) : Bool :=
  "rRbBuUfF".toList.contains c

structure Style where
  raw : Bool
  bytes : Bool
  formatted : Bool
  deriving DecidableEq, Repr

def Style.ofMarks (marks : List Char) : Style where
  raw := marks.any fun c => c == 'r' || c == 'R'
  bytes := marks.any fun c => c == 'b' || c == 'B'
  formatted := marks.any fun c => c == 'f' || c == 'F'

def delimiter : List Char → Option (List Char)
  | c :: s =>
      if !isQuote c then none
      else match s with
        | d :: e :: _ => if d = c ∧ e = c then some [c, c, c] else some [c]
        | _ => some [c]
  | [] => none

def between (s : List Char) : Option (List Char) := do
  let quote ← delimiter s
  let size := quote.length
  if s.length < 2 * size || !quote.isSuffixOf s then none
  else some ((s.drop size).take (s.length - 2 * size))

def coded (bytes : Bool) (n : Nat) : Option Char :=
  if bytes && 0x7f < n then none else scalar n

def octal : Nat → Nat → List Char → Nat × List Char
  | 0, n, s => (n, s)
  | _ + 1, n, [] => (n, [])
  | count + 1, n, c :: s =>
      match octalDigit c with
      | some d => octal count (8 * n + d) s
      | none => (n, c :: s)

def simple : Char → Option Char
  | '\\' => some '\\'
  | '\'' => some '\''
  | '"' => some '"'
  | 'a' => some '\x07'
  | 'b' => some '\x08'
  | 'f' => some '\x0c'
  | 'n' => some '\n'
  | 'r' => some '\r'
  | 't' => some '\t'
  | 'v' => some '\x0b'
  | _ => none

def hexEscape (count : Nat) (bytes : Bool) (s : List Char) : Option (List Char × List Char) := do
  let (n, s) ← hex count 0 s
  let c ← coded bytes n
  return ([c], s)

def escape (bytes : Bool) : List Char → Option (List Char × List Char)
  | [] => some (['\\'], [])
  | c :: s =>
      if c = '\n' then some ([], s)
      else match simple c with
        | some d => some ([d], s)
        | none =>
            match octalDigit c with
            | some d =>
                let (n, s) := octal 2 d s
                (coded bytes n).map fun c => ([c], s)
            | none =>
                if c = 'x' then hexEscape 2 bytes s
                else if c = 'u' && !bytes then hexEscape 4 false s
                else if c = 'U' && !bytes then hexEscape 8 false s
                else if c = 'N' && !bytes then none
                else some (['\\', c], s)

theorem length_octal (count n : Nat) (s : List Char) : (octal count n s).2.length ≤ s.length := by
  induction count generalizing n s with
  | zero => simp [octal]
  | succ count ih =>
      cases s with
      | nil => simp [octal]
      | cons c s =>
          simp only [octal]
          split
          · exact Nat.le_succ_of_le (ih _ _)
          · simp

theorem length_hex {count n : Nat} {s : List Char} {r : Nat × List Char}
    (h : hex count n s = some r) : r.2.length ≤ s.length := by
  induction count generalizing n s with
  | zero => simp only [hex, Option.some.injEq] at h; simp [← h]
  | succ count ih =>
      cases s with
      | nil => simp [hex] at h
      | cons c s =>
          simp only [hex, Option.bind_eq_some_iff] at h
          obtain ⟨d, -, h⟩ := h
          exact Nat.le_succ_of_le (ih h)

theorem length_hexEscape {count : Nat} {bytes : Bool} {s : List Char} {r : List Char × List Char}
    (h : hexEscape count bytes s = some r) : r.2.length ≤ s.length := by
  simp only [hexEscape, bind, pure, Option.bind_eq_some_iff, Option.some.injEq] at h
  obtain ⟨⟨n, t⟩, hn, c, -, rfl⟩ := h
  exact length_hex hn

theorem length_escape {bytes : Bool} {s : List Char} {r : List Char × List Char}
    (h : escape bytes s = some r) : r.2.length ≤ s.length := by
  cases s with
  | nil => simp only [escape, Option.some.injEq] at h; simp [← h]
  | cons c s =>
      simp only [escape] at h
      split at h
      · simp only [Option.some.injEq] at h; simp [← h]
      · split at h
        · simp only [Option.some.injEq] at h; simp [← h]
        · split at h
          · rename_i d _
            simp only [Option.map_eq_some_iff] at h
            obtain ⟨c, -, rfl⟩ := h
            exact Nat.le_succ_of_le (length_octal 2 d s)
          · repeat' split at h
            all_goals first
              | exact Nat.le_succ_of_le (length_hexEscape h)
              | (simp only [Option.some.injEq] at h; simp [← h])
              | simp at h

def unescape (bytes : Bool) (s : List Char) : Option (List Char) :=
  match s with
  | [] => some []
  | c :: s =>
      if c = '\\' then
        match _h : escape bytes s with
        | none => none
        | some (piece, rest) => (unescape bytes rest).map (piece ++ ·)
      else (unescape bytes s).map (c :: ·)
termination_by s.length
decreasing_by
  · exact Nat.lt_succ_of_le (length_escape _h)
  · exact Nat.lt_succ_self _

def single (brace : Char) : List Char → List Char
  | c :: d :: s =>
      if c = brace ∧ d = brace then brace :: single brace s else c :: single brace (d :: s)
  | s => s

def singleBraces (s : List Char) : List Char :=
  single '}' (single '{' s)

def decodeBody (style : Style) (body : List Char) : Option (List Char) :=
  (if style.raw then some body else unescape style.bytes body).map fun s =>
    if style.formatted then singleBraces s else s

def decode (s : List Char) : Option (List Char) := do
  let marks := s.takeWhile fun c => !isQuote c
  if !marks.all isMark then none
  else
    let body ← between (s.dropWhile fun c => !isQuote c)
    decodeBody (.ofMarks marks) body

end CliCompletion.Quoted
