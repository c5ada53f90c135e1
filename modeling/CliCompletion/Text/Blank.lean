namespace CliCompletion.Text

def isBlank (c : Char) : Bool :=
  let n := c.toNat
  (0x09 ≤ n && n ≤ 0x0d) || n == 0x20 || n == 0x85 || n == 0xa0 || n == 0x1680 ||
    (0x2000 ≤ n && n ≤ 0x200a) || n == 0x2028 || n == 0x2029 || n == 0x202f || n == 0x205f ||
    n == 0x3000

def trimStart (s : List Char) : List Char :=
  s.dropWhile isBlank

def trimEnd (s : List Char) : List Char :=
  (s.reverse.dropWhile isBlank).reverse

def trim (s : List Char) : List Char :=
  trimEnd (trimStart s)

def words : List Char → List (List Char)
  | [] => []
  | c :: s =>
      if isBlank c then words s
      else match s with
        | [] => [[c]]
        | d :: _ =>
            if isBlank d then [c] :: words s
            else match words s with
              | [] => [[c]]
              | w :: ws => (c :: w) :: ws

def splitAtFirst (sep : Char) : List Char → Option (List Char × List Char)
  | [] => none
  | c :: s => if c = sep then some ([], s) else (splitAtFirst sep s).map fun p => (c :: p.1, p.2)

def firstLine (s : List Char) : List Char :=
  s.takeWhile (· != '\n')

end CliCompletion.Text
