namespace CliCompletion.Toml

inductive Origin where
  | implied
  | dotted
  | header
  | inline
  deriving DecidableEq, Repr

inductive Value where
  | text (s : String)
  | bool (b : Bool)
  | plain (written : String)
  | array (items : List Value)
  | tables (items : List Value)
  | table (origin : Origin) (fields : List (String × Value))
  deriving Repr, Inhabited

abbrev Fields := List (String × Value)

namespace Fields

def put (k : String) (v : Value) : Fields → Fields
  | [] => [(k, v)]
  | (j, w) :: fs => if j = k then (k, v) :: fs else (j, w) :: put k v fs

def add? (k : String) (v : Value) (fs : Fields) : Option Fields :=
  if (fs.lookup k).isSome then none else some (put k v fs)

end Fields

namespace Value

-- Changes the table at the end of a path. Tables missing on the way are made; a repeated header
-- stands for its last table. No path enters a table in braces, and a dotted key no table that has a
-- header.
def within (dotted : Bool) (change : Origin → Fields → Option Value) :
    List String → Origin → Fields → Option Value
  | [], o, fs => change o fs
  | k :: ks, o, fs => do
      let inner ← match fs.lookup k with
        | none => within dotted change ks (if dotted then .dotted else .implied) []
        | some (.table p gs) =>
            if p = .inline || (dotted && p = .header) then none
            else within dotted change ks p gs
        | some (.tables items) =>
            match items.getLast? with
            | some (.table p gs) =>
                (within dotted change ks p gs).map fun t => .tables (items.dropLast ++ [t])
            | _ => none
        | some _ => none
      return .table o (fs.put k inner)

def assign (path : List String) (k : String) (v : Value) : Origin → Fields → Option Value :=
  within true (fun o fs =>
    if (o == .dotted) == path.isEmpty then none else (fs.add? k v).map (.table o)) path

def openTable (path : List String) (k : String) : Origin → Fields → Option Value :=
  within false (fun o fs =>
    match fs.lookup k with
    | none => some (.table o (fs.put k (.table .header [])))
    | some (.table .implied gs) => some (.table o (fs.put k (.table .header gs)))
    | some _ => none) path

def openAnother (path : List String) (k : String) : Origin → Fields → Option Value :=
  within false (fun o fs =>
    match fs.lookup k with
    | none => some (.table o (fs.put k (.tables [.table .header []])))
    | some (.tables items) => some (.table o (fs.put k (.tables (items ++ [.table .header []]))))
    | some _ => none) path

def assignUnder (header path : List String) (k : String) (v : Value) :
    Origin → Fields → Option Value :=
  within false (assign path k v) header

end Value

end CliCompletion.Toml
