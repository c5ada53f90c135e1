import CliCompletion.Directive.Format
import CliCompletion.Files.Path
import CliCompletion.Toml.Document

namespace CliCompletion

structure Config where
  toolName : Option String
  sources : Option (List Path)
  output : Option Path
  format : Option OutputFormat
  quiet : Option Bool
  marker : Option String
  ignored : Option (List String)
  deriving DecidableEq, Repr

namespace Config

open Toml (Value)

def empty : Config :=
  ⟨none, none, none, none, none, none, none⟩

def text? : Value → Option String
  | .text s => some s
  | _ => none

def texts? : Value → Option (List String)
  | .array items => items.mapM text?
  | _ => none

def isVoid : Value → Bool
  | .array items => items.isEmpty
  | .table _ fields => fields.isEmpty
  | _ => false

def format? : Value → Option OutputFormat
  | .text s => OutputFormat.ofName s
  | .table _ [(k, v)] => if isVoid v then OutputFormat.ofName k else none
  | _ => none

def addExtraction (c : Config) (field : String × Value) : Option Config :=
  match field.1 with
  | "marker" => (text? field.2).map fun s => { c with marker := some s }
  | "ignore_keywords" => (texts? field.2).map fun ks => { c with ignored := some ks }
  | _ => none

def addExtract (c : Config) : Value → Option Config
  | .table _ fields => fields.foldlM addExtraction c
  | .array (marker :: keywords :: _) =>
      [("marker", marker), ("ignore_keywords", keywords)].foldlM addExtraction c
  | _ => none

def add (c : Config) (field : String × Value) : Option Config :=
  match field.1, field.2 with
  | "cliname", v => (text? v).map fun s => { c with toolName := some s }
  | "sources", v => (texts? v).map fun ps => { c with sources := some (ps.map Path.mk) }
  | "output", v => (text? v).map fun s => { c with output := some ⟨s⟩ }
  | "format", v => (format? v).map fun f => { c with format := some f }
  | "quiet", .bool b => some { c with quiet := some b }
  | "extract", v => c.addExtract v
  | _, _ => none

def ofText (s : String) : Option Config :=
  match Value.ofText s.toList with
  | some (.table _ fields) => fields.foldlM add empty
  | _ => none

end Config

end CliCompletion
