import CliCompletion.Directive.Format
import CliCompletion.Proofs.JsonReading
import CliCompletion.Proofs.Translation

namespace CliCompletion

namespace Json

mutual

def value : Json → Value
  | text s => .text s
  | array items => .array (values items)
  | object fields => .object (fieldValues fields)

def values : List Json → List Value
  | [] => []
  | j :: js => j.value :: values js

def fieldValues : List (String × Json) → List (String × Value)
  | [] => []
  | (k, j) :: fs => (k, j.value) :: fieldValues fs

end

theorem values_eq_map (js : List Json) : values js = js.map value := by
  induction js with
  | nil => rfl
  | cons j js ih => rw [values, ih, List.map_cons]

section Printing

theorem hex_escape : ∀ n < 0x20,
    Text.hex 4 0 ['0', '0', hexDigit (n / 16), hexDigit (n % 16)] = some (n, []) := by
  decide

theorem glyph_escape (c : Char) : Glyph c (escape c) := by
  unfold escape
  split_ifs with hq hb h8 hc hn hr ht hlow
  · exact .short (by rw [hq]; rfl)
  · exact .short (by rw [hb]; rfl)
  · exact .short (by rw [h8]; rfl)
  · exact .short (by rw [hc]; rfl)
  · exact .short (by rw [hn]; rfl)
  · exact .short (by rw [hr]; rfl)
  · exact .short (by rw [ht]; rfl)
  · exact .unit (hex_escape _ hlow)
  · exact .plain (Nat.not_lt.1 hlow) hq hb

theorem written_escape (cs : List Char) : Written cs (cs.flatMap escape) := by
  induction cs with
  | nil => exact .nil
  | cons c cs ih => exact .cons (glyph_escape c) ih

theorem spellsText_quote (s : String) : SpellsText s (quote s).toList := by
  refine ⟨s.toList.flatMap escape, ?_, written_escape _⟩
  rw [quote, String.toList_ofList, List.cons_append]

theorem gap_newLine (level : Nat) : Gap (newLine level).toList := by
  intro c hc
  rw [newLine, String.toList_append, List.mem_append] at hc
  rcases hc with hc | hc
  · rw [List.mem_singleton.1 hc]
    rfl
  · rw [String.toList_ofList] at hc
    rw [List.eq_of_mem_replicate hc]
    rfl

theorem gap_nil : Gap [] :=
  fun _ h => nomatch h

theorem gap_blank : Gap [' '] := by
  simp [Gap, isBlank]

mutual

theorem spells_pretty : ∀ (j : Json) (level : Nat), Spells j.value (j.pretty level).toList
  | text s, level => by
      rw [value, pretty]
      exact .text (spellsText_quote s)
  | array [], level => by
      rw [value, values, pretty]
      exact .noItems gap_nil
  | array (j :: js), level => by
      have hs := spells_prettyItems (j :: js) (level + 1) (List.cons_ne_nil _ _)
        (gap_newLine level)
      simpa [pretty, value, String.toList_append] using Spells.items hs
  | object [], level => by
      rw [value, fieldValues, pretty]
      exact .noFields gap_nil
  | object (f :: fs), level => by
      have hs := spells_prettyFields (f :: fs) (level + 1) (List.cons_ne_nil _ _)
        (gap_newLine level)
      simpa [pretty, value, String.toList_append] using Spells.fields hs

theorem spells_prettyItems : ∀ (js : List Json) (level : Nat) {g : List Char}, js ≠ [] → Gap g →
    SpellsItems (values js) ((prettyItems level js).toList ++ g)
  | [], level, g, hne, hg => absurd rfl hne
  | [j], level, g, _, hg => by
      have hj := spells_pretty j level
      simpa [prettyItems, values, String.toList_append] using
        SpellsItems.last (gap_newLine level) hj hg
  | j :: k :: ks, level, g, _, hg => by
      have hj := spells_pretty j level
      have hs := spells_prettyItems (k :: ks) level (List.cons_ne_nil _ _) hg
      simpa [prettyItems, values, String.toList_append] using
        SpellsItems.more (gap_newLine level) hj gap_nil hs

theorem spells_prettyFields : ∀ (fs : List (String × Json)) (level : Nat) {g : List Char},
    fs ≠ [] → Gap g → SpellsFields (fieldValues fs) ((prettyFields level fs).toList ++ g)
  | [], level, g, hne, hg => absurd rfl hne
  | [(k, j)], level, g, _, hg => by
      have hj := spells_pretty j level
      simpa [prettyFields, fieldValues, String.toList_append] using
        SpellsFields.last (gap_newLine level) (spellsText_quote k) gap_nil gap_blank hj hg
  | (k, j) :: f :: fs, level, g, _, hg => by
      have hj := spells_pretty j level
      have hs := spells_prettyFields (f :: fs) level (List.cons_ne_nil _ _) hg
      simpa [prettyFields, fieldValues, String.toList_append] using
        SpellsFields.more (gap_newLine level) (spellsText_quote k) gap_nil gap_blank hj gap_nil hs

end

end Printing

end Json

namespace Directive

open Json (Value)

@[simp]
def kind : Directive → String
  | words _ _ _ => "positional"
  | closure _ _ _ => "closure"
  | flag _ _ _ => "option"

@[simp]
def words? : Directive → Option (List String)
  | words _ ws _ => some ws
  | _ => none

@[simp]
def completer? : Directive → Option Completer
  | closure _ c _ => some c
  | _ => none

@[simp]
def flag? : Directive → Option String
  | flag _ name _ => some name
  | _ => none

@[simp]
def nargs? : Directive → Option String
  | words _ _ nargs => nargs
  | closure _ _ nargs => nargs
  | flag _ _ _ => none

@[simp]
def choices : Directive → List String
  | flag _ _ choices => choices
  | _ => []

@[simp]
def withPath (p : CommandPath) : Directive → Directive
  | words _ ws nargs => .words p ws nargs
  | closure _ c nargs => .closure p c nargs
  | flag _ name choices => .flag p name choices

structure Agrees (d d' : Directive) : Prop where
  text : d.path.text = d'.path.text
  rest : d.withPath d'.path = d'

def textsValue (ws : List String) : Value :=
  .array (ws.map .text)

structure ToldBy (d : Directive) (fields : List (String × Value)) : Prop where
  distinct : (fields.map (·.1)).Nodup
  keys : ∀ f ∈ fields, f.1 ∈ ["kind", "path", "words", "completer", "flag", "nargs", "choices"]
  kind : fields.lookup "kind" = some (.text d.kind)
  path : fields.lookup "path" = some (.text d.path.text)
  words : fields.lookup "words" = d.words?.map textsValue
  completer : fields.lookup "completer" = d.completer?.map fun c => .text c.function
  flag : fields.lookup "flag" = d.flag?.map .text
  nargs : fields.lookup "nargs" = d.nargs?.map .text
  choices : fields.lookup "choices" =
    if d.choices.isEmpty then none else some (textsValue d.choices)

variable {d d' : Directive} {ds ds' : List Directive} {fields : List (String × Value)}

theorem textsValue_injective {ws ws' : List String} (h : textsValue ws = textsValue ws') :
    ws = ws' :=
  List.map_injective_iff.2 (fun _ _ h => Value.text.inj h) (Value.array.inj h)

theorem withPath_eq (hw : d.words? = d'.words?) (hc : d.completer? = d'.completer?)
    (hf : d.flag? = d'.flag?) (hn : d.nargs? = d'.nargs?) (hs : d.choices = d'.choices) :
    d.withPath d'.path = d' := by
  cases d <;> cases d' <;>
    simp_all [Directive.path]

theorem choices_injective {cs cs' : List String}
    (h : (if cs.isEmpty then none else some (textsValue cs)) =
      if cs'.isEmpty then none else some (textsValue cs')) : cs = cs' := by
  split_ifs at h with he he' he'
  · rw [List.isEmpty_iff.1 he, List.isEmpty_iff.1 he']
  · exact textsValue_injective (Option.some.inj h)

theorem ToldBy.agrees (h : d.ToldBy fields) (h' : d'.ToldBy fields) : d.Agrees d' where
  text := Value.text.inj (Option.some.inj (h.path.symm.trans h'.path))
  rest := by
    have htext : Function.Injective Value.text := fun _ _ h => Value.text.inj h
    have hfunction : Function.Injective fun c : Completer => Value.text c.function := by
      intro c c' _
      cases c
      cases c'
      rfl
    exact withPath_eq
      (Option.map_injective (fun _ _ => textsValue_injective) (h.words.symm.trans h'.words))
      (Option.map_injective hfunction (h.completer.symm.trans h'.completer))
      (Option.map_injective htext (h.flag.symm.trans h'.flag))
      (Option.map_injective htext (h.nargs.symm.trans h'.nargs))
      (choices_injective (h.choices.symm.trans h'.choices))

theorem Agrees.document_eq (h : d.Agrees d') : d.document = d'.document := by
  obtain ⟨htext, hrest⟩ := h
  rw [← hrest]
  generalize d'.path = p at htext
  cases d <;> simp [document, withPath, Directive.path] at htext ⊢ <;> exact htext

theorem values_texts (ws : List String) : (texts ws).value = textsValue ws := by
  rw [texts, Json.value, Json.values_eq_map, List.map_map]
  rfl

theorem value_document (d : Directive) : ∃ fields, d.document.value = .object fields ∧
    d.ToldBy fields := by
  cases d with
  | words path ws nargs =>
      refine ⟨_, by rw [document, Json.value], ?_⟩
      cases nargs <;> constructor <;>
        simp [Json.fieldValues, Json.value, field, values_texts, List.lookup_cons, Directive.path]
  | closure path completer nargs =>
      refine ⟨_, by rw [document, Json.value], ?_⟩
      cases nargs <;> constructor <;>
        simp [Json.fieldValues, Json.value, field, List.lookup_cons, Directive.path]
  | flag path name choices =>
      refine ⟨_, by rw [document, Json.value], ?_⟩
      cases choices <;> constructor <;>
        simp [Json.fieldValues, Json.value, values_texts, List.lookup_cons, Directive.path]

def Told (d : Directive) (v : Value) : Prop :=
  ∃ fields, v = .object fields ∧ d.ToldBy fields

theorem told_documents (ds : List Directive) :
    List.Forall₂ Told ds ((ds.map document).map Json.value) := by
  induction ds with
  | nil => exact .nil
  | cons d ds ih => exact .cons (value_document d) ih

theorem agrees_of_told {vs : List Value} (h : List.Forall₂ Told ds vs)
    (h' : List.Forall₂ Told ds' vs) : List.Forall₂ Agrees ds ds' := by
  induction h generalizing ds' with
  | nil =>
      cases h'
      exact .nil
  | cons hd _ ih =>
      cases h' with
      | cons hd' hs' =>
          obtain ⟨fields, rfl, hd⟩ := hd
          obtain ⟨_, ⟨⟩, hd'⟩ := hd'
          exact .cons (hd.agrees hd') (ih hs')

theorem documents_eq_of_agrees (h : List.Forall₂ Agrees ds ds') :
    ds.map document = ds'.map document :=
  (map_eq_map_of_forall₂ h fun _ _ hd => hd.document_eq.symm).symm

theorem spells_documents (ds : List Directive) :
    Json.Spells (.array ((ds.map document).map Json.value))
      ((Json.array (ds.map document)).pretty 0).toList := by
  have hspells := Json.spells_pretty (.array (ds.map document)) 0
  rwa [Json.value, Json.values_eq_map] at hspells

theorem document_render (ds : List Directive) :
    Json.Document (.array ((ds.map document).map Json.value))
      (OutputFormat.json.render ds).toList := by
  refine ⟨[], _, ['\n'], ?_, Json.gap_nil, spells_documents ds, by simp [Json.Gap, Json.isBlank]⟩
  rw [OutputFormat.render, String.toList_append]
  rfl

theorem render_json_faithful (ds : List Directive) : ∃ (doc : String) (os : List Value),
    OutputFormat.json.render ds = doc ++ "\n" ∧ Json.Spells (.array os) doc.toList ∧
    Json.read (OutputFormat.json.render ds).toList = some (.array os) ∧
    (∀ v, Json.Document v (OutputFormat.json.render ds).toList → v = .array os) ∧
    List.Forall₂ Told ds os ∧
    ∀ ds', OutputFormat.json.render ds = OutputFormat.json.render ds' ↔
      List.Forall₂ Agrees ds ds' := by
  have hdoc := document_render ds
  refine ⟨_, _, rfl, spells_documents ds, Json.read_eq_some.2 hdoc, fun v hv => hv.unique hdoc,
    told_documents ds, fun ds' => ⟨fun h => ?_, fun h => ?_⟩⟩
  · have hdoc' := document_render ds'
    rw [← h] at hdoc'
    have hvalues := Value.array.inj (hdoc.unique hdoc')
    exact agrees_of_told (told_documents ds) (hvalues ▸ told_documents ds')
  · rw [OutputFormat.render, OutputFormat.render, documents_eq_of_agrees h]

end Directive

end CliCompletion
