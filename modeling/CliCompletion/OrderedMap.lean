namespace CliCompletion

structure OrderedMap (κ α : Type) where
  entries : List (κ × α)
  distinct : (entries.map (·.1)).Nodup
  deriving Repr

namespace OrderedMap

variable {κ α : Type}

def empty : OrderedMap κ α :=
  ⟨[], List.nodup_nil⟩

def keys (m : OrderedMap κ α) : List κ :=
  m.entries.map (·.1)

def values (m : OrderedMap κ α) : List α :=
  m.entries.map (·.2)

def length (m : OrderedMap κ α) : Nat :=
  m.entries.length

variable [DecidableEq κ]

def find? (m : OrderedMap κ α) (key : κ) : Option α :=
  (m.entries.find? (·.1 == key)).map (·.2)

def contains (m : OrderedMap κ α) (key : κ) : Bool :=
  m.keys.contains key

def setEntry (key : κ) (value : α) : List (κ × α) → List (κ × α)
  | [] => [(key, value)]
  | e :: es => if e.1 = key then (key, value) :: es else e :: setEntry key value es

theorem setEntry_of_not_mem {key : κ} {es : List (κ × α)} (value : α)
    (h : key ∉ es.map (·.1)) : setEntry key value es = es ++ [(key, value)] := by
  induction es with
  | nil => rfl
  | cons e es ih =>
      simp only [List.map_cons, List.mem_cons, not_or] at h
      rw [setEntry, if_neg (Ne.symm h.1), ih h.2]
      rfl

theorem keys_setEntry_of_mem {key : κ} {es : List (κ × α)} (value : α)
    (h : key ∈ es.map (·.1)) : (setEntry key value es).map (·.1) = es.map (·.1) := by
  induction es with
  | nil => simp at h
  | cons e es ih =>
      by_cases he : e.1 = key
      · simp [setEntry, he]
      · have hes : key ∈ es.map (·.1) := by
          simpa [Ne.symm he] using h
        rw [setEntry, if_neg he, List.map_cons, List.map_cons, ih hes]

theorem nodup_keys_setEntry {key : κ} {es : List (κ × α)} (value : α)
    (h : (es.map (·.1)).Nodup) : ((setEntry key value es).map (·.1)).Nodup := by
  by_cases hm : key ∈ es.map (·.1)
  · rw [keys_setEntry_of_mem value hm]
    exact h
  · rw [setEntry_of_not_mem value hm, List.map_append, List.map_singleton]
    refine List.nodup_append.2 ⟨h, List.pairwise_singleton _ key, ?_⟩
    intro a ha b hb hab
    have hk : a = key := hab.trans (List.mem_singleton.1 hb)
    exact hm (hk ▸ ha)

def insert (m : OrderedMap κ α) (key : κ) (value : α) : OrderedMap κ α :=
  ⟨setEntry key value m.entries, nodup_keys_setEntry value m.distinct⟩

theorem contains_iff {m : OrderedMap κ α} {key : κ} : m.contains key = true ↔ key ∈ m.keys :=
  List.contains_iff_mem

theorem entries_insert_of_not_mem {m : OrderedMap κ α} {key : κ} (value : α)
    (h : key ∉ m.keys) : (m.insert key value).entries = m.entries ++ [(key, value)] :=
  setEntry_of_not_mem value h

theorem find?_eq_some_iff {m : OrderedMap κ α} {key : κ} {value : α} :
    m.find? key = some value ↔ (key, value) ∈ m.entries := by
  obtain ⟨es, hes⟩ := m
  simp only [find?]
  induction es with
  | nil => simp
  | cons e es ih =>
      obtain ⟨k, v⟩ := e
      simp only [List.map_cons, List.nodup_cons] at hes
      by_cases hk : k = key
      · subst hk
        have hn : (k, value) ∉ es := fun h => hes.1 (List.mem_map_of_mem (f := Prod.fst) h)
        simp [hn, eq_comm]
      · rw [List.find?_cons_of_neg (by simpa using hk), ih hes.2]
        simp [Ne.symm hk]

end OrderedMap

end CliCompletion
