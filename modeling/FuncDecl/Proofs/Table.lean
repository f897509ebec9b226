import FuncDecl.Table
import Mathlib.Data.List.Induction

/-!
# Laws of tables

What a table gives to a name after a value was entered, and which names a table has.

* `Table.find?_insert` and `Table.contains_insert`: a value is found under the name it was entered
  for, and other names are not touched.
* `Table.entries_insert_of_new` and `Table.entries_insertAll_of_nodup`: new names go to the end, in
  their order.
* `Table.Sets` and `Table.SetsAll`: what entering values does, said without the code.
  `Table.sets_iff` and `Table.setsAll_iff` say that entering does that and nothing else does.
* `Table.map`: the table with all its values changed. It commutes with entering
  (`Table.map_insert`).
* `Table.find?_ofList` and `Table.names_ofList`: a table that was made from a list has the names of
  the list in the order of their first appearance, each with its last value.
-/

namespace FuncDecl.Table

variable {α : Type}

/-! ## Values -/

/-- The first entry of a name is the one that is found. -/
theorem lookup_cons_eq (name other : String) (value : α) (entries : List (String × α)) :
    ((name, value) :: entries).lookup other =
      if other = name then some value else entries.lookup other := by
  rw [List.lookup_cons]
  by_cases h : other = name
  · rw [if_pos h, h, beq_self_eq_true]
  · rw [if_neg h, beq_false_of_ne h]

/-- A value that was put for a name is found under it, and all else is found as before. -/
theorem lookup_put (name other : String) (value : α) (entries : List (String × α)) :
    (put name value entries).lookup other =
      if other = name then some value else entries.lookup other := by
  induction entries with
  | nil => exact lookup_cons_eq name other value []
  | cons entry entries ih =>
    obtain ⟨first, old⟩ := entry
    rw [put]
    by_cases hfirst : first = name
    · rw [if_pos hfirst, hfirst, lookup_cons_eq, lookup_cons_eq]
      by_cases h : other = name
      · rw [if_pos h, if_pos h]
      · rw [if_neg h, if_neg h, if_neg h]
    · rw [if_neg hfirst, lookup_cons_eq, lookup_cons_eq, ih]
      by_cases h : other = first
      · rw [if_pos h, h, if_neg hfirst, if_pos rfl]
      · rw [if_neg h, if_neg h]

/-- A value is found under the name it was entered for. -/
theorem find?_insert (t : Table α) (name other : String) (value : α) :
    (t.insert name value).find? other = if other = name then some value else t.find? other :=
  lookup_put name other value t.entries

/-- A table has a name behind an entry if it is the name entered or was there. -/
theorem contains_insert (t : Table α) (name other : String) (value : α) :
    (t.insert name value).contains other = (other == name || t.contains other) := by
  rw [contains, contains, find?_insert]
  by_cases h : other = name
  · simp [h]
  · simp [h]

/-- Entering a list is entering its first value and then the rest. -/
theorem insertAll_cons (t : Table α) (name : String) (value : α) (entries : List (String × α)) :
    t.insertAll ((name, value) :: entries) = (t.insert name value).insertAll entries := rfl

/-- The names of a table that was made by entering are those it was made from and those entered. -/
theorem contains_insertAll (t : Table α) (entries : List (String × α)) (name : String) :
    (t.insertAll entries).contains name =
      (entries.any (·.1 == name) || t.contains name) := by
  induction entries generalizing t with
  | nil => rfl
  | cons entry entries ih =>
    rw [insertAll_cons, ih, contains_insert, List.any_cons, Bool.or_assoc, Bool.or_left_comm,
      BEq.comm (a := name)]

/-- A table that was made from a list has exactly the names in it. -/
theorem contains_ofList (entries : List (String × α)) (name : String) :
    (ofList entries).contains name = entries.any (·.1 == name) := by
  rw [ofList, contains_insertAll]
  exact Bool.or_false _

/-! ## New names -/

/-- A table has a name exactly if it is among its names. -/
theorem contains_iff_mem_names (t : Table α) (name : String) :
    t.contains name = true ↔ name ∈ t.names := by
  simp [contains, find?, names]

/-- Entries of other names are passed over. -/
theorem put_append_of_new {name : String} {front : List (String × α)}
    (h : name ∉ front.map Prod.fst) (value : α) (back : List (String × α)) :
    put name value (front ++ back) = front ++ put name value back := by
  induction front with
  | nil => rfl
  | cons entry front ih =>
    rw [List.map_cons, List.mem_cons, not_or] at h
    rw [List.cons_append, put, if_neg (Ne.symm h.1), ih h.2]
    rfl

/-- A value for a new name is put at the end. -/
theorem put_of_new {name : String} {entries : List (String × α)}
    (h : name ∉ entries.map Prod.fst) (value : α) :
    put name value entries = entries ++ [(name, value)] := by
  have := put_append_of_new h value []
  rwa [List.append_nil] at this

/-- A new name goes to the end. -/
theorem entries_insert_of_new {t : Table α} {name : String} (h : name ∉ t.names) (value : α) :
    (t.insert name value).entries = t.entries ++ [(name, value)] :=
  put_of_new h value

/-- New names go to the end in their order. -/
theorem entries_insertAll_of_nodup {t : Table α} {entries : List (String × α)}
    (h : (t.names ++ entries.map Prod.fst).Nodup) :
    (t.insertAll entries).entries = t.entries ++ entries := by
  induction entries generalizing t with
  | nil => exact (List.append_nil _).symm
  | cons entry entries ih =>
    obtain ⟨name, value⟩ := entry
    have hnew : name ∉ t.names := fun hmem =>
      (List.nodup_append.mp h).2.2 name hmem name (by simp) rfl
    have hentries := entries_insert_of_new hnew value
    rw [insertAll_cons, ih, hentries, List.append_assoc]
    · rfl
    · rw [names, hentries, List.map_append, List.append_assoc]
      exact h

/-- A table of different names is the list it was made from. -/
theorem entries_ofList_of_nodup {entries : List (String × α)} (h : (entries.map Prod.fst).Nodup) :
    (ofList entries).entries = entries :=
  entries_insertAll_of_nodup h

/-! ## Setting a value -/

/-- The second table is the first one with a value set for a name: a name that is there keeps its
place, a new one goes to the end. -/
inductive Sets (name : String) (value : α) : Table α → Table α → Prop
  | replaced {front back : List (String × α)} (old : α) (h : name ∉ front.map Prod.fst) :
      Sets name value ⟨front ++ (name, old) :: back⟩ ⟨front ++ (name, value) :: back⟩
  | appended {t : Table α} (h : name ∉ t.names) : Sets name value t ⟨t.entries ++ [(name, value)]⟩

/-- Values are set one after the other. -/
inductive SetsAll : List (String × α) → Table α → Table α → Prop
  | nil (t : Table α) : SetsAll [] t t
  | cons {name : String} {value : α} {entries : List (String × α)} {t t' t'' : Table α}
      (first : Sets name value t t') (rest : SetsAll entries t' t'') :
      SetsAll ((name, value) :: entries) t t''

/-- A value for a name that is there takes the place of the first one. -/
theorem put_of_first {name : String} {front : List (String × α)} (h : name ∉ front.map Prod.fst)
    (old value : α) (back : List (String × α)) :
    put name value (front ++ (name, old) :: back) = front ++ (name, value) :: back := by
  rw [put_append_of_new h, put, if_pos rfl]

/-- Entering a value sets it. -/
theorem sets_insert (t : Table α) (name : String) (value : α) :
    Sets name value t (t.insert name value) := by
  cases hfind : t.find? name with
  | none =>
    have hnew : name ∉ t.names := by
      intro hmem
      rw [← contains_iff_mem_names, contains, hfind] at hmem
      exact absurd hmem (by simp)
    rw [insert, put_of_new hnew]
    exact .appended hnew
  | some old =>
    obtain ⟨front, back, hentries, hfront⟩ := List.lookup_eq_some_iff.mp hfind
    have hfirst : name ∉ front.map Prod.fst := by
      intro hmem
      obtain ⟨entry, hentry, rfl⟩ := List.mem_map.mp hmem
      exact absurd (hfront entry hentry) (by simp)
    obtain ⟨entries⟩ := t
    obtain rfl : entries = front ++ (name, old) :: back := hentries
    rw [insert, put_of_first hfirst]
    exact .replaced old hfirst

/-- Entering a value is all that sets it. -/
theorem sets_iff {t t' : Table α} {name : String} {value : α} :
    Sets name value t t' ↔ t' = t.insert name value := by
  constructor
  · intro h
    cases h with
    | replaced old hfirst => rw [insert, put_of_first hfirst]
    | appended hnew => rw [insert, put_of_new hnew]
  · rintro rfl
    exact sets_insert t name value

/-- Entering values one after the other is all that sets them. By induction on the values, from
`sets_iff`. -/
theorem setsAll_iff {t t' : Table α} {entries : List (String × α)} :
    SetsAll entries t t' ↔ t' = t.insertAll entries := by
  constructor
  · intro h
    induction h with
    | nil t => rfl
    | cons first rest ih => rw [insertAll_cons, ← sets_iff.mp first, ih]
  · rintro rfl
    induction entries generalizing t with
    | nil => exact .nil t
    | cons entry entries ih => exact .cons (sets_insert t entry.1 entry.2) ih

/-- Entering a value adds its name at the end, unless it is there. -/
theorem names_insert (t : Table α) (name : String) (value : α) :
    (t.insert name value).names = if name ∈ t.names then t.names else t.names ++ [name] := by
  have h := sets_insert t name value
  generalize t.insert name value = t' at h
  cases h with
  | replaced old hfirst => simp [names]
  | appended hnew =>
    rw [if_neg hnew]
    exact List.map_append

/-- An entry behind an insertion is the new one or an old one. -/
theorem mem_entries_insert {t : Table α} {name : String} {value : α} {entry : String × α}
    (h : entry ∈ (t.insert name value).entries) : entry = (name, value) ∨ entry ∈ t.entries := by
  have hsets := sets_insert t name value
  generalize t.insert name value = t' at h hsets
  cases hsets with
  | replaced old hfirst =>
    simp only [List.mem_append, List.mem_cons] at h ⊢
    tauto
  | appended hnew => simpa [or_comm] using h

/-! ## Other values under the same names -/

/-- The table with all its values changed. -/
def map {β : Type} (f : α → β) (t : Table α) : Table β :=
  ⟨t.entries.map fun entry => (entry.1, f entry.2)⟩

section Map

variable {β : Type} (f : α → β) (t : Table α) (name : String)

/-- Changing the values leaves the names. -/
theorem names_map : (t.map f).names = t.names := by
  rw [names, map, List.map_map]
  rfl

/-- What is found is changed like all values. -/
theorem find?_map : (t.map f).find? name = (t.find? name).map f := by
  obtain ⟨entries⟩ := t
  show (entries.map fun entry => (entry.1, f entry.2)).lookup name = (entries.lookup name).map f
  induction entries with
  | nil => rfl
  | cons entry entries ih =>
    rw [List.map_cons, lookup_cons_eq, lookup_cons_eq, ih]
    split <;> rfl

/-- Entering a value and changing all values can be done in either order. -/
theorem map_insert (value : α) : (t.insert name value).map f = (t.map f).insert name (f value) := by
  obtain ⟨entries⟩ := t
  refine congrArg Table.mk ?_
  show (put name value entries).map (fun entry => (entry.1, f entry.2)) =
    put name (f value) (entries.map fun entry => (entry.1, f entry.2))
  induction entries with
  | nil => rfl
  | cons entry entries ih =>
    rw [put, List.map_cons, put]
    split
    · rfl
    · rw [List.map_cons, ih]

end Map

/-! ## Tables made from lists -/

/-- A table made from a list with one more value is the table made from the list, with that value
entered. -/
theorem ofList_concat (entries : List (String × α)) (name : String) (value : α) :
    ofList (entries ++ [(name, value)]) = (ofList entries).insert name value :=
  List.foldl_append

/-- A name has the last value that was entered for it. -/
theorem find?_ofList (entries : List (String × α)) (name : String) :
    (ofList entries).find? name = (entries.filter (·.1 = name)).getLast?.map Prod.snd := by
  induction entries using List.reverseRecOn with
  | nil => rfl
  | append_singleton entries entry ih =>
    rw [ofList_concat, find?_insert, ih, List.filter_append]
    by_cases h : name = entry.1
    · rw [if_pos h, List.filter_cons_of_pos (by simp [h]), List.filter_nil, List.getLast?_concat]
      rfl
    · rw [if_neg h, List.filter_cons_of_neg (by simp [Ne.symm h]), List.filter_nil, List.append_nil]

/-- The names stand in the order of their first appearance. -/
theorem names_ofList (entries : List (String × α)) :
    (ofList entries).names = (entries.map Prod.fst).eraseDups := by
  induction entries using List.reverseRecOn with
  | nil => rfl
  | append_singleton entries entry ih =>
    rw [ofList_concat, names_insert, ih, List.map_append, List.map_singleton, List.eraseDups_append,
      List.cons_removeAll, List.nil_removeAll]
    by_cases h : entry.1 ∈ entries.map Prod.fst
    · rw [if_pos (List.mem_eraseDups.mpr h), if_neg (by simpa using h)]
      exact (List.append_nil _).symm
    · rw [if_neg fun hmem => h (List.mem_eraseDups.mp hmem), if_pos (by simpa using h)]
      rfl

end FuncDecl.Table
