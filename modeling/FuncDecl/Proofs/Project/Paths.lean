import FuncDecl.Project.Path

/-!
# Ways below a directory

A way is a list of names, from a directory down. Joined to the path of the directory, it is the path
of what is at its end.

* `Path.splitAt_append` and `Path.splitAt_of_not_mem`: how a text is cut at a character.
* `Path.IsName`: what can be the name of an entry of a directory. `Path.named` lists the parts of a
  path that name something.
* `Path.within root way`: the path of what is at the end of a way. The names of the way can be read
  off it again (`Path.named_within`), so different ways have different paths (`Path.within_inj`).
* `Path.isSource_within_iff`: whether the path has the extension of source files is told by the last
  name of the way.
-/

namespace FuncDecl.Path

/-! ## Pieces of a text -/

section Pieces

variable {separator : Char} {cs : List Char}

/-- A separator at the front ends an empty piece. -/
theorem splitAt_cons_self (cs : List Char) :
    splitAt separator (separator :: cs) = [] :: splitAt separator cs := by
  simp only [splitAt, if_true]

/-- Any other character at the front belongs to the first piece. -/
theorem splitAt_cons_of_ne {c : Char} (h : c ≠ separator) {piece : List Char}
    {pieces : List (List Char)} (hcs : splitAt separator cs = piece :: pieces) :
    splitAt separator (c :: cs) = (c :: piece) :: pieces := by
  simp only [splitAt, if_neg h, hcs]

/-- A text has a first piece. -/
theorem exists_splitAt (separator : Char) (cs : List Char) :
    ∃ piece pieces, splitAt separator cs = piece :: pieces := by
  induction cs with
  | nil => exact ⟨[], [], by simp only [splitAt]⟩
  | cons c cs ih =>
    obtain ⟨piece, pieces, hcs⟩ := ih
    by_cases hc : c = separator
    · subst hc
      exact ⟨_, _, splitAt_cons_self cs⟩
    · exact ⟨_, _, splitAt_cons_of_ne hc hcs⟩

/-- A separator parts the pieces in front of it from those behind it. -/
theorem splitAt_append (separator : Char) (cs ds : List Char) :
    splitAt separator (cs ++ separator :: ds) = splitAt separator cs ++ splitAt separator ds := by
  induction cs with
  | nil =>
    rw [List.nil_append, splitAt_cons_self]
    simp only [splitAt, List.singleton_append]
  | cons c cs ih =>
    obtain ⟨piece, pieces, hcs⟩ := exists_splitAt separator cs
    by_cases hc : c = separator
    · subst hc
      rw [List.cons_append, splitAt_cons_self, splitAt_cons_self, ih, List.cons_append]
    · rw [hcs, List.cons_append] at ih
      rw [List.cons_append, splitAt_cons_of_ne hc ih, splitAt_cons_of_ne hc hcs, List.cons_append]

/-- A text without a separator is one piece. -/
theorem splitAt_of_not_mem (h : separator ∉ cs) : splitAt separator cs = [cs] := by
  induction cs with
  | nil => simp only [splitAt]
  | cons c cs ih =>
    rw [List.mem_cons, not_or] at h
    exact splitAt_cons_of_ne (Ne.symm h.1) (ih h.2)

/-- No piece has a separator in it. -/
theorem separator_not_mem {piece : List Char} (h : piece ∈ splitAt separator cs) :
    separator ∉ piece := by
  induction cs generalizing piece with
  | nil =>
    rw [splitAt, List.mem_singleton] at h
    simp [h]
  | cons c cs ih =>
    obtain ⟨first, pieces, hcs⟩ := exists_splitAt separator cs
    by_cases hc : c = separator
    · subst hc
      rw [splitAt_cons_self] at h
      rcases List.mem_cons.mp h with rfl | h
      · exact List.not_mem_nil
      · exact ih h
    · rw [splitAt_cons_of_ne hc hcs] at h
      rw [hcs] at ih
      rcases List.mem_cons.mp h with rfl | h
      · rw [List.mem_cons, not_or]
        exact ⟨Ne.symm hc, ih List.mem_cons_self⟩
      · exact ih (List.mem_cons_of_mem _ h)

/-- Only the empty text is one empty piece. -/
theorem splitAt_eq_singleton_nil_iff : splitAt separator cs = [[]] ↔ cs = [] := by
  refine ⟨fun h => ?_, fun h => by rw [h, splitAt]⟩
  cases cs with
  | nil => rfl
  | cons c cs =>
    obtain ⟨piece, pieces, hcs⟩ := exists_splitAt separator cs
    by_cases hc : c = separator
    · subst hc
      rw [splitAt_cons_self, hcs] at h
      simp at h
    · rw [splitAt_cons_of_ne hc hcs] at h
      simp at h

end Pieces

/-! ## Names -/

/-- A name that an entry of a directory can have. -/
structure IsName (name : String) : Prop where
  ne_empty : name ≠ ""
  ne_here : name ≠ "."
  ne_above : name ≠ ".."
  noSlash : '/' ∉ name.toList

/-- The parts of a path that name something. -/
def named (path : String) : List String :=
  (parts path).filter isNamed

/-- A part of a path that names something can be the name of an entry, unless it leads up. -/
theorem isName_of_mem_named {path part : String} (h : part ∈ named path) (habove : part ≠ "..") :
    IsName part := by
  obtain ⟨hpart, hnamed⟩ := List.mem_filter.mp h
  obtain ⟨piece, hpiece, rfl⟩ := List.mem_map.mp hpart
  rw [isNamed, Bool.and_eq_true, bne_iff_ne, bne_iff_ne] at hnamed
  refine ⟨hnamed.1, hnamed.2, habove, ?_⟩
  rw [String.toList_ofList]
  exact separator_not_mem hpiece

/-- The parts of two paths with a slash between them are those of the one and then those of the
other. -/
theorem parts_append (front back : String) :
    parts (front ++ "/" ++ back) = parts front ++ parts back := by
  have hchars : (front ++ "/" ++ back).toList = front.toList ++ '/' :: back.toList := by
    simp
  rw [parts, hchars, splitAt_append, List.map_append]
  rfl

/-- The same for the parts that name something. -/
theorem named_append (front back : String) :
    named (front ++ "/" ++ back) = named front ++ named back := by
  rw [named, parts_append, List.filter_append]
  rfl

/-- A name is a path of one part. -/
theorem named_of_isName {name : String} (h : IsName name) : named name = [name] := by
  have hnamed : isNamed name = true := by
    simp [isNamed, h.ne_empty, h.ne_here]
  rw [named, parts, splitAt_of_not_mem h.noSlash, List.map_singleton, String.ofList_toList,
    List.filter_cons_of_pos hnamed, List.filter_nil]

/-- A name inside a directory comes behind the names of the directory. -/
theorem named_join (directory : String) {name : String} (h : IsName name) :
    named (join directory name) = named directory ++ [name] := by
  rw [← named_of_isName h]
  rcases List.eq_nil_or_concat directory.toList with hnil | ⟨front, last, hlast⟩
  · obtain rfl : directory = "" := String.toList_eq_nil_iff.mp hnil
    rfl
  · rw [List.concat_eq_append] at hlast
    have hdirectory : directory = String.ofList front ++ String.singleton last := by
      rw [← String.toList_inj, hlast]
      simp
    unfold join
    rw [hlast, List.getLast?_concat]
    dsimp only
    split
    · next hslash =>
      subst hslash
      have hempty : named (String.ofList front ++ "/") = named (String.ofList front) := by
        have := named_append (String.ofList front) ""
        rw [String.append_empty] at this
        rw [this]
        exact List.append_nil _
      rw [hdirectory]
      exact (named_append _ name).trans (congrArg (· ++ named name) hempty.symm)
    · exact named_append directory name

/-! ## Ways -/

/-- The path of what is at the end of a way from the directory at a path. -/
def within (root : String) (way : List String) : String :=
  way.foldl join root

/-- The names of a path along a way are those of its start and then the way. By induction on the
way, one `named_join` for each name. -/
theorem named_within (root : String) {way : List String} (h : ∀ name ∈ way, IsName name) :
    named (within root way) = named root ++ way := by
  induction way generalizing root with
  | nil => exact (List.append_nil _).symm
  | cons name way ih =>
    rw [List.forall_mem_cons] at h
    calc named (within root (name :: way)) = named (join root name) ++ way := ih _ h.2
      _ = named root ++ name :: way := by rw [named_join root h.1, List.append_assoc]; rfl

/-- Different ways lead to different paths. -/
theorem within_inj {root : String} {way way' : List String} (h : ∀ name ∈ way, IsName name)
    (h' : ∀ name ∈ way', IsName name) (heq : within root way = within root way') : way = way' := by
  have hnamed := congrArg named heq
  rw [named_within root h, named_within root h'] at hnamed
  exact List.append_cancel_left hnamed

/-! ## Extensions -/

section Extensions

variable {path name : String} (h : fileName? path = some name)
include h

/-- The last dot of the name counts, unless nothing stands in front of it. -/
theorem extension?_of_lastDot {front back : List Char} (hname : name.toList = front ++ '.' :: back)
    (hback : '.' ∉ back) :
    extension? path = if front = [] then none else some (String.ofList back) := by
  obtain ⟨rest, before, hfront⟩ : ∃ rest before, splitAt '.' front = rest ++ [before] := by
    obtain ⟨piece, pieces, hsplit⟩ := exists_splitAt '.' front
    have hne : splitAt '.' front ≠ [] := by simp [hsplit]
    obtain ⟨rest, before, heq⟩ := (List.eq_nil_or_concat _).resolve_left hne
    exact ⟨rest, before, heq.trans List.concat_eq_append⟩
  have hpieces : (splitAt '.' name.toList).reverse = back :: before :: rest.reverse := by
    rw [hname, splitAt_append, splitAt_of_not_mem hback, hfront]
    simp
  have hempty : before = [] ∧ rest.reverse = [] ↔ front = [] := by
    have hsingle : splitAt '.' front = [[]] ↔ front = [] := splitAt_eq_singleton_nil_iff
    rw [← hsingle, hfront, List.reverse_eq_nil_iff, List.append_eq_singleton_iff]
    simp [and_comm]
  unfold extension?
  simp only [h, hpieces, hempty]

/-- A name without a dot has no extension. -/
theorem extension?_of_noDot (hname : '.' ∉ name.toList) : extension? path = none := by
  unfold extension?
  simp only [h, splitAt_of_not_mem hname, List.reverse_singleton]

/-- The extension is `hlx` if the name ends so, behind a dot that something stands in front of. -/
theorem isSource_iff : isSource path = true ↔ ∃ stem, stem ≠ "" ∧ name = stem ++ ".hlx" := by
  rw [isSource, beq_iff_eq]
  constructor
  · intro hext
    by_cases hdot : '.' ∈ name.toList
    · obtain ⟨after, before, heq, hafter⟩ := List.eq_append_cons_of_mem (List.mem_reverse.mpr hdot)
      have hname : name.toList = before.reverse ++ '.' :: after.reverse := by
        rw [← List.reverse_reverse name.toList, heq]
        simp
      rw [extension?_of_lastDot h hname (mt List.mem_reverse.mp hafter)] at hext
      split at hext
      · exact absurd hext (by simp)
      · next hfront =>
        have hback : String.ofList after.reverse = "hlx" := Option.some.inj hext
        refine ⟨String.ofList before.reverse, mt String.ofList_eq_empty_iff.mp hfront, ?_⟩
        rw [← String.toList_inj, hname, String.toList_append, String.toList_ofList]
        have : after.reverse = "hlx".toList := by rw [← hback, String.toList_ofList]
        rw [this]
        rfl
    · rw [extension?_of_noDot h hdot] at hext
      exact absurd hext (by simp)
  · rintro ⟨stem, hstem, hname⟩
    have hchars : name.toList = stem.toList ++ '.' :: "hlx".toList := by
      rw [hname, String.toList_append]
      rfl
    rw [extension?_of_lastDot h hchars (by decide), if_neg (mt String.toList_eq_nil_iff.mp hstem),
      String.ofList_toList]
    rfl

end Extensions

/-- What is at the end of a way has the extension of a source file if the last name of the way does. -/
theorem isSource_within_iff (root : String) {way : List String} (h : ∀ name ∈ way, IsName name)
    (hne : way ≠ []) :
    isSource (within root way) = true ↔
      ∃ front stem, stem ≠ "" ∧ way = front ++ [stem ++ ".hlx"] := by
  obtain ⟨front, last, rfl⟩ := (List.eq_nil_or_concat way).resolve_left hne
  rw [List.concat_eq_append] at h ⊢
  have hlast := h last (by simp)
  have hname : fileName? (within root (front ++ [last])) = some last := by
    have hgetLast : (named (within root (front ++ [last]))).getLast? = some last := by
      rw [named_within root h, ← List.append_assoc, List.getLast?_concat]
    unfold fileName?
    rw [named] at hgetLast
    simp only [hgetLast, if_neg hlast.ne_above]
  rw [isSource_iff hname]
  constructor
  · rintro ⟨stem, hstem, rfl⟩
    exact ⟨front, stem, hstem, rfl⟩
  · rintro ⟨front', stem, hstem, heq⟩
    obtain ⟨-, hlast⟩ := List.append_inj' heq rfl
    exact ⟨stem, hstem, List.singleton_inj.mp hlast⟩

end FuncDecl.Path
