import FuncDecl.Project.FileTree
import FuncDecl.Proofs.Project.Paths
import FuncDecl.Proofs.Text.Bytes

/-!
# Trees that a file system can hold

In a file system the entries of a directory have different names, and a name is no empty text, has
no slash and does not lead elsewhere.

* `FileTree.Proper`: every directory of the tree is like that.
* `FileTree.Proper.lookup`: from a proper tree a path leads to proper trees only. One part of a path
  after the other is followed by `FileTree.Proper.follow`.
* `FileTree.proper_ofList`: a tree that is built from a list of paths is proper, since putting
  something at the end of a way keeps a tree so (`FileTree.Proper.put`, `FileTree.Proper.putPath`).
* `FileTree.Holds tree way found`: what is at the end of a way from the top of a tree.
-/

namespace FuncDecl.FileTree

/-- In every directory the entries have names, all of them different. -/
inductive Proper : FileTree → Prop
  | file (bytes : ByteArray) : Proper (.file bytes)
  | directory {entries : List (String × FileTree)} (distinct : (entries.map Prod.fst).Nodup)
      (names : ∀ e ∈ entries, Path.IsName e.1) (inner : ∀ e ∈ entries, Proper e.2) :
      Proper (.directory entries)

namespace Proper

/-- The directory in which nothing is found is proper. -/
theorem outside : FileTree.outside.Proper :=
  .directory .nil (by simp) (by simp)

/-- The entries of a proper directory are proper trees. -/
theorem of_lookup {entries : List (String × FileTree)} {name : String} {found : FileTree}
    (h : Proper (.directory entries)) (hfound : entries.lookup name = some found) : found.Proper := by
  obtain ⟨front, back, rfl, -⟩ := List.lookup_eq_some_iff.mp hfound
  cases h with
  | directory _ _ inner => exact inner _ (List.mem_append_right front List.mem_cons_self)

/-- Wherever a path leads, the tree is proper there. -/
theorem follow {passed : List FileTree} {here found : FileTree} {parts : List String}
    (hpassed : ∀ tree ∈ passed, tree.Proper) (hhere : here.Proper)
    (h : FileTree.follow passed here parts = .ok found) : found.Proper := by
  fun_induction FileTree.follow passed here parts with
  | case1 => exact Except.ok.inj h ▸ hhere
  | case2 => cases h
  | case3 _ _ _ _ _ ih => exact ih hpassed hhere h
  | case4 _ _ _ _ _ ih =>
    rw [List.forall_mem_cons] at hpassed
    exact ih hpassed.2 hpassed.1 h
  | case5 _ _ _ ih => exact ih (by simp) outside h
  | case6 _ _ _ _ _ _ _ hinner ih =>
    exact ih (List.forall_mem_cons.mpr ⟨hhere, hpassed⟩) (hhere.of_lookup hinner) h
  | case7 => cases h

/-- What a path names in a proper tree is proper. -/
theorem lookup {tree found : FileTree} (htree : tree.Proper) {path : String}
    (h : tree.lookup path = .ok found) : found.Proper := by
  unfold FileTree.lookup at h
  split at h
  · cases h
  · split at h
    · cases h
    · split at h
      · cases h
      · exact follow (by simp) outside h
      · exact follow (by simp) htree h

end Proper

/-! ## Trees from lists of paths -/

section SetEntry

variable {name : String} {tree : FileTree} {entries : List (String × FileTree)}

/-- An entry of the new directory is the one that was set or an old one. -/
theorem mem_setEntry {e : String × FileTree} (h : e ∈ setEntry name tree entries) :
    e = (name, tree) ∨ e ∈ entries := by
  fun_induction setEntry name tree entries with
  | case1 => exact .inl (List.mem_singleton.mp h)
  | case2 old rest =>
    rcases List.mem_cons.mp h with rfl | h
    · exact .inl rfl
    · exact .inr (List.mem_cons_of_mem _ h)
  | case3 other old rest _ ih =>
    rcases List.mem_cons.mp h with rfl | h
    · exact .inr List.mem_cons_self
    · exact (ih h).imp_right (List.mem_cons_of_mem _)

/-- Setting an entry keeps the names different. -/
theorem nodup_setEntry (h : (entries.map Prod.fst).Nodup) :
    ((setEntry name tree entries).map Prod.fst).Nodup := by
  fun_induction setEntry name tree entries with
  | case1 => simp
  | case2 => exact h
  | case3 other old rest hne ih =>
    rw [List.map_cons, List.nodup_cons] at h ⊢
    refine ⟨fun hmem => ?_, ih h.2⟩
    obtain ⟨e, he, heq⟩ := List.mem_map.mp hmem
    rcases mem_setEntry he with rfl | he
    · exact hne heq.symm
    · exact h.1 (List.mem_map.mpr ⟨e, he, heq⟩)

/-- Setting an entry keeps a directory proper. -/
theorem Proper.setEntry (h : Proper (.directory entries)) (hname : Path.IsName name)
    (htree : tree.Proper) : Proper (.directory (setEntry name tree entries)) := by
  cases h with
  | directory distinct names inner =>
    refine .directory (nodup_setEntry distinct) (fun e he => ?_) fun e he => ?_
    · rcases mem_setEntry he with rfl | he
      · exact hname
      · exact names e he
    · rcases mem_setEntry he with rfl | he
      · exact htree
      · exact inner e he

end SetEntry

namespace Proper

variable {leaf : FileTree} (hleaf : leaf.Proper)
include hleaf

/-- Putting something at the end of a way keeps a tree proper. By induction on the way: one entry is
set in each directory that is passed. -/
theorem put {way : List String} (hway : ∀ name ∈ way, Path.IsName name) {here : FileTree}
    (hhere : here.Proper) : (put leaf way here).Proper := by
  induction way generalizing here with
  | nil =>
    unfold FileTree.put
    split
    · exact hhere
    · exact hleaf
  | cons name way ih =>
    rw [List.forall_mem_cons] at hway
    have hentries : ∃ entries, Proper (.directory entries) ∧
        FileTree.put leaf (name :: way) here = .directory (FileTree.setEntry name
          (FileTree.put leaf way ((entries.lookup name).getD (.directory []))) entries) := by
      cases hhere with
      | file => exact ⟨[], outside, rfl⟩
      | @directory entries distinct names inner => exact ⟨entries, .directory distinct names inner, rfl⟩
    obtain ⟨entries, hproper, heq⟩ := hentries
    rw [heq]
    refine hproper.setEntry hway.1 (ih hway.2 ?_)
    cases hlookup : entries.lookup name with
    | none => exact outside
    | some tree => exact hproper.of_lookup hlookup

/-- Putting something at the end of a path keeps a tree proper, also where the path leads up again.
-/
theorem putPath {way : List String} (hway : ∀ name ∈ way, Path.IsName name) {parts : List String}
    (hparts : ∀ part ∈ parts, part ≠ ".." → Path.IsName part) {tree : FileTree} (htree : tree.Proper) :
    (putPath leaf way parts tree).Proper := by
  fun_induction FileTree.putPath leaf way parts tree with
  | case1 => exact hleaf.put hway htree
  | case2 => exact htree
  | case3 way rest tree _ ih =>
    refine ih (fun name h => hway name (List.dropLast_subset way h)) ?_ (outside.put hway htree)
    exact fun part h => hparts part (List.mem_cons_of_mem _ h)
  | case4 way name rest tree hname ih =>
    rw [List.forall_mem_cons] at hparts
    refine ih (fun other h => ?_) hparts.2 htree
    rcases List.mem_append.mp h with h | h
    · exact hway other h
    · exact List.mem_singleton.mp h ▸ hparts.1 hname

end Proper

/-- A tree that is built from a list of paths is proper. -/
theorem proper_ofList {items : List (String × FileTree)} (h : ∀ item ∈ items, item.2.Proper) :
    (ofList items).Proper := by
  refine List.foldlRecOn items _ Proper.outside fun tree htree item hitem => ?_
  exact (h item hitem).putPath (by simp) (fun part => Path.isName_of_mem_named) htree

/-! ## Ways -/

/-- What is at the end of a way. -/
inductive Holds : FileTree → List String → FileTree → Prop
  | here (tree : FileTree) : Holds tree [] tree
  | inside {entries : List (String × FileTree)} {name : String} {inner found : FileTree}
      {way : List String} (hentry : (name, inner) ∈ entries) (hinner : Holds inner way found) :
      Holds (.directory entries) (name :: way) found

/-- A way in a proper tree is a list of names. -/
theorem Proper.isName_of_holds {tree found : FileTree} {way : List String} (htree : tree.Proper)
    (h : tree.Holds way found) : ∀ name ∈ way, Path.IsName name := by
  induction h with
  | here => simp
  | inside hentry _ ih =>
    cases htree with
    | directory _ names inner => exact List.forall_mem_cons.mpr ⟨names _ hentry, ih (inner _ hentry)⟩

end FuncDecl.FileTree
