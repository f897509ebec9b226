import FuncDecl.Project.Sources
import FuncDecl.Proofs.Project.Trees
import FuncDecl.Proofs.Text.ByteOrder
import FuncDecl.Proofs.Text.Bytes

/-!
# Finding source files

A walk comes to a directory before its entries and to these in the order of their names.

* `Path.Before`: the order of ways, name by name and byte by byte.
* `FileTree.visits_directory`: a walk through a directory takes the entries in order
  (`FileTree.inOrder`).
* `FileTree.Walked tree stops`: the stops of a walk through a tree, wherever it is. There is one for
  each file and directory, and their ways increase. `FileTree.Proper.exists_walked` gives them for
  every proper tree, by induction on the tree.
* `FileTree.OutOfReach`: a directory whose path is too long to be entered.
  `FileTree.Walked.outOfReach_iff` finds it among the stops, and `FileTree.Walked.barrier?_cases`
  says that the first of them bars a walk.
* `FileTree.Walked.exists_ways`: the source files are those stops that are files with the right
  extension.
* `FileTree.sources_found_in_order`: **source files are found in the order of their paths**, all of
  them and each once, if no directory is out of reach. If one is, none is found, and the first such
  directory is named.
-/

namespace FuncDecl

/-- The order of ways: name by name, and the names byte by byte. A way comes before those that go on
behind its end. -/
def Path.Before : List String → List String → Prop :=
  List.Lex Text.Precedes

/-- No way comes before itself. -/
theorem Path.Before.irrefl (way : List String) : ¬ Before way way :=
  List.lex_irrefl (fun name => List.lex_irrefl UInt8.lt_irrefl (Text.bytes name)) way

/-! ## Searches -/

section Sources

variable {disk : Disk} {root : String} {entries : List (String × FileTree)}
  (h : disk root = .ok (.directory entries))
include h

/-- A search that nothing bars gives the source files of the directory. -/
theorem Disk.sources_of_barrier_none (hbarrier : FileTree.barrier? root (.directory entries) = none) :
    disk.sources root = .ok (FileTree.sources root (.directory entries)) := by
  simp only [Disk.sources, h, hbarrier]

/-- A search that a directory bars fails and names it. -/
theorem Disk.sources_of_barrier_some {place : String}
    (hbarrier : FileTree.barrier? root (.directory entries) = some place) :
    disk.sources root = .error (.scan root place .tooLong) := by
  simp only [Disk.sources, h, hbarrier]

end Sources

namespace FileTree

/-! ## Walks -/

/-- The entries of a directory in the order in which a walk takes them. -/
def inOrder (entries : List (String × FileTree)) : List (String × FileTree) :=
  entries.mergeSort fun a b => decide (a.1 ≤ b.1)

/-- Putting entries in order leaves none out and adds none. -/
theorem perm_inOrder (entries : List (String × FileTree)) : (inOrder entries).Perm entries :=
  List.mergeSort_perm entries _

/-- Entries with different names increase strictly when they are in order. -/
theorem pairwise_inOrder {entries : List (String × FileTree)}
    (h : (entries.map Prod.fst).Nodup) : (inOrder entries).Pairwise fun a b => a.1 < b.1 := by
  have hle : (inOrder entries).Pairwise fun a b => decide (a.1 ≤ b.1) = true := by
    refine List.pairwise_mergeSort (fun a b c hab hbc => ?_) (fun a b => ?_) entries
    · rw [decide_eq_true_iff] at hab hbc ⊢
      exact String.le_trans hab hbc
    · rw [Bool.or_eq_true, decide_eq_true_iff, decide_eq_true_iff]
      exact String.le_total a.1 b.1
  have hne : (inOrder entries).Pairwise fun a b => a.1 ≠ b.1 :=
    List.pairwise_map.mp (((perm_inOrder entries).map Prod.fst).nodup_iff.mpr h)
  exact hle.imp₂ (fun _ _ hle hne => Std.lt_of_le_of_ne (of_decide_eq_true hle) hne) hne

/-- The walks through the entries of a directory, one for each name. -/
theorem visitsOf_eq_map (path : String) (entries : List (String × FileTree)) :
    visitsOf path entries = entries.map fun e => (e.1, visits (Path.join path e.1) e.2) := by
  induction entries with
  | nil => rfl
  | cons e entries ih => rw [visitsOf, ih, List.map_cons]

/-- The walk through a directory: the directory, and then the walks through its entries in their
order. -/
theorem visits_directory (path : String) (entries : List (String × FileTree)) :
    visits path (.directory entries) =
      ⟨path, false⟩ :: (inOrder entries).flatMap fun e => visits (Path.join path e.1) e.2 := by
  have hsort := List.map_mergeSort (r := fun a b : String × FileTree => decide (a.1 ≤ b.1))
    (s := fun a b : String × List Visit => decide (a.1 ≤ b.1))
    (f := fun e => (e.1, visits (Path.join path e.1) e.2)) (l := entries) (fun _ _ _ _ => rfl)
  rw [visits, visitsOf_eq_map, ← hsort, List.flatMap_map]
  rfl

/-! ## Stops -/

/-- Whether the tree is a file. -/
def isFile : FileTree → Bool
  | file _ => true
  | directory _ => false

end FileTree

/-- A stop of a walk: the way to it, and whether a file is there. -/
structure Stop where
  way : List String
  isFile : Bool

namespace Stop

/-- The stop, for a walk that begins at a path. -/
def visit (path : String) (s : Stop) : Visit :=
  ⟨Path.within path s.way, s.isFile⟩

/-- The stop, for a walk that begins one directory higher. -/
def below (name : String) (s : Stop) : Stop :=
  ⟨name :: s.way, s.isFile⟩

/-- Whether the stop is at a directory whose path is too long, for a walk that begins at `root`. -/
def bars (root : String) (s : Stop) : Bool :=
  !s.isFile && decide (pathLimit < (Path.within root s.way).utf8ByteSize)

/-- Only a directory bars a walk. -/
theorem isFile_of_bars {root : String} {s : Stop} (h : s.bars root = true) : s.isFile = false := by
  rw [bars, Bool.and_eq_true, Bool.not_eq_true'] at h
  exact h.1

end Stop

namespace FileTree

/-- The stops of a walk through a tree, wherever the tree is: one for each file and directory in it, in
the order of their ways. -/
structure Walked (tree : FileTree) (stops : List Stop) : Prop where
  visits : ∀ path, tree.visits path = stops.map (Stop.visit path)
  mem_iff : ∀ s, s ∈ stops ↔ ∃ found, tree.Holds s.way found ∧ found.isFile = s.isFile
  sorted : stops.Pairwise fun s s' => Path.Before s.way s'.way

namespace Walked

/-- The walk through a file stops there and nowhere else. -/
theorem file (bytes : ByteArray) : Walked (.file bytes) [⟨[], true⟩] := by
  refine ⟨fun path => ?_, fun s => ?_, List.pairwise_singleton _ _⟩
  · rw [FileTree.visits]
    rfl
  · rw [List.mem_singleton]
    constructor
    · rintro rfl
      exact ⟨_, .here _, rfl⟩
    · obtain ⟨way, isFile⟩ := s
      rintro ⟨found, hholds, rfl⟩
      cases hholds
      rfl

/-- The walk through a directory: its own stop, and below each name those of the entry. -/
theorem directory {entries : List (String × FileTree)} (distinct : (entries.map Prod.fst).Nodup)
    {stops : String × FileTree → List Stop} (h : ∀ e ∈ entries, Walked e.2 (stops e)) :
    Walked (.directory entries)
      (⟨[], false⟩ :: (inOrder entries).flatMap fun e => (stops e).map (Stop.below e.1)) := by
  have hmem : ∀ e ∈ inOrder entries, e ∈ entries := fun e he => (perm_inOrder entries).mem_iff.mp he
  refine ⟨fun path => ?_, fun s => ?_, ?_⟩
  · rw [visits_directory, List.map_cons, List.map_flatMap]
    refine congrArg _ (List.flatMap_congr fun e he => ?_)
    rw [(h e (hmem e he)).visits, List.map_map]
    rfl
  · obtain ⟨way, isFile⟩ := s
    simp only [List.mem_cons, List.mem_flatMap, List.mem_map]
    constructor
    · rintro (heq | ⟨e, he, s, hs, heq⟩)
      · obtain ⟨rfl, rfl⟩ := Stop.mk.inj heq
        exact ⟨_, .here _, rfl⟩
      · obtain ⟨rfl, rfl⟩ := Stop.mk.inj heq
        obtain ⟨found, hholds, hfile⟩ := ((h e (hmem e he)).mem_iff s).mp hs
        exact ⟨found, .inside (hmem e he) hholds, hfile⟩
    · rintro ⟨found, hholds, hfile⟩
      cases hholds with
      | here => exact .inl (hfile ▸ rfl)
      | @inside _ name inner _ way hentry hinner =>
        refine .inr ⟨(name, inner), (perm_inOrder entries).mem_iff.mpr hentry, ⟨way, isFile⟩, ?_, rfl⟩
        exact ((h _ hentry).mem_iff _).mpr ⟨found, hinner, hfile⟩
  · -- the directory comes first; two stops below it differ in the entry or further down
    rw [List.pairwise_cons, List.pairwise_flatMap]
    refine ⟨fun s hs => ?_, fun e he => ?_, ?_⟩
    · obtain ⟨e, -, hs⟩ := List.mem_flatMap.mp hs
      obtain ⟨s, -, rfl⟩ := List.mem_map.mp hs
      exact .nil
    · exact List.pairwise_map.mpr ((h e (hmem e he)).sorted.imp fun hbefore => .cons hbefore)
    · refine (pairwise_inOrder distinct).imp fun {e e'} hlt s hs s' hs' => ?_
      obtain ⟨s, -, rfl⟩ := List.mem_map.mp hs
      obtain ⟨s', -, rfl⟩ := List.mem_map.mp hs'
      exact .rel (Text.precedes_of_lt hlt)

end Walked

/-- A proper tree has a walk. -/
theorem Proper.exists_walked {tree : FileTree} (h : tree.Proper) : ∃ stops, tree.Walked stops := by
  induction h with
  | file bytes => exact ⟨_, .file bytes⟩
  | directory distinct _ _ ih =>
    choose! stops hstops using ih
    exact ⟨_, .directory distinct hstops⟩

/-! ## Directories that bar a walk -/

/-- At the end of the way is a directory that cannot be entered, because its path is too long. -/
def OutOfReach (root : String) (tree : FileTree) (way : List String) : Prop :=
  (∃ entries, tree.Holds way (.directory entries)) ∧
    pathLimit < (Path.within root way).utf8ByteSize

namespace Walked

variable {tree : FileTree} {stops : List Stop}

/-- A stop at a file is where the tree has one. -/
theorem mem_file_iff (h : tree.Walked stops) {way : List String} :
    ⟨way, true⟩ ∈ stops ↔ ∃ bytes, tree.Holds way (.file bytes) := by
  rw [h.mem_iff]
  constructor
  · rintro ⟨found, hholds, hfile⟩
    cases found with
    | file bytes => exact ⟨bytes, hholds⟩
    | directory entries => cases hfile
  · rintro ⟨bytes, hholds⟩
    exact ⟨_, hholds, rfl⟩

/-- A stop at a directory is where the tree has one. -/
theorem mem_directory_iff (h : tree.Walked stops) {way : List String} :
    ⟨way, false⟩ ∈ stops ↔ ∃ entries, tree.Holds way (.directory entries) := by
  rw [h.mem_iff]
  constructor
  · rintro ⟨found, hholds, hfile⟩
    cases found with
    | file bytes => cases hfile
    | directory entries => exact ⟨entries, hholds⟩
  · rintro ⟨entries, hholds⟩
    exact ⟨_, hholds, rfl⟩

/-- A walk is barred at the first stop whose path is too long. -/
theorem barrier?_eq (h : tree.Walked stops) (root : String) :
    tree.barrier? root = (stops.find? (Stop.bars root)).map fun s => Path.within root s.way := by
  unfold barrier?
  simp only [Text.byteLength_toList]
  rw [h.visits, List.find?_map, Option.map_map]
  rfl

/-- A directory is out of reach exactly if the walk has a stop there that bars it. -/
theorem outOfReach_iff (h : tree.Walked stops) {root : String} {way : List String} :
    OutOfReach root tree way ↔
      ⟨way, false⟩ ∈ stops ∧ Stop.bars root ⟨way, false⟩ = true := by
  rw [OutOfReach, ← h.mem_directory_iff]
  simp [Stop.bars]

/-- The first directory that is out of reach bars a walk. -/
theorem barrier?_cases (h : tree.Walked stops) (root : String) :
    (tree.barrier? root = none ∧ ∀ way, ¬ OutOfReach root tree way) ∨
    ∃ far, tree.barrier? root = some (Path.within root far) ∧ OutOfReach root tree far ∧
      ∀ way, OutOfReach root tree way → way ≠ far → Path.Before far way := by
  rw [h.barrier?_eq root]
  cases hfind : stops.find? (Stop.bars root) with
  | none =>
    refine .inl ⟨rfl, fun way hway => ?_⟩
    obtain ⟨hmem, hbars⟩ := h.outOfReach_iff.mp hway
    exact absurd hbars (List.find?_eq_none.mp hfind _ hmem)
  | some s =>
    obtain ⟨far, isFile⟩ := s
    obtain ⟨hbars, front, back, hstops, hfront⟩ := List.find?_eq_some_iff_append.mp hfind
    obtain rfl : isFile = false := Stop.isFile_of_bars hbars
    have hmem : ⟨far, false⟩ ∈ stops := List.mem_of_find?_eq_some hfind
    refine .inr ⟨far, rfl, h.outOfReach_iff.mpr ⟨hmem, hbars⟩, fun way hway hne => ?_⟩
    obtain ⟨hmem, hbars⟩ := h.outOfReach_iff.mp hway
    have hsorted := h.sorted
    rw [hstops] at hmem hsorted
    -- no stop in front of the first one is out of reach, so this one is behind it
    rcases List.mem_append.mp hmem with hmem | hmem
    · exact absurd hbars (by simpa using hfront _ hmem)
    · rcases List.mem_cons.mp hmem with heq | hmem
      · exact absurd (congrArg Stop.way heq) hne
      · exact (List.pairwise_cons.mp (List.pairwise_append.mp hsorted).2.1).1 _ hmem

/-- A walk is barred by no directory exactly if none is out of reach. -/
theorem barrier?_eq_none_iff (h : tree.Walked stops) (root : String) :
    tree.barrier? root = none ↔ ∀ way, ¬ OutOfReach root tree way := by
  rcases h.barrier?_cases root with ⟨hnone, hreach⟩ | ⟨far, hsome, hfar, -⟩
  · exact ⟨fun _ => hreach, fun _ => hnone⟩
  · constructor
    · intro hnone
      cases hnone.symm.trans hsome
    · intro hreach
      exact absurd hfar (hreach far)

/-- The source files of a tree are taken in the order of their ways. -/
theorem exists_ways (h : tree.Walked stops) (root : String) :
    ∃ ways : List (List String), tree.sources root = ways.map (Path.within root) ∧
      (∀ way, way ∈ ways ↔ (∃ bytes, tree.Holds way (.file bytes)) ∧
        Path.isSource (Path.within root way) = true) ∧
      ways.Pairwise Path.Before := by
  let found := stops.filter fun s => s.isFile && Path.isSource (Path.within root s.way)
  refine ⟨found.map Stop.way, ?_, fun way => ?_, ?_⟩
  · unfold sources
    rw [h.visits, List.filter_map, List.map_map, List.map_map]
    rfl
  · rw [← h.mem_file_iff]
    simp only [found, List.mem_map, List.mem_filter, Bool.and_eq_true]
    constructor
    · rintro ⟨⟨way, isFile⟩, ⟨hmem, rfl, hsource⟩, rfl⟩
      exact ⟨hmem, hsource⟩
    · rintro ⟨hmem, hsource⟩
      exact ⟨⟨way, true⟩, ⟨hmem, rfl, hsource⟩, rfl⟩
  · exact List.pairwise_map.mpr (h.sorted.filter _)

end Walked

/-! ## Finding source files -/

/-- **Source files are found in the order of their paths.** For a directory in a proper tree, there
is one list of increasing ways to all files below it whose name ends in `.hlx` behind something else,
and the paths along them are different. If no directory at or below it is out of reach, so that a
walk comes to all of them, a search of the directory gives exactly these paths. If one is out of
reach, the search fails and names the first.
Source: `is_source_file` and `discover_sources`. -/
theorem sources_found_in_order {tree : FileTree} (htree : tree.Proper) {root : String}
    {entries : List (String × FileTree)} (hroot : tree.lookup root = .ok (.directory entries)) :
    let top : FileTree := .directory entries
    ∃ ways : List (List String),
      (∀ way, way ∈ ways ↔ (∃ bytes, top.Holds way (.file bytes)) ∧
        ∃ front stem, stem ≠ "" ∧ way = front ++ [stem ++ ".hlx"]) ∧
      ways.Pairwise Path.Before ∧ (ways.map (Path.within root)).Nodup ∧
      ((∀ way, ¬ OutOfReach root top way) →
        Disk.sources tree.lookup root = .ok (ways.map (Path.within root))) ∧
      ((∃ way, OutOfReach root top way) → ∃ far, OutOfReach root top far ∧
        (∀ way, OutOfReach root top way → way ≠ far → Path.Before far way) ∧
        Disk.sources tree.lookup root = .error (.scan root (Path.within root far) .tooLong)) := by
  intro top
  have hproper : top.Proper := htree.lookup hroot
  obtain ⟨stops, hwalked⟩ := hproper.exists_walked
  obtain ⟨ways, hsources, hmem, hsorted⟩ := hwalked.exists_ways root
  have hnames : ∀ way ∈ ways, ∀ name ∈ way, Path.IsName name := by
    intro way hway
    obtain ⟨⟨bytes, hholds⟩, -⟩ := (hmem way).mp hway
    exact hproper.isName_of_holds hholds
  refine ⟨ways, fun way => ?_, hsorted, ?_, fun hreach => ?_, fun ⟨way, hway⟩ => ?_⟩
  · rw [hmem]
    refine and_congr_right fun ⟨bytes, hholds⟩ => ?_
    have hne : way ≠ [] := by
      rintro rfl
      cases (show Holds (.directory entries) [] (.file bytes) from hholds)
    exact Path.isSource_within_iff root (hproper.isName_of_holds hholds) hne
  · refine List.pairwise_map.mpr (hsorted.imp_of_mem fun {way way'} hway hway' hbefore heq => ?_)
    obtain rfl := Path.within_inj (hnames way hway) (hnames way' hway') heq
    exact Path.Before.irrefl way hbefore
  · have hnone := (hwalked.barrier?_eq_none_iff root).mpr hreach
    rw [Disk.sources_of_barrier_none hroot hnone, hsources]
  · rcases hwalked.barrier?_cases root with ⟨-, hreach⟩ | ⟨far, hsome, hfar, hfirst⟩
    · exact absurd hway (hreach way)
    · exact ⟨far, hfar, hfirst, Disk.sources_of_barrier_some hroot hsome⟩

/-- A dash sorts in front of a dot and of a slash, yet what is below `a` comes first. A directory is no
source file, whatever its name, and `.hlx` has no extension. -/
theorem sources_found_in_order_of_nested :
    let empty : FileTree := .file ⟨#[]⟩
    let low := [("n.hlx", empty)]
    let mid := [("é.hlx", empty), (".hlx", empty), ("x.hlx", .directory low)]
    let entries := [("a.hlx", empty), ("a-b.hlx", empty), ("a", .directory mid)]
    let tree := ofList [("p/a.hlx", empty), ("p/a-b.hlx", empty), ("p/a/é.hlx", empty),
      ("p/a/.hlx", empty), ("p/a/x.hlx/n.hlx", empty)]
    let paths := ["p/a/x.hlx/n.hlx", "p/a/é.hlx", "p/a-b.hlx", "p/a.hlx"]
    tree.Proper ∧ tree.lookup "p" = .ok (.directory entries) ∧
      (∀ way, ¬ OutOfReach "p" (.directory entries) way) ∧
      Disk.sources tree.lookup "p" = .ok paths ∧
      ∃ ways : List (List String), ways.map (Path.within "p") = paths ∧ ways.Pairwise Path.Before ∧
        ∀ way, way ∈ ways ↔ (∃ bytes, Holds (.directory entries) way (.file bytes)) ∧
          ∃ front stem, stem ≠ "" ∧ way = front ++ [stem ++ ".hlx"] := by
  intro empty low mid entries tree paths
  have htree : tree.Proper := by
    refine proper_ofList ?_
    simp only [List.forall_mem_cons]
    exact ⟨.file _, .file _, .file _, .file _, .file _, by simp⟩
  have hlookup : tree.lookup "p" = .ok (.directory entries) := rfl
  have hfile : ∀ path, visits path empty = [⟨path, true⟩] := fun _ => by rw [visits]
  have hlow : inOrder low = low := by simp [low, inOrder]
  have hmid : inOrder mid = [(".hlx", empty), ("x.hlx", .directory low), ("é.hlx", empty)] := by
    simp [mid, inOrder, List.mergeSort, List.MergeSort.Internal.splitInTwo]
  have hentries : inOrder entries = [("a", .directory mid), ("a-b.hlx", empty), ("a.hlx", empty)] := by
    simp [entries, inOrder, List.mergeSort, List.MergeSort.Internal.splitInTwo]
  have hvisits : visits "p" (.directory entries) = [⟨"p", false⟩, ⟨"p/a", false⟩, ⟨"p/a/.hlx", true⟩,
      ⟨"p/a/x.hlx", false⟩, ⟨"p/a/x.hlx/n.hlx", true⟩, ⟨"p/a/é.hlx", true⟩, ⟨"p/a-b.hlx", true⟩,
      ⟨"p/a.hlx", true⟩] := by
    rw [visits_directory, hentries]
    simp only [List.flatMap_cons, List.flatMap_nil, visits_directory, hmid, hlow, hfile, low]
    decide +kernel
  have hbarrier : barrier? "p" (.directory entries) = none := by
    rw [barrier?, hvisits]
    decide +kernel
  have hsources : Disk.sources tree.lookup "p" = .ok paths := by
    rw [Disk.sources_of_barrier_none hlookup hbarrier, sources, hvisits]
    exact congrArg _ (by decide +kernel)
  obtain ⟨stops, hwalked⟩ := (htree.lookup hlookup).exists_walked
  have hreach := (hwalked.barrier?_eq_none_iff "p").mp hbarrier
  obtain ⟨ways, hmem, hsorted, -, hways, -⟩ := sources_found_in_order htree hlookup
  exact ⟨htree, hlookup, hreach, hsources, ways,
    Except.ok.inj ((hways hreach).symm.trans hsources), hsorted, hmem⟩

end FileTree

end FuncDecl
