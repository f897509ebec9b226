import FuncDecl.Proofs.Declaration.Admission
import FuncDecl.Proofs.Declaration.Shifting

/-!
# Grafting one tree behind another

Two trees of a file are joined at their roots: the functions and variables of the two roots stand in
one scope, the other scopes of the second tree come behind those of the first, with their indices
and places moved. All that a pass does to the second tree it can do to the joined one, as long as
the names it has to do with are not those of functions at the root of the first.

* `Scope.Id.renumber` and `Scope.relocate`: the index and the content of a scope of the second tree,
  moved behind the first.
* `Scope.Tree.Rooted`: the first scope is that of a file, and every scope comes behind the one it is
  nested in. Opening scopes and accepting declarations keep it.
* `Scope.Tree.graft n first second`: the joined tree. `Scope.Tree.get_graft_succ`,
  `Scope.Tree.parent_graft` and `Scope.Tree.find?_graft` say what its scopes are.
* `Scope.Tree.nearest?_graft` and `Scope.Tree.shadowed?_graft`: a name is looked up in the joined
  tree as in the second one.
* `Scope.Tree.graft_nest`, `Scope.Tree.graft_modify` and `Scope.Tree.graft_accept`: opening a scope,
  changing one, and accepting a declaration can be done before or after joining.
* `Compiler.judge_graft`: a declaration is judged in the joined tree as in the second one, with its
  places moved.
-/

namespace FuncDecl

variable {n : Nat}

/-! ## Signatures and scopes -/

/-- A signature, moved behind. -/
def Signature.shift (n : Nat) (s : Signature) : Signature :=
  { s with span := s.span.shift n }

/-- One table behind another. -/
def Table.append {α : Type} (first second : Table α) : Table α :=
  ⟨first.entries ++ second.entries⟩

/-- A name that the first table does not have is entered behind both. -/
theorem Table.append_insert {α : Type} {first : Table α} {name : String} (h : name ∉ first.names)
    (second : Table α) (value : α) :
    first.append (second.insert name value) = (first.append second).insert name value :=
  (congrArg Table.mk (put_append_of_new h value second.entries)).symm

namespace Scope

/-- The index of a scope of the second tree, if the first one has `size` scopes. -/
def Id.renumber (size : Nat) : Scope.Id → Scope.Id
  | 0 => 0
  | id + 1 => id + size

/-- A scope of the second tree, moved behind the first one. -/
def relocate (size n : Nat) (s : Scope) : Scope :=
  { s with
    parent := s.parent.map (Id.renumber size)
    functions := s.functions.map (Signature.shift n) }

/-- The root of the first tree with the content of that of the second. -/
def merge (n : Nat) (first second : Scope) : Scope :=
  { first with
    functions := first.functions.append (second.functions.map (Signature.shift n))
    bindings := first.bindings.append second.bindings }

/-- A function may be entered before or after a scope is moved. -/
theorem relocate_define (size : Nat) (name : String) (signature : Signature) (s : Scope) :
    (s.define name signature).relocate size n = (s.relocate size n).define name (signature.shift n) := by
  unfold define relocate
  rw [Table.map_insert]

/-- A function that the first root does not have may be entered before or after the roots are
joined. -/
theorem merge_define {first : Scope} {name : String} (h : name ∉ first.functions.names)
    (signature : Signature) (second : Scope) :
    first.merge n (second.define name signature) =
      (first.merge n second).define name (signature.shift n) := by
  unfold define merge
  rw [Table.map_insert, Table.append_insert h]

/-- Moving scopes keeps their order. -/
theorem Id.renumber_lt_iff {size : Nat} (hsize : 0 < size) {id other : Scope.Id} :
    Id.renumber size id < Id.renumber size other ↔ id < other := by
  cases id with
  | zero =>
    cases other with
    | zero => exact Iff.rfl
    | succ other => exact iff_of_true (Nat.add_pos_right other hsize) (Nat.succ_pos other)
  | succ id =>
    cases other with
    | zero => exact iff_of_false (Nat.not_lt_zero _) (Nat.not_lt_zero _)
    | succ other =>
      show id + size < other + size ↔ id + 1 < other + 1
      rw [Nat.add_lt_add_iff_right, Nat.add_lt_add_iff_right]

/-- The scopes are of the same kind and stand at the same place. -/
structure SamePlace (s s' : Scope) : Prop where
  kind : s'.kind = s.kind
  indent : s'.indent = s.indent
  parent : s'.parent = s.parent

/-- A scope that stays at its place twice stays there. -/
theorem SamePlace.trans {s s' s'' : Scope} (h : s.SamePlace s') (h' : s'.SamePlace s'') :
    s.SamePlace s'' :=
  ⟨h'.kind.trans h.kind, h'.indent.trans h.indent, h'.parent.trans h.parent⟩

namespace Tree

/-! ## Trees with a root -/

/-- The first scope is that of a file, and every scope comes behind the one it is nested in. -/
structure Rooted (tree : Scope.Tree) : Prop where
  nonempty : 0 < tree.size
  kind : (tree.get root).kind = .root
  indent : (tree.get root).indent = 0
  parents : ∀ id, ∀ parent ∈ (tree.get id).parent, parent < id

/-- A change of a scope that does not move it moves none of the scopes. -/
theorem samePlace_modify (tree : Scope.Tree) (id : Scope.Id) {f : Scope → Scope}
    (hf : ∀ s : Scope, s.SamePlace (f s)) (other : Scope.Id) :
    (tree.get other).SamePlace ((tree.modify id f).get other) := by
  by_cases hother : other = id
  · subst hother
    by_cases hlt : other < tree.size
    · rw [get_modify_self hlt]
      exact hf _
    · have hle := Nat.le_of_not_lt hlt
      rw [get_of_size_le hle, get_of_size_le (by rwa [size_modify])]
      exact ⟨rfl, rfl, rfl⟩
  · rw [get_modify_of_ne hother]
    exact ⟨rfl, rfl, rfl⟩

variable {tree : Scope.Tree}

/-- The list of scopes begins with that of the file. -/
theorem toList_eq_cons (h : 0 < tree.size) :
    tree.scopes.toList = tree.get root :: tree.scopes.toList.tail := by
  rw [get_eq_getD]
  rw [← length_toList] at h
  cases hscopes : tree.scopes.toList with
  | nil => simp [hscopes] at h
  | cons s rest => rfl

/-- An accepted declaration opens a scope and changes three things. -/
theorem accept_eq_modify (parent : Scope.Id) (h : Header) :
    tree.accept parent h = (((tree.nest parent .function "").modify tree.size
      (Scope.bind h.signature.locals)).modify parent
        (Scope.define h.name.text h.signature)).modify tree.size (Scope.rename h.name.text) := rfl

namespace Rooted

/-- The tree of a new file is rooted. -/
theorem new (name : String) (k : Keywords) : (new name k).Rooted := by
  refine ⟨Nat.one_pos, rfl, rfl, fun id parent hparent => ?_⟩
  cases id with
  | zero => exact absurd hparent (by simp [Tree.new, get])
  | succ id => exact absurd hparent (by simp [Tree.new, get, default])

/-- The scope of the file is nested in no other. -/
theorem parent_root (h : tree.Rooted) : (tree.get root).parent = none := by
  rw [Option.eq_none_iff_forall_not_mem]
  exact fun parent hparent => Nat.not_lt_zero _ (h.parents root parent hparent)

/-- Opening a scope below one that is there keeps a tree rooted. -/
theorem nest (h : tree.Rooted) {parent : Scope.Id} (hparent : parent < tree.size)
    (kind : Scope.Kind) (name : String) : (tree.nest parent kind name).Rooted := by
  have hroot : (tree.nest parent kind name).get root = tree.get root :=
    get_nest_of_lt h.nonempty parent kind name
  refine ⟨by rw [size_nest]; exact Nat.succ_pos _, by rw [hroot]; exact h.kind,
    by rw [hroot]; exact h.indent, fun id outer houter => ?_⟩
  rcases Nat.lt_trichotomy id tree.size with hid | rfl | hid
  · rw [get_nest_of_lt hid] at houter
    exact h.parents id outer houter
  · rw [get_nest_size] at houter
    rwa [← Option.some.inj houter]
  · rw [get_of_size_le (by rw [size_nest]; exact hid)] at houter
    exact absurd houter (by simp [default])

/-- A change of a scope that does not move it keeps a tree rooted. -/
theorem modify (h : tree.Rooted) (id : Scope.Id) {f : Scope → Scope}
    (hf : ∀ s : Scope, s.SamePlace (f s)) : (tree.modify id f).Rooted := by
  have hget := tree.samePlace_modify id hf
  refine ⟨by rw [size_modify]; exact h.nonempty, (hget root).kind.trans h.kind,
    (hget root).indent.trans h.indent, fun other parent hparent => ?_⟩
  rw [(hget other).parent] at hparent
  exact h.parents other parent hparent

/-- Accepting a declaration keeps a tree rooted. -/
theorem accept (h : tree.Rooted) {parent : Scope.Id} (hparent : parent < tree.size)
    (header : Header) : (tree.accept parent header).Rooted := by
  rw [accept_eq_modify]
  apply modify
  · apply modify
    · apply modify
      · exact h.nest hparent .function ""
      · exact fun _ => ⟨rfl, rfl, rfl⟩
    · exact fun _ => ⟨rfl, rfl, rfl⟩
  · exact fun _ => ⟨rfl, rfl, rfl⟩

end Rooted

/-- An accepted declaration moves none of the scopes that were there. -/
theorem samePlace_accept (parent : Scope.Id) (h : Header) {id : Scope.Id} (hid : id < tree.size) :
    (tree.get id).SamePlace ((tree.accept parent h).get id) := by
  have hnest := get_nest_of_lt hid parent .function ""
  have hbind := (tree.nest parent .function "").samePlace_modify tree.size
    (f := Scope.bind h.signature.locals) (fun _ => ⟨rfl, rfl, rfl⟩) id
  rw [hnest] at hbind
  rw [accept_eq_modify]
  refine hbind.trans (.trans (samePlace_modify _ _ ?_ id) (samePlace_modify _ _ ?_ id))
  · exact fun _ => ⟨rfl, rfl, rfl⟩
  · exact fun _ => ⟨rfl, rfl, rfl⟩

/-! ## The joined tree -/

/-- The second tree behind the first one, of which the root is in common. -/
def graft (n : Nat) (first second : Scope.Tree) : Scope.Tree where
  keywords := first.keywords
  scopes := ((first.get root).merge n (second.get root) ::
    (first.scopes.toList.tail ++ second.scopes.toList.tail.map (relocate first.size n))).toArray

variable {first second : Scope.Tree}

/-- There is one scope less without that of the file. -/
theorem length_tail_toList (tree : Scope.Tree) : tree.scopes.toList.tail.length = tree.size - 1 := by
  rw [List.length_tail, length_toList]

/-- The number of scopes of the joined tree. -/
theorem size_graft (hfirst : 0 < first.size) (hsecond : 0 < second.size) :
    (graft n first second).size = Id.renumber first.size second.size := by
  rw [← length_toList]
  show (_ :: (_ ++ List.map _ _)).length = _
  rw [List.length_cons, List.length_append, List.length_map, length_tail_toList, length_tail_toList]
  obtain ⟨m, hm⟩ := Nat.exists_eq_succ_of_ne_zero (Nat.ne_of_gt hsecond)
  rw [hm]
  show first.size - 1 + (m + 1 - 1) + 1 = m + first.size
  omega

/-- The other scopes of the second tree are moved. -/
theorem get_graft_succ (hfirst : 0 < first.size) (id : Nat) :
    (graft n first second).get (Id.renumber first.size (id + 1)) =
      (second.get (id + 1)).relocate first.size n := by
  have hlength := length_tail_toList first
  obtain ⟨m, hm⟩ := Nat.exists_eq_succ_of_ne_zero (Nat.ne_of_gt hfirst)
  have hindex : id + m - first.scopes.toList.tail.length = id := by omega
  rw [get_eq_getD, get_eq_getD, List.getD_eq_getElem?_getD, List.getD_eq_getElem?_getD]
  show (_ :: (_ ++ List.map _ _))[id + first.size]?.getD _ = _
  rw [hm, Nat.add_succ, List.getElem?_cons_succ, List.getElem?_append_right (by omega), hindex,
    List.getElem?_map, List.getElem?_tail]
  cases second.scopes.toList[id + 1]? <;> rfl

section Read

variable (hfirst : first.Rooted) (hsecond : second.Rooted) (id : Scope.Id)
include hfirst hsecond

/-- A scope of the second tree keeps its kind. -/
theorem kind_graft :
    ((graft n first second).get (id.renumber first.size)).kind = (second.get id).kind := by
  cases id with
  | zero => exact hfirst.kind.trans hsecond.kind.symm
  | succ id =>
    rw [get_graft_succ hfirst.nonempty]
    rfl

/-- A scope of the second tree keeps its level. -/
theorem indent_graft :
    ((graft n first second).get (id.renumber first.size)).indent = (second.get id).indent := by
  cases id with
  | zero => exact hfirst.indent.trans hsecond.indent.symm
  | succ id =>
    rw [get_graft_succ hfirst.nonempty]
    rfl

/-- A scope of the second tree stays nested in the same one, under its new index. -/
theorem parent_graft :
    ((graft n first second).get (id.renumber first.size)).parent =
      (second.get id).parent.map (Id.renumber first.size) := by
  cases id with
  | zero =>
    show (first.get root).parent = (second.get root).parent.map _
    rw [hfirst.parent_root, hsecond.parent_root]
    rfl
  | succ id =>
    rw [get_graft_succ hfirst.nonempty]
    rfl

variable {name : String} (hname : name ∉ (first.get root).functions.names)
include hname

omit hsecond in
/-- A name that the root of the first tree does not have is found where the second tree has it. -/
theorem find?_graft :
    ((graft n first second).get (id.renumber first.size)).functions.find? name =
      ((second.get id).functions.find? name).map (Signature.shift n) := by
  rw [← Table.find?_map]
  cases id with
  | zero =>
    have hnone : (first.get root).functions.find? name = none := by
      rw [← Table.contains_iff_mem_names, Table.contains, Option.not_isSome_iff_eq_none] at hname
      exact hname
    show (_ ++ _ : List (String × Signature)).lookup name = _
    rw [List.lookup_append]
    show ((first.get root).functions.find? name).or _ = _
    rw [hnone]
    rfl
  | succ id =>
    rw [get_graft_succ hfirst.nonempty]
    rfl

/-- A name that the root of the first tree does not have is looked up in the joined tree as in the
second one. -/
theorem nearest?_graft :
    (graft n first second).nearest? name (id.renumber first.size) =
      (second.nearest? name id).map fun found =>
        (found.1.renumber first.size, found.2.shift n) := by
  fun_induction second.nearest? name id with
  | case1 id signature hfind =>
    rw [nearest?, find?_graft hfirst id hname, hfind]
    rfl
  | case2 id hfind parent hparent hlt ih =>
    rw [nearest?, find?_graft hfirst id hname, hfind, parent_graft hfirst hsecond, hparent, ← ih]
    exact if_pos ((Id.renumber_lt_iff hfirst.nonempty).mpr hlt)
  | case3 id hfind parent hparent hlt =>
    exact absurd (hsecond.parents id parent hparent) hlt
  | case4 id hfind hparent =>
    rw [nearest?, find?_graft hfirst id hname, hfind, parent_graft hfirst hsecond, hparent]
    rfl

/-- What a function hides in the joined tree. -/
theorem shadowed?_graft :
    Compiler.shadowed? (graft n first second)
        ((graft n first second).get (id.renumber first.size)) name =
      (Compiler.shadowed? second (second.get id) name).map (Span.shift n) := by
  unfold Compiler.shadowed?
  rw [parent_graft hfirst hsecond]
  cases (second.get id).parent with
  | none => rfl
  | some outer =>
    show ((graft n first second).nearest? name (outer.renumber first.size)).map _ =
      ((second.nearest? name outer).map _).map _
    rw [nearest?_graft hfirst hsecond outer hname, Option.map_map, Option.map_map]
    rfl

end Read

/-! ## Changes of the joined tree -/

/-- A tree is known by its keywords and its list of scopes. -/
theorem ext_toList {tree tree' : Scope.Tree} (hkeywords : tree.keywords = tree'.keywords)
    (hscopes : tree.scopes.toList = tree'.scopes.toList) : tree = tree' := by
  obtain ⟨keywords, ⟨scopes⟩⟩ := tree
  obtain ⟨keywords', ⟨scopes'⟩⟩ := tree'
  obtain rfl : keywords = keywords' := hkeywords
  obtain rfl : scopes = scopes' := hscopes
  rfl

/-- A scope is opened in the second tree. -/
theorem graft_nest (hfirst : first.Rooted) (hsecond : second.Rooted) (parent : Scope.Id)
    (kind : Scope.Kind) (name : String) :
    (graft n first second).nest (parent.renumber first.size) kind name =
      graft n first (second.nest parent kind name) := by
  refine ext_toList rfl ?_
  have hroot : (second.nest parent kind name).get root = second.get root :=
    get_nest_of_lt hsecond.nonempty parent kind name
  have htail : (second.nest parent kind name).scopes.toList.tail = second.scopes.toList.tail ++
      [{ kind, name, indent := (second.get parent).indent + 1, parent := some parent }] := by
    rw [toList_nest, toList_eq_cons hsecond.nonempty]
    rfl
  rw [toList_nest, indent_graft hfirst hsecond]
  show (_ :: (_ ++ List.map _ _)) ++ [_] = _ :: (_ ++ List.map _ _)
  rw [hroot, htail, List.map_append, List.cons_append, List.append_assoc]
  rfl

/-- A scope of the second tree is changed. -/
theorem graft_modify (hfirst : 0 < first.size) (hsecond : 0 < second.size) (id : Scope.Id)
    {f g : Scope → Scope} (hscope : ∀ s, (f s).relocate first.size n = g (s.relocate first.size n))
    (hroot : ∀ s, id = root → (first.get root).merge n (f s) = g ((first.get root).merge n s)) :
    (graft n first second).modify (id.renumber first.size) g =
      graft n first (second.modify id f) := by
  refine ext_toList rfl ?_
  rw [toList_modify]
  show List.modify (_ :: (_ ++ List.map _ _)) _ _ = _ :: (_ ++ List.map _ _)
  cases id with
  | zero =>
    have htail : (second.modify 0 f).scopes.toList.tail = second.scopes.toList.tail := by
      rw [toList_modify, toList_eq_cons hsecond]
      rfl
    have hget : (second.modify 0 f).get root = f (second.get root) := get_modify_self hsecond f
    rw [htail, hget, hroot _ rfl]
    rfl
  | succ id =>
    have htail : (second.modify (id + 1) f).scopes.toList.tail =
        second.scopes.toList.tail.modify id f := by
      rw [toList_modify, toList_eq_cons hsecond]
      rfl
    have hkeep : (second.modify (id + 1) f).get root = second.get root :=
      get_modify_of_ne (Nat.succ_ne_zero id).symm f
    have hindex : id + first.size = first.scopes.toList.tail.length + id + 1 := by
      rw [length_tail_toList]
      omega
    rw [hkeep, htail, Id.renumber, hindex, List.modify_succ_cons, modify_append_add,
      map_modify hscope]

/-- A declaration of a name that the root of the first tree does not have is accepted in the second
tree. -/
theorem graft_accept (hfirst : first.Rooted) (hsecond : second.Rooted) (parent : Scope.Id) {h : Header}
    (hname : h.name.text ∉ (first.get root).functions.names) :
    (graft n first second).accept (parent.renumber first.size) (h.shift n) =
      graft n first (second.accept parent h) := by
  -- the scope of the body is not the root
  have hbody : second.size ≠ root := Nat.ne_of_gt hsecond.nonempty
  have hopened : 0 < (second.nest parent .function "").size := by
    rw [size_nest]
    exact Nat.succ_pos _
  have hbound : 0 < ((second.nest parent .function "").modify second.size
      (Scope.bind h.signature.locals)).size := by
    rwa [size_modify]
  have hdefined : 0 < (((second.nest parent .function "").modify second.size
      (Scope.bind h.signature.locals)).modify parent
        (Scope.define h.name.text h.signature)).size := by
    rwa [size_modify]
  have hbind := graft_modify (n := n) (f := Scope.bind h.signature.locals)
    (g := Scope.bind h.signature.locals) hfirst.nonempty hopened second.size (fun _ => rfl)
    fun _ hroot => absurd hroot hbody
  have hdefine := graft_modify (n := n) hfirst.nonempty hbound parent
    (relocate_define first.size h.name.text h.signature)
    fun s _ => merge_define hname h.signature s
  have hrename := graft_modify (n := n) (f := Scope.rename h.name.text)
    (g := Scope.rename h.name.text) hfirst.nonempty hdefined second.size (fun _ => rfl)
    fun _ hroot => absurd hroot hbody
  rw [accept_eq_modify, accept_eq_modify, size_graft hfirst.nonempty hsecond.nonempty,
    graft_nest hfirst hsecond]
  show ((_ : Scope.Tree).modify _ (Scope.bind h.signature.locals) |>.modify _
    (Scope.define h.name.text (h.signature.shift n))).modify _ (Scope.rename h.name.text) = _
  rw [hbind, hdefine, hrename]

/-- A file with nothing in it leaves the first tree as it is. -/
theorem graft_new (hfirst : 0 < first.size) (name : String) (k : Keywords) :
    graft n first (new name k) = first := by
  refine ext_toList rfl ?_
  show (first.get root).merge n ((new name k).get root) :: (_ ++ []) = _
  have hroot : (first.get root).merge n ((new name k).get root) = first.get root := by
    show Scope.mk _ _ _ _ ⟨_ ++ []⟩ ⟨_ ++ []⟩ = _
    rw [List.append_nil, List.append_nil]
  rw [hroot, List.append_nil, ← toList_eq_cons hfirst]

end Tree

end Scope

/-! ## Declarations in the joined tree -/

/-- What a declaration becomes, with its places moved behind. -/
def Compiled.shift (n : Nat) (c : Compiled) : Compiled :=
  { c with
    nameSpan := c.nameSpan.shift n
    decorators := c.decorators.map (Decorator.shift n)
    shadows := c.shadows.map (Span.shift n) }

namespace Header

variable {h : Header} {k : Keywords} {parent parent' : Scope}

/-- What speaks against the header apart from the names that the scope has. -/
def misfit? (h : Header) (k : Keywords) (parent : Scope) : Option Fault :=
  [h.operatorOutsideClass? parent, h.staticOutsideClass? k parent, h.privateStatic? k,
    h.asyncUnchecked? k, h.bodilessGlobal? parent].findSome? id

/-- What speaks against a header: first all that has nothing to do with names, then a name that is
taken. -/
theorem objection?_eq_or : h.objection? k parent = (h.misfit? k parent).or (h.duplicate? parent) := by
  have hlist : h.objection? k parent = ([h.operatorOutsideClass? parent,
      h.staticOutsideClass? k parent, h.privateStatic? k, h.asyncUnchecked? k,
      h.bodilessGlobal? parent] ++ [h.duplicate? parent]).findSome? id := rfl
  rw [hlist, List.findSome?_append, misfit?]
  cases h.duplicate? parent <;> rfl

/-- Whether an operator is out of place depends on the kind of the scope alone. -/
theorem operatorOutsideClass?_shift (hkind : parent'.kind = parent.kind) :
    (h.shift n).operatorOutsideClass? parent' =
      (h.operatorOutsideClass? parent).map (Fault.shift n) := by
  have hglyph : (h.shift n).name.glyph = h.name.glyph := rfl
  unfold operatorOutsideClass?
  rw [hglyph, hkind]
  cases h.name.glyph with
  | none => rfl
  | some glyph =>
    dsimp only
    split <;> rfl

/-- What speaks against a header apart from names depends on the kind and the level of the scope, up
to the places. -/
theorem misfit?_shift (hkind : parent'.kind = parent.kind) (hindent : parent'.indent = parent.indent) :
    (h.shift n).misfit? k parent' = (h.misfit? k parent).map (Fault.shift n) := by
  have hflags : (h.shift n).flags = h.flags := rfl
  have hending : (h.shift n).ending = h.ending := rfl
  have hstatic : (h.shift n).staticOutsideClass? k parent' =
      (h.staticOutsideClass? k parent).map (Fault.shift n) := by
    unfold staticOutsideClass?
    rw [hflags, hkind]
    split <;> rfl
  have hpriv : (h.shift n).privateStatic? k = (h.privateStatic? k).map (Fault.shift n) := by
    unfold privateStatic?
    rw [hflags]
    split <;> rfl
  have hasync : (h.shift n).asyncUnchecked? k = (h.asyncUnchecked? k).map (Fault.shift n) := by
    unfold asyncUnchecked?
    rw [hflags]
    split <;> rfl
  have hbody : (h.shift n).bodilessGlobal? parent' =
      (h.bodilessGlobal? parent).map (Fault.shift n) := by
    unfold bodilessGlobal?
    rw [hending, hindent]
    split <;> rfl
  have hfirst : ∀ faults : List (Option Fault),
      (faults.map (Option.map (Fault.shift n))).findSome? id =
        (faults.findSome? id).map (Fault.shift n) := by
    intro faults
    induction faults with
    | nil => rfl
    | cons fault faults ih =>
      cases fault with
      | none => exact ih
      | some fault => rfl
  rw [misfit?, misfit?, operatorOutsideClass?_shift hkind, hstatic, hpriv, hasync, hbody, ← hfirst]
  rfl

/-- Whether a name is taken depends on what is found under it, up to the places. -/
theorem duplicate?_shift (hfind : parent'.functions.find? h.name.text =
      (parent.functions.find? h.name.text).map (Signature.shift n)) :
    (h.shift n).duplicate? parent' = (h.duplicate? parent).map (Fault.shift n) := by
  have hflags : (h.shift n).flags = h.flags := rfl
  have hname : (h.shift n).name.text = h.name.text := rfl
  unfold duplicate?
  rw [hflags, hname, hfind]
  cases parent.functions.find? h.name.text with
  | none => rfl
  | some previous =>
    dsimp only [Option.map_some]
    split <;> rfl

/-- What is printed of a header does not depend on its places. -/
theorem pieces_shift (hkind : parent'.kind = parent.kind) :
    (h.shift n).pieces parent' = h.pieces parent := by
  have hdecorators : (h.shift n).decorators.map (Piece.decorator ·.text) =
      h.decorators.map (Piece.decorator ·.text) := by
    show (h.decorators.map (Decorator.shift n)).map _ = _
    rw [List.map_map]
    rfl
  unfold pieces
  rw [hdecorators, hkind]
  rfl

end Header

namespace Compiler

open Scope.Tree

variable {first tree : Scope.Tree}

/-- What becomes of a header in the joined tree is what becomes of it in the second one, with its
places moved. -/
theorem outcome_graft (c : Compiler) (hfirst : first.Rooted) (htree : tree.Rooted) (id : Scope.Id)
    {h : Header} (hname : h.name.text ∉ (first.get root).functions.names) :
    c.outcome (h.shift n) (graft n first tree)
        ((graft n first tree).get (id.renumber first.size)) =
      (c.outcome h tree (tree.get id)).shift n := by
  have hemit : c.emit (h.shift n) ((graft n first tree).get (id.renumber first.size)) =
      c.emit h (tree.get id) := by
    rw [emit, emit, indent_graft hfirst htree, Header.pieces_shift (kind_graft hfirst htree id)]
  have hshadows := shadowed?_graft (n := n) hfirst htree id hname
  unfold outcome Compiled.shift
  rw [hemit, ← hshadows]
  rfl

section Judge

variable (hfirst : first.Rooted) (htree : tree.Rooted) (id : Scope.Id)
  (hapart : ∀ name ∈ (first.get root).functions.names, (tree.get id).functions.find? name = none)
include hfirst htree hapart

/-- The same speaks against a header, unless it has the name of a function at the root of the first
tree and nothing spoke against it in the second. -/
theorem objection?_graft {h : Header} {k : Keywords}
    (hnew : h.objection? k (tree.get id) = none → h.name.text ∉ (first.get root).functions.names) :
    (h.shift n).objection? k ((graft n first tree).get (id.renumber first.size)) =
      (h.objection? k (tree.get id)).map (Fault.shift n) := by
  rw [Header.objection?_eq_or, Header.objection?_eq_or,
    Header.misfit?_shift (kind_graft hfirst htree id) (indent_graft hfirst htree id)]
  by_cases hname : h.name.text ∈ (first.get root).functions.names
  · have hduplicate : h.duplicate? (tree.get id) = none := by
      unfold Header.duplicate?
      rw [hapart _ hname]
    cases hmisfit : h.misfit? k (tree.get id) with
    | some fault => rfl
    | none =>
      have hnone : h.objection? k (tree.get id) = none := by
        rw [Header.objection?_eq_or, hmisfit, hduplicate]
        rfl
      exact absurd hname (hnew hnone)
  · rw [Header.duplicate?_shift (find?_graft hfirst id hname), Option.map_or]

/-- A declaration that becomes a function in a scope of the second tree becomes the same function in
the joined tree, and one that is refused there is refused in the joined tree, for the same cause. -/
theorem judge_graft (c : Compiler) {ts : List Token} (hts : ts ≠ [])
    (hnew : ∀ found, c.judge ts tree (tree.get id) = .ok found →
      found.1.name.text ∉ (first.get root).functions.names) :
    c.judge (ts.map (Token.shift n)) (graft n first tree)
        ((graft n first tree).get (id.renumber first.size)) =
      shiftResult n (fun found => (found.1.shift n, found.2.shift n))
        (c.judge ts tree (tree.get id)) := by
  have hread := Header.read_shift (n := n) c.dialect hts
  cases hheader : Header.read c.dialect ts with
  | error fault =>
    rw [hheader] at hread
    unfold judge
    rw [hread, hheader]
    rfl
  | ok h =>
    rw [hheader] at hread
    have hobjection := objection?_graft (n := n) hfirst htree id hapart
      fun hnone => hnew _ (judge_of_no_objection hheader hnone)
    cases hfault : h.objection? c.dialect.keywords (tree.get id) with
    | some fault =>
      rw [hfault] at hobjection
      rw [judge_of_objection hread hobjection, judge_of_objection hheader hfault]
      rfl
    | none =>
      rw [hfault] at hobjection
      have hjudge : c.judge ts tree (tree.get id) = .ok (h, c.outcome h tree (tree.get id)) :=
        judge_of_no_objection hheader hfault
      rw [judge_of_no_objection hread hobjection, hjudge,
        outcome_graft c hfirst htree id (hnew _ hjudge)]
      rfl

end Judge

end Compiler

end FuncDecl
