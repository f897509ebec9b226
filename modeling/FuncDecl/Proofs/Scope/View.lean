import FuncDecl.Proofs.Table
import FuncDecl.Scope.Tree

/-!
# The scopes of a tree as a list

What the pass does to a tree is seen in a list of its scopes: a new scope goes to the end, and the
functions of a scope are extended.

* `Scope.Tree.get_nest_of_lt` and `Scope.Tree.get_nest_size`: opening a scope leaves the others, and
  the new one is the last.
* `modify_append_of_lt`, `modify_append_add` and `modify_congr`: how one entry of a list is changed.
* `Scope.unplaced`: the scope without the places of its functions. `Scope.Tree.view` lists the
  scopes of a tree so.
* `Scope.register more`: the scope with more functions behind those that it has.
* `Scope.Tree.view_nest` and `Scope.Tree.view_modify`: what a change of the tree is in the list.
* `Scope.grow_grow` and `Scope.grow_last`: a list that grows twice, in a scope that was there or in
  one that was added.
-/

namespace FuncDecl

/-! ## A scope that was added -/

namespace Scope.Tree

variable (tree : Scope.Tree)

/-- Opening a scope leaves those that are there. -/
theorem get_nest_of_lt {tree : Scope.Tree} {id : Scope.Id} (h : id < tree.size) (parent : Scope.Id)
    (kind : Scope.Kind) (name : String) : (tree.nest parent kind name).get id = tree.get id := by
  rw [get, get, nest]
  simp only [Array.getD_eq_getD_getElem?]
  rw [Array.getElem?_push_lt h, Array.getElem?_eq_getElem h]

/-- The scope that was added is the last one. -/
theorem get_nest_size (parent : Scope.Id) (kind : Scope.Kind) (name : String) :
    (tree.nest parent kind name).get tree.size =
      { kind, name, indent := (tree.get parent).indent + 1, parent := some parent } := by
  rw [get, nest]
  simp only [Array.getD_eq_getD_getElem?, size, Array.getElem?_push_size]
  rfl

/-- The chain of the scope that was added: itself, the one it was opened in, and that of the file.
-/
theorem chainOf_nest (parent : Scope.Id) (kind : Scope.Kind) (name : String) :
    (tree.nest parent kind name).chainOf tree.size = ⟨tree.size, parent, root⟩ := by
  rw [chainOf, get_nest_size]
  rfl

end Scope.Tree

/-! ## Changing one entry of a list -/

section Modify

variable {α β : Type} {f g : α → α} {l m : List α} {i : Nat}

/-- A change in the first of two lists. -/
theorem modify_append_of_lt (h : i < l.length) : (l ++ m).modify i f = l.modify i f ++ m := by
  induction l generalizing i with
  | nil => exact absurd h (Nat.not_lt_zero i)
  | cons x l ih =>
    cases i with
    | zero => rfl
    | succ i => exact congrArg (x :: ·) (ih (Nat.lt_of_succ_lt_succ h))

/-- A change in the second of two lists. -/
theorem modify_append_add (i : Nat) : (l ++ m).modify (l.length + i) f = l ++ m.modify i f := by
  induction l with
  | nil => rw [List.length_nil, Nat.zero_add, List.nil_append, List.nil_append]
  | cons y l ih =>
    rw [List.length_cons, Nat.add_right_comm, List.cons_append, List.modify_succ_cons, ih,
      List.cons_append]

/-- A change of the first entry behind a list. -/
theorem modify_append_length (x : α) : (l ++ x :: m).modify l.length f = l ++ f x :: m :=
  modify_append_add 0

/-- Changing an entry and translating all can be done in either order. -/
theorem map_modify {h : α → β} {k : β → β} (hcomm : ∀ x, h (f x) = k (h x)) :
    (l.modify i f).map h = (l.map h).modify i k := by
  induction l generalizing i with
  | nil => cases i <;> rfl
  | cons x l ih =>
    cases i with
    | zero => exact congrArg (· :: l.map h) (hcomm x)
    | succ i => exact congrArg (h x :: ·) ih

/-- A change is what it does to the entry that is there. -/
theorem modify_congr {x : α} (hx : l[i]? = some x) (hfg : f x = g x) :
    l.modify i f = l.modify i g := by
  induction l generalizing i with
  | nil => simp at hx
  | cons y l ih =>
    cases i with
    | zero =>
      obtain rfl := Option.some.inj hx
      exact congrArg (· :: l) hfg
    | succ i => exact congrArg (y :: ·) (ih hx)

end Modify

/-! ## Scopes without places -/

/-- The signature without its place. -/
def Signature.unplaced (s : Signature) : Signature :=
  { s with span := default }

/-- The functions without their places. -/
def Table.unplaced (t : Table Signature) : Table Signature :=
  ⟨t.entries.map fun entry => (entry.1, entry.2.unplaced)⟩

/-- Leaving out the places leaves the names. -/
theorem Table.names_unplaced (t : Table Signature) : t.unplaced.names = t.names :=
  t.names_map Signature.unplaced

/-- Entering a function and leaving out the places can be done in either order. -/
theorem Table.unplaced_insert (t : Table Signature) (name : String) (s : Signature) :
    (t.insert name s).unplaced = t.unplaced.insert name s.unplaced :=
  t.map_insert Signature.unplaced name s

namespace Scope

/-- The scope without the places of its functions. -/
def unplaced (s : Scope) : Scope :=
  { s with functions := s.functions.unplaced }

/-- The scope with more functions behind those that it has. -/
def register (more : List (String × Signature)) (s : Scope) : Scope :=
  { s with functions := ⟨s.functions.entries ++ more⟩ }

/-- No more functions change nothing. -/
@[simp] theorem register_nil : register [] = id := by
  funext s
  rw [register, List.append_nil]
  rfl

/-- Functions are added one list after the other. -/
theorem register_comp_register (more more' : List (String × Signature)) :
    register more' ∘ register more = register (more ++ more') := by
  funext s
  simp only [Function.comp, register, List.append_assoc]

/-- The names of added functions come behind those that were there. -/
theorem names_register (more : List (String × Signature)) (s : Scope) :
    (s.register more).functions.names = s.functions.names ++ more.map Prod.fst :=
  List.map_append

namespace Tree

variable (tree : Scope.Tree)

/-- The scopes of a tree without the places of their functions. -/
def view : List Scope :=
  tree.scopes.toList.map Scope.unplaced

/-- The list has as many scopes as the tree. -/
theorem length_view : tree.view.length = tree.size := by
  rw [view, List.length_map]
  rfl

/-- A scope that is opened goes to the end of the list. -/
theorem view_nest (parent : Scope.Id) (kind : Scope.Kind) (name : String) :
    (tree.nest parent kind name).view =
      tree.view ++ [{ kind, name, indent := (tree.get parent).indent + 1, parent := some parent }] := by
  rw [view, nest, Array.toList_push, List.map_append]
  rfl

/-- A change of a scope that does not look at places is a change of the list. -/
theorem view_modify {f g : Scope → Scope} (h : ∀ s, (f s).unplaced = g s.unplaced) (id : Scope.Id) :
    (tree.modify id f).view = tree.view.modify id g := by
  rw [view, modify, Array.toList_modify]
  exact map_modify h

/-- What is known of a scope of the list is known of the scope of the tree. -/
theorem get_of_view {tree : Scope.Tree} {id : Scope.Id} {s : Scope} (h : tree.view[id]? = some s) :
    id < tree.size ∧ (tree.get id).unplaced = s := by
  have hlt : id < tree.size := by
    rw [← length_view]
    exact (List.getElem?_eq_some_iff.mp h).1
  refine ⟨hlt, ?_⟩
  rw [view, List.getElem?_map, Array.getElem?_toList] at h
  rw [get, Array.getD_eq_getD_getElem?, Array.getElem?_eq_getElem hlt]
  rw [Array.getElem?_eq_getElem hlt] at h
  exact Option.some.inj h

end Tree

end Scope

/-! ## Growing -/

namespace Scope

variable {v v' v'' x y : List Scope} {id : Scope.Id} {a b : List (String × Signature)}

/-- A scope that is extended stays where it is. -/
theorem getElem?_grow {s : Scope} (hs : v[id]? = some s) (h : v' = v.modify id (register a) ++ x) :
    v'[id]? = some (s.register a) := by
  have hlt : id < (v.modify id (register a)).length := by
    rw [List.length_modify]
    exact (List.getElem?_eq_some_iff.mp hs).1
  rw [h, List.getElem?_append_left hlt, List.getElem?_modify_eq, hs]
  rfl

/-- Adding scopes makes the list longer by their number. -/
theorem length_grow (h : v' = v.modify id (register a) ++ x) : v'.length = v.length + x.length := by
  rw [h, List.length_append, List.length_modify]

/-- A scope is extended twice. -/
theorem grow_grow (hid : id < v.length) (h : v' = v.modify id (register a) ++ x)
    (h' : v'' = v'.modify id (register b) ++ y) :
    v'' = v.modify id (register (a ++ b)) ++ (x ++ y) := by
  have hlt : id < (v.modify id (register a)).length := by rwa [List.length_modify]
  rw [h', h, modify_append_of_lt hlt, List.modify_modify_eq, register_comp_register,
    List.append_assoc]

/-- A scope that was added is extended. -/
theorem grow_last {s : Scope} {n : Nat} (hn : v.length = n)
    (h : v' = v.modify id (register a) ++ [s]) (h' : v'' = v'.modify n (register b) ++ y) :
    v'' = v.modify id (register a) ++ s.register b :: y := by
  have hlength : n = (v.modify id (register a)).length := by rw [List.length_modify, hn]
  rw [h', h, hlength, modify_append_length, List.append_assoc]
  rfl

/-- The scope that was added is found behind all others. -/
theorem getElem?_last {s : Scope} {n : Nat} (hn : v.length = n)
    (h : v' = v.modify id (register a) ++ [s]) : v'[n]? = some s := by
  have hlength : n = (v.modify id (register a)).length := by rw [List.length_modify, hn]
  rw [h, hlength, List.getElem?_concat_length]

end Scope

end FuncDecl
