import FuncDecl.Proofs.Source.Accounts
import FuncDecl.Proofs.Source.Chunks

/-!
# The braces of type declarations

A type declaration waits for its brace while the pass goes on. Here the same is said by looking
ahead from the declaration. Line ends may stand between the two lines, and so may decorators that
belong to no function: these are the only ones that are taken out of the source without an end to
the wait. A brace behind them opens a scope for a declaration that it does not belong to.

* `TypeOpening.FoundIn o cs`: the brace of a declaration is the first one on its line, or else the
  first token of the next line that is passed over.
* `TypeOpening.all`: the openings in a source, in the order of the declarations. They are all that
  are found in it (`TypeOpening.mem_all_iff`).
* `Scope.Tree.typeHeads`: what the scopes of types were declared as.
* `Pass.Opens`: from one state to another the scopes of some types were opened, and it is known what
  waits now. There is one lemma for each way that a line may take.
* `Pass.typeHeads_run`: **the types of a pass** are those of the declarations that find their brace.
* `TypeOpening.FoundIn.between_iff`: what stands between a type declaration and its brace.
* `Settings.types_opened`: **the braces of type declarations**, for a whole source.
-/

namespace FuncDecl

/-! ## Looking ahead -/

namespace Chunk

/-- Whether the chunk is the end of a line. -/
def isNewline : Chunk → Bool
  | newline _ => true
  | _ => false

/-- Whether the chunk has decorators without a function. -/
def isStray : Chunk → Bool
  | stray _ => true
  | _ => false

/-- Whether a type declaration goes on to wait for its brace behind the chunk. -/
def waits (c : Chunk) : Bool :=
  c.isNewline || c.isStray

/-- The brace that a line begins with. -/
def leadingBrace? : Chunk → Option Token
  | line (t :: _) => if t.kind = .openBrace then some t else none
  | _ => none

/-- A line begins with a brace exactly if that is its first token. -/
theorem leadingBrace?_eq_some_iff {c : Chunk} {brace : Token} :
    c.leadingBrace? = some brace ↔ brace.kind = .openBrace ∧ ∃ tail, c = .line (brace :: tail) := by
  unfold leadingBrace?
  split
  · next t tail =>
    simp only [Option.ite_none_right_eq_some, Option.some.injEq, line.injEq, List.cons.injEq]
    constructor
    · rintro ⟨hkind, rfl⟩
      exact ⟨hkind, tail, rfl, rfl⟩
    · rintro ⟨hkind, _, rfl, -⟩
      exact ⟨hkind, rfl⟩
  · next hline =>
    constructor
    · intro h
      exact absurd h (by simp)
    · rintro ⟨-, tail, rfl⟩
      exact absurd rfl (hline brace tail)

end Chunk

/-- The first brace that is opened by the tokens. -/
def openBrace? (ts : List Token) : Option Token :=
  ts.find? (·.kind == .openBrace)

/-- A type declaration and the brace that opens its scope. -/
structure TypeOpening where
  head : TypeHead
  /-- The line of the declaration. -/
  line : List Token
  /-- The chunks between this line and that of the brace. -/
  between : List Chunk
  brace : Token

namespace TypeOpening

/-- The brace is found from the declaration on, where `rest` is what comes behind its line: it is the
first one on the line, or the line has none and the brace comes first on a later one, with only line
ends and stray decorators between. -/
inductive Reaches (o : TypeOpening) : List Chunk → Prop
  | sameLine {rest : List Chunk} (hbetween : o.between = [])
      (hbrace : openBrace? o.line = some o.brace) : Reaches o rest
  | laterLine {tail : List Token} {rest : List Chunk} (hline : openBrace? o.line = none)
      (hbetween : ∀ c ∈ o.between, c.isNewline = true ∨ c.isStray = true)
      (hbrace : o.brace.kind = .openBrace) :
      Reaches o (o.between ++ .line (o.brace :: tail) :: rest)

/-- The declaration is a line of the source, and its brace is found from there on. -/
def FoundIn (o : TypeOpening) (cs : List Chunk) : Prop :=
  ∃ front rest, cs = front ++ .line o.line :: rest ∧ TypeHead.ofLine? o.line = some o.head ∧
    o.Reaches rest

/-- The brace that a declaration without one on its line finds. -/
def awaited? (cs : List Chunk) : Option Token :=
  (cs.dropWhile Chunk.waits).head?.bind Chunk.leadingBrace?

/-- The opening of the type that a line declares, if its brace is found. -/
def ofLine? (line : List Token) (rest : List Chunk) : Option TypeOpening :=
  (TypeHead.ofLine? line).bind fun head =>
    ((openBrace? line).map fun brace => ⟨head, line, [], brace⟩).or
      ((awaited? rest).map fun brace => ⟨head, line, rest.takeWhile Chunk.waits, brace⟩)

/-- The openings in a source, in the order of the declarations. -/
def all : List Chunk → List TypeOpening
  | [] => []
  | .line line :: cs => (ofLine? line cs).toList ++ all cs
  | _ :: cs => all cs

/-- A chunk that does not end the wait is passed over. -/
theorem awaited?_cons_of_waits {c : Chunk} (h : c.waits = true) (cs : List Chunk) :
    awaited? (c :: cs) = awaited? cs := by
  rw [awaited?, List.dropWhile_cons_of_pos h, ← awaited?]

/-- Another chunk gives the brace that it begins with, or none. -/
theorem awaited?_cons {c : Chunk} (h : c.waits = false) (cs : List Chunk) :
    awaited? (c :: cs) = c.leadingBrace? := by
  rw [awaited?, List.dropWhile_cons_of_neg (by simp [h])]
  rfl

/-- A declaration has an opening exactly if it reaches its brace. -/
theorem ofLine?_eq_some_iff {line : List Token} {rest : List Chunk} {o : TypeOpening} :
    ofLine? line rest = some o ↔
      o.line = line ∧ TypeHead.ofLine? line = some o.head ∧ o.Reaches rest := by
  rw [ofLine?, Option.bind_eq_some_iff]
  constructor
  · rintro ⟨head, hhead, h⟩
    cases hbrace : openBrace? line with
    | some brace =>
      rw [hbrace, Option.map_some, Option.some_or] at h
      obtain rfl := Option.some.inj h
      exact ⟨rfl, hhead, .sameLine rfl hbrace⟩
    | none =>
      rw [hbrace, Option.map_none, Option.none_or] at h
      obtain ⟨brace, hawaited, rfl⟩ := Option.map_eq_some_iff.mp h
      obtain ⟨c, hc, hleading⟩ := Option.bind_eq_some_iff.mp hawaited
      obtain ⟨hkind, tail, rfl⟩ := Chunk.leadingBrace?_eq_some_iff.mp hleading
      obtain ⟨more, hmore⟩ := List.head?_eq_some_iff.mp hc
      have hrest : rest = rest.takeWhile Chunk.waits ++ .line (brace :: tail) :: more := by
        rw [← hmore, List.takeWhile_append_dropWhile]
      refine ⟨rfl, hhead, ?_⟩
      have hbetween : ∀ c ∈ rest.takeWhile Chunk.waits, c.isNewline = true ∨ c.isStray = true :=
        fun c hc => by simpa [Chunk.waits] using List.mem_takeWhile_imp hc
      have hreaches : Reaches ⟨head, line, rest.takeWhile Chunk.waits, brace⟩
          (rest.takeWhile Chunk.waits ++ .line (brace :: tail) :: more) :=
        .laterLine hbrace hbetween hkind
      rwa [← hrest] at hreaches
  · rintro ⟨rfl, hhead, h⟩
    refine ⟨o.head, hhead, ?_⟩
    cases h with
    | sameLine hbetween hbrace =>
      rw [hbrace, Option.map_some, Option.some_or, ← hbetween]
    | @laterLine tail more hline hbetween hbrace =>
      have hwaits : ∀ c ∈ o.between, c.waits = true := fun c hc => by
        simpa [Chunk.waits] using hbetween c hc
      have hstop : ¬ (Chunk.line (o.brace :: tail)).waits = true := Bool.false_ne_true
      have hawaited : awaited? (o.between ++ .line (o.brace :: tail) :: more) = some o.brace := by
        rw [awaited?, List.dropWhile_append_of_pos hwaits, List.dropWhile_cons_of_neg hstop]
        exact Chunk.leadingBrace?_eq_some_iff.mpr ⟨hbrace, tail, rfl⟩
      rw [hline, hawaited, List.takeWhile_append_of_pos hwaits, List.takeWhile_cons_of_neg hstop,
        List.append_nil]
      rfl

/-- An opening is found at the first chunk or behind it. -/
theorem foundIn_cons_iff {o : TypeOpening} {c : Chunk} {cs : List Chunk} :
    o.FoundIn (c :: cs) ↔
      (c = .line o.line ∧ TypeHead.ofLine? o.line = some o.head ∧ o.Reaches cs) ∨ o.FoundIn cs := by
  constructor
  · rintro ⟨front, rest, hcs, hhead, hreaches⟩
    cases front with
    | nil =>
      obtain ⟨rfl, rfl⟩ := List.cons.inj hcs
      exact .inl ⟨rfl, hhead, hreaches⟩
    | cons first front => exact .inr ⟨front, rest, (List.cons.inj hcs).2, hhead, hreaches⟩
  · rintro (⟨rfl, hhead, hreaches⟩ | ⟨front, rest, rfl, hhead, hreaches⟩)
    · exact ⟨[], cs, rfl, hhead, hreaches⟩
    · exact ⟨c :: front, rest, rfl, hhead, hreaches⟩

/-- The openings of a source are all that are found in it. -/
theorem mem_all_iff {o : TypeOpening} {cs : List Chunk} : o ∈ all cs ↔ o.FoundIn cs := by
  induction cs with
  | nil =>
    refine ⟨fun h => absurd h List.not_mem_nil, ?_⟩
    rintro ⟨front, rest, hcs, -⟩
    exact absurd hcs (by simp)
  | cons c cs ih =>
    rw [foundIn_cons_iff, ← ih]
    cases c with
    | line line =>
      rw [all, List.mem_append, Option.mem_toList, ofLine?_eq_some_iff, Chunk.line.injEq]
      refine or_congr_left ⟨?_, ?_⟩
      · rintro ⟨rfl, h⟩
        exact ⟨rfl, h⟩
      · rintro ⟨rfl, h⟩
        exact ⟨rfl, h⟩
    | newline t => simp [all]
    | declaration unit => simp [all]
    | stray unit => simp [all]

/-- A line that declares a type begins with a word and no brace. -/
theorem leadingBrace?_of_head {line : List Token} {head : TypeHead}
    (h : TypeHead.ofLine? line = some head) : (Chunk.line line).leadingBrace? = none := by
  rw [Option.eq_none_iff_forall_ne_some]
  intro brace hbrace
  obtain ⟨hkind, tail, heq⟩ := Chunk.leadingBrace?_eq_some_iff.mp hbrace
  obtain rfl := Chunk.line.inj heq
  rw [TypeHead.ofLine?, if_neg (by rw [hkind]; decide)] at h
  exact absurd h (by simp)

section Line

variable {line : List Token} {head : TypeHead}

/-- A line that declares no type has no opening. -/
theorem ofLine?_of_none (h : TypeHead.ofLine? line = none) (rest : List Chunk) :
    ofLine? line rest = none := by
  rw [ofLine?, h]
  rfl

/-- The brace of a declaration is on its line, or else awaited. -/
theorem map_brace_ofLine? (h : TypeHead.ofLine? line = some head) (rest : List Chunk) :
    (ofLine? line rest).map brace = (openBrace? line).or (awaited? rest) := by
  rw [ofLine?, h]
  cases hline : openBrace? line with
  | some found => rfl
  | none =>
    cases hrest : awaited? rest with
    | some found => rfl
    | none => rfl

/-- The opening of a declaration is for the type that it declares. -/
theorem map_head_ofLine? (h : TypeHead.ofLine? line = some head) (rest : List Chunk) :
    (ofLine? line rest).map TypeOpening.head =
      ((openBrace? line).or (awaited? rest)).bind fun _ => some head := by
  rw [← map_brace_ofLine? h]
  cases hopening : ofLine? line rest with
  | none => rfl
  | some o =>
    have hhead := (ofLine?_eq_some_iff.mp hopening).2.1
    rw [h] at hhead
    rw [hhead]
    rfl

end Line

/-- The braces come in the order of the declarations, and a brace that is awaited from before comes
first. -/
theorem braces_sublist (cs : List Chunk) :
    List.Sublist ((awaited? cs).toList ++ (all cs).map brace) (cs.flatMap Chunk.tokens) := by
  induction cs with
  | nil => exact .slnil
  | cons c cs ih =>
    have hlater : List.Sublist ((all cs).map brace) (cs.flatMap Chunk.tokens) :=
      (List.sublist_append_right _ _).trans ih
    rw [List.flatMap_cons]
    cases c with
    | newline t =>
      rw [awaited?_cons_of_waits rfl]
      exact ih.trans (List.sublist_append_right _ _)
    | stray unit =>
      rw [awaited?_cons_of_waits rfl]
      exact ih.trans (List.sublist_append_right _ _)
    | declaration unit =>
      rw [awaited?_cons rfl]
      exact hlater.trans (List.sublist_append_right _ _)
    | line line =>
      have hone : ∀ {t : Token}, t ∈ line → List.Sublist ([t] ++ (all cs).map brace)
          (line ++ cs.flatMap Chunk.tokens) := fun ht =>
        (List.singleton_sublist.mpr ht).append hlater
      rw [awaited?_cons rfl, all, List.map_append, ← Option.toList_map]
      cases hhead : TypeHead.ofLine? line with
      | some head =>
        rw [leadingBrace?_of_head hhead, map_brace_ofLine? hhead]
        cases hbrace : openBrace? line with
        | some found => exact hone (List.mem_of_find?_eq_some hbrace)
        | none => exact ih.trans (List.sublist_append_right _ _)
      | none =>
        rw [ofLine?_of_none hhead]
        cases hbrace : (Chunk.line line).leadingBrace? with
        | some found =>
          obtain ⟨-, tail, heq⟩ := Chunk.leadingBrace?_eq_some_iff.mp hbrace
          obtain rfl := Chunk.line.inj heq
          exact hone List.mem_cons_self
        | none => exact hlater.trans (List.sublist_append_right _ _)

end TypeOpening

/-! ## The scopes of types -/

namespace Scope.Tree

variable {tree : Scope.Tree}

/-- What the scopes of types were declared as, in the order of their indices. -/
def typeHeads (tree : Scope.Tree) : List TypeHead :=
  (tree.scopes.toList.filter (·.kind.hasMethods)).map fun s => ⟨s.kind, s.name⟩

/-- A scope that is opened is the last of the types, if it is one. -/
theorem typeHeads_nest (parent : Scope.Id) (kind : Scope.Kind) (name : String) :
    (tree.nest parent kind name).typeHeads =
      tree.typeHeads ++ if kind.hasMethods then [⟨kind, name⟩] else [] := by
  unfold typeHeads
  rw [toList_nest, List.filter_append, List.map_append, List.filter_singleton]
  cases kind.hasMethods with
  | true => rfl
  | false => rfl

/-- A function that is accepted changes nothing about types. -/
theorem typeHeads_accept {parent : Scope.Id} (hparent : parent < tree.size) (h : Header) :
    (tree.accept parent h).typeHeads = tree.typeHeads := by
  unfold typeHeads
  rw [toList_accept hparent, List.filter_append, List.map_append,
    map_filter_modify (f := Scope.define h.name.text h.signature) (fun _ => rfl) fun _ => rfl]
  exact List.append_nil _

end Scope.Tree

namespace Pass

variable {p : Pass}

/-- What waits for its brace is a type. -/
def AwaitsType (p : Pass) : Prop :=
  ∀ head ∈ p.pending, head.kind.hasMethods = true

/-- From the first state to the second one the scopes of some types were opened, and it is known what
waits now. -/
structure Opens (p : Pass) (heads : List TypeHead) (pending : Option TypeHead) (p' : Pass) : Prop where
  heads : p'.tree.typeHeads = p.tree.typeHeads ++ heads
  pending : p'.pending = pending

namespace Opens

/-- Nothing is opened where nothing happens. -/
theorem refl (p : Pass) : p.Opens [] p.pending p :=
  ⟨(List.append_nil _).symm, rfl⟩

/-- What is opened in two steps, one after the other. -/
theorem trans {p p' p'' : Pass} {hs hs' : List TypeHead} {pending pending' : Option TypeHead}
    (h : p.Opens hs pending p') (h' : p'.Opens hs' pending' p'') : p.Opens (hs ++ hs') pending' p'' :=
  ⟨by rw [h'.heads, h.heads, List.append_assoc], h'.pending⟩

/-- A brace opens the scope of what waits for it. -/
theorem stepToken_of_brace (hp : p.AwaitsType) {t : Token} (ht : t.kind = .openBrace) :
    p.Opens p.pending.toList none (p.stepToken t).1 := by
  have hstep : (p.stepToken t).1 = p.openBrace t.span := by
    rw [stepToken, ht]
  rw [hstep]
  rcases p.openBrace_cases t.span with ⟨head, hpending, heq⟩ | ⟨hpending, heq⟩
  all_goals rw [heq, hpending]
  · refine ⟨?_, rfl⟩
    rw [Scope.Tree.typeHeads_nest, if_pos (hp head hpending)]
    rfl
  · exact ⟨(List.append_nil _).symm, rfl⟩

/-- Another token opens no scope of a type. -/
theorem stepToken_of_ne {t : Token} (ht : t.kind ≠ .openBrace) (p : Pass) :
    p.Opens [] p.pending (p.stepToken t).1 := by
  rcases p.stepToken_cases t with
    ⟨hkind, -⟩ | ⟨-, brace, braces, -, heq⟩ | ⟨-, -, heq⟩ | ⟨-, -, heq⟩
  · exact absurd hkind ht
  · rw [heq]
    exact ⟨(List.append_nil _).symm, rfl⟩
  · rw [heq]
    exact refl p
  · rw [heq]
    exact refl p

/-- Where nothing waits, no scope of a type is opened. -/
theorem stepTokens_of_none (hp : p.pending = none) (ts : List Token) :
    p.Opens [] none (p.stepTokens ts).1 := by
  induction ts generalizing p with
  | nil => exact ⟨(List.append_nil _).symm, hp⟩
  | cons t ts ih =>
    have hstep : p.Opens [] none (p.stepToken t).1 := by
      by_cases ht : t.kind = .openBrace
      · have hbrace := stepToken_of_brace (p := p) (by simp [AwaitsType, hp]) ht
        rwa [hp] at hbrace
      · have hother := stepToken_of_ne ht p
        rwa [hp] at hother
    rw [stepTokens_cons]
    exact hstep.trans (ih hstep.pending)

/-- The first brace on a line opens the scope of what waits for it. -/
theorem stepTokens (hp : p.AwaitsType) (ts : List Token) :
    p.Opens ((openBrace? ts).bind fun _ => p.pending).toList
      ((openBrace? ts).elim p.pending fun _ => none) (p.stepTokens ts).1 := by
  induction ts generalizing p with
  | nil => exact refl p
  | cons t ts ih =>
    rw [stepTokens_cons]
    by_cases ht : t.kind = .openBrace
    · have hfirst : openBrace? (t :: ts) = some t := List.find?_cons_of_pos (by simp [ht])
      have hstep := stepToken_of_brace hp ht
      have hall := hstep.trans (stepTokens_of_none hstep.pending ts)
      rw [List.append_nil] at hall
      rw [hfirst]
      exact hall
    · have hfirst : openBrace? (t :: ts) = openBrace? ts := List.find?_cons_of_neg (by simp [ht])
      have hstep := stepToken_of_ne ht p
      have hrest := ih (p := (p.stepToken t).1) (by rwa [AwaitsType, hstep.pending])
      rw [hstep.pending] at hrest
      rw [hfirst]
      exact hstep.trans hrest

/-- A type declaration is opened by a brace on its line, or waits. -/
theorem stepLine_of_head {line : List Token} {head : TypeHead} (p : Pass)
    (h : TypeHead.ofLine? line = some head) :
    p.Opens ((openBrace? line).bind fun _ => some head).toList
      ((openBrace? line).elim (some head) fun _ => none) (p.stepLine line).1 := by
  have hannounce : p.announce line = { p with pending := some head } := by
    unfold announce
    rw [h]
  have hstep := stepTokens (p := { p with pending := some head })
    (fun _ hhead => Option.some.inj hhead ▸ TypeHead.hasMethods_kind h) line
  rw [Pass.stepLine, hannounce]
  exact ⟨hstep.heads, hstep.pending⟩

/-- A line that declares no type ends the wait: it opens the scope if it begins with a brace. -/
theorem stepLine_of_none (hp : p.AwaitsType) {line : List Token} (h : TypeHead.ofLine? line = none) :
    p.Opens ((Chunk.line line).leadingBrace?.bind fun _ => p.pending).toList none
      (p.stepLine line).1 := by
  rw [Pass.stepLine]
  cases hbrace : (Chunk.line line).leadingBrace? with
  | some brace =>
    obtain ⟨hkind, tail, heq⟩ := Chunk.leadingBrace?_eq_some_iff.mp hbrace
    obtain rfl := Chunk.line.inj heq
    have hannounce : p.announce (brace :: tail) = p := by
      rw [announce, h]
      exact if_pos hkind
    have hfirst : openBrace? (brace :: tail) = some brace := List.find?_cons_of_pos (by simp [hkind])
    have hstep := stepTokens hp (brace :: tail)
    rw [hfirst] at hstep
    rw [hannounce]
    exact hstep
  | none =>
    have hannounce : p.announce line = { p with pending := none } := by
      unfold announce
      rw [h]
      cases line with
      | nil => rfl
      | cons t line =>
        have ht : ¬ t.kind = .openBrace := fun hkind => by
          rw [Chunk.leadingBrace?, if_pos hkind] at hbrace
          exact absurd hbrace (by simp)
        exact if_neg ht
    have hstep := stepTokens_of_none (p := { p with pending := none }) rfl line
    rw [hannounce]
    exact ⟨hstep.heads, hstep.pending⟩

/-- A declaration of a function opens no type and ends the wait. -/
theorem stepDeclaration (ctx : PassContext) (hscope : p.scope < p.tree.size) (unit : List Token) :
    p.Opens [] none (p.stepDeclaration ctx unit).1 := by
  rcases stepDeclaration_cases ctx hscope unit with ⟨fault, -, -, hstep⟩ | ⟨header, -, -, -, hstep⟩
  · rw [hstep]
    exact ⟨Scope.Tree.typeHeads_nest _ _ _, rfl⟩
  · rw [hstep]
    exact ⟨(Scope.Tree.typeHeads_accept hscope header).trans (List.append_nil _).symm, rfl⟩

end Opens

/-- What is opened in the rest of a pass, if it is known what is opened by the first step. -/
theorem Opens.typeHeads_eq {p' p'' : Pass} {hs : List TypeHead} {pending : Option TypeHead}
    (h : p.Opens hs pending p') {cs : List Chunk}
    (hrest : p''.tree.typeHeads = p'.tree.typeHeads ++
      (((TypeOpening.awaited? cs).bind fun _ => p'.pending).toList ++
        (TypeOpening.all cs).map TypeOpening.head)) :
    p''.tree.typeHeads = p.tree.typeHeads ++
      (hs ++ (((TypeOpening.awaited? cs).bind fun _ => pending).toList ++
        (TypeOpening.all cs).map TypeOpening.head)) := by
  rw [hrest, h.heads, h.pending, List.append_assoc]

/-- **The types of a pass.** The scopes that are opened for types are that of the declaration which waits
from before, if it reaches its brace, and those of the openings in the chunks. -/
theorem typeHeads_run (ctx : PassContext) {fs : List Compiled} (hground : p.Grounded fs)
    (hp : p.AwaitsType) (cs : List Chunk) :
    (p.run ctx cs).1.tree.typeHeads = p.tree.typeHeads ++
      (((TypeOpening.awaited? cs).bind fun _ => p.pending).toList ++
        (TypeOpening.all cs).map TypeOpening.head) := by
  induction cs generalizing p fs with
  | nil => exact (List.append_nil _).symm
  | cons c cs ih =>
    -- newlines and strays leave a waiting head waiting; every other chunk settles it
    have hground' := hground.step ctx c
    rw [run_cons]
    cases c with
    | newline t => exact ih hground hp
    | stray unit => exact ih hground hp
    | declaration unit =>
      have hstep := Opens.stepDeclaration ctx hground.scope_lt unit
      have hrun := hstep.typeHeads_eq (ih hground' (by simp [AwaitsType, hstep.pending]))
      rw [Option.bind_fun_none] at hrun
      exact hrun
    | line line =>
      rw [TypeOpening.awaited?_cons rfl, TypeOpening.all, List.map_append, ← Option.toList_map]
      cases hhead : TypeHead.ofLine? line with
      | some head =>
        have hstep := Opens.stepLine_of_head p hhead
        rw [TypeOpening.leadingBrace?_of_head hhead, TypeOpening.map_head_ofLine? hhead]
        cases hbrace : openBrace? line with
        | some brace =>
          rw [hbrace] at hstep
          have hrun := hstep.typeHeads_eq (ih hground' (by simp [AwaitsType, hstep.pending]))
          rw [Option.elim_some, Option.bind_fun_none] at hrun
          exact hrun
        | none =>
          rw [hbrace] at hstep
          have hawaits : (p.stepLine line).1.AwaitsType := by
            intro waiting hwaiting
            rw [hstep.pending] at hwaiting
            rw [← Option.some.inj hwaiting]
            exact TypeHead.hasMethods_kind hhead
          exact hstep.typeHeads_eq (ih hground' hawaits)
      | none =>
        have hstep := Opens.stepLine_of_none hp hhead
        have hrun := hstep.typeHeads_eq (ih hground' (by simp [AwaitsType, hstep.pending]))
        rw [Option.bind_fun_none] at hrun
        rw [TypeOpening.ofLine?_of_none hhead]
        exact hrun

end Pass

/-! ## What stands between -/

/-- A chunk of a source is the end of a line exactly if it has only line ends. -/
theorem Dialect.isNewline_iff (d : Dialect) (ts : List Token) :
    ∀ c ∈ d.chunks ts, c.isNewline = true ↔ ∀ t ∈ c.tokens, t.kind = .newline := by
  refine d.chunks_induct
    (motive := fun _ cs => ∀ c ∈ cs, c.isNewline = true ↔ ∀ t ∈ c.tokens, t.kind = .newline)
    (by simp) ?_ ?_ ?_ ts
  · intro t rest ht ih
    refine List.forall_mem_cons.mpr ⟨?_, ih⟩
    simp [Chunk.isNewline, Chunk.tokens, ht]
  · intro t ts rest found ht _ _ ih
    refine List.forall_mem_cons.mpr ⟨?_, ih⟩
    rw [Chunk.tokens_ofUnit]
    cases found <;> simp [Chunk.ofUnit, Chunk.isNewline, ht]
  · intro t ts rest hline _ _ ih
    refine List.forall_mem_cons.mpr ⟨?_, ih⟩
    have ht := hline t List.mem_cons_self
    simp [Chunk.isNewline, Chunk.tokens, ht]

/-- Between a type declaration and its brace there are only line ends, unless there are decorators that
belong to no function. -/
theorem TypeOpening.FoundIn.between_iff {o : TypeOpening} {d : Dialect} {ts : List Token}
    (h : o.FoundIn (d.chunks ts)) :
    (∀ t ∈ o.between.flatMap Chunk.tokens, t.kind = .newline) ↔
      ∀ c ∈ o.between, c.isStray = false := by
  obtain ⟨front, rest, hcs, -, hreaches⟩ := h
  cases hreaches with
  | sameLine hbetween _ => simp [hbetween]
  | @laterLine tail more hline hbetween hbrace =>
    have hnewline : ∀ c ∈ o.between, c.isNewline = true ↔ ∀ t ∈ c.tokens, t.kind = .newline := by
      intro c hc
      refine d.isNewline_iff ts c ?_
      rw [hcs]
      simp [hc]
    constructor
    · intro htokens c hc
      have hc' := (hnewline c hc).mpr fun t ht => htokens t (List.mem_flatMap.mpr ⟨c, hc, ht⟩)
      cases c with
      | newline t => rfl
      | declaration unit => rfl
      | line line => rfl
      | stray unit => exact absurd hc' Bool.false_ne_true
    · intro hstray t ht
      obtain ⟨c, hc, ht⟩ := List.mem_flatMap.mp ht
      have hc' := (hbetween c hc).resolve_right (by rw [hstray c hc]; exact Bool.false_ne_true)
      exact (hnewline c hc).mp hc' t ht

/-! ## The whole source -/

/-- **The braces of type declarations.** The scopes of types in a source are those of the declarations
that find their brace: on their line, where it is the first one, or at the front of a later line. The
braces are different ones, in the order of the scopes. Between the line of a declaration and a brace on
a later one there are only line ends, so that the brace begins the next line with any tokens, exactly if
there are no decorators without a function.
Source: `scan_line`, `type_declaration`, `compile_declaration` and `compile_source`. -/
theorem Settings.types_opened (s : Settings) (name : String) {source : String} {ts : List Token}
    (hscan : Token.scan source = .ok ts) :
    let result := s.compile name source
    let chunks := (s.context name source).compiler.dialect.chunks ts
    ∃ openings : List TypeOpening,
      (result.scopes.scopes.toList.filter (·.kind.hasMethods)).map (fun scope =>
        (⟨scope.kind, scope.name⟩ : TypeHead)) = openings.map TypeOpening.head ∧
      List.Sublist (openings.map TypeOpening.brace) ts ∧
      (∀ o, o ∈ openings ↔ o.FoundIn chunks) ∧
      ∀ o ∈ openings, (∀ t ∈ o.between.flatMap Chunk.tokens, t.kind = .newline) ↔
        ∀ c ∈ o.between, c.isStray = false := by
  intro result chunks
  refine ⟨TypeOpening.all chunks, ?_, ?_, fun o => TypeOpening.mem_all_iff, fun o ho => ?_⟩
  · have hrun := Pass.typeHeads_run (s.context name source) (.new name s.spellings)
      (fun _ h => absurd h (by simp)) chunks
    have hresult : result = _ := s.compile_of_scan name hscan
    rw [Option.bind_fun_none] at hrun
    rw [hresult]
    exact hrun
  · have hsublist := TypeOpening.braces_sublist chunks
    rw [Dialect.flatMap_tokens_chunks] at hsublist
    exact (List.sublist_append_right _ _).trans hsublist
  · exact (TypeOpening.mem_all_iff.mp ho).between_iff

/-- A brace on the next line, one behind another line, one on the same line and one behind stray
decorators: all but the second open the scope of a type. -/
theorem Settings.types_opened_of_four :
    let source := "class A\n\x7b\n\x7d\nenum B\nx\n\x7b\n\x7d\nstruct C \x7b\n\x7d\nunion D\n@y\n\x7b\n\x7d"
    let ts := ((Token.scanWithin 60 0 source.toList).bind Except.toOption).getD []
    let s : Settings := {}
    Token.scan source = .ok ts ∧ ∃ openings : List TypeOpening,
      openings.map TypeOpening.head = [⟨.classType, "A"⟩, ⟨.structType, "C"⟩, ⟨.unionType, "D"⟩] ∧
      List.Sublist (openings.map TypeOpening.brace) ts ∧
      ∀ o ∈ openings, o.FoundIn ((s.context "v" source).compiler.dialect.chunks ts) := by
  intro source ts s
  have hscan : Token.scan source = .ok ts := Token.scan_of_scanWithin 60 (by decide +kernel)
  have htypes : ((s.compile "v" source).scopes.scopes.toList.filter (·.kind.hasMethods)).map
      (fun scope => (⟨scope.kind, scope.name⟩ : TypeHead)) =
      [⟨.classType, "A"⟩, ⟨.structType, "C"⟩, ⟨.unionType, "D"⟩] :=
    Settings.view_compile _ 60 (fun r => (r.scopes.scopes.toList.filter (·.kind.hasMethods)).map
      fun scope => (⟨scope.kind, scope.name⟩ : TypeHead)) (by decide +kernel)
  obtain ⟨openings, hheads, hbraces, hfound, -⟩ := Settings.types_opened s "v" hscan
  exact ⟨hscan, openings, hheads.symm.trans htypes, hbraces, fun o ho => (hfound o).mp ho⟩

/-- The line with decorators does not end the wait of the class, although the brace comes behind it. -/
theorem Settings.type_opened_past_stray_decorators :
    let source := "class A\n@x\n\x7b\n\x7d\n"
    let ts : List Token := [⟨.ident, "class", ⟨0, 5⟩⟩, ⟨.ident, "A", ⟨6, 7⟩⟩,
      ⟨.newline, "\n", ⟨7, 8⟩⟩, ⟨.atSign, "@", ⟨8, 9⟩⟩, ⟨.ident, "x", ⟨9, 10⟩⟩,
      ⟨.newline, "\n", ⟨10, 11⟩⟩, ⟨.openBrace, "\x7b", ⟨11, 12⟩⟩, ⟨.newline, "\n", ⟨12, 13⟩⟩,
      ⟨.closeBrace, "\x7d", ⟨13, 14⟩⟩, ⟨.newline, "\n", ⟨14, 15⟩⟩]
    Token.scan source = .ok ts ∧
      (({} : Settings).compile "v" source).scopes.scopes.toList.map (fun s => (s.kind, s.name)) =
        [(.root, "v"), (.classType, "A")] := by
  intro source ts
  have hscan : Token.scan source = .ok ts := Token.scan_of_scanWithin 20 (by decide +kernel)
  have hscopes : (({} : Settings).compile "v" source).scopes.scopes.toList.map
      (fun s => (s.kind, s.name)) = [(.root, "v"), (.classType, "A")] :=
    Settings.view_compile _ 20 (fun r => r.scopes.scopes.toList.map fun s => (s.kind, s.name))
      (by decide +kernel)
  exact ⟨hscan, hscopes⟩

end FuncDecl
