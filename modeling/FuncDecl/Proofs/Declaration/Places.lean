import FuncDecl.Proofs.Declaration.Compiling
import FuncDecl.Proofs.Declaration.Reading

/-!
# The places that declarations tell of

Whatever a declaration is accepted or refused for, the places that come up lie among its tokens.
What is true of all places among some tokens then follows by induction over how they are made.

* `Token.Place ts`: the spans of tokens, the points behind tokens, and spans that hold two such
  places.
* `Sited all good x`: a result that is as it should be, or a fault at a place among the tokens. Each
  reader of a part of a header has such a result.
* `ParamScan.sited_step` and `ParamScan.sited_run`: one token and a whole list of parameters keep to
  these places.
* `Header.sited_read`: a list of tokens is read as a header, or refused, by places among them.
* `Compiler.place_of_judge`: **a declaration is refused at a place among its tokens**.
-/

namespace FuncDecl

/-! ## Places -/

/-- The places among some tokens. -/
inductive Token.Place (ts : List Token) : Span → Prop
  | token {t : Token} (ht : t ∈ ts) : Place ts t.span
  | behind {t : Token} (ht : t ∈ ts) : Place ts (Span.point t.span.stop)
  | merge {a b : Span} (ha : Place ts a) (hb : Place ts b) : Place ts (a.merge b)

open Token (Place)

/-- A place among some tokens is one among more tokens. By induction over how it is made. -/
theorem Token.Place.mono {ts us : List Token} (hsub : ts ⊆ us) {s : Span} (h : Place ts s) :
    Place us s := by
  induction h with
  | token ht => exact .token (hsub ht)
  | behind ht => exact .behind (hsub ht)
  | merge _ _ iha ihb => exact .merge iha ihb

/-- The end of some tokens is a place among them. -/
theorem Token.place_endSpan {ts : List Token} (h : ts ≠ []) : Place ts (endSpan ts) := by
  unfold endSpan
  rw [List.getLast?_eq_some_getLast h]
  exact .behind (List.getLast_mem h)

/-- A result that is as it should be, or a fault at a place among the tokens. -/
def Sited {α : Type} (all : List Token) (good : α → Prop) : Except Fault α → Prop
  | .ok a => good a
  | .error fault => Place all fault.span

namespace Sited

variable {α β : Type} {all : List Token} {good : α → Prop}

/-- Two readers in a row keep to the places if each does. -/
theorem bind {good' : β → Prop} {x : Except Fault α} {f : α → Except Fault β}
    (h : Sited all good x) (hf : ∀ a, good a → Sited all good' (f a)) :
    Sited all good' (x >>= f) := by
  cases x with
  | error fault => exact h
  | ok a => exact hf a h

/-- Changing what is read leaves the place of a fault. -/
theorem map {good' : β → Prop} {x : Except Fault α} {f : α → β} (h : Sited all good x)
    (hf : ∀ a, good a → good' (f a)) : Sited all good' (x.map f) := by
  cases x with
  | error fault => exact h
  | ok a => exact hf a h

end Sited

section Readers

variable {all ts : List Token} (hts : ts ⊆ all)
include hts

/-! ## Decorators -/

namespace Decorator

/-- The parts of a dotted name lie among the tokens. -/
theorem place_readDots {d : Decorator} (hd : Place all d.span) :
    Place all (readDots d ts).1.span ∧ (readDots d ts).2 ⊆ all := by
  fun_induction readDots d ts with
  | case1 d dot name ts hdot ih =>
    rw [List.cons_subset, List.cons_subset] at hts
    obtain ⟨hdots, hname, hts⟩ := hts
    exact ih hts ((hd.merge (.token hdots)).merge (.token hname))
  | case2 => exact ⟨hd, hts⟩
  | case3 => exact ⟨hd, hts⟩

/-- The arguments of a decorator lie among the tokens. By induction along the tokens. -/
theorem place_readArguments {d d' : Decorator} {depth : Nat} {rest : List Token}
    (h : readArguments d depth ts = some (d', rest)) (hd : Place all d.span) :
    Place all d'.span ∧ rest ⊆ all := by
  fun_induction readArguments d depth ts with
  | case1 => exact absurd h (by simp)
  | case2 d depth t ts _ ih => exact ih (List.cons_subset.mp hts).2 h hd
  | case3 d depth t ts _ d₁ depth₁ _ =>
    obtain ⟨ht, hts⟩ := List.cons_subset.mp hts
    obtain ⟨rfl, rfl⟩ := Prod.mk.inj (Option.some.inj h)
    exact ⟨hd.merge (.token ht), hts⟩
  | case4 d depth t ts _ d₁ depth₁ _ ih =>
    obtain ⟨ht, hts⟩ := List.cons_subset.mp hts
    exact ih hts h (hd.merge (.token ht))

/-- A decorator lies among the tokens. -/
theorem place_read? {d : Decorator} {rest : List Token} (h : read? ts = some (d, rest)) :
    Place all d.span ∧ rest ⊆ all := by
  match ts with
  | [] => exact absurd h (by simp [read?])
  | [_] => exact absurd h (by simp [read?])
  | sign :: name :: ts =>
    rw [List.cons_subset, List.cons_subset] at hts
    obtain ⟨hsign, hname, hts⟩ := hts
    by_cases hmark : sign.kind = .atSign ∧ name.kind = .ident ∧ name.span.start = sign.span.stop
    · obtain ⟨hd, hrest⟩ := place_readDots hts (d := ⟨name.text, sign.span.merge name.span⟩)
        (.merge (.token hsign) (.token hname))
      rw [read?_of_readDots hmark rfl] at h
      split at h
      · exact place_readArguments hrest h hd
      · obtain ⟨rfl, rfl⟩ := Prod.mk.inj (Option.some.inj h)
        exact ⟨hd, hrest⟩
    · rw [read?, if_neg hmark] at h
      exact absurd h (by simp)

/-- All decorators that are read lie among the tokens. -/
theorem place_readAll : ∀ d ∈ (readAll ts).1, Place all d.span := by
  induction ts using readAll_induct with
  | stop ts hread =>
    rw [readAll_of_none hread]
    exact fun _ h => absurd h List.not_mem_nil
  | more ts d rest hread ih =>
    obtain ⟨hd, hrest⟩ := place_read? hts hread
    rw [readAll_of_some hread, List.forall_mem_cons]
    exact ⟨hd, ih (List.Subset.trans (List.dropWhile_suffix _).subset hrest)⟩

end Decorator

/-! ## Parameters -/

end Readers

/-- The place of a parameter that is being read lies among the tokens. -/
def Draft.Sited (all : List Token) (d : Draft) : Prop :=
  ∀ s ∈ d.span, Place all s

/-- What a token of a parameter list leads to lies among the tokens. -/
def ParamScan.Outcome.Sited (all : List Token) : ParamScan.Outcome → Prop
  | .more s => s.draft.Sited all
  | .done result => FuncDecl.Sited all (fun _ => True) result

section Parameters

variable {all : List Token} {t : Token} (ht : t ∈ all)

/-- A parameter that is being read takes in a token. -/
theorem Draft.Sited.push {d : Draft} (hd : d.Sited all) (ht : t ∈ all) : (d.push t).Sited all := by
  have hspan : (d.push t).span = some ((d.span.map (·.merge t.span)).getD t.span) := by
    unfold Draft.push
    cases d.default with
    | some text => cases d.span <;> rfl
    | none =>
      cases d.type with
      | some text => cases d.span <;> rfl
      | none => cases d.span <;> rfl
  intro s hs
  rw [hspan] at hs
  obtain rfl := Option.some.inj hs
  cases hold : d.span with
  | some s => exact (hd s hold).merge (.token ht)
  | none => exact .token ht

/-- A parameter is entered, or refused at its place. -/
theorem Draft.Sited.commit {d : Draft} (hd : d.Sited all) (table : ParamTable) {ending : Span}
    (hending : Place all ending) : FuncDecl.Sited all (fun _ => True) (d.commit table ending) := by
  have hspan : Place all (d.span.getD ending) := by
    cases hs : d.span with
    | none => exact hending
    | some s => exact hd s hs
  unfold Draft.commit
  split
  · trivial
  · dsimp only
    split
    · exact hspan
    · split
      · exact hspan
      · split
        · exact hspan
        · trivial

namespace ParamScan

variable {s : ParamScan} (hs : s.draft.Sited all)
include hs ht

/-- A token behind the name of a parameter keeps to the places. -/
theorem sited_stepTyped : (s.stepTyped t).Sited all := by
  unfold stepTyped
  split
  · exact Draft.Sited.push (d := { s.draft with generic := true }) hs ht
  · split
    · exact .token ht
    · exact hs.push ht
  · split
    · exact hs
    · exact hs.push ht
  · split
    · exact hs
    · exact hs.push ht
  · exact hs.push ht

/-- One token of a list of parameters keeps to the places. By cases on where the scan is. -/
theorem sited_step : (s.step t).Sited all := by
  have hcommit := hs.commit s.table (.token ht)
  unfold step
  split
  · exact hs
  · split
    · split
      · exact fun _ h => absurd h (by simp)
      · next fault hfault =>
        rw [hfault] at hcommit
        exact hcommit
    · split
      · split
        · exact hcommit
        · exact .token ht
      · split
        · exact hs.push ht
        · exact sited_stepTyped ht hs

end ParamScan

/-- A list of parameters keeps to the places. By induction on the tokens. -/
theorem ParamScan.sited_run {stop : Span} (hstop : Place all stop) {s : ParamScan}
    (hs : s.draft.Sited all) {ts : List Token} (hts : ts ⊆ all) :
    FuncDecl.Sited all (fun _ => (run stop s ts).2 ⊆ all) (run stop s ts).1 := by
  induction ts generalizing s with
  | nil => exact hstop
  | cons t ts ih =>
    obtain ⟨ht, hts⟩ := List.cons_subset.mp hts
    have hstep := sited_step ht hs
    rw [run]
    split
    · next s' hmore =>
      rw [hmore] at hstep
      exact ih hstep hts
    · next result hdone =>
      rw [hdone] at hstep
      cases result with
      | error fault => exact hstep
      | ok table => exact hts

end Parameters

/-! ## The parts of a header -/

section Parts

variable {all ts : List Token} {stop : Span}

/-- A return type is refused at its arrow or at its own place. -/
theorem TypeScan.sited_finish {s : TypeScan} {arrow : Span} (harrow : Place all arrow)
    (hs : Place all s.span) : Sited all (fun _ => True) (s.finish arrow) := by
  unfold finish
  split
  · exact hs
  · split
    · exact harrow
    · trivial

/-- The scan of a return type keeps to the places. By induction on the tokens. -/
theorem TypeScan.sited_run {arrow : Span} (harrow : Place all arrow) {s : TypeScan}
    (hs : Place all s.span) (hts : ts ⊆ all) :
    Sited all (fun found => found.2 ⊆ all) (run arrow s ts) := by
  induction ts generalizing s with
  | nil => exact (sited_finish harrow hs).map fun _ _ => hts
  | cons t ts ih =>
    obtain ⟨ht, hrest⟩ := List.cons_subset.mp hts
    have hpush : Place all (s.span.merge t.span) := hs.merge (.token ht)
    rw [run]
    split
    · exact (sited_finish harrow hs).map fun _ _ => hts
    · split
      · exact ih hs hrest
      · exact ih hpush hrest
      · split
        · exact .token ht
        · exact ih hpush hrest
      · exact ih hpush hrest

/-- The keyword is found at a place among the tokens, or missed there. -/
theorem sited_readKeyword (d : Dialect) (hstop : Place all stop) (hts : ts ⊆ all) :
    Sited all (fun found => Place all found.1 ∧ found.2 ⊆ all) (readKeyword d stop ts) := by
  cases ts with
  | nil => exact hstop
  | cons t ts =>
    obtain ⟨ht, hts⟩ := List.cons_subset.mp hts
    rw [readKeyword]
    split
    · exact ⟨.token ht, hts⟩
    · exact .token ht

/-- The name of a function stands where its token does. -/
theorem FunctionName.span_of_ofToken? {t : Token} {name : FunctionName}
    (h : ofToken? t = some name) : name.span = t.span := by
  unfold ofToken? at h
  split at h
  · rw [← Option.some.inj h]
  · obtain ⟨method, -, rfl⟩ := Option.map_eq_some_iff.mp h
    rfl

/-- The name is one of the tokens, or missed at a place among them. -/
theorem sited_readName (hstop : Place all stop) (hts : ts ⊆ all) :
    Sited all (fun found => (∃ t ∈ all, found.1.span = t.span) ∧ found.2 ⊆ all)
      (readName stop ts) := by
  cases ts with
  | nil => exact hstop
  | cons t ts =>
    obtain ⟨ht, hts⟩ := List.cons_subset.mp hts
    rw [readName]
    split
    · next name hname =>
      exact ⟨⟨t, ht, FunctionName.span_of_ofToken? hname⟩, hts⟩
    · exact .token ht

/-- The list of parameters is refused at a place among the tokens. -/
theorem sited_readParamList (hstop : Place all stop) (hts : ts ⊆ all) :
    Sited all (fun found => found.2 ⊆ all) (readParamList stop ts) := by
  cases ts with
  | nil => exact hstop
  | cons t ts =>
    obtain ⟨ht, hts⟩ := List.cons_subset.mp hts
    have hrun := ParamScan.sited_run (s := {}) hstop (fun _ h => absurd h (by simp)) hts
    rw [readParamList, readParams]
    split
    · split
      · next params rest h =>
        rw [h] at hrun
        exact hrun
      · next fault rest h =>
        rw [h] at hrun
        exact hrun
    · exact .token ht

/-- The return type is refused at a place among the tokens. -/
theorem sited_readReturnType (hts : ts ⊆ all) :
    Sited all (fun found => found.2 ⊆ all) (readReturnType ts) := by
  cases ts with
  | nil => exact hts
  | cons t ts =>
    obtain ⟨ht, hrest⟩ := List.cons_subset.mp hts
    rw [readReturnType]
    split
    · exact (TypeScan.sited_run (.token ht) (.token ht) hrest).map fun _ h => h
    · exact hts

/-- The end of a header is missed at a place among the tokens. -/
theorem sited_readHeaderEnd (hstop : Place all stop) (hts : ts ⊆ all) :
    Sited all (fun _ => True) (readHeaderEnd stop ts) := by
  have hskip : skipNewlines ts ⊆ all := List.Subset.trans (List.dropWhile_suffix _).subset hts
  unfold readHeaderEnd
  split
  · exact hstop
  · next t rest heq =>
    rw [heq, List.cons_subset] at hskip
    split
    · exact .token hskip.1
    · split
      · trivial
      · next extra _ hextra =>
        have hmem : extra ∈ skipNewlines rest := by
          rw [hextra]
          exact List.mem_cons_self
        exact .token (hskip.2 ((List.dropWhile_suffix _).subset hmem))

end Parts

/-! ## Declarations -/

namespace Header

/-- The places of a header: those of its decorators, its front, and its name, which is one token. -/
structure Sited (all : List Token) (h : Header) : Prop where
  decorators : ∀ x ∈ h.decorators, Place all x.span
  lead : Place all h.lead
  name : ∃ t ∈ all, h.name.span = t.span

/-- What follows the modifiers is the rest of the tokens. -/
theorem readModifiers_suffix (table : ModifierTable) (ts : List Token) :
    (readModifiers table ts).2 <:+ ts := by
  induction ts with
  | nil => exact List.suffix_rfl
  | cons t ts ih =>
    rw [readModifiers]
    split
    · exact ih.trans (List.suffix_cons t ts)
    · exact List.suffix_rfl

/-- A list of tokens is read as a header, or refused, by places among them. -/
theorem sited_read (d : Dialect) {ts : List Token} (hts : ts ≠ []) :
    FuncDecl.Sited ts (Sited ts) (read d ts) := by
  have hstop := Token.place_endSpan hts
  have hskip : skipNewlines ts ⊆ ts := (List.dropWhile_suffix _).subset
  have hdecorators := Decorator.place_readAll hskip
  have hsuffix := Decorator.readAll_suffix (skipNewlines ts)
  rw [read]
  obtain ⟨⟨decorators, head⟩, hall⟩ : ∃ r, Decorator.readAll (skipNewlines ts) = r := ⟨_, rfl⟩
  rw [hall] at hdecorators hsuffix
  have hhead : head ⊆ ts := List.Subset.trans hsuffix.subset hskip
  have hmods := List.Subset.trans (readModifiers_suffix d.modifiers head).subset hhead
  obtain ⟨⟨modifiers, rest⟩, hmodifiers⟩ : ∃ r, readModifiers d.modifiers head = r := ⟨_, rfl⟩
  rw [hmodifiers] at hmods
  simp only [hall, hmodifiers]
  refine (sited_readKeyword d hstop hmods).bind ?_
  rintro ⟨keyword, ts₁⟩ ⟨hkeyword, hts₁⟩
  refine (sited_readName hstop hts₁).bind ?_
  rintro ⟨name, ts₂⟩ ⟨hname, hts₂⟩
  refine (sited_readParamList hstop hts₂).bind ?_
  rintro ⟨params, ts₃⟩ hts₃
  refine (sited_readReturnType hts₃).bind ?_
  rintro ⟨returnType, ts₄⟩ hts₄
  refine (sited_readHeaderEnd hstop hts₄).bind ?_
  intro ending _
  refine ⟨hdecorators, .merge ?_ hkeyword, hname⟩
  cases head with
  | nil => exact hstop
  | cons t head => exact .token (hhead List.mem_cons_self)

/-- A scope objects to a header at one of its places. -/
theorem place_objection? {all : List Token} {h : Header} (hh : h.Sited all) {k : Keywords}
    {parent : Scope} {fault : Fault} (hfault : h.objection? k parent = some fault) :
    Place all fault.span := by
  have hname : Place all h.name.span := by
    obtain ⟨t, ht, heq⟩ := hh.name
    exact heq ▸ .token ht
  have hspan : fault.span = h.name.span ∨ fault.span = h.lead := by
    obtain ⟨x, hx, heq⟩ := List.exists_of_findSome?_eq_some hfault
    obtain rfl : x = some fault := heq
    simp only [List.mem_cons, List.not_mem_nil, or_false] at hx
    rcases hx with hx | hx | hx | hx | hx | hx
    all_goals grind [operatorOutsideClass?, staticOutsideClass?, privateStatic?, asyncUnchecked?,
      bodilessGlobal?, duplicate?]
  rcases hspan with heq | heq
  · exact heq ▸ hname
  · exact heq ▸ hh.lead

end Header

/-- A declaration is refused at a place among its tokens. -/
theorem Compiler.place_of_judge (c : Compiler) {ts : List Token} (hts : ts ≠ []) {tree : Scope.Tree}
    {parent : Scope} {fault : Fault} (h : c.judge ts tree parent = .error fault) :
    Place ts fault.span := by
  have hread := Header.sited_read c.dialect hts
  unfold judge at h
  split at h
  · next fault' heq =>
    rw [heq] at hread
    obtain rfl := Except.error.inj h
    exact hread
  · next header heq =>
    rw [heq] at hread
    split at h
    · next fault' hobjection =>
      obtain rfl := Except.error.inj h
      exact Header.place_objection? hread hobjection
    · exact absurd h (by simp)

end FuncDecl
