import FuncDecl.Emission

/-!
# The order of printed pieces

A piece is printed as a decorator line, as a fragment of the header or as a line of the body. What
is printed depends on the pieces of each part and their order, and not on how the three parts were
interleaved while they were collected.

* `Interleaving as bs cs row`: a row that is put together from three others, each of which keeps its
  order.
* `Piece.part` and `Piece.only`: the part that a piece belongs to, and the pieces of one part.
  `Piece.only_of_interleaving` finds the three rows of an interleaving again.
* `Emission.header_eq_empty_iff`: the header is empty exactly if no fragment of it was collected,
  since no fragment is empty (`Piece.text_ne_empty`).
* `Emission.lines_eq`: the printed lines, part by part.
* `Emission.text_of_parts`: **what is printed depends on the three parts alone**.
-/

namespace FuncDecl

/-! ## Interleavings -/

/-- A row that is put together from three others, each of which keeps its order. -/
inductive Interleaving {α : Type} : List α → List α → List α → List α → Prop
  | nil : Interleaving [] [] [] []
  | first {x : α} {as bs cs row : List α} (rest : Interleaving as bs cs row) :
      Interleaving (x :: as) bs cs (x :: row)
  | second {x : α} {as bs cs row : List α} (rest : Interleaving as bs cs row) :
      Interleaving as (x :: bs) cs (x :: row)
  | third {x : α} {as bs cs row : List α} (rest : Interleaving as bs cs row) :
      Interleaving as bs (x :: cs) (x :: row)

namespace Interleaving

variable {α : Type} {as bs cs row : List α}

/-- The three rows of an interleaving may be named in another order. -/
theorem rotate (h : Interleaving as bs cs row) : Interleaving bs cs as row := by
  induction h with
  | nil => exact .nil
  | first _ ih => exact .third ih
  | second _ ih => exact .first ih
  | third _ ih => exact .second ih

/-- The first row is found again by what tells its elements from the others. -/
theorem filter_eq {p : α → Bool} (h : Interleaving as bs cs row) (has : ∀ a ∈ as, p a = true)
    (hbs : ∀ b ∈ bs, p b = false) (hcs : ∀ c ∈ cs, p c = false) : row.filter p = as := by
  induction h with
  | nil => rfl
  | first _ ih =>
    rw [List.forall_mem_cons] at has
    rw [List.filter_cons_of_pos has.1, ih has.2 hbs hcs]
  | second _ ih =>
    rw [List.forall_mem_cons] at hbs
    rw [List.filter_cons_of_neg (by rw [hbs.1]; simp), ih has hbs.2 hcs]
  | third _ ih =>
    rw [List.forall_mem_cons] at hcs
    rw [List.filter_cons_of_neg (by rw [hcs.1]; simp), ih has hbs hcs.2]

end Interleaving

/-! ## The parts of a printed declaration -/

namespace Piece

/-- What a piece is printed as. -/
inductive Part where
  /-- A line in front of the header. -/
  | decorator
  /-- A fragment of the header. -/
  | header
  /-- A line behind the header. -/
  | body
deriving DecidableEq, Repr

/-- The part that a piece belongs to. -/
def part : Piece → Part
  | decorator _ => .decorator
  | keyword _ | name _ | params _ | returnType _ | colon => .header
  | stub => .body

/-- The text of a piece, without what indents its line. -/
def text : Piece → String
  | decorator text => "@" ++ text
  | keyword text => text ++ " "
  | name text => "def " ++ text
  | params ps => "(" ++ ", ".intercalate (ps.map EmitParam.text) ++ ")"
  | returnType type => " -> " ++ spellType type
  | colon => ":"
  | stub => "pass"

/-- The pieces of one part. -/
def only (part : Part) (pieces : List Piece) : List Piece :=
  pieces.filter (·.part == part)

/-- Every piece leaves something, also where the text in it is empty. -/
theorem text_ne_empty (p : Piece) : p.text ≠ "" := by
  intro h
  rw [← String.toList_eq_nil_iff] at h
  cases p <;> simp [text] at h

/-- The texts of one part, by any function that gives the text of its pieces and of no others. -/
theorem filterMap_eq {f : Piece → Option String} {part : Part}
    (hf : ∀ p, f p = if p.part == part then some p.text else none) (pieces : List Piece) :
    pieces.filterMap f = (only part pieces).map text := by
  rw [only, ← List.filterMap_eq_map, List.filterMap_filter]
  exact congrArg (pieces.filterMap ·) (funext hf)

/-- The texts of decorator lines are those of the pieces of that part. -/
theorem filterMap_decorator? (pieces : List Piece) :
    pieces.filterMap decorator? = (only .decorator pieces).map text :=
  filterMap_eq (fun p => by cases p <;> rfl) pieces

/-- The texts of fragments of the header are those of the pieces of that part. -/
theorem filterMap_header? (pieces : List Piece) :
    pieces.filterMap header? = (only .header pieces).map text :=
  filterMap_eq (fun p => by cases p <;> rfl) pieces

/-- The texts of lines of the body are those of the pieces of that part. -/
theorem filterMap_body? (pieces : List Piece) :
    pieces.filterMap body? = (only .body pieces).map text :=
  filterMap_eq (fun p => by cases p <;> rfl) pieces

/-- Taking the pieces of one part loses none of them. -/
theorem any_only (part : Part) (pieces : List Piece) :
    (only part pieces).any (·.part == part) = pieces.any (·.part == part) := by
  simp [only]

/-- The three rows that pieces are interleaved from are their three parts. -/
theorem only_of_interleaving {decorators fragments stubs pieces : List Piece}
    (h : Interleaving decorators fragments stubs pieces)
    (hdecorators : ∀ p ∈ decorators, p.part = .decorator)
    (hfragments : ∀ p ∈ fragments, p.part = .header) (hstubs : ∀ p ∈ stubs, p.part = .body) :
    only .decorator pieces = decorators ∧ only .header pieces = fragments ∧
      only .body pieces = stubs := by
  have htrue : ∀ {part : Part} {ps : List Piece}, (∀ p ∈ ps, p.part = part) →
      ∀ p ∈ ps, (p.part == part) = true := fun hps p hp => beq_iff_eq.mpr (hps p hp)
  have hfalse : ∀ {part other : Part} {ps : List Piece}, (∀ p ∈ ps, p.part = part) → part ≠ other →
      ∀ p ∈ ps, (p.part == other) = false := fun hps hne p hp => beq_false_of_ne (hps p hp ▸ hne)
  refine ⟨?_, ?_, ?_⟩
  · exact h.filter_eq (htrue hdecorators) (hfalse hfragments (by decide)) (hfalse hstubs (by decide))
  · exact h.rotate.filter_eq (htrue hfragments) (hfalse hstubs (by decide))
      (hfalse hdecorators (by decide))
  · exact h.rotate.rotate.filter_eq (htrue hstubs) (hfalse hdecorators (by decide))
      (hfalse hfragments (by decide))

end Piece

/-! ## The printed text -/

namespace Emission

open Piece (only)

/-- The header is empty if and only if no fragment of it was collected. -/
theorem header_eq_empty_iff (e : Emission) :
    e.header = "" ↔ e.pieces.any (·.part == .header) = false := by
  rw [header, Piece.filterMap_header?, ← String.toList_inj, String.toList_join, String.toList_empty,
    List.flatMap_eq_nil_iff, List.any_eq_false]
  constructor
  · intro h p hp hpart
    have hmem : p ∈ only .header e.pieces := List.mem_filter.mpr ⟨hp, hpart⟩
    exact p.text_ne_empty (String.toList_eq_nil_iff.mp (h _ (List.mem_map_of_mem hmem)))
  · intro h s hs
    obtain ⟨p, hp, -⟩ := List.mem_map.mp hs
    obtain ⟨hp, hpart⟩ := List.mem_filter.mp hp
    exact absurd hpart (h p hp)

/-- The lines, part by part. -/
theorem lines_eq (e : Emission) :
    e.lines =
      (only .decorator e.pieces).map (fun p => e.margin 0 ++ p.text) ++
        (if e.pieces.any (·.part == .header) then
          [e.margin 0 ++ String.join ((only .header e.pieces).map Piece.text)] else []) ++
        (only .body e.pieces).map (fun p => e.margin 1 ++ p.text) := by
  have hheader : e.header = String.join ((only .header e.pieces).map Piece.text) := by
    rw [header, Piece.filterMap_header?]
  have hline : (if e.header = "" then [] else [e.margin 0 ++ e.header]) =
      if e.pieces.any (·.part == .header) then
        [e.margin 0 ++ String.join ((only .header e.pieces).map Piece.text)] else [] := by
    cases hany : e.pieces.any (·.part == .header) with
    | false => rw [if_pos (e.header_eq_empty_iff.mpr hany), if_neg (by simp)]
    | true =>
      have hne : e.header ≠ "" := by
        intro h
        rw [e.header_eq_empty_iff, hany] at h
        exact absurd h (by simp)
      rw [if_neg hne, if_pos rfl, hheader]
  rw [lines, hline, Piece.filterMap_decorator?, Piece.filterMap_body?, List.map_map, List.map_map]
  rfl

/-- Pieces with the same parts are printed alike. -/
theorem lines_congr {unit : String} {level : Nat} {pieces pieces' : List Piece}
    (h : ∀ part, only part pieces = only part pieces') :
    (⟨unit, level, pieces⟩ : Emission).lines = (⟨unit, level, pieces'⟩ : Emission).lines := by
  have hany : pieces.any (·.part == .header) = pieces'.any (·.part == .header) := by
    rw [← Piece.any_only, h, Piece.any_only]
  rw [lines_eq, lines_eq, hany, h, h, h]
  rfl

/-- **What is printed depends on the three parts alone.** The text is made of one line for each
decorator, one line for the header if and only if a fragment of it was collected, with all fragments
in their order, and one line for each stub. So it is the same for any two ways in which the same
decorators, fragments and stubs are interleaved.
Source: `render`. -/
theorem text_of_parts (unit : String) (level : Nat) :
    let margin := fun n => String.join (List.replicate n unit)
    (∀ pieces : List Piece, (⟨unit, level, pieces⟩ : Emission).text =
      "\n".intercalate
        ((only .decorator pieces).map (fun p => margin level ++ p.text) ++
          (if pieces.any (·.part == .header) then
            [margin level ++ String.join ((only .header pieces).map Piece.text)] else []) ++
          (only .body pieces).map (fun p => margin (level + 1) ++ p.text))) ∧
    ∀ decorators fragments stubs pieces pieces' : List Piece,
      (∀ p ∈ decorators, p.part = .decorator) → (∀ p ∈ fragments, p.part = .header) →
      (∀ p ∈ stubs, p.part = .body) →
      Interleaving decorators fragments stubs pieces →
      Interleaving decorators fragments stubs pieces' →
      (⟨unit, level, pieces⟩ : Emission).text = (⟨unit, level, pieces'⟩ : Emission).text := by
  intro margin
  constructor
  · intro pieces
    have hmargin : ∀ extra, (⟨unit, level, pieces⟩ : Emission).margin extra = margin (level + extra) :=
      fun extra => indentation_eq_join unit (level + extra)
    rw [text, lines_eq, hmargin, hmargin]
    rfl
  · intro decorators fragments stubs pieces pieces' hdecorators hfragments hstubs h h'
    obtain ⟨hd, hf, hs⟩ := Piece.only_of_interleaving h hdecorators hfragments hstubs
    obtain ⟨hd', hf', hs'⟩ := Piece.only_of_interleaving h' hdecorators hfragments hstubs
    refine congrArg ("\n".intercalate ·) (lines_congr fun part => ?_)
    cases part with
    | decorator => exact hd.trans hd'.symm
    | header => exact hf.trans hf'.symm
    | body => exact hs.trans hs'.symm

/-- A decorator that is collected behind the header and a stub in front of it; the keyword has no
text of its own. -/
theorem text_of_parts_collected_late :
    let decorators : List Piece := [.decorator "cache(ttl=60)"]
    let fragments : List Piece := [.keyword "", .name "baz", .params [⟨"x", some "unknown"⟩], .colon]
    let stubs : List Piece := [.stub]
    let early := decorators ++ fragments ++ stubs
    let late : List Piece := [.keyword "", .stub, .name "baz", .params [⟨"x", some "unknown"⟩],
      .decorator "cache(ttl=60)", .colon]
    Interleaving decorators fragments stubs early ∧ Interleaving decorators fragments stubs late ∧
      (⟨"  ", 1, late⟩ : Emission).text = (⟨"  ", 1, early⟩ : Emission).text ∧
      (⟨"  ", 1, late⟩ : Emission).text =
        "  @cache(ttl=60)\n   def baz(x: Any):\n    pass" := by
  intro decorators fragments stubs early late
  have hearly : Interleaving decorators fragments stubs early :=
    .first (.second (.second (.second (.second (.third .nil)))))
  have hlate : Interleaving decorators fragments stubs late :=
    .second (.third (.second (.second (.first (.second .nil)))))
  obtain ⟨htext, hsame⟩ := text_of_parts "  " 1
  refine ⟨hearly, hlate, ?_, ?_⟩
  · exact hsame decorators fragments stubs late early (by decide) (by decide) (by decide) hlate hearly
  · rw [htext]
    decide +kernel

end Emission

end FuncDecl
