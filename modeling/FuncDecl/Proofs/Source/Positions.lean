import FuncDecl.Proofs.Declaration.Places
import FuncDecl.Proofs.Source.Chunks
import FuncDecl.Proofs.Source.Origins
import FuncDecl.Proofs.Token.Faults
import FuncDecl.Proofs.Token.Partition

/-!
# The positions in what a source is compiled to

A chunk is reported by places among its own tokens, and the chunks come one behind the other, so the
places in a report are valid and in the order of the source. Only the braces that the end leaves
open are reported in the opposite order, all of them up to the last token.

* `Span.Valid source s`: the span lies in the source and begins and ends between two characters.
* `Token.Row source ts`: tokens of a source, one behind the other. All places among them are valid
  (`Token.Place.valid`), and places among earlier ones come first (`Token.Place.stop_le_start`).
* `Report.Placed ts r`: the report on some tokens keeps to places among them, and it is in their
  order. Reports in a row do so for the tokens in a row (`Report.Placed.append`).
* `Pass.placed_stepLine` and `Pass.placed_stepDeclaration`: a line and a declaration are reported
  so.
* `Pass.Placed taken p report`: what is known of the places behind some tokens. One chunk keeps this
  (`Pass.Placed.step`), and so does a whole pass (`Pass.placed_run`).
* `Settings.positions_ordered`: **positions are valid and in the order of the source**.
-/

namespace FuncDecl

/-! ## Valid spans -/

/-- The span lies in the source and begins and ends between two characters. -/
structure Span.Valid (source : String) (s : Span) : Prop where
  start_le_stop : s.start ≤ s.stop
  stop_le : s.stop ≤ source.utf8ByteSize
  start_boundary : String.Pos.Raw.IsValid source ⟨s.start⟩
  stop_boundary : String.Pos.Raw.IsValid source ⟨s.stop⟩

namespace Span

variable {source : String} {a b : Span}

/-- The span of a piece of the source is valid. -/
theorem Cuts.valid {text : String} (h : a.Cuts source text) : a.Valid source where
  start_le_stop := by
    obtain ⟨before, after, -, -, hstop⟩ := h
    omega
  stop_le := by
    obtain ⟨before, after, rfl, hstart, hstop⟩ := h
    rw [String.utf8ByteSize_append, String.utf8ByteSize_append]
    omega
  start_boundary := h.isValid_start
  stop_boundary := h.isValid_stop

/-- The span that holds two valid spans is valid. -/
theorem Valid.merge (ha : a.Valid source) (hb : b.Valid source) : (a.merge b).Valid source := by
  have := ha.start_le_stop
  refine ⟨?_, Nat.max_le.mpr ⟨ha.stop_le, hb.stop_le⟩, ?_, ?_⟩
  · show min a.start b.start ≤ max a.stop b.stop
    omega
  · rcases Nat.le_total a.start b.start with hle | hle
    · rw [Span.merge, Nat.min_eq_left hle]
      exact ha.start_boundary
    · rw [Span.merge, Nat.min_eq_right hle]
      exact hb.start_boundary
  · rcases Nat.le_total a.stop b.stop with hle | hle
    · rw [Span.merge, Nat.max_eq_right hle]
      exact hb.stop_boundary
    · rw [Span.merge, Nat.max_eq_left hle]
      exact ha.stop_boundary

end Span

/-- A fault of a text is placed at a piece of it. -/
theorem Token.exists_of_scanFrom_error {offset : Nat} {cs : List Char} {fault : LexFault}
    (h : scanFrom offset cs = .error fault) :
    ∃ before text after, cs = before ++ text ++ after ∧
      fault.span.start = offset + Text.byteLength before ∧
      fault.span.stop = fault.span.start + Text.byteLength text := by
  obtain ⟨before, c, rest, ts, rfl, -, harises⟩ := exists_front_of_scanFrom_error h
  obtain ⟨text, after, hrest, hspan, -⟩ := harises.exists_tells
  refine ⟨before, text, after, by rw [hrest, List.append_assoc], ?_, ?_⟩
  · rw [hspan]
  · rw [hspan]

/-! ## Rows of tokens -/

namespace Token

/-- Tokens of a source, one behind the other. -/
structure Row (source : String) (ts : List Token) : Prop where
  valid : ∀ t ∈ ts, t.span.Valid source
  nonempty : ∀ t ∈ ts, t.span.start < t.span.stop
  apart : ts.Pairwise fun t u => t.span.stop ≤ u.span.start

variable {source : String} {ts us : List Token}

/-- The tokens of a source are a row. -/
theorem row_of_scan (h : scan source = .ok ts) : Row source ts := by
  have hwoven : Woven 0 source.toList ts := .of_scanFrom h
  exact ⟨fun _ ht => (hwoven.cuts ht).valid, fun _ ht => hwoven.start_lt_stop ht, hwoven.pairwise⟩

namespace Row

/-- The first tokens of a row are a row. -/
theorem left (h : Row source (ts ++ us)) : Row source ts where
  valid := fun t ht => h.valid t (List.mem_append_left us ht)
  nonempty := fun t ht => h.nonempty t (List.mem_append_left us ht)
  apart := (List.pairwise_append.mp h.apart).1

/-- The last tokens of a row are a row. -/
theorem right (h : Row source (ts ++ us)) : Row source us where
  valid := fun t ht => h.valid t (List.mem_append_right ts ht)
  nonempty := fun t ht => h.nonempty t (List.mem_append_right ts ht)
  apart := (List.pairwise_append.mp h.apart).2.1

/-- The spans of some of the tokens begin one behind the other. -/
theorem starts_lt (h : Row source ts) {spans : List Span} (hsub : spans.Sublist (ts.map (·.span))) :
    spans.Pairwise fun a b => a.start < b.start := by
  refine List.Pairwise.sublist hsub (List.pairwise_map.mpr ?_)
  refine h.apart.imp_of_mem fun ht _ hle => ?_
  exact Nat.lt_of_lt_of_le (h.nonempty _ ht) hle

/-- From a token on to the end of the row. -/
theorem merge_endSpan (h : Row source ts) {t : Token} (ht : t ∈ ts) :
    (t.span.merge (endSpan ts)).start = t.span.start ∧
      ts.getLast?.map (·.span.stop) = some (t.span.merge (endSpan ts)).stop := by
  obtain ⟨front, last, rfl⟩ := List.eq_nil_or_concat ts |>.resolve_left (List.ne_nil_of_mem ht)
  have hlast : t.span.stop ≤ last.span.stop := by
    rw [List.concat_eq_append] at h ht
    rcases List.mem_append.mp ht with hfront | hend
    · have hle := (List.pairwise_append.mp h.apart).2.2 t hfront last (List.mem_singleton_self _)
      exact Nat.le_trans hle (h.right.valid last (List.mem_singleton_self _)).start_le_stop
    · rw [List.mem_singleton.mp hend]
  have hend : endSpan (front.concat last) = Span.point last.span.stop := by
    rw [endSpan, List.concat_eq_append, List.getLast?_concat]
  have hstart := (h.valid t ht).start_le_stop
  rw [hend, List.concat_eq_append, List.getLast?_concat]
  refine ⟨Nat.min_eq_left (Nat.le_trans hstart hlast), ?_⟩
  show some last.span.stop = some (max t.span.stop last.span.stop)
  rw [Nat.max_eq_right hlast]

end Row

/-- A place among the tokens of a row is valid. By induction over how it is made. -/
theorem Place.valid {s : Span} (hs : Place ts s) (h : Row source ts) : s.Valid source := by
  induction hs with
  | token ht => exact h.valid _ ht
  | behind ht =>
    have ht := h.valid _ ht
    exact ⟨Nat.le_refl _, ht.stop_le, ht.stop_boundary, ht.stop_boundary⟩
  | merge _ _ iha ihb => exact iha.merge ihb

/-- A place among some tokens ends in front of a place among later ones. -/
theorem Place.stop_le_start {a b : Span} (ha : Place ts a) (hb : Place us b)
    (h : Row source (ts ++ us)) : a.stop ≤ b.start := by
  have hapart := (List.pairwise_append.mp h.apart).2.2
  have htoken : ∀ t ∈ ts, t.span.stop ≤ b.start := by
    intro t ht
    induction hb with
    | token hu => exact hapart t ht _ hu
    | behind hu => exact Nat.le_trans (hapart t ht _ hu) (h.right.valid _ hu).start_le_stop
    | merge _ _ iha ihb => exact Nat.le_min.mpr ⟨iha, ihb⟩
  induction ha with
  | token ht => exact htoken _ ht
  | behind ht => exact htoken _ ht
  | merge _ _ iha ihb => exact Nat.max_le.mpr ⟨iha, ihb⟩

end Token

open Token (Place Row)

/-! ## Reports -/

/-- Whether a diagnostic is about a brace that the end of the source leaves open. -/
def Diagnostic.isUnclosed (x : Diagnostic) : Bool :=
  x.phase == .splitting && x.message == "unclosed `\x7b`"

/-- An error with another message is not about a brace that is left open. -/
theorem Diagnostic.isUnclosed_of_message {message : String}
    (h : (message == "unclosed `\x7b`") = false) (phase : Phase) (span : Span) :
    (Diagnostic.error phase span message).isUnclosed = false := by
  show (phase == .splitting && message == "unclosed `\x7b`") = false
  rw [h, Bool.and_false]

/-- The report on some tokens keeps to places among them, and it is in their order. -/
structure Report.Placed (ts : List Token) (r : Report) : Prop where
  names : (r.functions.map (·.nameSpan)).Sublist (ts.map (·.span))
  decorators : ∀ c ∈ r.functions, ∀ x ∈ c.decorators, Place ts x.span
  diagnostics : ∀ x ∈ r.diagnostics, Place ts x.span
  sorted : r.diagnostics.Pairwise fun x y => x.span.start ≤ y.span.start
  closed : ∀ x ∈ r.diagnostics, x.isUnclosed = false

namespace Report.Placed

/-- The empty report keeps to all places. -/
theorem empty (ts : List Token) : Placed ts {} :=
  ⟨List.nil_sublist _, by simp, by simp, .nil, by simp⟩

/-- The reports on two rows of tokens, one behind the other. -/
theorem append {source : String} {ts us : List Token} {r r' : Report} (h : Placed ts r)
    (h' : Placed us r') (hrow : Row source (ts ++ us)) : Placed (ts ++ us) (r ++ r') where
  names := by
    rw [Report.functions_append, List.map_append, List.map_append]
    exact h.names.append h'.names
  decorators := by
    intro c hc x hx
    rcases List.mem_append.mp hc with hc | hc
    · exact (h.decorators c hc x hx).mono (List.subset_append_left _ _)
    · exact (h'.decorators c hc x hx).mono (List.subset_append_right _ _)
  diagnostics := by
    intro x hx
    rcases List.mem_append.mp hx with hx | hx
    · exact (h.diagnostics x hx).mono (List.subset_append_left _ _)
    · exact (h'.diagnostics x hx).mono (List.subset_append_right _ _)
  sorted := by
    refine List.pairwise_append.mpr ⟨h.sorted, h'.sorted, fun x hx y hy => ?_⟩
    have hx := h.diagnostics x hx
    exact Nat.le_trans (hx.valid hrow.left).start_le_stop
      (hx.stop_le_start (h'.diagnostics y hy) hrow)
  closed := by
    intro x hx
    rcases List.mem_append.mp hx with hx | hx
    · exact h.closed x hx
    · exact h'.closed x hx

/-- A report without functions that has one diagnostic. -/
theorem single {ts : List Token} {x : Diagnostic} (hplace : Place ts x.span)
    (hclosed : x.isUnclosed = false) : Placed ts ⟨[], [x]⟩ := by
  refine ⟨List.nil_sublist _, by simp, ?_, List.pairwise_singleton _ _, ?_⟩
  · exact List.forall_mem_singleton.mpr hplace
  · exact List.forall_mem_singleton.mpr hclosed

end Report.Placed

namespace Pass

variable {ctx : PassContext} {p : Pass}

/-! ### Lines -/

/-- The unmatched braces of a line are reported where they stand. -/
theorem diagnostics_stepTokens (p : Pass) (ts : List Token) :
    ((p.stepTokens ts).2.diagnostics.map (·.span)).Sublist (ts.map (·.span)) ∧
      ∀ x ∈ (p.stepTokens ts).2.diagnostics, x.isUnclosed = false := by
  induction ts generalizing p with
  | nil => exact ⟨List.Sublist.refl _, by simp [stepTokens]⟩
  | cons t ts ih =>
    have htoken : ((p.stepToken t).2.diagnostics.map (·.span)).Sublist [t.span] ∧
        ∀ x ∈ (p.stepToken t).2.diagnostics, x.isUnclosed = false := by
      rcases p.stepToken_cases t with
        ⟨-, h⟩ | ⟨-, brace, braces, -, h⟩ | ⟨-, -, h⟩ | ⟨-, -, h⟩ <;> rw [h]
      · exact ⟨List.nil_sublist _, by simp⟩
      · exact ⟨List.nil_sublist _, by simp⟩
      · exact ⟨List.Sublist.refl _, List.forall_mem_singleton.mpr
          (Diagnostic.isUnclosed_of_message (by decide) _ _)⟩
      · exact ⟨List.nil_sublist _, by simp⟩
    obtain ⟨hspans, hclosed⟩ := ih (p.stepToken t).1
    rw [stepTokens_cons, Report.diagnostics_append, List.map_append]
    refine ⟨htoken.1.append hspans, fun x hx => ?_⟩
    rcases List.mem_append.mp hx with hx | hx
    · exact htoken.2 x hx
    · exact hclosed x hx

/-- A line is reported by places among its tokens. -/
theorem placed_stepLine {source : String} (p : Pass) {line : List Token} (hrow : Row source line) :
    (p.stepLine line).2.Placed line := by
  obtain ⟨hspans, hclosed⟩ := (p.announce line).diagnostics_stepTokens line
  refine ⟨?_, ?_, fun x hx => ?_, ?_, hclosed⟩
  · rw [stepLine, functions_stepTokens]
    exact List.nil_sublist _
  · rw [stepLine, functions_stepTokens]
    exact fun _ h => absurd h List.not_mem_nil
  · have hmem := hspans.subset (List.mem_map_of_mem hx)
    obtain ⟨t, ht, heq⟩ := List.mem_map.mp hmem
    exact heq ▸ .token ht
  · exact (List.pairwise_map.mp (hrow.starts_lt hspans)).imp fun h => Nat.le_of_lt h

/-- The braces that are open behind a line were open before it or stand in it. -/
theorem braces_stepTokens (p : Pass) (ts : List Token) :
    ((p.stepTokens ts).1.braces.reverse.map (·.span)).Sublist
      (p.braces.reverse.map (·.span) ++ ts.map (·.span)) := by
  induction ts generalizing p with
  | nil =>
    rw [List.map_nil, List.append_nil]
    exact List.Sublist.refl _
  | cons t ts ih =>
    have htoken : ((p.stepToken t).1.braces.reverse.map (·.span)).Sublist
        (p.braces.reverse.map (·.span) ++ [t.span]) := by
      rcases p.stepToken_cases t with
        ⟨-, h⟩ | ⟨-, brace, braces, hbraces, h⟩ | ⟨-, -, h⟩ | ⟨-, -, h⟩ <;> rw [h]
      · rcases p.openBrace_cases t.span with ⟨head, -, heq⟩ | ⟨-, heq⟩
        all_goals
          rw [heq]
          simp
      · rw [hbraces]
        simp
      · exact List.sublist_append_left _ _
      · exact List.sublist_append_left _ _
    have hboth := (ih (p.stepToken t).1).trans (htoken.append_right (ts.map (·.span)))
    rw [List.append_assoc] at hboth
    exact hboth

/-! ### Declarations -/

/-- A function is reported by its name. -/
theorem placed_accepted (ctx : PassContext) {c : Compiled} {ts : List Token}
    (hname : ∃ t ∈ ts, c.nameSpan = t.span) (hdecorators : ∀ x ∈ c.decorators, Place ts x.span) :
    (accepted ctx c).Placed ts := by
  obtain ⟨t, ht, heq⟩ := hname
  have hnames : ([c].map (·.nameSpan)).Sublist (ts.map (·.span)) :=
    List.singleton_sublist.mpr (List.mem_map.mpr ⟨t, ht, heq.symm⟩)
  have hall : ∀ x ∈ [c], ∀ y ∈ x.decorators, Place ts y.span :=
    List.forall_mem_singleton.mpr hdecorators
  rcases accepted_cases ctx c with h | ⟨earlier, -, h⟩
  · rw [h]
    exact ⟨hnames, hall, by simp, .nil, by simp⟩
  · rw [h]
    refine ⟨hnames, hall, ?_, List.pairwise_singleton _ _, ?_⟩
    · rw [List.forall_mem_singleton]
      exact heq ▸ .token ht
    · rw [List.forall_mem_singleton]
      rfl

/-- A declaration is reported by places among its tokens. -/
theorem placed_stepDeclaration (ctx : PassContext) (hp : p.scope < p.tree.size) {unit : List Token}
    (hunit : unit ≠ []) : (p.stepDeclaration ctx unit).2.Placed unit := by
  rcases stepDeclaration_cases ctx hp unit with
    ⟨fault, hjudge, -, hstep⟩ | ⟨header, hread, -, -, hstep⟩
  · have hplace := ctx.compiler.place_of_judge hunit hjudge
    obtain ⟨phase, message, hphase, h⟩ := exists_refused ctx fault
    rw [hstep, h]
    rcases hphase with rfl | rfl
    · exact .single hplace rfl
    · exact .single hplace rfl
  · have hsited := Header.sited_read ctx.compiler.dialect hunit
    rw [hread] at hsited
    rw [hstep]
    exact placed_accepted ctx hsited.name hsited.decorators

/-- The brace that a declaration leaves open stands in it. -/
theorem braces_behind (p : Pass) (unit : List Token) (tree : Scope.Tree) :
    ((p.behind unit tree).braces.reverse.map (·.span)).Sublist
      (p.braces.reverse.map (·.span) ++ unit.map (·.span)) := by
  rw [behind, List.reverse_append, List.map_append]
  refine (List.Sublist.refl _).append ?_
  unfold bodyBrace?
  split
  · next t hlast =>
    split
    · exact List.singleton_sublist.mpr (List.mem_map_of_mem (List.mem_of_getLast? hlast))
    · exact List.nil_sublist _
  · exact List.nil_sublist _

/-! ### Runs -/

/-- What is known of the places in a state and a report behind some tokens. -/
structure Placed (taken : List Token) (p : Pass) (report : Report) : Prop where
  grounded : p.Grounded report.functions
  report : report.Placed taken
  braces : (p.braces.reverse.map (·.span)).Sublist (taken.map (·.span))

/-- A chunk behind the tokens that were taken is reported behind what was reported. -/
theorem Placed.step {source : String} {taken : List Token} {report : Report}
    (h : p.Placed taken report) (ctx : PassContext) {c : Chunk} (hc : c.tokens ≠ [])
    (hrow : Row source (taken ++ c.tokens)) :
    (p.step ctx c).1.Placed (taken ++ c.tokens) (report ++ (p.step ctx c).2) := by
  have hreport : (p.step ctx c).2.Placed c.tokens := by
    cases c with
    | newline t => exact .empty _
    | declaration unit => exact placed_stepDeclaration ctx h.grounded.scope_lt hc
    | stray unit =>
      rw [Pass.step]
      unfold stray
      split
      · exact .single (.token List.mem_cons_self) (Diagnostic.isUnclosed_of_message (by decide) _ _)
      · exact .empty _
    | line line => exact p.placed_stepLine hrow.right
  -- a step drops open braces and adds some of its own tokens, behind those that stay
  have hbraces : ((p.step ctx c).1.braces.reverse.map (·.span)).Sublist
      (p.braces.reverse.map (·.span) ++ c.tokens.map (·.span)) := by
    cases c with
    | newline t => exact List.sublist_append_left _ _
    | declaration unit =>
      rw [Pass.step]
      rcases stepDeclaration_cases ctx h.grounded.scope_lt unit with
        ⟨_, _, _, hstep⟩ | ⟨_, _, _, _, hstep⟩
      all_goals
        rw [hstep]
        exact p.braces_behind unit _
    | stray unit => exact List.sublist_append_left _ _
    | line line =>
      obtain ⟨pending, heq, -⟩ := p.announce_eq line
      have := (p.announce line).braces_stepTokens line
      rw [heq] at this
      rw [Pass.step, stepLine, heq]
      exact this
  refine ⟨h.grounded.step ctx c, h.report.append hreport hrow, ?_⟩
  rw [List.map_append]
  exact hbraces.trans (h.braces.append_right _)

/-- The places behind some chunks of a source. -/
theorem placed_run_chunks (ctx : PassContext) (name : String) (k : Keywords) {source : String}
    {cs : List Chunk} (hne : ∀ c ∈ cs, c.tokens ≠ []) (hrow : Row source (cs.flatMap Chunk.tokens)) :
    let r := run ctx { tree := .new name k } cs
    r.1.Placed (cs.flatMap Chunk.tokens) r.2 := by
  have hnew : Placed [] { tree := .new name k } {} :=
    ⟨.new name k, .empty _, List.Sublist.refl _⟩
  have hrun := @run_induct ctx { tree := .new name k }
    (fun taken p report => Row source taken → p.Placed taken report) cs
    (fun c hc _ _ _ h hrow => (h hrow.left).step ctx (hne c hc) hrow) [] {} fun _ => hnew
  rw [List.nil_append] at hrun
  exact hrun hrow

/-- The places at the end of a source. -/
theorem placed_run {name : String} {k : Keywords} {source : String} {ts : List Token}
    {report : Report} (hrow : Row source ts)
    (h : run ctx { tree := .new name k } (ctx.compiler.dialect.chunks ts) = (p, report)) :
    p.Placed ts report := by
  have htokens := ctx.compiler.dialect.flatMap_tokens_chunks ts
  have hplaced := placed_run_chunks ctx name k (ctx.compiler.dialect.tokens_ne_nil_of_mem_chunks ts)
    (htokens.symm ▸ hrow)
  rw [htokens, h] at hplaced
  exact hplaced

/-! ### Braces that are left open -/

/-- The braces that are left open are reported from the innermost on, each up to the last token. -/
theorem Placed.unclosed {source : String} {ts : List Token} {report : Report}
    (h : p.Placed ts report) (hrow : Row source ts) :
    (p.unclosed (endSpan ts)).diagnostics.Pairwise (fun x y => y.span.start < x.span.start) ∧
      ∀ x ∈ (p.unclosed (endSpan ts)).diagnostics, Place ts x.span ∧ x.isUnclosed = true ∧
        ts.getLast?.map (·.span.stop) = some x.span.stop := by
  have hbrace : ∀ brace ∈ p.braces, ∃ t ∈ ts, brace.span = t.span := by
    intro brace hbrace
    have hmem := h.braces.subset (List.mem_map_of_mem (List.mem_reverse.mpr hbrace))
    obtain ⟨t, ht, heq⟩ := List.mem_map.mp hmem
    exact ⟨t, ht, heq.symm⟩
  have hmerge : ∀ brace ∈ p.braces, (brace.span.merge (endSpan ts)).start = brace.span.start := by
    intro brace hmem
    obtain ⟨t, ht, heq⟩ := hbrace brace hmem
    obtain ⟨hstart, -⟩ := hrow.merge_endSpan ht
    rw [heq, hstart]
  constructor
  · have hstarts := hrow.starts_lt h.braces
    rw [List.pairwise_map, List.pairwise_reverse] at hstarts
    refine List.pairwise_map.mpr (hstarts.imp_of_mem fun {a b} ha hb hlt => ?_)
    show (b.span.merge (endSpan ts)).start < (a.span.merge (endSpan ts)).start
    rw [hmerge a ha, hmerge b hb]
    exact hlt
  · intro x hx
    obtain ⟨brace, hmem, rfl⟩ := List.mem_map.mp hx
    obtain ⟨t, ht, heq⟩ := hbrace brace hmem
    obtain ⟨-, hstop⟩ := hrow.merge_endSpan ht
    refine ⟨?_, rfl, ?_⟩
    · exact heq ▸ .merge (.token ht) (Token.place_endSpan (List.ne_nil_of_mem ht))
    · show _ = some (brace.span.merge (endSpan ts)).stop
      rw [heq, hstop]

/-- The diagnostics about braces that are left open are told from the others by their wording. -/
theorem Placed.filter_isUnclosed {source : String} {ts : List Token} {report : Report}
    (h : p.Placed ts report) (hrow : Row source ts) :
    let diagnostics := report.diagnostics ++ (p.unclosed (endSpan ts)).diagnostics
    diagnostics.filter Diagnostic.isUnclosed = (p.unclosed (endSpan ts)).diagnostics ∧
      diagnostics.filter (!·.isUnclosed) = report.diagnostics := by
  have hunclosed := (h.unclosed hrow).2
  intro diagnostics
  constructor
  · rw [List.filter_append, List.filter_eq_nil_iff.mpr fun x hx => by simp [h.report.closed x hx],
      List.filter_eq_self.mpr fun x hx => (hunclosed x hx).2.1]
    rfl
  · rw [List.filter_append, List.filter_eq_self.mpr fun x hx => by simp [h.report.closed x hx],
      List.filter_eq_nil_iff.mpr fun x hx => by simp [(hunclosed x hx).2.1], List.append_nil]

end Pass

/-! ## The whole source -/

/-- The spans in what a source is compiled to: of the diagnostics, of the functions with their
decorators and the functions they hide, and of the functions that are registered. -/
def Compilation.spans (c : Compilation) : List Span :=
  c.diagnostics.map (·.span) ++
    c.functions.flatMap (fun f => f.nameSpan :: (f.decorators.map (·.span) ++ f.shadows.toList)) ++
    c.scopes.scopes.toList.flatMap fun scope => scope.functions.entries.map (·.2.span)

/-- The spans that come up in a pass are valid. -/
theorem Pass.Placed.valid {source : String} {ts : List Token} {p : Pass} {report : Report}
    (h : p.Placed ts report) (hrow : Row source ts) {diagnostics : List Diagnostic}
    (hdiagnostics : ∀ x ∈ diagnostics, Place ts x.span) :
    ∀ span ∈ (⟨report.functions, diagnostics, p.tree⟩ : Compilation).spans,
      span.Valid source := by
  have hname : ∀ f ∈ report.functions, f.nameSpan.Valid source := by
    intro f hf
    obtain ⟨t, ht, heq⟩ := List.mem_map.mp (h.report.names.subset (List.mem_map_of_mem hf))
    exact heq ▸ hrow.valid t ht
  intro span hspan
  unfold Compilation.spans at hspan
  rw [List.mem_append, List.mem_append] at hspan
  rcases hspan with (hspan | hspan) | hspan
  · obtain ⟨x, hx, rfl⟩ := List.mem_map.mp hspan
    exact (hdiagnostics x hx).valid hrow
  · obtain ⟨f, hf, hspan⟩ := List.mem_flatMap.mp hspan
    rw [List.mem_cons, List.mem_append] at hspan
    rcases hspan with rfl | hspan | hspan
    · exact hname f hf
    · obtain ⟨x, hx, rfl⟩ := List.mem_map.mp hspan
      exact (h.report.decorators f hf x hx).valid hrow
    · -- a function hides one that was reported before it
      obtain ⟨front, back, hfs⟩ := List.append_of_mem hf
      obtain ⟨earlier, hearlier, -, rfl⟩ :=
        h.grounded.shadows front f back hfs span (Option.mem_toList.mp hspan)
      have hfs : report.functions = front ++ f :: back := hfs
      exact hname earlier (by rw [hfs]; exact List.mem_append_left _ hearlier)
  · obtain ⟨scope, hscope, hspan⟩ := List.mem_flatMap.mp hspan
    obtain ⟨entry, hentry, rfl⟩ := List.mem_map.mp hspan
    obtain ⟨id, hid⟩ := List.mem_iff_getElem?.mp hscope
    have hget : p.tree.get id = scope := by
      rw [Scope.Tree.get_eq_getD, List.getD_eq_getElem?_getD, hid]
      rfl
    obtain ⟨f, hf, rfl⟩ := h.grounded.functions id entry (by rw [hget]; exact hentry)
    exact hname f hf

/-- **Positions are valid and in the order of the source.** Every span in what a source is compiled to
lies in the source and begins and ends between two characters. The names of the functions begin one
behind the other. The diagnostics begin one behind the other too, up to those about braces that are
left open, which come last: they begin one before the other and end where the last token does.
Source: `compile_declaration`, `scan_line`, `finish`, `compile` and `extract`. -/
theorem Settings.positions_ordered (s : Settings) (name source : String) :
    let result := s.compile name source
    let unclosed := result.diagnostics.filter Diagnostic.isUnclosed
    let others := result.diagnostics.filter (!·.isUnclosed)
    (∀ span ∈ result.spans, span.Valid source) ∧
      result.functions.Pairwise (fun f g => f.nameSpan.start < g.nameSpan.start) ∧
      result.diagnostics = others ++ unclosed ∧
      others.Pairwise (fun x y => x.span.start ≤ y.span.start) ∧
      unclosed.Pairwise (fun x y => y.span.start < x.span.start) ∧
      ∀ ts, Token.scan source = .ok ts →
        ∀ x ∈ unclosed, ts.getLast?.map (·.span.stop) = some x.span.stop := by
  intro result unclosed others
  cases hscan : Token.scan source with
  | error fault =>
    have hresult : result = ⟨[], [.error .lexing fault.span fault.message], s.emptyTree name⟩ := by
      simp only [result, Settings.compile, hscan]
    have hvalid : fault.span.Valid source := by
      obtain ⟨before, text, after, hsource, hstart, hstop⟩ := Token.exists_of_scanFrom_error hscan
      rw [Nat.zero_add] at hstart
      exact (Span.cuts_of_toList hsource hstart hstop).valid
    simp only [unclosed, others, hresult]
    refine ⟨?_, .nil, rfl, List.pairwise_singleton _ _, .nil, fun _ h => absurd h (by simp)⟩
    intro span hspan
    obtain rfl : span = fault.span := List.mem_singleton.mp hspan
    exact hvalid
  | ok ts =>
    have hrow := Token.row_of_scan hscan
    obtain ⟨⟨p, report⟩, hrun⟩ : ∃ r, Pass.run (s.context name source) { tree := s.emptyTree name }
        ((s.context name source).compiler.dialect.chunks ts) = r := ⟨_, rfl⟩
    have hplaced : p.Placed ts report := Pass.placed_run hrow hrun
    obtain ⟨hstarts, hunclosed⟩ := hplaced.unclosed hrow
    have hresult : result = ⟨report.functions,
        report.diagnostics ++ (p.unclosed (endSpan ts)).diagnostics, p.tree⟩ :=
      (s.compile_of_scan name hscan).trans (PassContext.compile_of_run hrun)
    have hsplit := hplaced.filter_isUnclosed hrow
    simp only [unclosed, others, hresult]
    rw [hsplit.1, hsplit.2]
    refine ⟨hplaced.valid hrow ?_, ?_, rfl, hplaced.report.sorted, hstarts, ?_⟩
    · intro x hx
      rcases List.mem_append.mp hx with hx | hx
      · exact hplaced.report.diagnostics x hx
      · exact (hunclosed x hx).1
    · have hnames := hrow.starts_lt hplaced.report.names
      rwa [List.pairwise_map] at hnames
    · intro ts' hts' x hx
      obtain rfl := Except.ok.inj hts'
      exact (hunclosed x hx).2.2

/-- Two functions, of which the second one hides the first one, a decorator whose name is two bytes
long, a brace too many and two braces too few. -/
theorem Settings.positions_ordered_of_open :
    let source := "\x7d\n@é\nfn f() \x7b\nfn f() \x7b"
    let ts : List Token := [⟨.closeBrace, "\x7d", ⟨0, 1⟩⟩, ⟨.newline, "\n", ⟨1, 2⟩⟩,
      ⟨.atSign, "@", ⟨2, 3⟩⟩, ⟨.ident, "é", ⟨3, 5⟩⟩, ⟨.newline, "\n", ⟨5, 6⟩⟩,
      ⟨.ident, "fn", ⟨6, 8⟩⟩, ⟨.ident, "f", ⟨9, 10⟩⟩, ⟨.openParen, "(", ⟨10, 11⟩⟩,
      ⟨.closeParen, ")", ⟨11, 12⟩⟩, ⟨.openBrace, "\x7b", ⟨13, 14⟩⟩, ⟨.newline, "\n", ⟨14, 15⟩⟩,
      ⟨.ident, "fn", ⟨15, 17⟩⟩, ⟨.ident, "f", ⟨18, 19⟩⟩, ⟨.openParen, "(", ⟨19, 20⟩⟩,
      ⟨.closeParen, ")", ⟨20, 21⟩⟩, ⟨.openBrace, "\x7b", ⟨22, 23⟩⟩]
    let result := ({} : Settings).compile "v" source
    Token.scan source = .ok ts ∧
      result.diagnostics.map (fun x => (x.span, x.isUnclosed)) =
        [(⟨0, 1⟩, false), (⟨18, 19⟩, false), (⟨22, 23⟩, true), (⟨13, 23⟩, true)] ∧
      (⟨2, 5⟩ ∈ result.spans ∧ Span.Valid source ⟨2, 5⟩) ∧
      result.functions.Pairwise (fun f g => f.nameSpan.start < g.nameSpan.start) ∧
      ∀ x ∈ result.diagnostics.filter Diagnostic.isUnclosed,
        ts.getLast?.map (·.span.stop) = some x.span.stop := by
  intro source ts result
  have hscan : Token.scan source = .ok ts := Token.scan_of_scanWithin 30 (by decide +kernel)
  have hdiagnostics : result.diagnostics.map (fun x => (x.span, x.isUnclosed)) =
      [(⟨0, 1⟩, false), (⟨18, 19⟩, false), (⟨22, 23⟩, true), (⟨13, 23⟩, true)] :=
    Settings.view_compile _ 30 (fun r => r.diagnostics.map fun x => (x.span, x.isUnclosed))
      (by decide +kernel)
  have hspan : result.spans.contains ⟨2, 5⟩ = true :=
    Settings.view_compile _ 30 (fun r => r.spans.contains ⟨2, 5⟩) (by decide +kernel)
  have hmem : ⟨2, 5⟩ ∈ result.spans := List.contains_iff_mem.mp hspan
  obtain ⟨hvalid, hnames, -, -, -, hends⟩ := Settings.positions_ordered {} "v" source
  exact ⟨hscan, hdiagnostics, ⟨hmem, hvalid _ hmem⟩, hnames, hends ts hscan⟩

end FuncDecl
