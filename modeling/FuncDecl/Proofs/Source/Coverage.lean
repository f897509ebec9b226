import FuncDecl.Proofs.Source.Chunks
import FuncDecl.Proofs.Source.Reports

/-!
# No declaration is lost

Every header that begins a line outside parentheses and brackets lies in a declaration of its own.
The depth that counts for a header is that of the whole file, while the walk over a unit begins to
count at the unit. The second count is never above the first, so a header that is outside for the
file is outside for the walk.

* `Chunk.LiesIn cs i p`: the token at a place belongs to a chunk. It belongs to no other one
  (`Chunk.LiesIn.unique`).
* `Dialect.HeaderAt before ts p`: a header begins at a place of the tokens.
* `Dialect.extent_found_of_header`: a walk that comes upon a header finds the keyword, so a unit
  with a header in it is a declaration (`Dialect.HeaderAt.found`).
* `Dialect.continues_header`: behind the keyword a declaration does not go on to another header, so
  no two are in one unit (`Dialect.HeaderAt.not_lt`).
* `Dialect.HeaderAt.exists_declaration` and `Dialect.HeaderAt.eq_of_liesIn`: every header lies in a
  declaration, and no two in the same.
* `Settings.no_declaration_lost`: **no declaration is lost**.
-/

namespace FuncDecl

/-! ## Places -/

/-- The place of the first token of a chunk. -/
def Chunk.start (cs : List Chunk) (i : Nat) : Nat :=
  ((cs.take i).flatMap Chunk.tokens).length

/-- The token at a place belongs to the chunk with the given index. -/
def Chunk.LiesIn (cs : List Chunk) (i p : Nat) : Prop :=
  ∃ c, cs[i]? = some c ∧ Chunk.start cs i ≤ p ∧ p < Chunk.start cs i + c.tokens.length

namespace Chunk

/-- The first chunk begins at the first token. -/
@[simp] theorem start_zero (cs : List Chunk) : start cs 0 = 0 := rfl

/-- The others begin behind the first one. -/
theorem start_cons_succ (c : Chunk) (cs : List Chunk) (i : Nat) :
    start (c :: cs) (i + 1) = c.tokens.length + start cs i := by
  simp [start]

/-- A chunk ends before any later one starts. -/
theorem start_add_le {cs : List Chunk} {i j : Nat} {c : Chunk} (hc : cs[i]? = some c)
    (hij : i < j) : start cs i + c.tokens.length ≤ start cs j := by
  induction cs generalizing i j with
  | nil => simp at hc
  | cons b cs ih =>
    obtain ⟨j, rfl⟩ : ∃ k, j = k + 1 := ⟨j - 1, by omega⟩
    rw [start_cons_succ]
    cases i with
    | zero =>
      rw [List.getElem?_cons_zero, Option.some.injEq] at hc
      rw [hc, start_zero]
      omega
    | succ i =>
      have := ih hc (Nat.lt_of_succ_lt_succ hij)
      rw [start_cons_succ]
      omega

/-- No token belongs to two chunks. -/
theorem LiesIn.unique {cs : List Chunk} {i j p : Nat} (hi : LiesIn cs i p) (hj : LiesIn cs j p) :
    i = j := by
  obtain ⟨c, hc, hcle, hclt⟩ := hi
  obtain ⟨b, hb, hble, hblt⟩ := hj
  rcases Nat.lt_trichotomy i j with hlt | heq | hlt
  · have := start_add_le hc hlt
    omega
  · exact heq
  · have := start_add_le hb hlt
    omega

/-- A place in the first chunk. -/
theorem liesIn_zero_iff {c : Chunk} {cs : List Chunk} {p : Nat} :
    LiesIn (c :: cs) 0 p ↔ p < c.tokens.length := by
  simp [LiesIn]

/-- A place behind the first chunk. -/
theorem liesIn_succ_iff {c : Chunk} {cs : List Chunk} {i p : Nat} :
    LiesIn (c :: cs) (i + 1) p ↔ c.tokens.length ≤ p ∧ LiesIn cs i (p - c.tokens.length) := by
  unfold LiesIn
  rw [start_cons_succ, List.getElem?_cons_succ]
  constructor
  · rintro ⟨b, hb, hle, hlt⟩
    exact ⟨by omega, b, hb, by omega, by omega⟩
  · rintro ⟨hle, b, hb, hle', hlt⟩
    exact ⟨b, hb, by omega, by omega⟩

/-- Two places in the same chunk are the same, if they are in the first chunk and if they are behind
it. -/
theorem LiesIn.eq_of_cons {c : Chunk} {cs : List Chunk} {i p q : Nat} (hp : LiesIn (c :: cs) i p)
    (hq : LiesIn (c :: cs) i q) (hfirst : p < c.tokens.length → q < c.tokens.length → p = q)
    (hbehind : ∀ j, c.tokens.length ≤ p → c.tokens.length ≤ q → LiesIn cs j (p - c.tokens.length) →
      LiesIn cs j (q - c.tokens.length) → p - c.tokens.length = q - c.tokens.length) : p = q := by
  cases i with
  | zero => exact hfirst (liesIn_zero_iff.mp hp) (liesIn_zero_iff.mp hq)
  | succ i =>
    obtain ⟨hlep, hp⟩ := liesIn_succ_iff.mp hp
    obtain ⟨hleq, hq⟩ := liesIn_succ_iff.mp hq
    have := hbehind i hlep hleq hp hq
    omega

end Chunk

/-! ## Headers -/

/-- Whether a line begins behind the tokens. -/
def BeginsLine (before : List Token) : Prop :=
  ∀ t ∈ before.getLast?, t.kind = .newline

namespace Dialect

variable (d : Dialect)

/-- A header begins at a place of `ts` where the tokens `before` are in front of `ts`: it begins a
line and is outside parentheses and brackets. -/
structure HeaderAt (before ts : List Token) (p : Nat) : Prop where
  line : BeginsLine (before ++ ts.take p)
  front : d.HeaderFront (ts.drop p)
  outside : roundDepthAfter 0 (before ++ ts.take p) = 0

/-- Names are passed, and the depth stays. -/
theorem passes_of_ident {ts : List Token} (h : ∀ t ∈ ts, t.kind = .ident) (depth : Nat)
    (keyword : Bool) (rest : List Token) :
    d.Passes depth keyword ts rest ∧ roundDepthAfter depth ts = depth := by
  induction ts generalizing depth keyword with
  | nil => exact ⟨d.passes_nil _ _ _, rfl⟩
  | cons t ts ih =>
    obtain ⟨ht, hts⟩ := List.forall_mem_cons.mp h
    rw [passes_cons_iff, roundDepthAfter_cons, roundDepth_of_ident ht]
    refine ⟨⟨fun _ => ?_, (ih hts _ _).1⟩, (ih hts _ keyword).2⟩
    rw [ht]
    exact ⟨rfl, by simp⟩

/-- A walk that has met the keyword keeps it in mind. -/
theorem extent_found_of_keyword (depth : Nat) (ts : List Token) :
    (d.extent depth true ts).2 = true := by
  obtain ⟨pre, -, -, -, -, hfound⟩ := d.extent_split depth true ts
  rw [hfound, Bool.true_or]

/-- A walk that comes upon a header outside parentheses and brackets finds the keyword. -/
theorem extent_found_of_header {keyword : Bool} {ts : List Token} (h : d.HeaderFront ts) :
    (d.extent 0 keyword ts).2 = true := by
  obtain ⟨mods, k, post, rfl, hk, hident⟩ := h.exists_eq
  obtain ⟨hpass, hdepth⟩ := d.passes_of_ident hident 0 keyword post
  have hmods := (d.passes_of_ident (fun t ht => hident t (List.mem_append_left _ ht)) 0 keyword
    (k :: post)).2
  have hout : d.keywordOutside 0 (mods ++ [k]) = true := by
    rw [keywordOutside_append, hmods, keywordOutside_cons, hk]
    simp
  rw [List.append_cons, extent_append_of_passes d hpass, hout, Bool.or_true]
  exact d.extent_found_of_keyword _ post

/-- The walk over a unit passes the tokens in front of any place in the unit. -/
theorem passes_take_of_lt {depth : Nat} {keyword : Bool} {ts : List Token} {p : Nat}
    (h : p < (d.extent depth keyword ts).1) :
    d.Passes depth keyword (ts.take p) (ts.drop p) := by
  obtain ⟨pre, rest, hts, hpass, hends, -⟩ := d.extent_split depth keyword ts
  have hle : p ≤ pre.length := by
    generalize (d.extent depth keyword ts).1 = n at h hends
    cases hends with
    | exhausted => omega
    | mark => omega
    | line => omega
  have hpre : pre = pre.take p ++ pre.drop p := (List.take_append_drop p pre).symm
  rw [hpre, passes_append_iff] at hpass
  rw [hts, List.take_append_of_le_length hle, List.drop_append_of_le_length hle]
  exact hpass.1

/-- Where the walk passes all tokens in front of a place and the file is outside parentheses and
brackets there, the walk is too. -/
theorem HeaderAt.outside_take {d : Dialect} {before ts : List Token} {p : Nat}
    (h : d.HeaderAt before ts p) : roundDepthAfter 0 (ts.take p) = 0 := by
  have hfile := h.outside
  rw [roundDepthAfter_append] at hfile
  have := roundDepthAfter_mono (ts.take p) (Nat.zero_le (roundDepthAfter 0 before))
  omega

/-- A unit with a header in it is a declaration. -/
theorem HeaderAt.found {d : Dialect} {before ts : List Token} {p : Nat}
    (h : d.HeaderAt before ts p) (hp : p < (d.extent 0 false ts).1) :
    (d.extent 0 false ts).2 = true := by
  have hpass := d.passes_take_of_lt hp
  have hwalk := extent_append_of_passes d hpass
  rw [List.take_append_drop, h.outside_take] at hwalk
  rw [hwalk]
  exact d.extent_found_of_header h.front

/-- The tokens of a header come before the next line end. -/
theorem HeaderFront.prefix_of_newline {d : Dialect} {ts line post : List Token} {t : Token}
    (h : d.HeaderFront ts) (hts : ts = line ++ t :: post) (ht : t.kind = .newline) :
    d.keywordOutside 0 line = true := by
  obtain ⟨mods, k, rest, hmods, hk, hident⟩ := h.exists_eq
  have heq : line ++ t :: post = (mods ++ [k]) ++ rest := by
    rw [← hts, hmods, List.append_assoc, List.singleton_append]
  have hline : ∃ more, line = mods ++ [k] ++ more := by
    rcases List.append_eq_append_iff.mp heq with ⟨more, hmore, hpost⟩ | ⟨more, hmore, -⟩
    · -- the line end would be one of the names
      cases more with
      | nil => exact ⟨[], by simpa using hmore.symm⟩
      | cons u more =>
        obtain ⟨rfl, -⟩ := List.cons.inj hpost
        have := hident t (by rw [hmore]; simp)
        rw [ht] at this
        exact absurd this (by simp)
    · exact ⟨more, hmore⟩
  obtain ⟨more, rfl⟩ := hline
  have hdepth := (d.passes_of_ident (fun u hu => hident u (List.mem_append_left _ hu)) 0 false []).2
  rw [keywordOutside_append, keywordOutside_append, hdepth, keywordOutside_cons, hk]
  simp

/-- Behind the keyword a declaration does not go on to another header. -/
theorem continues_header {d : Dialect} {t : Token} {ts : List Token} (ht : t.kind = .newline)
    (h : d.HeaderFront ts) : d.continues true (t :: ts) = false := by
  cases ts with
  | nil =>
    obtain ⟨k, hk, -⟩ := h
    simp at hk
  | cons u us =>
    have hu := h.head_kind
    rw [continues, skipNewlines_cons_of_newline ht, skipNewlines_cons_of_ne (by rw [hu]; simp)]
    simp only [hu]
    rfl

/-- No two headers are in one unit. -/
theorem HeaderAt.not_lt {d : Dialect} {before ts : List Token} {p q : Nat}
    (hp : d.HeaderAt before ts p) (hq : d.HeaderAt before ts q)
    (hlt : q < (d.extent 0 false ts).1) : ¬ p < q := by
  intro hpq
  have hqlen : q ≤ ts.length := Nat.le_of_lt (Nat.lt_of_lt_of_le hlt (d.extent_le_length 0 false ts))
  -- the second header begins a line, and the line end in front of it is in the unit
  have hne : ts.take q ≠ [] := by
    rw [Ne, List.take_eq_nil_iff, not_or]
    exact ⟨by omega, by rintro rfl; simp at hqlen; omega⟩
  obtain ⟨w, t, hw⟩ : ∃ w t, ts.take q = w ++ [t] :=
    ⟨_, _, (List.dropLast_concat_getLast hne).symm⟩
  have ht : t.kind = .newline := hq.line t (by rw [hw, ← List.append_assoc]; simp)
  have hwout : roundDepthAfter 0 w = 0 := by
    have := hq.outside_take
    rwa [hw, roundDepthAfter_append, roundDepthAfter_cons, roundDepth_of_newline ht] at this
  have hwlen : w.length + 1 = q := by
    have := congrArg List.length hw
    rw [List.length_take, Nat.min_eq_left hqlen, List.length_append] at this
    exact this.symm
  have hts : ts = w ++ t :: ts.drop q := by
    conv => lhs; rw [← List.take_append_drop q ts, hw, List.append_assoc, List.singleton_append]
  -- the keyword of the first header is on the lines before it
  have hkey : d.keywordOutside 0 w = true := by
    have hwp : w = ts.take p ++ w.drop p := by
      conv => lhs; rw [← List.take_append_drop p w]
      rw [hts, List.take_append_of_le_length (by omega)]
    have hdrop : ts.drop p = w.drop p ++ t :: ts.drop q := by
      conv => lhs; rw [hts, List.drop_append_of_le_length (by omega)]
    rw [hwp, keywordOutside_append, hp.outside_take,
      hp.front.prefix_of_newline hdrop ht, Bool.or_true]
  have hpass := d.passes_take_of_lt hlt w t [] hw hwout
  have hcont := hpass.2 ht
  rw [hkey, List.nil_append, Bool.or_true, continues_header ht hq.front] at hcont
  exact absurd hcont (by simp)

/-! ## Headers and chunks -/

/-- A place behind the first chunk, seen from there. -/
theorem HeaderAt.behind {d : Dialect} {before c rest : List Token} {p : Nat}
    (h : d.HeaderAt before (c ++ rest) p) (hle : c.length ≤ p) :
    d.HeaderAt (before ++ c) rest (p - c.length) := by
  have htake : before ++ (c ++ rest).take p = before ++ c ++ rest.take (p - c.length) := by
    rw [List.take_append, List.take_of_length_le hle, List.append_assoc]
  have hdrop : (c ++ rest).drop p = rest.drop (p - c.length) := by
    rw [List.drop_append, List.drop_of_length_le hle, List.nil_append]
  exact ⟨htake ▸ h.line, hdrop ▸ h.front, htake ▸ h.outside⟩

/-- A header is not a line end. -/
theorem HeaderAt.not_newline {d : Dialect} {before rest : List Token} {t : Token}
    (h : d.HeaderAt before (t :: rest) 0) : t.kind ≠ .newline := by
  have := h.front.head_kind
  rw [this]
  simp

/-- Inside a line no header begins behind its first token. -/
theorem HeaderAt.eq_zero_of_line {d : Dialect} {before line rest : List Token} {p : Nat}
    (h : d.HeaderAt before (line ++ rest) p) (hline : ∀ t ∈ line, t.kind ≠ .newline)
    (hp : p < line.length) : p = 0 := by
  by_contra hp0
  have htake : (line ++ rest).take p = line.take p := List.take_append_of_le_length hp.le
  have hne : line.take p ≠ [] := by
    rw [Ne, List.take_eq_nil_iff, not_or]
    exact ⟨hp0, by rintro rfl; simp at hp⟩
  obtain ⟨w, t, hw⟩ : ∃ w t, line.take p = w ++ [t] :=
    ⟨_, _, (List.dropLast_concat_getLast hne).symm⟩
  have ht : t.kind = .newline :=
    h.line t (by rw [htake, hw, ← List.append_assoc]; simp)
  have hmem : t ∈ line := List.mem_of_mem_take (by rw [hw]; simp)
  exact hline t hmem ht

/-- Every header lies in a declaration. -/
theorem HeaderAt.exists_declaration {d : Dialect} {before ts : List Token} {p : Nat}
    (h : d.HeaderAt before ts p) :
    ∃ i unit, (d.chunks ts)[i]? = some (.declaration unit) ∧ Chunk.LiesIn (d.chunks ts) i p := by
  revert before p
  refine d.chunks_induct (motive := fun ts cs => ∀ {before : List Token} {p : Nat},
    d.HeaderAt before ts p →
      ∃ i unit, cs[i]? = some (.declaration unit) ∧ Chunk.LiesIn cs i p) ?_ ?_ ?_ ?_ ts
  · intro before p h
    obtain ⟨k, hk, -⟩ := h.front
    simp at hk
  · intro t rest ht ih before p h
    cases p with
    | zero => exact absurd ht h.not_newline
    | succ p =>
      obtain ⟨i, unit, hi, hlies⟩ := ih (HeaderAt.behind (c := [t]) h (by simp))
      exact ⟨i + 1, unit, hi, Chunk.liesIn_succ_iff.mpr ⟨Nat.succ_pos p, hlies⟩⟩
  · intro t ts rest found ht hopens hext ih before p h
    rcases Nat.lt_or_ge p (t :: ts).length with hlt | hle
    · -- the walk over the unit meets the keyword, so the unit is a declaration
      have hfound := h.found (by rw [hext]; exact hlt)
      rw [hext] at hfound
      refine ⟨0, t :: ts, ?_, Chunk.liesIn_zero_iff.mpr (by rwa [Chunk.tokens_ofUnit])⟩
      rw [List.getElem?_cons_zero, show found = true from hfound]
      rfl
    · obtain ⟨i, unit, hi, hlies⟩ := ih (h.behind hle)
      refine ⟨i + 1, unit, hi, Chunk.liesIn_succ_iff.mpr ?_⟩
      rw [Chunk.tokens_ofUnit]
      exact ⟨hle, hlies⟩
  · intro t ts rest hline hrest hopens ih before p h
    rcases Nat.lt_or_ge p (t :: ts).length with hlt | hle
    · -- a header that begins the line would have opened a declaration
      have hp := h.eq_zero_of_line hline hlt
      subst hp
      have := h.front.opensDeclaration
      rw [List.drop_zero, hopens] at this
      exact absurd this (by simp)
    · obtain ⟨i, unit, hi, hlies⟩ := ih (h.behind hle)
      exact ⟨i + 1, unit, hi, Chunk.liesIn_succ_iff.mpr ⟨hle, hlies⟩⟩

/-- Two headers that lie in the same chunk are the same. -/
theorem HeaderAt.eq_of_liesIn {d : Dialect} {before ts : List Token} {p q i : Nat}
    (hp : d.HeaderAt before ts p) (hq : d.HeaderAt before ts q)
    (hpi : Chunk.LiesIn (d.chunks ts) i p) (hqi : Chunk.LiesIn (d.chunks ts) i q) : p = q := by
  revert before p q i
  refine d.chunks_induct (motive := fun ts cs => ∀ {before : List Token} {p q i : Nat},
    d.HeaderAt before ts p → d.HeaderAt before ts q → Chunk.LiesIn cs i p →
      Chunk.LiesIn cs i q → p = q) ?_ ?_ ?_ ?_ ts
  · intro before p q i _ _ hpi
    obtain ⟨c, hc, -⟩ := hpi
    simp at hc
  · intro t rest ht ih before p q i hp hq hpi hqi
    refine hpi.eq_of_cons hqi (fun hp1 hq1 => ?_) fun j hlep hleq =>
      ih (HeaderAt.behind (c := [t]) hp hlep) (HeaderAt.behind (c := [t]) hq hleq)
    rw [Nat.lt_one_iff.mp hp1, Nat.lt_one_iff.mp hq1]
  · intro t ts rest found ht hopens hext ih before p q i hp hq hpi hqi
    refine hpi.eq_of_cons hqi ?_ ?_
    · rw [Chunk.tokens_ofUnit]
      intro hpu hqu
      have hpq := hp.not_lt hq (by rw [hext]; exact hqu)
      have hqp := hq.not_lt hp (by rw [hext]; exact hpu)
      omega
    · rw [Chunk.tokens_ofUnit]
      exact fun j hlep hleq => ih (hp.behind hlep) (hq.behind hleq)
  · intro t ts rest hline hrest hopens ih before p q i hp hq hpi hqi
    refine hpi.eq_of_cons hqi (fun hpl hql => ?_) fun j hlep hleq =>
      ih (hp.behind hlep) (hq.behind hleq)
    rw [hp.eq_zero_of_line hline hpl, hq.eq_zero_of_line hline hql]

end Dialect

/-! ## The whole source -/

/-- **No declaration is lost.** The chunks of a source that can be cut into tokens are not empty and
cover the tokens once and in order. A header that begins a line outside parentheses and brackets
lies in exactly one chunk, that chunk is a declaration, and two headers lie in different ones. What
the source is compiled to is the reports of the chunks in a row, with the braces left open behind
them, and the report of every declaration is settled: one function and no error, or no function and
one error.
Source: `compile_source`, `starts_declaration`, `declaration_end` and `scan_line`. -/
theorem Settings.no_declaration_lost (s : Settings) (name source : String) (ts : List Token)
    (h : Token.scan source = .ok ts) :
    let ctx := s.context name source
    let cs := ctx.compiler.dialect.chunks ts
    let reports := Pass.reports ctx { tree := s.emptyTree name } cs
    (cs.flatMap Chunk.tokens = ts ∧ ∀ c ∈ cs, c.tokens ≠ []) ∧
    (∀ p, ctx.compiler.dialect.HeaderAt [] ts p →
      ∃! i, Chunk.LiesIn cs i p ∧ ∃ unit, cs[i]? = some (Chunk.declaration unit)) ∧
    (∀ p q i, ctx.compiler.dialect.HeaderAt [] ts p → ctx.compiler.dialect.HeaderAt [] ts q →
      Chunk.LiesIn cs i p → Chunk.LiesIn cs i q → p = q) ∧
    (∀ (i : Nat) (unit : List Token), cs[i]? = some (.declaration unit) →
      ∃ r, reports[i]? = some r ∧ Report.Settled r) ∧
    (s.compile name source).functions = reports.flatMap Report.functions ∧
    (s.compile name source).diagnostics =
      reports.flatMap Report.diagnostics ++
        ((Pass.run ctx { tree := s.emptyTree name } cs).1.unclosed (endSpan ts)).diagnostics := by
  intro ctx cs reports
  refine ⟨⟨Dialect.flatMap_tokens_chunks _ ts, Dialect.tokens_ne_nil_of_mem_chunks _ ts⟩,
    fun p hp => ?_, fun p q i hp hq => hp.eq_of_liesIn hq,
    fun i unit hi => Pass.exists_report_of_declaration ctx _ hi, ?_, ?_⟩
  · obtain ⟨i, unit, hi, hlies⟩ := hp.exists_declaration
    exact ⟨i, ⟨hlies, unit, hi⟩, fun j hj => hj.1.unique hlies⟩
  · rw [s.compile_of_scan name h, ← Pass.functions_run]
    exact List.append_nil _
  · rw [s.compile_of_scan name h, ← Pass.diagnostics_run]
    rfl

/-- A header behind a decorator, whose parentheses are never closed. -/
theorem Settings.no_declaration_lost_behind_decorator :
    let ts : List Token := [⟨.atSign, "@", ⟨0, 1⟩⟩, ⟨.ident, "log", ⟨1, 4⟩⟩,
      ⟨.newline, "\n", ⟨4, 5⟩⟩, ⟨.ident, "fn", ⟨5, 7⟩⟩, ⟨.ident, "f", ⟨8, 9⟩⟩,
      ⟨.openParen, "(", ⟨9, 10⟩⟩]
    let d := (({} : Settings).context "" "@log\nfn f(").compiler.dialect
    Token.scan "@log\nfn f(" = .ok ts ∧ d.HeaderAt [] ts 3 ∧
      ∃! i, Chunk.LiesIn (d.chunks ts) i 3 ∧
        ∃ unit, (d.chunks ts)[i]? = some (Chunk.declaration unit) := by
  intro ts d
  have hscan : Token.scan "@log\nfn f(" = .ok ts := Token.scan_of_scanWithin 20 (by decide +kernel)
  have hd : d.HeaderAt [] ts 3 :=
    ⟨by simp [BeginsLine, ts], by unfold Dialect.HeaderFront; decide +kernel, by decide⟩
  exact ⟨hscan, hd, (Settings.no_declaration_lost {} "" _ ts hscan).2.1 3 hd⟩

end FuncDecl
