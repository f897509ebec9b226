import FuncDecl.Proofs.Declaration.Grammar
import FuncDecl.Proofs.Declaration.Shifting
import FuncDecl.Proofs.Source.Chunks

/-!
# The chunks of two texts in a row

Where a chunk ends is decided by the tokens up to the next line and a little of what follows. If the
last line of a text is a closing brace alone, and no unit takes in this brace, then nothing behind
the brace has a say in the chunks in front of it.

* `Dialect.chunks_shift`: the chunks of tokens that stand further behind are the same, further
  behind.
* `Dialect.extent_brace`: a walk that does not reach the brace goes the same way whatever stands
  behind it.
* `EndsInBrace`: the last line that has tokens is a closing brace alone.
* `Dialect.chunks_front`: the chunks in front of the brace are the same whatever stands behind it.
* `Dialect.chunks_join`: **the chunks of two texts in a row are those of both**, one after the
  other.
-/

namespace FuncDecl

variable {n : Nat}

/-! ## Chunks further behind -/

/-- A chunk, moved behind. -/
def Chunk.shift (n : Nat) : Chunk → Chunk
  | .newline t => .newline (t.shift n)
  | .declaration ts => .declaration (ts.map (Token.shift n))
  | .stray ts => .stray (ts.map (Token.shift n))
  | .line ts => .line (ts.map (Token.shift n))

namespace Dialect

variable (d : Dialect)

/-- Whether a declaration begins does not depend on places. -/
theorem opensDeclaration_shift (ts : List Token) :
    d.opensDeclaration (ts.map (Token.shift n)) = d.opensDeclaration ts := by
  cases ts with
  | nil => rfl
  | cons t ts =>
    have hfind : (t.shift n :: ts.map (Token.shift n)).find? (fun t => !d.isModifier t) =
        ((t :: ts).find? fun t => !d.isModifier t).map (Token.shift n) := by
      rw [← List.map_cons, List.find?_map]
      rfl
    unfold opensDeclaration
    rw [List.map_cons]
    dsimp only
    rw [hfind, Token.kind_shift]
    cases (t :: ts).find? fun t => !d.isModifier t <;> rfl

/-- Whether a declaration goes on does not depend on places. -/
theorem continues_shift (keyword : Bool) (ts : List Token) :
    d.continues keyword (ts.map (Token.shift n)) = d.continues keyword ts := by
  unfold continues
  rw [skipNewlines_shift]
  cases skipNewlines ts with
  | nil => rfl
  | cons t rest =>
    have hopens := d.opensDeclaration_shift (n := n) (t :: rest)
    rw [List.map_cons] at hopens ⊢
    dsimp only
    rw [hopens]
    rfl

/-- Where a declaration ends does not depend on places. By induction along the walk. -/
theorem extent_shift (depth : Nat) (keyword : Bool) (ts : List Token) :
    d.extent depth keyword (ts.map (Token.shift n)) = d.extent depth keyword ts := by
  induction ts generalizing depth keyword with
  | nil => rfl
  | cons t ts ih =>
    have hcontinues := d.continues_shift (n := n) keyword (t :: ts)
    have hkeyword : d.isFunctionKeyword (t.shift n) = d.isFunctionKeyword t := rfl
    rw [List.map_cons] at hcontinues ⊢
    rw [extent, extent, hcontinues, hkeyword, Token.kind_shift, ih]

/-- The chunks of tokens that stand further behind. -/
theorem chunks_shift (ts : List Token) :
    d.chunks (ts.map (Token.shift n)) = (d.chunks ts).map (Chunk.shift n) := by
  fun_induction d.chunks ts with
  | case1 => rw [List.map_nil, chunks, List.map_nil]
  | case2 t ts ht ih =>
    have ht' : (t.shift n).kind = .newline := ht
    rw [List.map_cons, chunks, dif_pos ht', ih]
    rfl
  | case3 t ts ht hopens unit tokens ih =>
    have ht' : ¬(t.shift n).kind = .newline := ht
    have hopens' := (d.opensDeclaration_shift (n := n) (t :: ts)).trans hopens
    have hextent := d.extent_shift (n := n) 0 false (t :: ts)
    rw [List.map_cons] at hopens' hextent
    rw [List.map_cons, chunks, dif_neg ht', if_pos hopens']
    simp only [hextent]
    rw [← List.map_cons, ← List.map_take, ← List.map_drop, ih, List.map_cons]
    congr 1
    show _ = Chunk.shift n (if unit.2 = true then _ else _)
    split <;> rfl
  | case4 t ts ht hopens ih =>
    have ht' : ¬(t.shift n).kind = .newline := ht
    have hopens' := d.opensDeclaration_shift (n := n) (t :: ts)
    rw [List.map_cons] at hopens'
    have hnewline : (fun t : Token => !t.isNewline) ∘ Token.shift n = fun t => !t.isNewline := rfl
    rw [List.map_cons, chunks, dif_neg ht', hopens', if_neg hopens, List.takeWhile_map,
      List.dropWhile_map, hnewline, ih]
    rfl

/-! ## In front of a closing brace -/

section Brace

variable {d} {brace : Token} (hbrace : brace.kind = .closeBrace)
include hbrace

/-- A brace is not passed in the search for the function keyword. -/
theorem opensDeclaration_brace (t : Token) (front more more' : List Token) :
    d.opensDeclaration (t :: front ++ brace :: more) =
      d.opensDeclaration (t :: front ++ brace :: more') := by
  have hmodifier : d.isModifier brace = false := by
    rw [isModifier, hbrace]
    rfl
  have hfind : ∀ more, (t :: front ++ brace :: more).find? (fun t => !d.isModifier t) =
      ((t :: front).find? fun t => !d.isModifier t).or (some brace) := by
    intro more
    have hstop : (brace :: more).find? (fun t => !d.isModifier t) = some brace :=
      List.find?_cons_of_pos (by rw [hmodifier]; rfl)
    rw [List.find?_append, hstop]
  have hfind' := hfind more
  rw [← hfind more'] at hfind'
  unfold opensDeclaration
  rw [List.cons_append, List.cons_append] at hfind' ⊢
  dsimp only
  rw [hfind']

/-- No declaration begins with a closing brace. -/
theorem opensDeclaration_cons_brace (more : List Token) :
    d.opensDeclaration (brace :: more) = false := by
  have hmodifier : d.isModifier brace = false := by
    rw [isModifier, hbrace]
    rfl
  have hkeyword : d.isFunctionKeyword brace = false := by
    rw [isFunctionKeyword, Token.isName, hbrace]
    rfl
  unfold opensDeclaration
  dsimp only
  rw [if_neg (by rw [hbrace]; decide), List.find?_cons_of_pos (by rw [hmodifier]; rfl)]
  exact hkeyword

/-- Whether a declaration goes on does not depend on what is behind a brace. -/
theorem continues_brace (keyword : Bool) (front more more' : List Token) :
    d.continues keyword (front ++ brace :: more) = d.continues keyword (front ++ brace :: more') := by
  have hline : brace.kind ≠ .newline := by
    rw [hbrace]
    decide
  unfold continues
  rw [skipNewlines_append_cons hline, skipNewlines_append_cons hline]
  cases skipNewlines front with
  | nil =>
    dsimp only [List.nil_append]
    rw [opensDeclaration_cons_brace hbrace, opensDeclaration_cons_brace hbrace]
  | cons t rest =>
    have hopens := opensDeclaration_brace (d := d) hbrace t rest more more'
    rw [List.cons_append, List.cons_append] at hopens ⊢
    dsimp only
    rw [hopens]

/-- A walk that does not reach the brace goes the same way whatever stands behind the brace. -/
theorem extent_brace {depth : Nat} {keyword : Bool} {front more : List Token}
    (h : (d.extent depth keyword (front ++ brace :: more)).1 ≤ front.length) (more' : List Token) :
    d.extent depth keyword (front ++ brace :: more') =
      d.extent depth keyword (front ++ brace :: more) := by
  induction front generalizing depth keyword with
  | nil =>
    rw [List.nil_append, extent, hbrace] at h
    exact absurd h (by simp [Token.Kind.endsDeclaration])
  | cons t front ih =>
    have hcontinues := continues_brace (d := d) hbrace keyword (t :: front) more more'
    rw [List.cons_append, List.cons_append] at hcontinues
    rw [List.cons_append] at h ⊢
    rw [List.cons_append, extent, extent]
    rw [extent] at h
    rw [hcontinues] at h ⊢
    split
    · rfl
    · next hmark =>
      rw [if_neg hmark] at h
      split
      · rfl
      · next hline =>
        rw [if_neg hline] at h
        rw [ih (Nat.le_of_succ_le_succ h)]

end Brace

end Dialect

/-! ## Behind a closing brace -/

/-- The last token that does not end a line. -/
def lastWord? (ts : List Token) : Option Token :=
  (ts.filter (!·.isNewline)).getLast?

/-- Line ends at the end do not count. -/
theorem lastWord?_append_newlines {t : Token} (ht : t.kind ≠ .newline) (front : List Token)
    {trail : List Token} (htrail : ∀ u ∈ trail, u.kind = .newline) :
    lastWord? (front ++ t :: trail) = some t := by
  have hnone : trail.filter (!·.isNewline) = [] := by
    rw [List.filter_eq_nil_iff]
    intro u hu
    simp [Token.isNewline, htrail u hu]
  have hword : (!t.isNewline) = true := by simp [Token.isNewline, ht]
  unfold lastWord?
  rw [List.filter_append, List.filter_cons_of_pos (p := (!Token.isNewline ·)) hword, hnone,
    List.getLast?_concat]

/-- A header ends with its mark. -/
theorem Header.kind_lastWord? {d : Dialect} {ts : List Token} {h : Header}
    (hread : read d ts = .ok h) : ∀ t ∈ lastWord? ts, t.kind ≠ .closeBrace := by
  obtain ⟨f, rfl, hf, -⟩ := exists_form_of_read hread
  have hmark : f.mark.kind ≠ .newline := by
    rcases hf.mark with hkind | hkind
    all_goals
      rw [hkind]
      decide
  have hlast : lastWord? f.tokens = some f.mark := by
    have := lastWord?_append_newlines hmark (f.lead ++ (f.decorators ++ (f.modifiers ++ f.keyword ::
      f.name :: f.paren :: (f.params ++ f.close :: (f.returns ++ f.gap))))) hf.trail
    rw [← this, Form.tokens, Form.head, Form.last]
    simp only [List.append_assoc, List.cons_append]
  intro t ht
  rw [hlast] at ht
  obtain rfl := Option.some.inj ht
  rcases hf.mark with hkind | hkind
  all_goals
    rw [hkind]
    decide

/-- The last line that has tokens is a closing brace alone. -/
def EndsInBrace (ts : List Token) : Prop :=
  ∃ front brace trail, ts = front ++ brace :: trail ∧ brace.kind = .closeBrace ∧
    (∀ t ∈ front.getLast?, t.kind = .newline) ∧ ∀ t ∈ trail, t.kind = .newline

namespace Dialect

variable {d : Dialect}

section Front

variable {t brace : Token} {front trail : List Token} (hbrace : brace.kind = .closeBrace)
  (hnewline : t.kind ≠ .newline)
include hbrace hnewline

/-- A unit at the front that does not take in the brace is a chunk, whatever stands behind the
brace. -/
theorem chunks_front_unit (htrail : ∀ u ∈ trail, u.kind = .newline)
    (hunits : ∀ found unit, .ofUnit found unit ∈ d.chunks (t :: front ++ brace :: trail) →
      ∀ u ∈ lastWord? unit, u.kind ≠ .closeBrace)
    (hopens : d.opensDeclaration (t :: front ++ brace :: trail) = true) :
    ∃ unit rest c, t :: front = unit ++ rest ∧ unit ≠ [] ∧ ∀ more,
      d.chunks (t :: front ++ brace :: more) = c :: d.chunks (rest ++ brace :: more) := by
  obtain ⟨unit, behind, found, hsplit, hunit, hextent⟩ := d.exists_unit hnewline
    (front ++ brace :: trail)
  have hhead : ∀ ts, ∀ u ∈ (t :: ts).head?, u.kind ≠ .newline := by
    rintro ts u ⟨⟩
    exact hnewline
  have hmem : Chunk.ofUnit found unit ∈ d.chunks (t :: front ++ brace :: trail) := by
    rw [List.cons_append, hsplit, d.chunks_unit hunit (hsplit ▸ hhead _) (hsplit ▸ hopens) hextent]
    exact .head _
  obtain ⟨rest, hrest⟩ : ∃ rest, t :: front = unit ++ rest := by
    rcases List.append_eq_append_iff.mp (List.cons_append.trans hsplit) with
      ⟨taken, htaken, hbehind⟩ | ⟨rest, hrest, -⟩
    · cases taken with
      | nil => exact ⟨[], by rw [htaken, List.append_nil, List.append_nil]⟩
      | cons u taken =>
        -- the unit takes in the brace, which is then its last word
        obtain ⟨rfl, rfl⟩ := List.cons.inj hbehind
        have hlast := lastWord?_append_newlines (by rw [hbrace]; decide) (t :: front)
          fun v hv => htrail v (List.mem_append_left _ hv)
        rw [← htaken] at hlast
        exact absurd hbrace (hunits found unit hmem brace hlast)
    · exact ⟨rest, hrest⟩
  refine ⟨unit, rest, .ofUnit found unit, hrest, hunit, fun more => ?_⟩
  have hle : (d.extent 0 false (t :: front ++ brace :: trail)).1 ≤ (t :: front).length := by
    rw [List.cons_append, hsplit, hextent, hrest, List.length_append]
    exact Nat.le_add_right _ _
  have hextent' := extent_brace hbrace hle more
  have hsame : t :: front ++ brace :: more = unit ++ (rest ++ brace :: more) := by
    rw [hrest, List.append_assoc]
  rw [opensDeclaration_brace hbrace t front trail more] at hopens
  rw [← hsplit] at hextent
  rw [hsame] at hextent' hopens ⊢
  exact d.chunks_unit hunit (hsame ▸ hhead _) hopens (hextent'.trans hextent)

/-- A line that begins no declaration is a chunk, whatever stands behind the brace. -/
theorem chunks_front_line (hfront : ∀ u ∈ (t :: front).getLast?, u.kind = .newline)
    (hopens : d.opensDeclaration (t :: front ++ brace :: trail) = false) :
    ∃ line rest c, t :: front = line ++ rest ∧ line ≠ [] ∧ ∀ more,
      d.chunks (t :: front ++ brace :: more) = c :: d.chunks (rest ++ brace :: more) := by
  have hline : ∀ u ∈ t :: front.takeWhile (!·.isNewline), u.kind ≠ .newline := by
    rw [List.forall_mem_cons]
    refine ⟨hnewline, fun u hu => ?_⟩
    simpa [Token.isNewline] using List.mem_takeWhile_imp hu
  have hsplit : front.takeWhile (!·.isNewline) ++ front.dropWhile (!·.isNewline) = front :=
    List.takeWhile_append_dropWhile
  have hend := List.head?_dropWhile_not (!·.isNewline) front
  generalize front.takeWhile (!·.isNewline) = line at hsplit hline
  generalize front.dropWhile (!·.isNewline) = rest at hsplit hend
  subst hsplit
  cases rest with
  | nil =>
    -- the line would be the last one in front of the brace
    rw [List.append_nil] at hfront
    have hlast := List.getLast?_eq_some_getLast (List.cons_ne_nil t line)
    exact absurd (hfront _ hlast) (hline _ (List.getLast_mem _))
  | cons u rest =>
    have hu : u.kind = .newline := by simpa [Token.isNewline] using hend
    refine ⟨t :: line, u :: rest, .line (t :: line), rfl, List.cons_ne_nil _ _, fun more => ?_⟩
    rw [opensDeclaration_brace hbrace t _ trail more] at hopens
    rw [List.cons_append, List.append_assoc, List.cons_append] at hopens ⊢
    exact d.chunks_line hline hu hopens

end Front

/-- If no unit takes in the brace, the chunks in front of it are the same whatever stands behind it. -/
theorem chunks_front {brace : Token} {front trail : List Token} (hbrace : brace.kind = .closeBrace)
    (htrail : ∀ t ∈ trail, t.kind = .newline) (hfront : ∀ t ∈ front.getLast?, t.kind = .newline)
    (hunits : ∀ found unit, .ofUnit found unit ∈ d.chunks (front ++ brace :: trail) →
      ∀ t ∈ lastWord? unit, t.kind ≠ .closeBrace) :
    ∃ cs, ∀ more, d.chunks (front ++ brace :: more) = cs ++ d.chunks (brace :: more) := by
  induction hlength : front.length using Nat.strongRecOn generalizing front with
  | ind m ih =>
    by_cases hempty : front = []
    · exact ⟨[], fun _ => by rw [hempty]; rfl⟩
    obtain ⟨pre, rest, c, hsplit, hpre, hchunk⟩ : ∃ pre rest c, front = pre ++ rest ∧ pre ≠ [] ∧
        ∀ more, d.chunks (front ++ brace :: more) = c :: d.chunks (rest ++ brace :: more) := by
      cases front with
      | nil => exact absurd rfl hempty
      | cons t front =>
        by_cases hnewline : t.kind = .newline
        · refine ⟨[t], front, .newline t, rfl, List.cons_ne_nil _ _, fun more => ?_⟩
          rw [List.cons_append, chunks, dif_pos hnewline]
        by_cases hopens : d.opensDeclaration (t :: front ++ brace :: trail) = true
        · exact chunks_front_unit hbrace hnewline htrail hunits hopens
        · exact chunks_front_line hbrace hnewline hfront (Bool.not_eq_true _ ▸ hopens)
    have hshorter : rest.length < m := by
      have := List.length_pos_iff.mpr hpre
      rw [← hlength, hsplit, List.length_append]
      omega
    obtain ⟨cs, hcs⟩ := ih _ hshorter
      (fun t ht => hfront t (by rw [hsplit, List.getLast?_append, ht]; rfl))
      (fun found unit hmem => hunits found unit (by rw [hchunk]; exact .tail _ hmem)) rfl
    exact ⟨c :: cs, fun more => by rw [hchunk, hcs, List.cons_append]⟩

/-- A closing brace alone on its line is a chunk. -/
theorem chunks_brace {brace : Token} (hbrace : brace.kind = .closeBrace) {more : List Token}
    (hmore : ∀ t ∈ more.head?, t.kind = .newline) :
    d.chunks (brace :: more) = .line [brace] :: d.chunks more := by
  have hopens := opensDeclaration_cons_brace (d := d) hbrace
  have hkind : brace.kind ≠ .newline := by
    rw [hbrace]
    decide
  cases more with
  | nil =>
    rw [chunks.eq_def]
    dsimp only
    rw [dif_neg hkind, if_neg (by rw [hopens]; decide)]
    rfl
  | cons newline more =>
    show d.chunks (brace :: ([] ++ newline :: more)) = _
    exact d.chunks_line (by simpa using hkind) (hmore newline rfl) (hopens _)

/-- Line ends are chunks of their own. -/
theorem chunks_eq_map_newline {trail : List Token} (htrail : ∀ t ∈ trail, t.kind = .newline) :
    d.chunks trail = trail.map Chunk.newline := by
  have := d.chunks_newlines htrail []
  rwa [chunks, List.append_nil, List.append_nil] at this

section Join

variable {ts : List Token} (hends : EndsInBrace ts)
  (hunits : ∀ found unit, .ofUnit found unit ∈ d.chunks ts →
    ∀ t ∈ lastWord? unit, t.kind ≠ .closeBrace)
include hends hunits

/-- The last chunk of a text that ends in a brace, line ends apart, is the brace, unless a unit takes
it in. -/
theorem exists_chunks_eq_line_brace : ∃ (cs : List Chunk) (brace : Token) (trail : List Token),
    brace.kind = .closeBrace ∧
      d.chunks ts = cs ++ .line [brace] :: trail.map Chunk.newline := by
  obtain ⟨front, brace, trail, rfl, hbrace, hfront, htrail⟩ := hends
  obtain ⟨cs, hcs⟩ := chunks_front hbrace htrail hfront hunits
  refine ⟨cs, brace, trail, hbrace, ?_⟩
  rw [hcs, chunks_brace hbrace fun t ht => htrail t (List.mem_of_mem_head? ht),
    chunks_eq_map_newline htrail]

/-- The chunks of a text that ends in a brace, which no unit takes in, and of another text below
it. -/
theorem chunks_join {newline : Token} (hnewline : newline.kind = .newline) (us : List Token) :
    d.chunks (ts ++ newline :: us) = d.chunks ts ++ .newline newline :: d.chunks us := by
  obtain ⟨front, brace, trail, rfl, hbrace, hfront, htrail⟩ := hends
  obtain ⟨cs, hcs⟩ := chunks_front hbrace htrail hfront hunits
  have hhead : ∀ t ∈ (trail ++ newline :: us).head?, t.kind = .newline := by
    cases trail with
    | nil =>
      rintro t ⟨⟩
      exact hnewline
    | cons u trail => exact fun t ht => htrail t (List.mem_of_mem_head? ht)
  have hjoined : d.chunks (trail ++ newline :: us) =
      d.chunks trail ++ .newline newline :: d.chunks us := by
    rw [d.chunks_newlines htrail, chunks, dif_pos hnewline, chunks_eq_map_newline htrail]
  rw [hcs, List.append_assoc, List.cons_append, hcs, chunks_brace hbrace hhead,
    chunks_brace hbrace fun t ht => htrail t (List.mem_of_mem_head? ht), hjoined, List.append_assoc,
    List.cons_append]

end Join

end Dialect

end FuncDecl
