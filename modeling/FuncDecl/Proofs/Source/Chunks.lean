import FuncDecl.Proofs.Source.Extent
import FuncDecl.Proofs.Token.LineEnds

/-!
# The chunks of a source

A source is cut into line ends, units that `Dialect.extent` measures, and lines.

* `Dialect.HeaderFront`: a run of modifiers, as long as it goes, and then the function keyword. A
  declaration begins with this or with an `@` (`Dialect.opensDeclaration_iff`).
* `Dialect.chunks_induct`: **induction along the chunks of a source**. A unit comes with the walk
  that measured it.
* `Dialect.chunks_newlines`, `Dialect.chunks_unit`, `Dialect.chunks_line`: the first chunk of some
  tokens.
* `Dialect.flatMap_tokens_chunks`: the chunks are consecutive and cover the tokens.
* `Dialect.tokens_ne_nil_of_mem_chunks`: none of them is empty.
-/

namespace FuncDecl

/-! ## Chunks -/

/-- The chunk of a unit: a declaration if the function keyword was found. -/
def Chunk.ofUnit (found : Bool) (tokens : List Token) : Chunk :=
  if found then .declaration tokens else .stray tokens

/-- The chunk of a unit has its tokens. -/
@[simp] theorem Chunk.tokens_ofUnit (found : Bool) (tokens : List Token) :
    (Chunk.ofUnit found tokens).tokens = tokens := by
  cases found <;> rfl

namespace Dialect

variable (d : Dialect)

/-! ### Where a declaration begins -/

/-- A run of modifiers, as long as it goes, and then the function keyword. -/
def HeaderFront (ts : List Token) : Prop :=
  ∃ t ∈ (ts.dropWhile d.isModifier).head?, d.isFunctionKeyword t = true

/-- A declaration begins with an `@` or with a header. -/
theorem opensDeclaration_iff {t : Token} {ts : List Token} :
    d.opensDeclaration (t :: ts) = true ↔ t.kind = .atSign ∨ d.HeaderFront (t :: ts) := by
  rw [opensDeclaration, HeaderFront, List.find?_not_eq_head?_dropWhile]
  by_cases hsign : t.kind = .atSign
  · simp [hsign]
  · rw [if_neg hsign]
    cases (List.dropWhile d.isModifier (t :: ts)).head? <;> simp [hsign]

/-- A header opens a declaration. -/
theorem HeaderFront.opensDeclaration {d : Dialect} {ts : List Token} (h : d.HeaderFront ts) :
    d.opensDeclaration ts = true := by
  cases ts with
  | nil => simp [HeaderFront] at h
  | cons t ts => exact d.opensDeclaration_iff.mpr (.inr h)

/-- A header is some modifiers, the function keyword and what follows. -/
theorem HeaderFront.exists_eq {d : Dialect} {ts : List Token} (h : d.HeaderFront ts) :
    ∃ mods k post, ts = mods ++ k :: post ∧ d.isFunctionKeyword k = true ∧
      ∀ t ∈ mods ++ [k], t.kind = .ident := by
  obtain ⟨k, hk, hkey⟩ := h
  obtain ⟨post, hpost⟩ := List.head?_eq_some_iff.mp hk
  refine ⟨ts.takeWhile d.isModifier, k, post, ?_, hkey, ?_⟩
  · rw [← hpost, List.takeWhile_append_dropWhile]
  · intro t ht
    rcases List.mem_append.mp ht with ht | ht
    · exact kind_of_isModifier (List.mem_takeWhile_imp ht)
    · rw [List.mem_singleton.mp ht]
      exact kind_of_isFunctionKeyword hkey

/-- A header begins with a name. -/
theorem HeaderFront.head_kind {d : Dialect} {t : Token} {ts : List Token}
    (h : d.HeaderFront (t :: ts)) : t.kind = .ident := by
  obtain ⟨mods, k, post, hts, -, hident⟩ := h.exists_eq
  apply hident
  cases mods with
  | nil => rw [(List.cons.inj hts).1]; simp
  | cons m mods => rw [(List.cons.inj hts).1]; simp

/-- A declaration does not begin with a line end. -/
theorem kind_of_opensDeclaration {ts : List Token} (h : d.opensDeclaration ts = true) :
    ∀ t ∈ ts.head?, t.kind ≠ .newline := by
  rintro t ht
  cases ts with
  | nil => exact absurd ht (by simp)
  | cons u ts =>
    obtain rfl := Option.some.inj ht
    rcases d.opensDeclaration_iff.mp h with hsign | hfront
    · simp [hsign]
    · simp [hfront.head_kind]

/-- In front of the function keyword a declaration goes on where another line begins one. -/
theorem continues_of_opensDeclaration {t : Token} (ht : t.kind = .newline) {ts : List Token}
    (h : d.opensDeclaration ts = true) : d.continues false (t :: ts) = true := by
  rw [continues, skipNewlines_cons_of_newline ht, skipNewlines_eq_self (d.kind_of_opensDeclaration h)]
  cases ts with
  | nil => simp [opensDeclaration] at h
  | cons u ts => exact h

/-! ### Along the chunks -/

/-- The walk does not go beyond the tokens. -/
theorem extent_le_length (depth : Nat) (keyword : Bool) (ts : List Token) :
    (d.extent depth keyword ts).1 ≤ ts.length := by
  obtain ⟨pre, rest, hts, -, hends, -⟩ := d.extent_split depth keyword ts
  rw [congrArg List.length hts, List.length_append]
  generalize (d.extent depth keyword ts).1 = n at hends ⊢
  cases hends with
  | exhausted => simp
  | mark => simp
  | line => simp

/-- Induction along the chunks of a source. A unit comes with the walk that measured it; a line has
no line end in it and reaches up to one. -/
theorem chunks_induct {motive : List Token → List Chunk → Prop} (nil : motive [] [])
    (newline : ∀ t rest, t.kind = .newline → motive rest (d.chunks rest) →
      motive (t :: rest) (.newline t :: d.chunks rest))
    (unit : ∀ t ts rest found, t.kind ≠ .newline →
      d.opensDeclaration (t :: ts ++ rest) = true →
      d.extent 0 false (t :: ts ++ rest) = ((t :: ts).length, found) →
      motive rest (d.chunks rest) →
      motive (t :: ts ++ rest) (.ofUnit found (t :: ts) :: d.chunks rest))
    (line : ∀ t ts rest, (∀ u ∈ t :: ts, u.kind ≠ .newline) →
      (∀ u ∈ rest.head?, u.kind = .newline) → d.opensDeclaration (t :: ts ++ rest) = false →
      motive rest (d.chunks rest) → motive (t :: ts ++ rest) (.line (t :: ts) :: d.chunks rest))
    (ts : List Token) : motive ts (d.chunks ts) := by
  fun_induction d.chunks ts with
  | case1 => exact nil
  | case2 t ts ht ih => exact newline t ts ht ih
  | case3 t ts ht hopens u tokens ih =>
    -- the walk takes at least one token, so the unit is `t` and some tokens behind it
    obtain ⟨m, hm⟩ : ∃ m, (d.extent 0 false (t :: ts)).1 = m + 1 :=
      ⟨_, (Nat.succ_pred_eq_of_pos (d.extent_pos ht ts)).symm⟩
    have hsplit : t :: ts.take m ++ ts.drop m = t :: ts := by simp
    have hle : m ≤ ts.length := by
      have := d.extent_le_length 0 false (t :: ts)
      rw [hm, List.length_cons] at this
      omega
    have key := unit t (ts.take m) (ts.drop m) (d.extent 0 false (t :: ts)).2 ht
      (by rw [hsplit]; exact hopens)
      (by rw [hsplit, List.length_cons, List.length_take, Nat.min_eq_left hle, ← hm])
    rw [hsplit] at key
    have htake : tokens = t :: ts.take m := by simp only [tokens, u, hm, List.take_succ_cons]
    have hdrop : (t :: ts).drop u.1 = ts.drop m := by simp only [u, hm, List.drop_succ_cons]
    rw [hdrop] at ih ⊢
    rw [htake]
    exact key ih
  | case4 t ts ht hopens ih =>
    have hsplit : t :: ts.takeWhile (!·.isNewline) ++ ts.dropWhile (!·.isNewline) = t :: ts := by
      rw [List.cons_append, List.takeWhile_append_dropWhile]
    have key := line t (ts.takeWhile (!·.isNewline)) (ts.dropWhile (!·.isNewline)) (fun u hu => ?_)
      (fun u hu => ?_) (by rw [hsplit]; simpa using hopens) ih
    · rwa [hsplit] at key
    · rcases List.mem_cons.mp hu with rfl | hu
      · exact ht
      · have := List.mem_takeWhile_imp hu
        simpa [Token.isNewline] using this
    · have := List.head?_dropWhile_not (!·.isNewline) ts
      rw [Option.mem_def] at hu
      rw [hu] at this
      simpa [Token.isNewline] using this

/-! ### One chunk after the other -/

/-- Line ends at the front are chunks of their own. -/
theorem chunks_newlines {gap : List Token} (h : ∀ t ∈ gap, t.kind = .newline) (ts : List Token) :
    d.chunks (gap ++ ts) = gap.map Chunk.newline ++ d.chunks ts := by
  induction gap with
  | nil => rfl
  | cons t gap ih =>
    rw [List.forall_mem_cons] at h
    rw [List.cons_append, chunks, dif_pos h.1, ih h.2]
    rfl

/-- The walk measures a unit at the front that is not empty. -/
theorem exists_unit {t : Token} (ht : t.kind ≠ .newline) (ts : List Token) :
    ∃ unit rest found, t :: ts = unit ++ rest ∧ unit ≠ [] ∧
      d.extent 0 false (unit ++ rest) = (unit.length, found) := by
  have hpos := d.extent_pos ht ts
  have hle := d.extent_le_length 0 false (t :: ts)
  refine ⟨(t :: ts).take (d.extent 0 false (t :: ts)).1,
    (t :: ts).drop (d.extent 0 false (t :: ts)).1, (d.extent 0 false (t :: ts)).2,
    (List.take_append_drop _ _).symm, fun h => ?_, ?_⟩
  · have := congrArg List.length h
    rw [List.length_take, Nat.min_eq_left hle, List.length_nil] at this
    omega
  · rw [List.take_append_drop, List.length_take, Nat.min_eq_left hle]

/-- A unit at the front is a chunk. -/
theorem chunks_unit {unit rest : List Token} {found : Bool} (hne : unit ≠ [])
    (hhead : ∀ t ∈ (unit ++ rest).head?, t.kind ≠ .newline)
    (hopens : d.opensDeclaration (unit ++ rest) = true)
    (h : d.extent 0 false (unit ++ rest) = (unit.length, found)) :
    d.chunks (unit ++ rest) = .ofUnit found unit :: d.chunks rest := by
  cases unit with
  | nil => exact absurd rfl hne
  | cons t unit =>
    rw [List.cons_append] at hopens h hhead ⊢
    rw [chunks, dif_neg (hhead t rfl), if_pos hopens]
    simp only [h]
    rw [← List.cons_append, List.take_left, List.drop_left]
    rfl

/-- A line at the front is a chunk, if it begins no declaration. -/
theorem chunks_line {t newline : Token} {ts more : List Token}
    (hline : ∀ u ∈ t :: ts, u.kind ≠ .newline) (hnewline : newline.kind = .newline)
    (hopens : d.opensDeclaration (t :: (ts ++ newline :: more)) = false) :
    d.chunks (t :: (ts ++ newline :: more)) = .line (t :: ts) :: d.chunks (newline :: more) := by
  rw [List.forall_mem_cons] at hline
  have hts : ∀ u ∈ ts, (!u.isNewline) = true := fun u hu => by
    simp [Token.isNewline, hline.2 u hu]
  have hnewline' : ¬(!newline.isNewline) = true := by simp [Token.isNewline, hnewline]
  rw [chunks, dif_neg hline.1, if_neg (by simp [hopens]),
    List.takeWhile_append_of_pos (p := (!Token.isNewline ·)) hts,
    List.dropWhile_append_of_pos (p := (!Token.isNewline ·)) hts,
    List.takeWhile_cons_of_neg (p := (!Token.isNewline ·)) hnewline',
    List.dropWhile_cons_of_neg (p := (!Token.isNewline ·)) hnewline', List.append_nil]

/-! ### All chunks -/

/-- The chunks are consecutive and cover the tokens. -/
theorem flatMap_tokens_chunks (ts : List Token) : (d.chunks ts).flatMap Chunk.tokens = ts := by
  refine d.chunks_induct (motive := fun ts cs => cs.flatMap Chunk.tokens = ts) rfl ?_ ?_ ?_ ts
  · intro t rest _ ih
    rw [List.flatMap_cons, ih]
    rfl
  · intro t ts rest found _ _ _ ih
    rw [List.flatMap_cons, ih, Chunk.tokens_ofUnit]
  · intro t ts rest _ _ _ ih
    rw [List.flatMap_cons, ih]
    rfl

/-- No chunk is empty. -/
theorem tokens_ne_nil_of_mem_chunks (ts : List Token) : ∀ c ∈ d.chunks ts, c.tokens ≠ [] := by
  refine d.chunks_induct (motive := fun _ cs => ∀ c ∈ cs, c.tokens ≠ []) (by simp) ?_ ?_ ?_ ts
  · intro t rest _ ih
    exact List.forall_mem_cons.mpr ⟨List.cons_ne_nil _ _, ih⟩
  · intro t ts rest found _ _ _ ih
    refine List.forall_mem_cons.mpr ⟨?_, ih⟩
    rw [Chunk.tokens_ofUnit]
    exact List.cons_ne_nil _ _
  · intro t ts rest _ _ _ ih
    exact List.forall_mem_cons.mpr ⟨List.cons_ne_nil _ _, ih⟩

end Dialect

end FuncDecl
