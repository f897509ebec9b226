import FuncDecl.Emission
import Mathlib.Data.List.SplitBy
import Mathlib.Data.List.TakeWhile

/-!
# Whole words

A type is spelled for the target language by writing `Any` for each whole word `unknown`. The scan
of a text only looks forward: it takes the run of name characters at the front and goes on behind
it. That it finds whole words, on both sides, is shown here.

* `Text.words`: a text cut into words, each as long as it can be, and single characters between
  them. The rule looks at two neighbouring characters alone.
* `Text.Apart`: two texts do not meet inside a word. Then they are cut one by one
  (`Text.words_append_of_apart`).
* `Text.WholeWord before word after`: a run of name characters that no name character stands next
  to. `Text.wholeWord_iff` says that these are the pieces of `Text.words` that consist of name
  characters.
* `Text.unknownToAny`: the text with `Any` for each word `unknown`, piece by piece.
  `Text.unknownToAny_eq_self_iff` says when it is the text itself.
* `renameUnknown_eq`: the scan gives this text.
* `spellType_whole_words`: **a type is spelled by writing `Any` for its whole words `unknown`, and
  for nothing else**, with what follows for texts without the word, for a second spelling, and for
  two texts in a row.
-/

namespace FuncDecl

namespace Text

/-! ## Words -/

/-- The text cut into words, each as long as it can be, and single characters between them. -/
def words (cs : List Char) : List (List Char) :=
  cs.splitBy fun c d => isNameChar c && isNameChar d

/-- The text with `Any` in place of each word `unknown`. -/
def unknownToAny (cs : List Char) : List Char :=
  (words cs).flatMap fun word => if word = "unknown".toList then "Any".toList else word

/-- The words of a text in a row are the text. -/
theorem flatten_words (cs : List Char) : (words cs).flatten = cs :=
  List.flatten_splitBy _ cs

/-- Two texts do not meet inside a word: of the characters on both sides one is of no name. -/
def Apart (front back : List Char) : Prop :=
  ∀ c ∈ front.getLast?, ∀ d ∈ back.head?, ¬(isNameChar c = true ∧ isNameChar d = true)

/-- No word reaches over the place where two texts do not meet inside one. -/
theorem words_append_of_apart {front back : List Char} (h : Apart front back) :
    words (front ++ back) = words front ++ words back := by
  apply List.splitBy_append
  intro c hc d hd
  have := h c hc d hd
  rwa [← Bool.and_eq_true, Bool.not_eq_true] at this

/-- A text of name characters is one word. -/
theorem words_of_nameChars {word : List Char} (hne : word ≠ [])
    (hword : ∀ c ∈ word, isNameChar c = true) : words word = [word] := by
  refine List.splitBy_of_isChain hne (List.Pairwise.isChain ?_)
  refine List.pairwise_of_forall_mem_list fun c hc d hd => ?_
  rw [hword c hc, hword d hd]
  rfl

/-- A word ends in front of a character that is of none. -/
theorem words_append {word rest : List Char} (hne : word ≠ [])
    (hword : ∀ c ∈ word, isNameChar c = true) (hrest : ∀ c ∈ rest.head?, isNameChar c = false) :
    words (word ++ rest) = word :: words rest := by
  have hapart : Apart word rest := fun _ _ d hd hboth => by
    rw [hrest d hd] at hboth
    exact absurd hboth.2 Bool.false_ne_true
  rw [words_append_of_apart hapart, words_of_nameChars hne hword]
  rfl

/-- A character that is of no word stands alone. -/
theorem words_cons {c : Char} (hc : isNameChar c = false) (rest : List Char) :
    words (c :: rest) = [c] :: words rest := by
  have hapart : Apart [c] rest := fun d hd _ _ hboth => by
    obtain rfl : c = d := by simpa using hd
    rw [hc] at hboth
    exact absurd hboth.1 Bool.false_ne_true
  exact words_append_of_apart hapart

/-! ## Whole words -/

/-- Between `before` and `after` stands a whole word: it consists of name characters, and none stands
next to it. -/
structure WholeWord (before word after : List Char) : Prop where
  ne_nil : word ≠ []
  nameChars : ∀ c ∈ word, isNameChar c = true
  before : ∀ c ∈ before.getLast?, isNameChar c = false
  after : ∀ c ∈ after.head?, isNameChar c = false

/-- The text has the whole word in it. -/
def HasWord (word text : List Char) : Prop :=
  ∃ before after, text = before ++ word ++ after ∧ WholeWord before word after

/-- A whole word is a piece of its own, and what is in front of it and behind it is cut apart from
it. -/
theorem WholeWord.words_eq {before word after : List Char} (h : WholeWord before word after) :
    words (before ++ word ++ after) = words before ++ word :: words after := by
  have hapart : Apart before (word ++ after) := fun c hc _ _ hboth => by
    rw [h.before c hc] at hboth
    exact absurd hboth.1 Bool.false_ne_true
  rw [List.append_assoc, words_append_of_apart hapart, words_append h.ne_nil h.nameChars h.after]

/-- A piece of a text that consists of name characters is a whole word where it stands. -/
theorem wholeWord_of_words {text word : List Char} {front back : List (List Char)}
    (h : words text = front ++ word :: back) (hword : ∀ c ∈ word, isNameChar c = true) :
    WholeWord front.flatten word back.flatten := by
  obtain ⟨-, hne, -, hcuts⟩ := List.splitBy_eq_iff.mp h
  refine ⟨fun hnil => hne (by simp [hnil]), hword, ?_, ?_⟩
  · -- the piece in front of the word ends with a character that is of no word
    rcases List.eq_nil_or_concat front with rfl | ⟨front, piece, rfl⟩
    · simp
    · rw [List.concat_eq_append, List.append_assoc, List.singleton_append,
        List.isChain_append_cons_cons] at hcuts
      obtain ⟨hpiece, hnext, hcut⟩ := hcuts.2.1
      rw [hword _ (List.head_mem hnext), Bool.and_true] at hcut
      intro c hc
      rw [List.concat_eq_append, List.flatten_append, List.flatten_singleton,
        List.getLast?_append_of_ne_nil _ hpiece, List.getLast?_eq_some_getLast hpiece] at hc
      rwa [← Option.some.inj hc]
  · cases back with
    | nil => simp
    | cons piece back =>
      rw [List.isChain_append_cons_cons] at hcuts
      obtain ⟨hnext, hpiece, hcut⟩ := hcuts.2.1
      rw [hword _ (List.getLast_mem hnext), Bool.true_and] at hcut
      intro c hc
      rw [List.flatten_cons, List.head?_append_of_ne_nil _ hpiece,
        List.head?_eq_some_head hpiece] at hc
      rwa [← Option.some.inj hc]

/-- The whole words of a text are its pieces that consist of name characters, each where it stands. -/
theorem wholeWord_iff {text before word after : List Char} :
    text = before ++ word ++ after ∧ WholeWord before word after ↔
      ∃ front back, words text = front ++ word :: back ∧ (∀ c ∈ word, isNameChar c = true) ∧
        before = front.flatten ∧ after = back.flatten := by
  constructor
  · rintro ⟨rfl, h⟩
    exact ⟨words before, words after, h.words_eq, h.nameChars, (flatten_words before).symm,
      (flatten_words after).symm⟩
  · rintro ⟨front, back, hwords, hword, rfl, rfl⟩
    refine ⟨?_, wholeWord_of_words hwords hword⟩
    rw [← flatten_words text, hwords]
    simp

/-- A text has a word in it exactly if the word is one of its pieces. -/
theorem hasWord_iff_mem_words {word text : List Char} (hword : ∀ c ∈ word, isNameChar c = true) :
    HasWord word text ↔ word ∈ words text := by
  constructor
  · rintro ⟨before, after, htext⟩
    obtain ⟨front, back, hwords, -⟩ := wholeWord_iff.mp htext
    rw [hwords]
    exact List.mem_append_right front List.mem_cons_self
  · intro hmem
    obtain ⟨front, back, hwords⟩ := List.append_of_mem hmem
    exact ⟨_, _, wholeWord_iff.mpr ⟨front, back, hwords, hword, rfl, rfl⟩⟩

/-! ## Renaming -/

/-- Two texts that do not meet inside a word are spelled one by one. -/
theorem unknownToAny_append {front back : List Char} (h : Apart front back) :
    unknownToAny (front ++ back) = unknownToAny front ++ unknownToAny back := by
  rw [unknownToAny, words_append_of_apart h, List.flatMap_append]
  rfl

/-- A text none of whose pieces is the word is spelled as it is. -/
theorem unknownToAny_of_not_mem {text : List Char} (h : "unknown".toList ∉ words text) :
    unknownToAny text = text := by
  have hkept : ∀ word ∈ words text,
      (if word = "unknown".toList then "Any".toList else word) = word := by
    intro word hword
    rw [if_neg]
    rintro rfl
    exact h hword
  calc unknownToAny text = (words text).flatMap id := List.flatMap_congr hkept
    _ = text := by rw [List.flatMap_id, flatten_words]

/-- No word gets longer. -/
theorem length_unknownToAny_le (text : List Char) : (unknownToAny text).length ≤ text.length := by
  have hwords : ∀ ws : List (List Char),
      (ws.flatMap fun word => if word = "unknown".toList then "Any".toList else word).length ≤
        ws.flatten.length := by
    intro ws
    induction ws with
    | nil => exact Nat.le_refl 0
    | cons word ws ih =>
      rw [List.flatMap_cons, List.flatten_cons, List.length_append, List.length_append]
      refine Nat.add_le_add ?_ ih
      split
      · next heq =>
        rw [heq]
        decide
      · exact Nat.le_refl _
  have h := hwords (words text)
  rwa [flatten_words] at h

/-- A whole word `unknown` is replaced, and what is in front of it and behind it is spelled on its
own. -/
theorem WholeWord.unknownToAny_eq {before after : List Char}
    (h : WholeWord before "unknown".toList after) :
    unknownToAny (before ++ "unknown".toList ++ after) =
      unknownToAny before ++ "Any".toList ++ unknownToAny after := by
  rw [unknownToAny, h.words_eq, List.flatMap_append, List.flatMap_cons, if_pos rfl,
    List.append_assoc]
  rfl

/-- The word `unknown` consists of name characters. -/
theorem nameChars_unknown : ∀ c ∈ "unknown".toList, isNameChar c = true :=
  List.all_eq_true.mp (by decide +kernel)

/-- A text is spelled as it is exactly if it does not have the word in it. -/
theorem unknownToAny_eq_self_iff {text : List Char} :
    unknownToAny text = text ↔ ¬HasWord "unknown".toList text := by
  constructor
  · rintro heq ⟨before, after, rfl, hword⟩
    have hlength := congrArg List.length heq
    have hbefore := length_unknownToAny_le before
    have hafter := length_unknownToAny_le after
    have hunknown : "unknown".toList.length = 7 := rfl
    have hany : "Any".toList.length = 3 := rfl
    rw [hword.unknownToAny_eq, List.length_append, List.length_append, List.length_append,
      List.length_append] at hlength
    omega
  · intro h
    exact unknownToAny_of_not_mem fun hmem =>
      h ((hasWord_iff_mem_words nameChars_unknown).mpr hmem)

/-- A text that does not begin inside a word does not do so when it is spelled. -/
theorem head?_unknownToAny {text : List Char} (h : ∀ c ∈ text.head?, isNameChar c = false) :
    ∀ c ∈ (unknownToAny text).head?, isNameChar c = false := by
  cases text with
  | nil => exact h
  | cons c rest =>
    rw [unknownToAny, words_cons (h c rfl), List.flatMap_cons, if_neg (by simp)]
    exact h

/-- Spelling a text brings in no line feed. -/
theorem newline_not_mem_unknownToAny {cs : List Char} (h : '\n' ∉ cs) : '\n' ∉ unknownToAny cs := by
  intro hmem
  obtain ⟨word, hword, hline⟩ := List.mem_flatMap.mp hmem
  split at hline
  · exact absurd hline (by decide)
  · rw [← flatten_words cs] at h
    exact h (List.mem_flatten.mpr ⟨word, hword, hline⟩)

/-! ## The scan -/

/-- The run at the front of a text consists of name characters. -/
theorem nameChars_takeWhile {c : Char} (hc : isNameChar c = true) (cs : List Char) :
    ∀ d ∈ c :: cs.takeWhile isNameChar, isNameChar d = true := by
  intro d hd
  rcases List.mem_cons.mp hd with rfl | hd
  · exact hc
  · exact List.mem_takeWhile_imp hd

/-- Behind the run at the front of a text stands no name character. -/
theorem head?_dropWhile_nameChar (cs : List Char) :
    ∀ d ∈ (cs.dropWhile isNameChar).head?, isNameChar d = false := by
  intro d hd
  have hnot := List.head?_dropWhile_not isNameChar cs
  rw [hd] at hnot
  simpa using hnot

end Text

/-- Types are spelled by replacing whole words. -/
theorem renameUnknown_eq (cs : List Char) : renameUnknown cs = Text.unknownToAny cs := by
  fun_induction renameUnknown cs with
  | case1 => rfl
  | case2 c cs hc word ih =>
    have hcut : c :: cs = word ++ cs.dropWhile Text.isNameChar := by
      rw [List.cons_append, List.takeWhile_append_dropWhile]
    rw [hcut, Text.unknownToAny, Text.words_append (List.cons_ne_nil _ _)
      (Text.nameChars_takeWhile hc cs) (Text.head?_dropWhile_nameChar cs), List.flatMap_cons, ih]
    rfl
  | case3 c cs hc ih =>
    rw [Text.unknownToAny, Text.words_cons (by simpa using hc), List.flatMap_cons, ih,
      if_neg (by simp)]
    rfl

/-- What is written for a word is spelled as it is. -/
theorem renameUnknown_spelled {word : List Char} (hne : word ≠ [])
    (hword : ∀ c ∈ word, Text.isNameChar c = true) :
    let spelled := if word = "unknown".toList then "Any".toList else word
    renameUnknown spelled = spelled := by
  intro spelled
  rw [renameUnknown_eq]
  apply Text.unknownToAny_of_not_mem
  by_cases hunknown : word = "unknown".toList
  · rw [show spelled = "Any".toList from if_pos hunknown]
    decide +kernel
  · rw [show spelled = word from if_neg hunknown, Text.words_of_nameChars hne hword,
      List.mem_singleton]
    exact Ne.symm hunknown

/-- A text that is spelled has nothing left to be replaced. -/
theorem renameUnknown_renameUnknown (cs : List Char) :
    renameUnknown (renameUnknown cs) = renameUnknown cs := by
  fun_induction renameUnknown cs with
  | case1 => rw [renameUnknown]
  | case2 c cs hc word ih =>
    -- what is written for the word does not run together with what follows
    have hrest := Text.head?_unknownToAny (Text.head?_dropWhile_nameChar cs)
    rw [← renameUnknown_eq] at hrest
    have hapart : Text.Apart (if word = "unknown".toList then "Any".toList else word)
        (renameUnknown (cs.dropWhile Text.isNameChar)) := fun _ _ d hd hboth => by
      rw [hrest d hd] at hboth
      exact absurd hboth.2 Bool.false_ne_true
    rw [renameUnknown_eq, Text.unknownToAny_append hapart, ← renameUnknown_eq, ← renameUnknown_eq,
      ih, renameUnknown_spelled (List.cons_ne_nil _ _) (Text.nameChars_takeWhile hc cs)]
  | case3 c cs hc ih =>
    rw [renameUnknown, if_neg hc, ih]

/-! ## Types -/

/-- **A type is spelled by writing `Any` for its whole words `unknown`, and for nothing else.** A type
falls into pieces such that its whole words are those pieces that consist of name characters, each
where it stands; what is printed is these pieces in a row, with `Any` in place of `unknown`. So to spell
a type again changes nothing, a type is spelled as it is exactly if it does not have the word in it, and
two texts that do not meet inside a word are spelled one by one.
Source: `is_ident_char` and `target_type`. -/
theorem spellType_whole_words (type : String) :
    (∃ pieces : List (List Char), pieces.flatten = type.toList ∧
      (∀ before word after,
        type.toList = before ++ word ++ after ∧ Text.WholeWord before word after ↔
          ∃ front back, pieces = front ++ word :: back ∧ (∀ c ∈ word, Text.isNameChar c = true) ∧
            before = front.flatten ∧ after = back.flatten) ∧
      (spellType type).toList =
        pieces.flatMap fun piece => if piece = "unknown".toList then "Any".toList else piece) ∧
    spellType (spellType type) = spellType type ∧
    (spellType type = type ↔ ¬Text.HasWord "unknown".toList type.toList) ∧
    ∀ other : String, Text.Apart type.toList other.toList →
      spellType (type ++ other) = spellType type ++ spellType other := by
  have htoList : ∀ text : String, (spellType text).toList = Text.unknownToAny text.toList :=
    fun text => by rw [spellType, String.toList_ofList, renameUnknown_eq]
  refine ⟨⟨Text.words type.toList, Text.flatten_words _, fun _ _ _ => Text.wholeWord_iff,
    htoList type⟩, ?_, ?_, fun other hapart => ?_⟩
  · rw [spellType, spellType, String.toList_ofList, renameUnknown_renameUnknown]
  · rw [← String.toList_inj, htoList, Text.unknownToAny_eq_self_iff]
  · rw [← String.toList_inj, String.toList_append, htoList, htoList, htoList, String.toList_append,
      Text.unknownToAny_append hapart]

/-- The word stands inside of a longer one, behind a letter of two bytes, and alone. -/
theorem spellType_whole_words_of_parts :
    let type := "Map<unknown,éunknown"
    let other := ">|unknown_|unknown"
    Text.Apart type.toList other.toList ∧
      spellType type = "Map<Any,éunknown" ∧ spellType other = ">|unknown_|Any" ∧
      spellType (type ++ other) = "Map<Any,éunknown>|unknown_|Any" := by
  intro type other
  have hapart : Text.Apart type.toList other.toList := by
    have hhead : other.toList.head? = some '>' := by decide +kernel
    rintro c - d hd ⟨-, hname⟩
    obtain rfl := Option.some.inj (hhead.symm.trans hd)
    exact absurd hname (by decide +kernel)
  have htype : spellType type = "Map<Any,éunknown" := by
    rw [spellType, renameUnknown_eq]
    decide +kernel
  have hother : spellType other = ">|unknown_|Any" := by
    rw [spellType, renameUnknown_eq]
    decide +kernel
  obtain ⟨-, -, -, happend⟩ := spellType_whole_words type
  refine ⟨hapart, htype, hother, ?_⟩
  rw [happend other hapart, htype, hother]
  rfl

end FuncDecl
