import DeclLang.Proofs.Source.Positions

/-!
# Offsets found from positions

A position leads back to its offset: line feeds are passed until its line starts, and then the
characters before its column (`skip_after`). So offsets between characters and their positions
determine each other, and both are in the same order (`ofOffset_faithful`).
-/

namespace DeclLang

/-- The text behind its first `n` line feeds. -/
def skipFeeds : Nat → List Char → List Char
  | 0, cs => cs
  | _ + 1, [] => []
  | n + 1, c :: cs => if c = '\n' then skipFeeds n cs else skipFeeds (n + 1) cs

@[simp] theorem skipFeeds_zero (cs : List Char) : skipFeeds 0 cs = cs := by
  cases cs <;> rfl

@[simp] theorem skipFeeds_nil (n : Nat) : skipFeeds n [] = [] := by
  cases n <;> rfl

theorem skipFeeds_newline (n : Nat) (cs : List Char) :
    skipFeeds (n + 1) ('\n' :: cs) = skipFeeds n cs := rfl

/-- What is left of a line does not count when the next line feed is passed. -/
theorem skipFeeds_inline {line : List Char} (h : '\n' ∉ line) (n : Nat) (rest : List Char) :
    skipFeeds (n + 1) (line ++ '\n' :: rest) = skipFeeds n rest := by
  induction line with
  | nil => exact skipFeeds_newline n rest
  | cons c cs ih =>
    rw [List.mem_cons, not_or] at h
    rw [List.cons_append, skipFeeds, if_neg (Ne.symm h.1)]
    exact ih h.2

/-- Line feeds may be passed in two goes. -/
theorem skipFeeds_add (m n : Nat) (cs : List Char) :
    skipFeeds (m + n) cs = skipFeeds n (skipFeeds m cs) := by
  induction cs generalizing m with
  | nil => simp
  | cons c cs ih =>
    cases m with
    | zero => rw [Nat.zero_add, skipFeeds_zero]
    | succ m =>
      rw [Nat.succ_add, skipFeeds, skipFeeds]
      by_cases hc : c = '\n'
      · rw [if_pos hc, if_pos hc]
        exact ih m
      · rw [if_neg hc, if_neg hc, ← ih (m + 1), Nat.succ_add]

theorem newline_not_mem_rtakeWhile (cs : List Char) : '\n' ∉ cs.rtakeWhile isInline :=
  fun h => isInline_iff.mp (List.mem_rtakeWhile_imp h) rfl

/-- Behind the line feeds of a text stand its last line and what follows the text. -/
theorem skipFeeds_count_append (before rest : List Char) :
    skipFeeds (before.count '\n') (before ++ rest) = before.rtakeWhile isInline ++ rest := by
  induction before using List.reverseRecOn generalizing rest with
  | nil => simp
  | append_singleton cs c ih =>
    rw [List.append_assoc, List.singleton_append, List.count_append]
    by_cases hc : c = '\n'
    · have hstop : ¬ isInline c = true := fun h => isInline_iff.mp h hc
      rw [List.rtakeWhile_concat_neg _ _ _ hstop, hc, List.count_singleton_self, skipFeeds_add, ih,
        skipFeeds_inline (newline_not_mem_rtakeWhile cs), skipFeeds_zero, List.nil_append]
    · have hgo : isInline c = true := isInline_iff.mpr hc
      have hnone : [c].count '\n' = 0 := List.count_eq_zero.mpr (by simpa using Ne.symm hc)
      rw [hnone, Nat.add_zero, ih, List.rtakeWhile_concat_pos _ _ _ hgo, List.append_assoc,
        List.singleton_append]

namespace Position

/-- The text from a position on: as many line feeds are passed as there are lines above, and as many
    characters as there are columns before. -/
def skip (p : Position) (cs : List Char) : List Char :=
  (skipFeeds (p.line - 1) cs).drop (p.column - 1)

/-- How many bytes are passed up to a position. -/
def offsetIn (source : String) (p : Position) : Nat :=
  utf8Length source.toList - utf8Length (p.skip source.toList)

theorem skip_after (before rest : List Char) : (after before).skip (before ++ rest) = rest := by
  rw [after_eq, skip, Nat.add_sub_cancel_left, Nat.add_sub_cancel_left, skipFeeds_count_append,
    List.drop_left]

/-- Behind the end of a text there is nothing more to be counted. -/
theorem charsBefore_of_le {cs : List Char} {offset : Nat} (h : utf8Length cs ≤ offset) :
    charsBefore offset cs = cs := by
  induction cs generalizing offset with
  | nil => rfl
  | cons c cs ih =>
    have hwidth := c.utf8Size_pos
    rw [utf8Length_cons] at h
    rw [charsBefore, if_neg (by omega), ih (by omega)]

/-- Which characters stand before an offset, if it does not fall into one of them. -/
theorem ofOffset_eq {source : String} {before rest : List Char} {offset : Nat}
    (hsource : source.toList = before ++ rest)
    (h : offset = utf8Length before ∨ rest = [] ∧ utf8Length before ≤ offset) :
    ofOffset source offset = after before := by
  rcases h with rfl | ⟨rfl, hend⟩
  · rw [ofOffset, hsource, charsBefore_utf8Length_append]
  · rw [ofOffset, hsource, List.append_nil, charsBefore_of_le hend]

/-- Two offsets at one position are the same offset. -/
theorem ofOffset_inj {source : String} {a b : Nat} (ha : IsBoundary source.toList a)
    (hb : IsBoundary source.toList b) (h : ofOffset source a = ofOffset source b) : a = b := by
  rcases Nat.lt_trichotomy a b with hlt | heq | hgt
  · exact absurd h (ofOffset_lt ha hb hlt).ne
  · exact heq
  · exact absurd h (ofOffset_lt hb ha hgt).ne'

/-- The position of an offset that cuts a text in two, or lies behind its end: its line is counted
    by the line feeds before it, its column by the characters since the last of them, and passing
    these leads back to it. Such offsets and their positions are in the same order, which compares
    lines first and then columns, so no two of them have one position. -/
theorem ofOffset_faithful (source : String) :
    (∀ before rest offset, source.toList = before ++ rest →
      (offset = utf8Length before ∨ rest = [] ∧ utf8Length before ≤ offset) →
      ofOffset source offset =
        ⟨1 + before.count '\n', 1 + (before.rtakeWhile isInline).length⟩ ∧
      (ofOffset source offset).skip source.toList = rest ∧
      (ofOffset source offset).offsetIn source = utf8Length before) ∧
    (∀ a b, IsBoundary source.toList a → IsBoundary source.toList b →
      (ofOffset source a < ofOffset source b ↔ a < b)) ∧
    (∀ a b, IsBoundary source.toList a → IsBoundary source.toList b →
      ofOffset source a = ofOffset source b → a = b) := by
  refine ⟨?_, fun a b ha hb => ofOffset_lt_iff ha hb, fun a b ha hb => ofOffset_inj ha hb⟩
  intro before rest offset hsource hoffset
  have hposition := ofOffset_eq hsource hoffset
  have hskip : (ofOffset source offset).skip source.toList = rest := by
    rw [hposition, hsource]
    exact skip_after before rest
  refine ⟨hposition.trans (after_eq before), hskip, ?_⟩
  rw [offsetIn, hskip, hsource, utf8Length_append, Nat.add_sub_cancel]

/-- Two lines of one letter, which takes two bytes: the start of the second line, and an offset far
    behind the end, which stands for the end. -/
theorem ofOffset_faithful_umlauts :
    (ofOffset "ä\nü" 3 = ⟨2, 1⟩ ∧ (⟨2, 1⟩ : Position).skip "ä\nü".toList = ['ü'] ∧
      offsetIn "ä\nü" ⟨2, 1⟩ = 3) ∧
    (ofOffset "ä\nü" 99 = ⟨2, 2⟩ ∧ (⟨2, 2⟩ : Position).skip "ä\nü".toList = [] ∧
      offsetIn "ä\nü" ⟨2, 2⟩ = 5) ∧
    (IsBoundary "ä\nü".toList 3 ∧ IsBoundary "ä\nü".toList 5 ∧
      ofOffset "ä\nü" 3 < ofOffset "ä\nü" 5 ∧ ofOffset "ä\nü" 3 ≠ ofOffset "ä\nü" 5) := by
  obtain ⟨hposition, horder, hinj⟩ := ofOffset_faithful "ä\nü"
  have hsource : "ä\nü".toList = ['ä', '\n'] ++ ['ü'] := by decide
  have hwhole : "ä\nü".toList = ['ä', '\n', 'ü'] ++ [] := by decide
  have hthree : IsBoundary "ä\nü".toList 3 := ⟨_, _, hsource, by decide⟩
  have hfive : IsBoundary "ä\nü".toList 5 := ⟨_, _, hwhole, by decide⟩
  obtain ⟨hat, hskip, hback⟩ := hposition _ _ 3 hsource (.inl (by decide))
  obtain ⟨hat', hskip', hback'⟩ := hposition _ _ 99 hwhole (.inr ⟨rfl, by decide⟩)
  rw [hat] at hskip hback
  rw [hat'] at hskip' hback'
  refine ⟨⟨hat, hskip, hback⟩, ⟨hat', hskip', hback'⟩, hthree, hfive, ?_, ?_⟩
  · exact (horder 3 5 hthree hfive).mpr (by decide)
  · exact fun h => absurd (hinj 3 5 hthree hfive h) (by decide)

end Position

end DeclLang
