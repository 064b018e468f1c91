import Mathlib.Data.List.DropRight
import Mathlib.Data.Prod.Lex
import DeclLang.Source.Position

/-!
# Positions in a text: lines are the stretches between line feeds

A position says how many line feeds come before it, and how many characters come before it on its
own line (`after_eq`). So it lies in the text: the line that it names is one of the lines of the
text, and its column is on that line or right behind it (`after_on_line`). Positions are ordered by
lines and then by columns, as the offsets are that they belong to (`ofOffset_lt_iff`).
-/

namespace DeclLang

/-- Whether a character stands on a line, and does not end it. -/
def isInline (c : Char) : Bool :=
  c != '\n'

theorem isInline_iff {c : Char} : isInline c = true ↔ c ≠ '\n' := by
  simp [isInline]

/-- The lines of a text, without the line feeds between them. -/
def linesOf (cs : List Char) : List (List Char) :=
  cs.splitOn '\n'

theorem linesOf_newline (cs ds : List Char) :
    linesOf (cs ++ '\n' :: ds) = linesOf cs ++ linesOf ds :=
  List.splitOn_append_cons_self cs ds

theorem linesOf_cons {c : Char} (hc : c ≠ '\n') (cs : List Char) :
    linesOf (c :: cs) = (linesOf cs).modifyHead (c :: ·) := by
  unfold linesOf
  rw [List.splitOn_cons_eq_if_modifyHead, if_neg]
  simpa using hc

theorem newline_not_mem_of_mem_linesOf {cs line : List Char} (h : line ∈ linesOf cs) :
    '\n' ∉ line := by
  induction cs generalizing line with
  | nil =>
    obtain rfl := List.mem_singleton.mp h
    exact List.not_mem_nil
  | cons c cs ih =>
    by_cases hc : c = '\n'
    · have hsplit := linesOf_newline [] cs
      rw [List.nil_append] at hsplit
      rw [hc, hsplit, List.mem_append] at h
      rcases h with h | h
      · obtain rfl := List.mem_singleton.mp h
        exact List.not_mem_nil
      · exact ih h
    · rw [linesOf_cons hc] at h
      generalize linesOf cs = lines at h ih
      cases lines with
      | nil => cases h
      | cons first rest =>
        rw [List.modifyHead_cons, List.mem_cons] at h
        rcases h with rfl | h
        · rw [List.mem_cons, not_or]
          exact ⟨fun heq => hc heq.symm, ih List.mem_cons_self⟩
        · exact ih (List.mem_cons_of_mem _ h)

theorem length_linesOf (cs : List Char) : (linesOf cs).length = 1 + cs.count '\n' := by
  induction cs with
  | nil => rfl
  | cons c cs ih =>
    by_cases hc : c = '\n'
    · have hsplit := linesOf_newline [] cs
      rw [List.nil_append] at hsplit
      rw [hc, hsplit, List.length_append, ih, List.count_cons_self]
      show 1 + _ = _
      omega
    · rw [linesOf_cons hc, List.length_modifyHead, ih, List.count_cons_of_ne hc]

/-- The first line goes on up to the first line feed. -/
theorem head?_linesOf (cs : List Char) : (linesOf cs)[0]? = some (cs.takeWhile isInline) := by
  induction cs with
  | nil => rfl
  | cons c cs ih =>
    by_cases hc : c = '\n'
    · rw [hc]
      exact congrArg (·[0]?) (linesOf_newline [] cs)
    · rw [linesOf_cons hc, List.takeWhile_cons_of_pos (isInline_iff.mpr hc)]
      cases hlines : linesOf cs with
      | nil => simp [hlines] at ih
      | cons l ls =>
        rw [hlines] at ih
        rw [List.modifyHead_cons]
        simpa using ih

/-- The line on which one text ends and another one goes on. -/
theorem getElem?_linesOf_append (before after : List Char) :
    (linesOf (before ++ after))[before.count '\n']? =
      some (before.rtakeWhile isInline ++ after.takeWhile isInline) := by
  induction before using List.reverseRecOn generalizing after with
  | nil => exact head?_linesOf after
  | append_singleton cs c ih =>
    rw [List.append_assoc, List.singleton_append, List.count_append]
    by_cases hc : c = '\n'
    · have hstop : ¬ isInline c = true := fun h => isInline_iff.mp h hc
      rw [List.rtakeWhile_concat_neg _ _ _ hstop, hc, linesOf_newline, List.count_singleton_self,
        List.getElem?_append_right (by rw [length_linesOf]; omega), length_linesOf,
        show cs.count '\n' + 1 - (1 + cs.count '\n') = 0 by omega]
      exact head?_linesOf after
    · have hgo : isInline c = true := isInline_iff.mpr hc
      have hnone : [c].count '\n' = 0 := List.count_eq_zero.mpr (by simpa using Ne.symm hc)
      rw [hnone, Nat.add_zero, ih, List.takeWhile_cons_of_pos hgo,
        List.rtakeWhile_concat_pos _ _ _ hgo, List.append_assoc, List.singleton_append]

namespace Position

/-- A position counts the line feeds before it, and the characters since the last of them. -/
theorem after_eq (cs : List Char) :
    after cs = ⟨1 + cs.count '\n', 1 + (cs.rtakeWhile isInline).length⟩ := by
  induction cs using List.reverseRecOn with
  | nil => rfl
  | append_singleton cs c ih =>
    rw [after_concat, ih, advance, List.count_append]
    by_cases hc : c = '\n'
    · have hstop : ¬ isInline c = true := fun h => isInline_iff.mp h hc
      rw [if_pos hc, List.rtakeWhile_concat_neg _ _ _ hstop, hc, List.count_singleton_self,
        Nat.add_assoc]
      rfl
    · have hgo : isInline c = true := isInline_iff.mpr hc
      have hnone : [c].count '\n' = 0 := List.count_eq_zero.mpr (by simpa using Ne.symm hc)
      rw [if_neg hc, List.rtakeWhile_concat_pos _ _ _ hgo, hnone, List.length_append, Nat.add_assoc]
      rfl

/-- The line of a position is one of the text, and no column is further than right behind it. -/
theorem after_on_line (before after : List Char) :
    ∃ line, (linesOf (before ++ after))[(Position.after before).line - 1]? = some line ∧
      (Position.after before).column ≤ 1 + line.length := by
  refine ⟨before.rtakeWhile isInline ++ after.takeWhile isInline, ?_, ?_⟩
  · rw [after_eq, Nat.add_sub_cancel_left]
    exact getElem?_linesOf_append before after
  · rw [after_eq, List.length_append]
    show 1 + _ ≤ _
    omega

/-! ## Order -/

/-- Lines are compared first, and columns on the same line. -/
instance : LinearOrder Position :=
  LinearOrder.lift' (fun p => toLex (p.line, p.column)) fun p q h => by
    obtain ⟨hline, hcolumn⟩ := Prod.mk.inj (toLex_inj.mp h)
    cases p
    cases q
    simp_all

theorem lt_iff {p q : Position} :
    p < q ↔ p.line < q.line ∨ p.line = q.line ∧ p.column < q.column :=
  Prod.Lex.toLex_lt_toLex

theorem lt_advance (p : Position) (c : Char) : p < p.advance c := by
  rw [lt_iff]
  unfold advance
  split
  · exact .inl (Nat.lt_succ_self _)
  · exact .inr ⟨rfl, Nat.lt_succ_self _⟩

theorem after_lt_after_append (before : List Char) {text : List Char} (h : text ≠ []) :
    after before < after (before ++ text) := by
  induction text using List.reverseRecOn with
  | nil => exact absurd rfl h
  | append_singleton text c ih =>
    have hlast : after (before ++ text) < after (before ++ (text ++ [c])) := by
      rw [← List.append_assoc, after_concat]
      exact lt_advance _ c
    cases text with
    | nil => rwa [List.append_nil] at hlast
    | cons d ds => exact (ih (List.cons_ne_nil d ds)).trans hlast

end Position

/-- Whether a text can be cut at an offset. -/
def IsBoundary (cs : List Char) (offset : Nat) : Prop :=
  ∃ before after, cs = before ++ after ∧ offset = utf8Length before

namespace Position

/-- A later offset has a later position. -/
theorem ofOffset_lt {source : String} {a b : Nat} (ha : IsBoundary source.toList a)
    (hb : IsBoundary source.toList b) (h : a < b) : ofOffset source a < ofOffset source b := by
  obtain ⟨before, rest, hsource, rfl⟩ := ha
  obtain ⟨before', rest', hsource', rfl⟩ := hb
  have hposition : ofOffset source (utf8Length before) = after before := by
    rw [ofOffset, hsource, charsBefore_utf8Length_append]
  have hposition' : ofOffset source (utf8Length before') = after before' := by
    rw [ofOffset, hsource', charsBefore_utf8Length_append]
  rw [hposition, hposition']
  obtain ⟨text, rfl, -⟩ | ⟨text, rfl, -⟩ :=
    List.append_eq_append_iff.mp (hsource.symm.trans hsource')
  · refine after_lt_after_append before ?_
    rintro rfl
    simp at h
  · rw [utf8Length_append] at h
    omega

/-- Positions are in the order of their offsets. -/
theorem ofOffset_lt_iff {source : String} {a b : Nat} (ha : IsBoundary source.toList a)
    (hb : IsBoundary source.toList b) : ofOffset source a < ofOffset source b ↔ a < b := by
  refine ⟨fun h => ?_, ofOffset_lt ha hb⟩
  by_contra hle
  obtain rfl | hlt := Nat.eq_or_lt_of_le (Nat.le_of_not_lt hle)
  · exact lt_irrefl _ h
  · exact lt_asymm h (ofOffset_lt hb ha hlt)

end Position

end DeclLang
