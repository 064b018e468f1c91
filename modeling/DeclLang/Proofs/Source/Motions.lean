import DeclLang.Proofs.Source.Positions
import DeclLang.Source.Span
import Mathlib.Order.MinMax

/-!
# Motions: spans of a text that is written otherwise

When a text is changed without changing what it says, spans are moved. What can be said of a
program does not depend on where it stands as long as two spans are covered by one as before
(`Motion`). Texts may be moved as a whole (`Motion.shift`), or get a carriage return at the end of
every line (`Motion.returns`), which leaves everything on its line (`line_ofOffset_returned`).
-/

namespace DeclLang

/-- A change of spans that agrees with covering. -/
structure Motion where
  apply : Span → Span
  merge_apply : ∀ a b, (apply a).merge (apply b) = apply (a.merge b)

/-- What is stated at a span, stated at another one. -/
def Located.mapSpan {α : Type} (f : Span → Span) (x : Located α) : Located α :=
  ⟨x.value, f x.span⟩

/-- Changes a part of a program, whose own spans `g` changes. -/
def Located.mapSpans {α : Type} (g : (Span → Span) → α → α) (f : Span → Span) (x : Located α) :
    Located α :=
  ⟨g f x.value, f x.span⟩

namespace Motion

def shift (offset : Nat) : Motion :=
  ⟨Span.shift offset, Span.merge_shift offset⟩

/-- Moves both ends of every span, without turning the order of two offsets. -/
def ofMonotone {start stop : Nat → Nat} (hstart : Monotone start) (hstop : Monotone stop) :
    Motion where
  apply s := ⟨start s.start, stop s.stop⟩
  merge_apply a b := by
    unfold Span.merge
    rw [hstart.map_min, hstop.map_max]

end Motion

/-! ## Carriage returns -/

/-- The same text with a carriage return before every line feed. -/
def withReturns (cs : List Char) : List Char :=
  cs.flatMap fun c => if c = '\n' then ['\r', '\n'] else [c]

theorem withReturns_newline (cs : List Char) :
    withReturns ('\n' :: cs) = '\r' :: '\n' :: withReturns cs := rfl

theorem withReturns_cons {c : Char} (hc : c ≠ '\n') (cs : List Char) :
    withReturns (c :: cs) = c :: withReturns cs := by
  rw [withReturns, List.flatMap_cons, if_neg hc]
  rfl

theorem withReturns_append (cs ds : List Char) :
    withReturns (cs ++ ds) = withReturns cs ++ withReturns ds :=
  List.flatMap_append

theorem withReturns_eq_self {cs : List Char} (h : '\n' ∉ cs) : withReturns cs = cs := by
  induction cs with
  | nil => rfl
  | cons c cs ih =>
    rw [List.mem_cons, not_or] at h
    rw [withReturns_cons (Ne.symm h.1), ih h.2]

theorem utf8Length_withReturns (cs : List Char) :
    utf8Length (withReturns cs) = utf8Length cs + cs.count '\n' := by
  induction cs with
  | nil => rfl
  | cons c cs ih =>
    by_cases hc : c = '\n'
    · have hreturn : Char.utf8Size '\r' = 1 := by decide
      rw [hc, withReturns_newline, utf8Length_cons, utf8Length_cons, utf8Length_cons, ih, hreturn,
        List.count_cons_self]
      omega
    · rw [withReturns_cons hc, utf8Length_cons, utf8Length_cons, ih, List.count_cons_of_ne hc]
      omega

/-! ### Offsets -/

/-- How many lines end before an offset. -/
def feedsBefore (cs : List Char) (offset : Nat) : Nat :=
  (Position.charsBefore offset cs).count '\n'

@[simp] theorem feedsBefore_zero (cs : List Char) : feedsBefore cs 0 = 0 := by
  simp [feedsBefore]

@[simp] theorem feedsBefore_nil (offset : Nat) : feedsBefore [] offset = 0 := rfl

theorem feedsBefore_cons (c : Char) (cs : List Char) {offset : Nat} (h : offset ≠ 0) :
    feedsBefore (c :: cs) offset =
      (if c = '\n' then 1 else 0) + feedsBefore cs (offset - c.utf8Size) := by
  unfold feedsBefore
  rw [Position.charsBefore, if_neg h, List.count_cons, Nat.add_comm]
  simp

theorem feedsBefore_mono (cs : List Char) : Monotone (feedsBefore cs) := by
  induction cs with
  | nil => exact fun _ _ _ => Nat.le_refl _
  | cons c cs ih =>
    intro a b hab
    by_cases ha : a = 0
    · rw [ha, feedsBefore_zero]
      exact Nat.zero_le _
    · have hb : b ≠ 0 := by omega
      rw [feedsBefore_cons c cs ha, feedsBefore_cons c cs hb]
      exact Nat.add_le_add_left (ih (Nat.sub_le_sub_right hab _)) _

/-- What stands before an offset behind a text is the text, and what follows it up to the offset. -/
theorem feedsBefore_append (cs ds : List Char) (offset : Nat) :
    feedsBefore (cs ++ ds) (utf8Length cs + offset) = cs.count '\n' + feedsBefore ds offset := by
  induction cs with
  | nil => simp
  | cons c cs ih =>
    have hwidth := c.utf8Size_pos
    have hne : utf8Length (c :: cs) + offset ≠ 0 := by
      rw [utf8Length_cons]
      omega
    have hinner : utf8Length (c :: cs) + offset - c.utf8Size = utf8Length cs + offset := by
      rw [utf8Length_cons]
      omega
    rw [List.cons_append, feedsBefore_cons _ _ hne, hinner, ih, List.count_cons]
    simp only [beq_iff_eq]
    omega

/-- Where the offsets of a text go when it gets carriage returns: a line feed behind its own one,
    and what stands before a line feed before its return. -/
def Motion.returns (cs : List Char) : Motion :=
  @ofMonotone (fun o => o + feedsBefore cs (o + 1)) (fun o => o + feedsBefore cs o)
    (fun _ _ h => Nat.add_le_add h (feedsBefore_mono cs (Nat.succ_le_succ h)))
    (fun _ _ h => Nat.add_le_add h (feedsBefore_mono cs h))

theorem Motion.returns_apply (cs : List Char) (start stop : Nat) :
    (returns cs).apply ⟨start, stop⟩ =
      ⟨start + feedsBefore cs (start + 1), stop + feedsBefore cs stop⟩ := rfl

/-- As many lines end before an offset as ended before it was moved. -/
theorem feedsBefore_withReturns (cs : List Char) (offset : Nat) :
    feedsBefore (withReturns cs) (offset + feedsBefore cs (offset + 1)) = feedsBefore cs offset := by
  have hfeed : Char.utf8Size '\n' = 1 := by decide
  have hreturn : Char.utf8Size '\r' = 1 := by decide
  induction cs generalizing offset with
  | nil => rfl
  | cons c cs ih =>
    have hnext : offset + 1 ≠ 0 := by omega
    by_cases hc : c = '\n'
    · rw [hc, withReturns_newline, feedsBefore_cons _ _ hnext, if_pos rfl, hfeed,
        Nat.add_sub_cancel, feedsBefore_cons _ _ (by omega), if_neg (by decide), hreturn,
        Nat.zero_add]
      cases offset with
      | zero => simp
      | succ offset =>
        have hinner : offset + 1 + (1 + feedsBefore cs (offset + 1)) - 1 - 1 =
            offset + feedsBefore cs (offset + 1) := by omega
        rw [feedsBefore_cons _ _ (by omega), feedsBefore_cons _ _ (by omega), hfeed, hinner, ih,
          Nat.add_sub_cancel]
    · have hwidth := c.utf8Size_pos
      rw [withReturns_cons hc, feedsBefore_cons _ _ hnext, if_neg hc, Nat.zero_add]
      by_cases hinside : offset < c.utf8Size
      · -- No line ends inside a character.
        have hzero : offset + 1 - c.utf8Size = 0 := by omega
        rw [hzero, feedsBefore_zero, Nat.add_zero]
        by_cases hstart : offset = 0
        · rw [hstart, feedsBefore_zero, feedsBefore_zero]
        · have hbefore : offset - c.utf8Size = 0 := by omega
          rw [feedsBefore_cons _ _ hstart, feedsBefore_cons _ _ hstart, hbefore, feedsBefore_zero,
            feedsBefore_zero]
      · have hbehind : offset ≠ 0 := by omega
        have hshift : offset + 1 - c.utf8Size = offset - c.utf8Size + 1 := by omega
        have hinner : offset + feedsBefore cs (offset - c.utf8Size + 1) - c.utf8Size =
            offset - c.utf8Size + feedsBefore cs (offset - c.utf8Size + 1) := by omega
        rw [hshift, feedsBefore_cons _ _ (by omega), feedsBefore_cons _ _ hbehind, hinner, ih]

/-- A text whose lines end in a carriage return and a line feed. -/
def returned (source : String) : String :=
  String.ofList (withReturns source.toList)

theorem line_ofOffset (source : String) (offset : Nat) :
    (Position.ofOffset source offset).line = 1 + feedsBefore source.toList offset := by
  rw [Position.ofOffset, Position.after_eq]
  rfl

/-- Whatever is moved stays on its line. -/
theorem line_ofOffset_returned (source : String) (s : Span) :
    (Position.ofOffset (returned source) ((Motion.returns source.toList).apply s).start).line =
      (Position.ofOffset source s.start).line := by
  rw [line_ofOffset, line_ofOffset, returned, String.toList_ofList]
  exact congrArg _ (feedsBefore_withReturns source.toList s.start)

end DeclLang
