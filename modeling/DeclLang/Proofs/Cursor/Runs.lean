import DeclLang.Proofs.Cursor.Blocks
import DeclLang.Proofs.Syntax.Moves

/-!
# Runs over whole files

A run with a cursor reads what is read line by line (`run_eq`), whatever is wrong with the file.
This answers whether a run could go on forever, or leave the tokens that it was given: it does
neither, and it does not even look behind the first end of file (`run_ends`).
-/

namespace DeclLang

open Cursor

/-! ## Ends of files -/

/-- The tokens up to and including the first end of file. -/
def upToEnd (ts : List Token) : List Token :=
  ts.take (ts.findIdx (·.value = .eof) + 1)

theorem upToEnd_cons_of_eof {t : Token} (h : t.value = .eof) (ts : List Token) :
    upToEnd (t :: ts) = [t] := by
  simp [upToEnd, List.findIdx_cons, h]

theorem upToEnd_cons_of_ne {t : Token} (h : t.value ≠ .eof) (ts : List Token) :
    upToEnd (t :: ts) = t :: upToEnd ts := by
  simp [upToEnd, List.findIdx_cons, h]

theorem textOf_upToEnd (ts : List Token) : textOf (upToEnd ts) = textOf ts := by
  induction ts with
  | nil => rfl
  | cons t ts ih =>
    by_cases ht : t.value = .eof
    · rw [upToEnd_cons_of_eof ht]
      simp [textOf, ht]
    · rw [upToEnd_cons_of_ne ht]
      simpa [textOf, ht] using ih

theorem length_textOf (ts : List Token) :
    (textOf ts).length = ts.findIdx (·.value = .eof) := by
  induction ts with
  | nil => rfl
  | cons t ts ih =>
    by_cases ht : t.value = .eof
    · simp [textOf, List.findIdx_cons, ht]
    · simpa [textOf, List.findIdx_cons, ht] using ih

theorem hasEnd_upToEnd {ts : List Token} : HasEnd (upToEnd ts) ↔ HasEnd ts := by
  have hexists : (∃ t ∈ upToEnd ts, t.value = .eof) ↔ ∃ t ∈ ts, t.value = .eof := by
    induction ts with
    | nil => rfl
    | cons t ts ih =>
      by_cases ht : t.value = .eof
      · simp [upToEnd_cons_of_eof ht, ht]
      · simp [upToEnd_cons_of_ne ht, ht, ih]
  exact or_congr (by simp [upToEnd]) hexists

namespace Line

/-- The lines of a file end with line feeds, except for the last one. -/
theorem stop_eq_endToken (ts : List Token) :
    ∀ l ∈ ofTokens ts, l.stop.value = .eof → l.stop = endToken ts := by
  induction ts with
  | nil =>
    intro l hl _
    obtain rfl := List.mem_singleton.mp hl
    rfl
  | cons t ts ih =>
    unfold ofTokens at ih ⊢
    intro l hl hstop
    by_cases heof : t.value = .eof
    · rw [split_eof heof] at hl
      obtain rfl := List.mem_singleton.mp hl
      simp [endToken, heof]
    · have hend : endToken (t :: ts) = endToken ts := by simp [endToken, heof]
      rw [hend]
      by_cases hnewline : t.value = .newline
      · rw [split_newline hnewline] at hl
        rcases List.mem_cons.mp hl with rfl | hl
        · exact absurd hstop heof
        · exact ih l hl hstop
      · rw [split_inner heof hnewline] at hl
        rcases List.mem_cons.mp hl with rfl | hl
        · exact ih (split ts).1 List.mem_cons_self hstop
        · exact ih l (List.mem_cons_of_mem _ hl) hstop

theorem split_upToEnd (ts : List Token) : split (upToEnd ts) = split ts := by
  induction ts with
  | nil => rfl
  | cons t ts ih =>
    by_cases heof : t.value = .eof
    · rw [upToEnd_cons_of_eof heof, split_eof heof, split_eof heof]
    · rw [upToEnd_cons_of_ne heof]
      by_cases hnewline : t.value = .newline
      · rw [split_newline hnewline, split_newline hnewline, ofTokens, ofTokens, ih]
      · rw [split_inner heof hnewline, split_inner heof hnewline, ih]

theorem ofTokens_upToEnd (ts : List Token) : ofTokens (upToEnd ts) = ofTokens ts := by
  rw [ofTokens, ofTokens, split_upToEnd]

end Line

theorem Parsed.ofLines_dropWhile (ls : List Line) :
    ofLines (ls.dropWhile (·.isEmpty)) = ofLines ls := by
  induction ls with
  | nil => rfl
  | cons l below ih =>
    by_cases hl : l.isEmpty = true
    · rw [List.dropWhile_cons_of_pos hl, ih, ofLines.eq_def (l :: below)]
      exact (if_pos hl).symm
    · rw [List.dropWhile_cons_of_neg hl]

namespace Cursor

/-- At the start, all lines of the file are in sight. -/
theorem sees_start (ts : List Token) : Sees ts .start (Line.ofTokens ts) where
  within := Nat.zero_le _
  visited := rfl
  cut := cut_ofTokens ts
  stop := Line.stop_eq_endToken ts

theorem Sees.position_of_nil {ts : List Token} {c : Cursor} (h : Sees ts c []) :
    c.position = (textOf ts).length := by
  have hcut := h.cut
  generalize hleft : (textOf ts).drop c.position = left at hcut
  cases hcut
  exact Nat.le_antisymm h.within (List.drop_eq_nil_iff.mp hleft)

end Cursor

namespace CursorParser

variable {rounds : Nat} {ts : List Token} {c : Cursor}

/-! ## Files -/

/-- A cursor between two declarations: what is read and what is in sight make up the file. -/
def InFile (ts : List Token) (before : Program) (c : Cursor) : Prop :=
  ∃ ls, Sees ts c (ls.dropWhile (·.isEmpty)) ∧ Parsed.ofLines (Line.ofTokens ts) =
    ⟨before ++ (Parsed.ofLines ls).declarations, c.problems ++ (Parsed.ofLines ls).problems⟩

/-- A file is read when all of its text is. -/
def FileEnds (ts : List Token) (result : Except SyntaxError Program) (c : Cursor) : Prop :=
  result = .ok (Parsed.ofLines (Line.ofTokens ts)).declarations ∧
    c = ⟨(textOf ts).length, (Parsed.ofLines (Line.ofTokens ts)).problems,
      List.range' 1 (textOf ts).length⟩

/-- Every round of a file passes over one declaration, and then over blank lines. -/
theorem declarationRound_ends (hend : HasEnd ts) (hrounds : (textOf ts).length < rounds)
    {before : Program} (h : InFile ts before c) :
    RoundEnds ts (InFile ts) (FileEnds ts) c (declarationRound before rounds ts c) := by
  obtain ⟨ls, hsees, hparsed⟩ := h
  have hfirst := List.head?_dropWhile_not (·.isEmpty) ls
  rw [← Parsed.ofLines_dropWhile ls] at hparsed
  unfold declarationRound
  rw [peek_bind]
  generalize ls.dropWhile (·.isEmpty) = left at hsees hparsed hfirst
  cases left with
  | nil =>
    rw [Parsed.ofLines_blank (List.forall_mem_nil _), List.append_nil, List.append_nil] at hparsed
    rw [hsees.token_of_nil hend, if_pos hend.endToken_value, pure_eq]
    -- Nothing is left, so the cursor has been everywhere in the text.
    refine .done ⟨by rw [hparsed], ?_⟩
    rw [hparsed, ← hsees.position_of_nil, ← hsees.visited]
  | cons l below =>
    have hl : ¬ l.isEmpty = true := by simpa using hfirst
    have htokens : l.tokens ≠ [] := fun hnil => hl (Line.isEmpty_iff.mpr hnil)
    have hne := first_ne_eof hsees htokens
    obtain ⟨k, hpos, hread, hbelow⟩ := recover_declaration hend hrounds
      (located_declaration_ends hend hrounds hsees htokens)
    obtain ⟨n, hskip, hseen⟩ := skipNewlines_ends hend hrounds hbelow
    rw [hsees.token hend, if_neg hne, bind_of_ok hread, bind_of_ok hskip, pure_eq]
    refine .again ⟨(Outcome.ofLine l below).rest, hseen, ?_⟩ ?_ hseen.within
    · rw [hparsed, Parsed.ofLines.eq_def (l :: below)]
      dsimp only
      rw [if_neg hl]
      simp [after]
    · show c.position < c.position + k + n
      omega

/-- A run with a cursor reads what is read line by line, and ends where the text does. -/
theorem run_eq (hend : HasEnd ts) (hrounds : (textOf ts).length < rounds) :
    run rounds ts = .finished (.ok (Program.ofTokens ts))
      ⟨(textOf ts).length, (Parsed.ofLines (Line.ofTokens ts)).problems,
        List.range' 1 (textOf ts).length⟩ := by
  obtain ⟨n, hskip, hseen⟩ := skipNewlines_ends hend hrounds (sees_start ts)
  have hstart : InFile ts [] (Cursor.start.after n []) := ⟨Line.ofTokens ts, hseen, rfl⟩
  obtain ⟨result, c, hloop, rfl, rfl⟩ := loop_ends (InFile ts) (FileEnds ts)
    (fun _ _ => declarationRound_ends hend hrounds) hstart hrounds
  unfold run program
  rw [bind_of_ok hskip, bind_of_ok hloop]
  show (pure _ : CursorParser (Except (List SyntaxError) Program)) rounds ts _ = _
  rw [pure_eq]
  rfl

/-- A file whose end is said twice, with a header that goes on and a block that does not close. -/
def twoEnds : List Token :=
  [⟨.keyword .classBlock, ⟨0, 5⟩⟩, ⟨.ident "A", ⟨6, 7⟩⟩, ⟨.ident "B", ⟨8, 9⟩⟩, ⟨.newline, ⟨9, 10⟩⟩,
    ⟨.keyword .moduleBlock, ⟨10, 16⟩⟩, ⟨.ident "C", ⟨17, 18⟩⟩, ⟨.eof, .point 18⟩,
    ⟨.keyword .blockEnd, ⟨0, 3⟩⟩, ⟨.eof, .point 3⟩]

-- Both lines are passed over, and the first end of file is not.
example : run 10 twoEnds =
    .finished (.ok (.error [⟨.unexpected .lineEnd (.ident "B"), ⟨8, 9⟩⟩,
        ⟨.unclosedBlock .moduleBlock "C", ⟨17, 18⟩⟩]))
      ⟨6, [⟨.unexpected .lineEnd (.ident "B"), ⟨8, 9⟩⟩,
        ⟨.unclosedBlock .moduleBlock "C", ⟨17, 18⟩⟩], [1, 2, 3, 4, 5, 6]⟩ := by
  rfl

/-- A cursor that goes over a file never turns back and never passes the first end of file, the
    token before it is there whenever one is asked for, and no loop goes on forever. What is behind
    the first end of file makes no difference. -/
theorem run_ends (hend : HasEnd ts) :
    ∃ cursor : Cursor,
      (∀ rounds, ts.length < rounds →
        run rounds ts = .finished (.ok (Program.ofTokens ts)) cursor) ∧
      (0 :: cursor.visited).Pairwise (· ≤ ·) ∧
      (∀ i ∈ cursor.position :: cursor.visited, i ≤ ts.findIdx (·.value = .eof)) ∧
      ∀ us, upToEnd us = upToEnd ts → ∀ rounds, us.length < rounds →
        run rounds us = .finished (.ok (Program.ofTokens ts)) cursor := by
  have hlength (us : List Token) (rounds : Nat) (h : us.length < rounds) :
      (textOf us).length < rounds :=
    Nat.lt_of_le_of_lt (List.takeWhile_sublist _).length_le h
  refine ⟨_, fun rounds h => run_eq hend (hlength ts rounds h), ?_, ?_, ?_⟩
  · show (List.range' 0 ((textOf ts).length + 1)).Pairwise (· ≤ ·)
    exact List.pairwise_le_range'
  · rw [← length_textOf]
    refine List.forall_mem_cons.mpr ⟨Nat.le_refl _, fun i hi => ?_⟩
    have hi := List.mem_range'_1.mp hi
    omega
  · intro us hus rounds h
    have hlines : Line.ofTokens us = Line.ofTokens ts := by
      rw [← Line.ofTokens_upToEnd us, hus, Line.ofTokens_upToEnd]
    have htext : textOf us = textOf ts := by
      rw [← textOf_upToEnd us, hus, textOf_upToEnd]
    have hend' : HasEnd us := hasEnd_upToEnd.mp (hus ▸ hasEnd_upToEnd.mpr hend)
    rw [run_eq hend' (hlength us rounds h), Program.ofTokens, hlines, htext]
    rfl

-- The block keyword that the file goes on with behind its end closes nothing.
theorem run_ends_twoEnds :
    HasEnd twoEnds ∧ ∃ cursor : Cursor,
      (∀ rounds, 9 < rounds →
        run rounds twoEnds = .finished (.ok (Program.ofTokens twoEnds)) cursor) ∧
      (0 :: cursor.visited).Pairwise (· ≤ ·) ∧
      (∀ i ∈ cursor.position :: cursor.visited, i ≤ 6) ∧
      ∀ us, upToEnd us = upToEnd twoEnds → ∀ rounds, us.length < rounds →
        run rounds us = .finished (.ok (Program.ofTokens twoEnds)) cursor := by
  have hend : HasEnd twoEnds := .inr ⟨⟨.eof, .point 3⟩, by decide, rfl⟩
  exact ⟨hend, run_ends hend⟩

end CursorParser

end DeclLang
