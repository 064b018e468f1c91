import DeclLang.Proofs.Syntax.Cut
import DeclLang.Syntax.Cursor

/-!
# What a cursor sees: the lines that are still to be read

A cursor that is somewhere in a file sees the rest of a line and the lines below it (`Cursor.Sees`).
This tells which token it finds, and where it is when tokens, or a whole line, are taken. Loops are
proved to end by one rule: every round but the last moves the cursor, and there is nothing more to
be moved over behind the end of the file (`repeatFor_ends`).
-/

namespace DeclLang

/-! ## The text of a file -/

/-- The tokens before the first end of file. -/
def textOf (ts : List Token) : List Token :=
  ts.takeWhile (·.value ≠ .eof)

/-- The first end of file, or what stands for it in an empty file. -/
def endToken (ts : List Token) : Token :=
  (ts.dropWhile (·.value ≠ .eof)).headD Line.endOfFile

/-- No tokens at all, or tokens that say where the file ends. -/
def HasEnd (ts : List Token) : Prop :=
  ts = [] ∨ ∃ t ∈ ts, t.value = .eof

theorem textOf_append_dropWhile (ts : List Token) :
    textOf ts ++ ts.dropWhile (·.value ≠ .eof) = ts :=
  List.takeWhile_append_dropWhile

theorem ne_eof_of_mem_textOf {ts : List Token} {t : Token} (h : t ∈ textOf ts) :
    t.value ≠ .eof := by
  simpa using List.all_eq_true.mp List.all_takeWhile t h

/-- A file is its text and its end, and whatever comes behind that. -/
theorem HasEnd.eq_append {ts : List Token} (h : HasEnd ts) (hne : ts ≠ []) :
    ∃ more, ts = textOf ts ++ endToken ts :: more ∧ (endToken ts).value = .eof := by
  rcases h with rfl | ⟨t, ht, heof⟩
  · exact absurd rfl hne
  · cases hdrop : ts.dropWhile (·.value ≠ .eof) with
    | nil =>
      have htext := textOf_append_dropWhile ts
      rw [hdrop, List.append_nil] at htext
      exact absurd heof (ne_eof_of_mem_textOf (htext.symm ▸ ht))
    | cons u more =>
      have hend : endToken ts = u := by rw [endToken, hdrop]; rfl
      have hstop := List.head?_dropWhile_not (fun t : Token => decide (t.value ≠ .eof)) ts
      rw [hdrop] at hstop
      refine ⟨more, ?_, ?_⟩
      · rw [hend, ← hdrop]
        exact (textOf_append_dropWhile ts).symm
      · rw [hend]
        simpa using hstop

theorem HasEnd.endToken_value {ts : List Token} (h : HasEnd ts) : (endToken ts).value = .eof := by
  by_cases hne : ts = []
  · rw [hne]
    rfl
  · obtain ⟨more, -, heof⟩ := h.eq_append hne
    exact heof

namespace Cursor

/-! ## Moves -/

/-- The cursor after some tokens were taken and some problems were put aside. -/
def after (c : Cursor) (n : Nat) (ps : List SyntaxError) : Cursor :=
  ⟨c.position + n, c.problems ++ ps, c.visited ++ List.range' (c.position + 1) n⟩

theorem after_zero (c : Cursor) : c.after 0 [] = c := by
  simp [after]

theorem after_after (c : Cursor) (m n : Nat) (ps qs : List SyntaxError) :
    (c.after m ps).after n qs = c.after (m + n) (ps ++ qs) := by
  have hrange := @List.range'_append_1 (c.position + 1) m n
  have hstart : c.position + m + 1 = c.position + 1 + m := by omega
  simp only [after, List.append_assoc, Nat.add_assoc c.position m n, hstart, hrange]

theorem next_eq (c : Cursor) : c.next = c.after 1 [] := by
  simp [next, after]

theorem record_eq (c : Cursor) (e : SyntaxError) : c.record e = c.after 0 [e] := by
  simp [record, after]

/-! ## Lines in sight -/

/-- What is left of the text, from the cursor on, is cut into these lines. -/
structure Sees (ts : List Token) (c : Cursor) (ls : List Line) : Prop where
  within : c.position ≤ (textOf ts).length
  visited : c.visited = List.range' 1 c.position
  cut : Cut ((textOf ts).drop c.position) ls
  stop : ∀ l ∈ ls, l.stop.value = .eof → l.stop = endToken ts

/-- The token at the cursor is the first one that is left, or the end of the file. -/
theorem token_eq {ts : List Token} (h : HasEnd ts) {c : Cursor}
    (hc : c.position ≤ (textOf ts).length) :
    c.token ts = ((textOf ts).drop c.position).headD (endToken ts) := by
  by_cases hne : ts = []
  · subst hne
    simp [token, textOf, endToken]
  obtain ⟨more, hts, -⟩ := h.eq_append hne
  have htoken : ts[c.position]? = some (((textOf ts).drop c.position).headD (endToken ts)) := by
    have hall : ts[c.position]? = (textOf ts ++ endToken ts :: more)[c.position]? :=
      congrArg (fun us : List Token => us[c.position]?) hts
    rw [hall, List.headD_eq_head?_getD, List.head?_drop]
    rcases Nat.lt_or_eq_of_le hc with hlt | heq
    · rw [List.getElem?_append_left hlt, List.getElem?_eq_getElem hlt]
      rfl
    · rw [heq, List.getElem?_append_right (Nat.le_refl _), Nat.sub_self,
        List.getElem?_eq_none (Nat.le_refl _)]
      rfl
  rw [token, htoken, Option.some_or, Option.getD_some]

namespace Sees

variable {ts : List Token} {c : Cursor} {l : Line} {ls below : List Line}

theorem token_of_nil (hend : HasEnd ts) (h : Sees ts c []) : c.token ts = endToken ts := by
  rw [token_eq hend h.within]
  have hcut := h.cut
  generalize (textOf ts).drop c.position = left at hcut
  cases hcut
  rfl

/-- The token at the cursor is the one that the next line starts with. -/
theorem token (hend : HasEnd ts) (h : Sees ts c (l :: below)) : c.token ts = l.first := by
  rw [token_eq hend h.within]
  have hcut := h.cut
  generalize (textOf ts).drop c.position = left at hcut
  cases hcut with
  | @cons _ us _ hl hending hbelow =>
    unfold Line.text Line.first
    cases htokens : l.tokens with
    | cons t rest => rfl
    | nil =>
      by_cases heof : l.stop.value = .eof
      · have hnone : l.ending = [] := by
          unfold Line.ending
          split
          · rfl
          · rename_i hne
            exact absurd heof hne
        rw [hnone] at hending ⊢
        cases hending
        exact (h.stop l List.mem_cons_self heof).symm
      · rw [Line.ending_of_ne_eof heof]
        rfl

theorem after {n : Nat} (h : Sees ts c ls) (ps : List SyntaxError)
    (hcut : Cut ((textOf ts).drop (c.position + n)) below)
    (hn : c.position + n ≤ (textOf ts).length)
    (hstop : ∀ l ∈ below, l.stop.value = .eof → l.stop = endToken ts) :
    Sees ts (c.after n ps) below where
  within := hn
  visited := by
    show c.visited ++ List.range' (c.position + 1) n = List.range' 1 (c.position + n)
    rw [h.visited, Nat.add_comm c.position 1, List.range'_append_1]
  cut := hcut
  stop := hstop

/-- Problems that are put aside do not change what is seen. -/
theorem record (h : Sees ts c ls) (ps : List SyntaxError) : Sees ts (c.after 0 ps) ls :=
  h.after ps h.cut h.within h.stop

/-- What is left of a text behind the tokens that it starts with. -/
theorem drop_eq {us rest : List Token} (h : (textOf ts).drop c.position = us ++ rest) :
    (textOf ts).drop (c.position + us.length) = rest ∧
      (c.position ≤ (textOf ts).length → c.position + us.length ≤ (textOf ts).length) := by
  refine ⟨?_, fun hc => ?_⟩
  · rw [← List.drop_drop, h, List.drop_left]
  · have hlength := congrArg List.length h
    rw [List.length_drop, List.length_append] at hlength
    omega

/-- The cursor behind some tokens of a line. -/
theorem forward {used rest : List Token} (h : Sees ts c (l :: below))
    (hl : l.tokens = used ++ rest) (ps : List SyntaxError) :
    Sees ts (c.after used.length ps) (⟨rest, l.stop⟩ :: below) := by
  have hcut := h.cut
  generalize hleft : (textOf ts).drop c.position = left at hcut
  cases hcut with
  | @cons _ us _ hunbroken hending hbelow =>
    rw [hl] at hunbroken
    rw [Line.text, hl, List.append_assoc, List.append_assoc] at hleft
    obtain ⟨hdrop, hwithin⟩ := drop_eq hleft
    refine h.after ps ?_ (hwithin h.within) ?_
    · rw [hdrop, ← List.append_assoc]
      exact @Cut.cons ⟨rest, l.stop⟩ us below (unbroken_append.mp hunbroken).2 hending hbelow
    · exact List.forall_mem_cons.mpr ⟨h.stop l List.mem_cons_self, fun l' hl' =>
        h.stop l' (List.mem_cons_of_mem _ hl')⟩

/-- The cursor behind a line. -/
theorem behind (h : Sees ts c (l :: below)) (ps : List SyntaxError) :
    Sees ts (c.after l.text.length ps) below := by
  have hcut := h.cut
  generalize hleft : (textOf ts).drop c.position = left at hcut
  cases hcut with
  | cons hunbroken hending hbelow =>
    obtain ⟨hdrop, hwithin⟩ := drop_eq hleft
    refine h.after ps ?_ (hwithin h.within) fun l' hl' => h.stop l' (List.mem_cons_of_mem _ hl')
    rwa [hdrop]

/-- A line without any text is the end of the file, and all lines below it are blank. -/
theorem nothing_left (h : Sees ts c (l :: below)) (hl : l.text = []) :
    Sees ts c [] ∧ ∀ l ∈ below, l.isEmpty := by
  have hcut := h.cut
  generalize hleft : (textOf ts).drop c.position = left at hcut
  cases hcut with
  | @cons _ us _ _ hending hbelow =>
    rw [(List.append_eq_nil_iff.mp hl).2] at hending
    cases hending
    refine ⟨⟨h.within, h.visited, ?_, List.forall_mem_nil _⟩, hbelow.isEmpty_of_nil⟩
    rw [hleft, hl]
    exact .nil

end Sees

end Cursor

/-! ## Steps -/

namespace CursorParser

open Cursor

variable {α β σ : Type} {rounds : Nat} {ts : List Token} {c c' : Cursor} {l : Line}
  {ls below : List Line}

theorem bind_of_ok {p : CursorParser α} {a : α} (h : p rounds ts c = .finished (.ok a) c')
    (f : α → CursorParser β) : (p >>= f) rounds ts c = f a rounds ts c' := by
  simp only [bind, h]

theorem bind_of_error {p : CursorParser α} {e : SyntaxError}
    (h : p rounds ts c = .finished (.error e) c') (f : α → CursorParser β) :
    (p >>= f) rounds ts c = .finished (.error e) c' := by
  simp only [bind, h]

theorem peek_bind (f : Token → CursorParser β) :
    (peek >>= f) rounds ts c = f (c.token ts) rounds ts c := rfl

theorem pure_eq (a : α) : (pure a : CursorParser α) rounds ts c = .finished (.ok a) c := rfl

/-- A token of the text is taken, and it is there. -/
theorem advance_eq (hend : HasEnd ts) {t : Token} {rest : List Token}
    (h : (textOf ts).drop c.position = t :: rest) :
    advance rounds ts c = .finished (.ok t) (c.after 1 []) := by
  have hlt : c.position < (textOf ts).length := by
    have hlength := congrArg List.length h
    rw [List.length_drop, List.length_cons] at hlength
    omega
  have htoken : c.token ts = t := by
    rw [token_eq hend (Nat.le_of_lt hlt), h]
    rfl
  have htext : (textOf ts)[c.position]? = some t := by
    rw [← List.head?_drop, h]
    rfl
  have hne : t.value ≠ .eof := ne_eof_of_mem_textOf (List.mem_of_getElem? htext)
  have hthere : ts[c.position]? = some t := by
    rw [← textOf_append_dropWhile ts, List.getElem?_append_left hlt, htext]
  have hmoved : (c.after 1 []).position = c.position + 1 := rfl
  unfold advance
  rw [htoken, if_neg hne, next_eq]
  dsimp only
  rw [hmoved, if_neg (Nat.succ_ne_zero _), Nat.add_sub_cancel, hthere]

/-- The first token of a line is taken. -/
theorem advance_token (hend : HasEnd ts) (h : Sees ts c (l :: below)) {t : Token}
    {rest : List Token} (hl : l.tokens = t :: rest) :
    advance rounds ts c = .finished (.ok t) (c.after 1 []) := by
  have hcut := h.cut
  generalize hleft : (textOf ts).drop c.position = left at hcut
  cases hcut with
  | cons =>
    rw [Line.text, hl] at hleft
    exact advance_eq hend hleft

/-- The line feed of a line that was read is taken. -/
theorem advance_newline (hend : HasEnd ts) (h : Sees ts c (l :: below)) (hl : l.tokens = [])
    (hstop : l.stop.value ≠ .eof) :
    advance rounds ts c = .finished (.ok l.stop) (c.after 1 []) := by
  have hcut := h.cut
  generalize hleft : (textOf ts).drop c.position = left at hcut
  cases hcut with
  | cons =>
    rw [Line.text, hl, Line.ending_of_ne_eof hstop] at hleft
    exact advance_eq hend hleft

/-! ## Loops -/

/-- How a round of a loop may end: further on in the text, in a state where the next round may
    start, or as the loop may end. -/
inductive RoundEnds (ts : List Token) (May : σ → Cursor → Prop)
    (Ends : Except SyntaxError α → Cursor → Prop) (c : Cursor) : Result (Round σ α) → Prop where
  | again {s : σ} {c' : Cursor} : May s c' → c.position < c'.position →
      c'.position ≤ (textOf ts).length → RoundEnds ts May Ends c (.finished (.ok (.again s)) c')
  | done {a : α} {c' : Cursor} : Ends (.ok a) c' →
      RoundEnds ts May Ends c (.finished (.ok (.done a)) c')
  | failed {e : SyntaxError} {c' : Cursor} : Ends (.error e) c' →
      RoundEnds ts May Ends c (.finished (.error e) c')

/-- A loop ends if each of its rounds does, when there are more rounds than tokens left. -/
theorem repeatFor_ends {round : σ → CursorParser (Round σ α)} (May : σ → Cursor → Prop)
    (Ends : Except SyntaxError α → Cursor → Prop)
    (hround : ∀ s c, May s c → RoundEnds ts May Ends c (round s rounds ts c)) {n : Nat} {s : σ}
    (hs : May s c) (hn : (textOf ts).length - c.position < n) :
    ∃ result c', repeatFor round n s rounds ts c = .finished result c' ∧ Ends result c' := by
  induction n generalizing s c with
  | zero => omega
  | succ n ih =>
    have hends := hround s c hs
    generalize hrun : round s rounds ts c = result at hends
    unfold repeatFor
    cases hends with
    | again hmay hlt hle =>
      rw [bind_of_ok hrun]
      exact ih hmay (by omega)
    | done h =>
      rw [bind_of_ok hrun]
      exact ⟨_, _, rfl, h⟩
    | failed h =>
      rw [bind_of_error hrun]
      exact ⟨_, _, rfl, h⟩

/-- A loop is given a round for each token of the file, and one more. -/
theorem loop_ends {round : σ → CursorParser (Round σ α)} (May : σ → Cursor → Prop)
    (Ends : Except SyntaxError α → Cursor → Prop)
    (hround : ∀ s c, May s c → RoundEnds ts May Ends c (round s rounds ts c)) {s : σ}
    (hs : May s c) (hrounds : (textOf ts).length < rounds) :
    ∃ result c', loop s round rounds ts c = .finished result c' ∧ Ends result c' :=
  repeatFor_ends May Ends hround hs (Nat.lt_of_le_of_lt (Nat.sub_le _ _) hrounds)

/-! ## Passing over lines -/

/-- Where a line ends, the line feed is taken. At the end of the file there is none. -/
theorem ending_cases (h : Sees ts c (l :: below)) :
    l.stop.value = .newline ∧ l.ending = [l.stop] ∨ l.stop.value = .eof ∧ l.ending = [] := by
  have hcut := h.cut
  generalize (textOf ts).drop c.position = left at hcut
  cases hcut with
  | cons _ hending _ =>
    by_cases heof : l.stop.value = .eof
    · exact .inr ⟨heof, by simp [Line.ending, heof]⟩
    · have hfeed := Line.ending_of_ne_eof heof
      rw [hfeed] at hending
      generalize hstop : l.stop = stop at hending
      cases hending
      exact .inl ⟨rfl, by rw [hfeed, hstop]⟩

/-- The tokens in a line neither end it nor the file. -/
theorem inner_of_sees {used rest : List Token} {t : Token} (h : Sees ts c (l :: below))
    (hl : l.tokens = used ++ t :: rest) : t.Inner := by
  have hcut := h.cut
  generalize (textOf ts).drop c.position = left at hcut
  cases hcut with
  | cons hunbroken =>
    rw [hl] at hunbroken
    exact (unbroken_cons.mp (unbroken_append.mp hunbroken).2).1

theorem inner_first {t : Token} {rest : List Token} (h : Sees ts c (l :: below))
    (hl : l.tokens = t :: rest) : t.Inner :=
  inner_of_sees h (show l.tokens = [] ++ t :: rest from hl)

/-- The rest of a line is passed over. -/
theorem skipLine_eq (hend : HasEnd ts) (hrounds : (textOf ts).length < rounds)
    (h : Sees ts c (l :: below)) :
    skipLine rounds ts c = .finished (.ok ()) (c.after l.text.length []) := by
  -- Every round leaves the cursor somewhere in the line, or behind it.
  let May (_ : Unit) (d : Cursor) : Prop :=
    ∃ used rest, l.tokens = used ++ rest ∧ d = c.after used.length []
  have hround (s : Unit) (d : Cursor) (hd : May s d) :
      RoundEnds ts May (fun result d => result = .ok () ∧ d = c.after l.text.length []) d
        (tokenRound s rounds ts d) := by
    obtain ⟨used, rest, hl, rfl⟩ := hd
    have hsees := h.forward hl []
    unfold tokenRound
    rw [peek_bind]
    cases rest with
    | nil =>
      have htoken : (c.after used.length []).token ts = l.stop := hsees.token hend
      rw [List.append_nil] at hl
      rw [htoken]
      rcases ending_cases h with ⟨hfeed, hending⟩ | ⟨heof, hending⟩
      · have hstop : l.stop.value ≠ .eof := by simp [hfeed]
        rw [if_neg hstop, bind_of_ok (advance_newline hend hsees rfl hstop), if_pos hfeed,
          after_after, pure_eq]
        refine .done ⟨rfl, ?_⟩
        rw [Line.text, hl, hending, List.length_append]
        rfl
      · rw [if_pos heof, pure_eq]
        refine .done ⟨rfl, ?_⟩
        rw [Line.text, hl, hending, List.append_nil]
    | cons t rest =>
      have htoken : (c.after used.length []).token ts = t := hsees.token hend
      have hinner := inner_of_sees h hl
      have hl' : l.tokens = (used ++ [t]) ++ rest := by
        rw [hl, List.append_assoc]
        rfl
      have hmoved : c.after (used.length + 1) ([] ++ []) = c.after (used ++ [t]).length [] := by
        rw [List.length_append]
        rfl
      rw [htoken, if_neg hinner.2, bind_of_ok (advance_token hend hsees rfl), if_neg hinner.1,
        after_after, pure_eq, hmoved]
      refine .again ⟨used ++ [t], rest, hl', rfl⟩ ?_ (h.forward hl' []).within
      show c.position + used.length < c.position + (used ++ [t]).length
      rw [List.length_append]
      exact Nat.lt_succ_self _
  obtain ⟨result, d, hrun, rfl, rfl⟩ := loop_ends May _ hround
    ⟨[], l.tokens, rfl, c.after_zero.symm⟩ hrounds
  exact hrun

/-- Blank lines are passed over. -/
theorem skipNewlines_ends (hend : HasEnd ts) (hrounds : (textOf ts).length < rounds)
    (h : Sees ts c ls) :
    ∃ n, skipNewlines rounds ts c = .finished (.ok ()) (c.after n []) ∧
      Sees ts (c.after n []) (ls.dropWhile (·.isEmpty)) := by
  let May (_ : Unit) (d : Cursor) : Prop := ∃ n ls', d = c.after n [] ∧ Sees ts d ls' ∧
    ls'.dropWhile (·.isEmpty) = ls.dropWhile (·.isEmpty)
  have hround (s : Unit) (d : Cursor) (hd : May s d) :
      RoundEnds ts May (fun result d => result = .ok () ∧ ∃ n, d = c.after n [] ∧
        Sees ts d (ls.dropWhile (·.isEmpty))) d (newlineRound s rounds ts d) := by
    obtain ⟨n, ls', rfl, hsees, hblank⟩ := hd
    unfold newlineRound
    rw [peek_bind]
    cases ls' with
    | nil =>
      have heof := hend.endToken_value
      rw [hsees.token_of_nil hend, if_neg (by simp [heof]), pure_eq]
      exact .done ⟨rfl, n, rfl, hblank ▸ hsees⟩
    | cons l below =>
      rw [hsees.token hend]
      cases htokens : l.tokens with
      | cons t rest =>
        have hfirst : l.first = t := by rw [Line.first, htokens]; rfl
        have hnonempty : ¬ l.isEmpty = true := by simp [Line.isEmpty, htokens]
        rw [hfirst, if_neg (inner_first hsees htokens).1, pure_eq]
        rw [List.dropWhile_cons_of_neg hnonempty] at hblank
        exact .done ⟨rfl, n, rfl, hblank ▸ hsees⟩
      | nil =>
        have hfirst : l.first = l.stop := by rw [Line.first, htokens]; rfl
        have hempty : l.isEmpty = true := by simp [Line.isEmpty, htokens]
        rw [List.dropWhile_cons_of_pos hempty] at hblank
        rw [hfirst]
        rcases ending_cases hsees with ⟨hfeed, hending⟩ | ⟨heof, hending⟩
        · have hstop : l.stop.value ≠ .eof := by simp [hfeed]
          have hbelow := hsees.behind []
          rw [Line.text, htokens, hending] at hbelow
          rw [if_pos hfeed, bind_of_ok (advance_newline hend hsees htokens hstop), pure_eq]
          refine .again ⟨n + 1, below, ?_, hbelow, hblank⟩ (Nat.lt_succ_self _) hbelow.within
          exact c.after_after n 1 [] []
        · -- At the end of the file there are only blank lines left.
          have htext : l.text = [] := by rw [Line.text, htokens, hending]; rfl
          obtain ⟨hnothing, hblanks⟩ := hsees.nothing_left htext
          have hnil : below.dropWhile (·.isEmpty) = [] := by
            rw [← List.append_nil below, List.dropWhile_append_of_pos hblanks]
            rfl
          rw [if_neg (by simp [heof]), pure_eq, ← hblank, hnil]
          exact .done ⟨rfl, n, rfl, hnothing⟩
  obtain ⟨result, d, hrun, rfl, n, rfl, hsees⟩ := loop_ends May _ hround
    ⟨0, ls, c.after_zero.symm, h, rfl⟩ hrounds
  exact ⟨n, hrun, hsees⟩

end CursorParser

end DeclLang
