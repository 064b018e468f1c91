import DeclLang.Proofs.Cursor.Phrases
import DeclLang.Proofs.Syntax.Recovery

/-!
# Blocks under a cursor

A line that is read as a whole leaves the cursor behind it. Where a line, a block or a declaration
ends badly, the cursor is still in the last line that belongs to it, and recovery goes on below that
line. So a declaration comes to what `Outcome.ofLine` makes of its lines, and the lines that this
leaves are those that the cursor sees next (`located_declaration_ends`, `recover_declaration`).
-/

namespace DeclLang

open Cursor

theorem Line.length_text_pos {l : Line} (h : l.tokens ≠ []) : 0 < l.text.length := by
  rw [Line.text, List.length_append]
  exact Nat.lt_of_lt_of_le (List.length_pos_iff.mpr h) (Nat.le_add_right _ _)

/-- The problem that is met, if one is. -/
def problemOf {α : Type} : Except SyntaxError α → List SyntaxError
  | .ok _ => []
  | .error e => [e]

namespace Body

variable {α : Type} {item : LineParser α} {l : Line}

/-- A body below some items and problems. -/
def prepend (items : List (Located α)) (problems : List SyntaxError) (body : Body α) : Body α :=
  { body with items := items ++ body.items, problems := problems ++ body.problems }

theorem prepend_prepend (as bs : List (Located α)) (ps qs : List SyntaxError) (body : Body α) :
    (body.prepend bs qs).prepend as ps = body.prepend (as ++ bs) (ps ++ qs) := by
  simp only [prepend, List.append_assoc]

theorem read_dropWhile (item : LineParser α) (ls : List Line) :
    read item (ls.dropWhile (·.isEmpty)) = read item ls := by
  induction ls with
  | nil => rfl
  | cons l below ih =>
    by_cases hl : l.isEmpty = true
    · rw [List.dropWhile_cons_of_pos hl, ih, read, if_pos hl]
    · rw [List.dropWhile_cons_of_neg hl]

theorem read_end (hl : ¬ l.isEmpty = true) (hfirst : l.first.value = .keyword .blockEnd)
    (below : List Line) : read item (l :: below) = ⟨[], [], some l, below⟩ := by
  rw [read, if_neg hl, if_pos hfirst]

/-- One more item, or one more problem. -/
theorem read_item (hl : ¬ l.isEmpty = true) (hfirst : l.first.value ≠ .keyword .blockEnd)
    (below : List Line) : read item (l :: below) =
      (read item below).prepend (item.onLine l).toOption.toList (problemOf (item.onLine l)) := by
  rw [read, if_neg hl, if_neg hfirst]
  cases item.onLine l <;> rfl

end Body

namespace Cursor

variable {ts : List Token} {c : Cursor} {l : Line} {below : List Line}

/-- The end of the file is a line without any tokens. -/
theorem Sees.end_of_nil (hend : HasEnd ts) (h : Sees ts c []) : Sees ts c [⟨[], endToken ts⟩] where
  within := h.within
  visited := h.visited
  cut := by
    have hcut := h.cut
    generalize (textOf ts).drop c.position = left at hcut
    have hending : (⟨[], endToken ts⟩ : Line).ending = [] := by
      simp [Line.ending, hend.endToken_value]
    have htext : (⟨[], endToken ts⟩ : Line).text = [] := hending
    cases hcut
    have hlast : Cut ((⟨[], endToken ts⟩ : Line).text ++ []) [⟨[], endToken ts⟩] :=
      .cons unbroken_nil (by rw [hending]; exact .endOfFile) .nil
    rwa [htext] at hlast
  stop := fun l' hl' _ => by rw [List.mem_singleton.mp hl']

/-- Behind a line, the token before the cursor is the last one of the line. -/
theorem Sees.previousSpan_behind (h : Sees ts c (l :: below)) (hl : l.tokens ≠ [])
    (ps : List SyntaxError) : (c.after l.text.length ps).previousSpan ts = l.last.span := by
  have hpos := Line.length_text_pos hl
  have hcut := h.cut
  generalize hleft : (textOf ts).drop c.position = left at hcut
  cases hcut with
  | @cons _ us _ _ _ _ =>
    have hlength : ((textOf ts).take c.position ++ l.text).length = c.position + l.text.length := by
      rw [List.length_append, List.length_take, Nat.min_eq_left h.within]
    have htext : textOf ts = ((textOf ts).take c.position ++ l.text) ++ us := by
      rw [List.append_assoc, ← hleft, List.take_append_drop]
    have hlast := Line.getLast?_text hl ((textOf ts).take c.position)
    rw [List.getLast?_eq_getElem?, hlength] at hlast
    have hthere : ts[c.position + l.text.length - 1]? = some l.last := by
      rw [← textOf_append_dropWhile ts, htext, List.append_assoc, List.append_assoc,
        ← List.append_assoc, List.getElem?_append_left (by omega), hlast]
    have hne : c.position + l.text.length ≠ 0 := by omega
    show (if c.position + l.text.length = 0 then _ else _) = _
    rw [if_neg hne]
    show (ts[c.position + l.text.length - 1]?.map (·.span)).getD (.point 0) = _
    rw [hthere]
    rfl

end Cursor

namespace CursorParser

variable {α β σ : Type} {rounds : Nat} {ts : List Token} {c c' : Cursor} {l : Line}
  {ls below : List Line}

theorem first_ne_eof (h : Sees ts c (l :: below)) (hl : l.tokens ≠ []) :
    l.first.value ≠ .eof := by
  obtain ⟨t, rest, htokens⟩ := List.exists_cons_of_ne_nil hl
  rw [Line.first, htokens]
  exact (inner_first h htokens).2

/-! ## Whole lines -/

/-- What reading a line with a cursor comes to, when reading the line by itself comes to something:
    the cursor is behind the line, or still in it. -/
inductive LineEnds (c : Cursor) (l : Line) : Except SyntaxError α → Result α → Prop where
  | ok (a : α) : LineEnds c l (.ok a) (.finished (.ok a) (c.after l.text.length []))
  | failed (e : SyntaxError) {used rest : List Token} : l.tokens = used ++ rest →
      LineEnds c l (.error e) (.finished (.error e) (c.after used.length []))

theorem lineEnd_of_nil (hend : HasEnd ts) (h : Sees ts c (l :: below)) (hl : l.tokens = []) :
    lineEnd rounds ts c = .finished (.ok ()) (c.after l.ending.length []) := by
  have htoken : c.token ts = l.stop := by rw [h.token hend, Line.first, hl]; rfl
  unfold lineEnd
  rw [peek_bind, htoken]
  rcases ending_cases h with ⟨hfeed, hending⟩ | ⟨heof, hending⟩
  · have hstop : l.stop.value ≠ .eof := by simp [hfeed]
    rw [hfeed, hending]
    dsimp only
    rw [bind_of_ok (advance_newline hend h hl hstop), pure_eq]
    rfl
  · rw [heof, hending]
    exact congrArg _ (after_zero c).symm

theorem lineEnd_of_cons (hend : HasEnd ts) (h : Sees ts c (l :: below)) {t : Token}
    {rest : List Token} (hl : l.tokens = t :: rest) :
    lineEnd rounds ts c = .finished (.error ⟨.unexpected .lineEnd t.value, t.span⟩) c := by
  have htoken : c.token ts = t := by rw [h.token hend, Line.first, hl]; rfl
  have hinner := inner_first h hl
  have hfails : (unexpected .lineEnd : CursorParser Unit) rounds ts c =
      .finished (.error ⟨.unexpected .lineEnd t.value, t.span⟩) c := by
    unfold unexpected failAtNext
    rw [peek_bind, htoken]
    rfl
  unfold lineEnd
  rw [peek_bind, htoken]
  obtain ⟨found, span⟩ := t
  cases found with
  | newline => exact absurd rfl hinner.1
  | eof => exact absurd rfl hinner.2
  | _ => exact hfails

/-- A phrase that ends its line is read of the whole line. -/
theorem line_ends {p : CursorParser α} {q : LineParser α} (hp : ∀ n, Simulates n p q)
    (hend : HasEnd ts) (hrounds : (textOf ts).length < rounds) (h : Sees ts c (l :: below)) :
    LineEnds c l ((q.onLine l).map (·.value)) (line p rounds ts c) := by
  have hfollows := hp _ hend hrounds h (Nat.lt_succ_self _)
  unfold line LineParser.onLine
  cases hq : q l.stop l.tokens with
  | error e =>
    rw [hq] at hfollows
    obtain ⟨used, rest, hl, hrun⟩ := hfollows
    rw [bind_of_error hrun]
    exact .failed e hl
  | ok x =>
    obtain ⟨a, rest⟩ := x
    rw [hq] at hfollows
    obtain ⟨used, hl, hrun⟩ := hfollows
    have hrest := h.forward hl []
    rw [bind_of_ok hrun]
    cases rest with
    | nil =>
      rw [bind_of_ok (lineEnd_of_nil hend hrest rfl), after_after, pure_eq]
      have htext : l.text = used ++ (⟨[], l.stop⟩ : Line).ending := by
        rw [Line.text, hl, List.append_nil]
        rfl
      have hbehind := @LineEnds.ok α c l a
      rw [htext, List.length_append] at hbehind
      exact hbehind
    | cons t rest =>
      rw [bind_of_error (lineEnd_of_cons hend hrest rfl)]
      exact .failed _ hl

theorem located_of_ok {p : CursorParser α} {a : α} (h : p rounds ts c = .finished (.ok a) c') :
    located p rounds ts c =
      .finished (.ok ⟨a, (c.token ts).span.merge (c'.previousSpan ts)⟩) c' := by
  unfold located
  rw [peek_bind, bind_of_ok h]
  rfl

theorem located_of_error {p : CursorParser α} {e : SyntaxError}
    (h : p rounds ts c = .finished (.error e) c') :
    located p rounds ts c = .finished (.error e) c' := by
  unfold located
  rw [peek_bind, bind_of_error h]

/-- What is read of a whole line stands where the line does. -/
theorem located_line_ends {p : CursorParser α} {q : LineParser α} (hp : ∀ n, Simulates n p q)
    (hend : HasEnd ts) (hrounds : (textOf ts).length < rounds) (h : Sees ts c (l :: below))
    (hl : l.tokens ≠ []) : LineEnds c l (q.onLine l) (located (line p) rounds ts c) := by
  have hline := line_ends hp hend hrounds h
  generalize hrun : line p rounds ts c = result at hline
  cases hq : q.onLine l with
  | error e =>
    rw [hq] at hline
    cases hline with
    | failed _ htokens =>
      rw [located_of_error hrun]
      exact .failed e htokens
  | ok x =>
    have hspan : x = ⟨x.value, l.span⟩ := by
      unfold LineParser.onLine at hq
      split at hq
      · cases hq
      · cases hq
        rfl
      · cases hq
    rw [hq] at hline
    cases hline with
    | ok _ =>
      rw [located_of_ok hrun, h.token hend, h.previousSpan_behind hl, hspan]
      exact .ok _

/-! ## Recovery -/

theorem recover_of_ok {p : CursorParser α} {a : α} (h : p rounds ts c = .finished (.ok a) c') :
    recover p rounds ts c = .finished (.ok (some a)) c' := by
  unfold recover
  rw [h]

/-- A problem is put aside, and the line that the cursor is in is passed over. -/
theorem recover_of_error {p : CursorParser α} {e : SyntaxError} (hend : HasEnd ts)
    (hrounds : (textOf ts).length < rounds) (h : p rounds ts c = .finished (.error e) c')
    (hsees : Sees ts c' (l :: below)) :
    recover p rounds ts c = .finished (.ok none) (c'.after l.text.length [e]) := by
  have hskip := skipLine_eq hend hrounds (hsees.record [e])
  rw [after_after, Nat.zero_add, List.append_nil] at hskip
  unfold recover
  rw [h]
  dsimp only
  rw [record_eq, bind_of_ok hskip, pure_eq]

/-- A line is read, or passed over as a whole. -/
theorem recover_line {p : CursorParser α} {read : Except SyntaxError α} (hend : HasEnd ts)
    (hrounds : (textOf ts).length < rounds) (h : Sees ts c (l :: below))
    (hp : LineEnds c l read (p rounds ts c)) :
    recover p rounds ts c =
      .finished (.ok read.toOption) (c.after l.text.length (problemOf read)) := by
  generalize hrun : p rounds ts c = result at hp
  cases hp with
  | ok a => exact recover_of_ok hrun
  | @failed e used rest hl =>
    rw [recover_of_error hend hrounds hrun (h.forward hl []), after_after, ← List.length_append,
      Line.text, Line.text, hl, List.append_assoc]
    rfl

/-! ## Blocks -/

/-- What is read of the line that closes a block. -/
theorem closing_ends (rounds : Nat) (hend : HasEnd ts) (h : Sees ts c (l :: below)) {t : Token}
    {rest : List Token} (hl : l.tokens = t :: rest) (ht : t.value = .keyword .blockEnd) :
    LineEnds c l (((LineParser.keyword .blockEnd).onLine l).map fun _ => ())
      ((do let _ ← advance; lineEnd : CursorParser Unit) rounds ts c) := by
  have hrest : Sees ts (c.after 1 []) (⟨rest, l.stop⟩ :: below) :=
    h.forward (show l.tokens = [t] ++ rest from hl) []
  rw [bind_of_ok (advance_token hend h hl)]
  obtain ⟨kind, span⟩ := t
  dsimp only at ht
  subst ht
  unfold LineParser.onLine
  rw [hl, LineParser.keyword_cons]
  cases rest with
  | nil =>
    have htext : l.text.length = 1 + (⟨[], l.stop⟩ : Line).ending.length := by
      rw [Line.text, hl, List.length_append]
      rfl
    have hbehind := @LineEnds.ok Unit c l ()
    rw [htext] at hbehind
    rw [lineEnd_of_nil hend hrest rfl, after_after]
    exact hbehind
  | cons u rest =>
    rw [lineEnd_of_cons hend hrest rfl]
    exact .failed _ (show l.tokens = [⟨.keyword .blockEnd, span⟩] ++ u :: rest from hl)

/-- How reading a block ends, given what is read of it line by line. -/
inductive BlockEnds (ts : List Token) (c : Cursor) (missing : SyntaxError) (body : Body α) :
    Except SyntaxError (List (Located α)) → Cursor → Prop where
  | closed {closing : Line} {mark : Located (Located Unit)} {k : Nat} :
      body.closing = some closing → (LineParser.keyword .blockEnd).onLine closing = .ok mark →
      Sees ts (c.after k body.problems) body.rest →
      (c.after k body.problems).previousSpan ts = closing.last.span →
      BlockEnds ts c missing body (.ok body.items) (c.after k body.problems)
  /-- The line that should close the block goes on. -/
  | unclosable {closing l : Line} {e : SyntaxError} {k : Nat} :
      body.closing = some closing → (LineParser.keyword .blockEnd).onLine closing = .error e →
      Sees ts (c.after k body.problems) (l :: body.rest) →
      BlockEnds ts c missing body (.error e) (c.after k body.problems)
  /-- The file ends first. -/
  | unclosed {l : Line} {k : Nat} :
      body.closing = none → Sees ts (c.after k body.problems) (l :: body.rest) →
      BlockEnds ts c missing body (.error missing) (c.after k body.problems)

/-- A cursor in the body of a block: what is read already and what is in sight make up the body. -/
def InBlock (ts : List Token) (c : Cursor) (item : LineParser α) (body : Body α)
    (items : List (Located α)) (d : Cursor) : Prop :=
  ∃ k ps ls, d = c.after k ps ∧ Sees ts d ls ∧ body = (Body.read item ls).prepend items ps

/-- The round of the line that closes a block. -/
theorem endRound_ends (items : List (Located α)) (missing : SyntaxError)
    (May : List (Located α) → Cursor → Prop) {k : Nat} {ps : List SyntaxError} (hend : HasEnd ts)
    (h : Sees ts (c.after k ps) (l :: below)) (htokens : l.tokens ≠ [])
    (hfirst : l.first.value = .keyword .blockEnd) :
    RoundEnds ts May (BlockEnds ts c missing ⟨items, ps, some l, below⟩) c'
      ((do
        let _ ← advance
        lineEnd
        return .done items : CursorParser (Round (List (Located α)) (List (Located α))))
          rounds ts (c.after k ps)) := by
  obtain ⟨t, rest, hl⟩ := List.exists_cons_of_ne_nil htokens
  have ht : t.value = .keyword .blockEnd := by
    rw [← hfirst, Line.first, hl]
    rfl
  have hcloses := closing_ends rounds hend h hl ht
  -- What closes the block is read first, and then the items are returned.
  have hassoc := bind_assoc advance (fun _ => lineEnd) fun _ =>
    (pure (.done items) : CursorParser (Round (List (Located α)) (List (Located α))))
  rw [← hassoc]
  generalize hrun : (advance >>= fun _ => lineEnd) rounds ts (c.after k ps) = result at hcloses
  cases hon : (LineParser.keyword .blockEnd).onLine l with
  | ok mark =>
    rw [hon] at hcloses
    have hbelow := h.behind []
    have hlast := h.previousSpan_behind htokens []
    cases hcloses with
    | ok _ =>
      rw [bind_of_ok hrun, pure_eq, after_after, List.append_nil]
      rw [after_after, List.append_nil] at hbelow hlast
      exact .done (.closed rfl hon hbelow hlast)
  | error e =>
    rw [hon] at hcloses
    cases hcloses with
    | failed _ hl =>
      have hrest := h.forward hl []
      rw [bind_of_error hrun, after_after, List.append_nil]
      rw [after_after, List.append_nil] at hrest
      exact .failed (.unclosable rfl hon hrest)

/-- Every round of a block passes over blank lines first, and then over one line. -/
theorem itemRound_ends {item : CursorParser α} {q : LineParser α} {body : Body α}
    {items : List (Located α)} (opened : Keyword) (name : Ident)
    (hitem : ∀ n, Simulates n item q) (hend : HasEnd ts) (hrounds : (textOf ts).length < rounds)
    (h : InBlock ts c q body items c') :
    RoundEnds ts (InBlock ts c q body)
      (BlockEnds ts c ⟨.unclosedBlock opened name.value, name.span⟩ body) c'
      (itemRound opened name item items rounds ts c') := by
  obtain ⟨k, ps, ls, rfl, hsees, hbody⟩ := h
  obtain ⟨n, hskip, hseen⟩ := skipNewlines_ends hend hrounds hsees
  have hfirst := List.head?_dropWhile_not (·.isEmpty) ls
  rw [after_after, List.append_nil] at hskip hseen
  rw [← Body.read_dropWhile] at hbody
  unfold itemRound
  rw [bind_of_ok hskip, peek_bind]
  -- From here on only the lines in sight matter, the first of which is not blank.
  generalize ls.dropWhile (·.isEmpty) = left at hseen hbody hfirst
  cases left with
  | nil =>
    obtain rfl : body = ⟨items, ps, none, []⟩ := by
      simpa only [Body.read, Body.prepend, List.append_nil] using hbody
    have heof := hend.endToken_value
    rw [hseen.token_of_nil hend, if_neg (by simp [heof]), if_pos heof]
    exact .failed (.unclosed rfl (hseen.end_of_nil hend))
  | cons l below =>
    have hl : ¬ l.isEmpty = true := by simpa using hfirst
    rw [hseen.token hend]
    have htokens : l.tokens ≠ [] := fun hnil => hl (Line.isEmpty_iff.mpr hnil)
    by_cases hfirst : l.first.value = .keyword .blockEnd
    · obtain rfl : body = ⟨items, ps, some l, below⟩ := by
        simpa only [Body.read_end hl hfirst, Body.prepend, List.append_nil] using hbody
      rw [if_pos hfirst]
      exact endRound_ends items _ _ hend hseen htokens hfirst
    · have hne := first_ne_eof hseen htokens
      have hread := recover_line hend hrounds hseen
        (located_line_ends hitem hend hrounds hseen htokens)
      have hbelow := hseen.behind (problemOf (q.onLine l))
      rw [after_after] at hread hbelow
      rw [if_neg hfirst, if_neg hne, bind_of_ok hread, pure_eq]
      refine .again ⟨_, _, below, rfl, hbelow, ?_⟩ ?_ hbelow.within
      · rw [hbody, Body.read_item hl hfirst, Body.prepend_prepend]
      · have hpos := Line.length_text_pos htokens
        show c.position + k < c.position + (k + n + l.text.length)
        omega

/-- A block comes to what its body and its closing line come to. -/
theorem block_ends {item : CursorParser α} {q : LineParser α} (opened : Keyword) (name : Ident)
    (hitem : ∀ n, Simulates n item q) (hend : HasEnd ts) (hrounds : (textOf ts).length < rounds)
    (h : Sees ts c ls) :
    ∃ result c', block opened name item rounds ts c = .finished result c' ∧
      BlockEnds ts c ⟨.unclosedBlock opened name.value, name.span⟩ (Body.read q ls) result c' :=
  loop_ends (InBlock ts c q (Body.read q ls)) _
    (fun _ _ hblock => itemRound_ends opened name hitem hend hrounds hblock)
    ⟨0, [], ls, c.after_zero.symm, h, rfl⟩ hrounds

/-! ## Declarations -/

/-- How reading a declaration ends. After a problem, the cursor is in the last line that belongs to
    the declaration. -/
inductive DeclarationEnds (ts : List Token) (c : Cursor) (o : Outcome) :
    Result (Located Declaration) → Prop where
  | ok {d : Located Declaration} {k : Nat} : o.declaration = some d → 0 < k →
      Sees ts (c.after k o.problems) o.rest →
      DeclarationEnds ts c o (.finished (.ok d) (c.after k o.problems))
  | failed {e : SyntaxError} {ps : List SyntaxError} {k : Nat} {l : Line} : o.declaration = none →
      o.problems = ps ++ [e] → 0 < k + l.text.length → Sees ts (c.after k ps) (l :: o.rest) →
      DeclarationEnds ts c o (.finished (.error e) (c.after k ps))

/-- A first line that cannot be read is all of its declaration. -/
theorem declarationEnds_ofError (h : Sees ts c (l :: below)) (htokens : l.tokens ≠ [])
    (e : SyntaxError) {used rest : List Token} (hl : l.tokens = used ++ rest) :
    DeclarationEnds ts c (.ofError e below) (.finished (.error e) (c.after used.length [])) := by
  have hpos : 0 < l.tokens.length := List.length_pos_iff.mpr htokens
  have hle : rest.length ≤ (⟨rest, l.stop⟩ : Line).text.length := by
    rw [Line.text, List.length_append]
    exact Nat.le_add_right _ _
  rw [hl, List.length_append] at hpos
  exact .failed rfl rfl (by omega) (h.forward hl [])

theorem declarationEnds_ofSingle {p : CursorParser Declaration} {q : LineParser Declaration}
    (hp : ∀ n, Simulates n p q) (hend : HasEnd ts) (hrounds : (textOf ts).length < rounds)
    (h : Sees ts c (l :: below)) (htokens : l.tokens ≠ []) :
    DeclarationEnds ts c (.ofSingle q l below) (located (line p) rounds ts c) := by
  have hline := located_line_ends hp hend hrounds h htokens
  unfold Outcome.ofSingle
  cases hon : q.onLine l with
  | ok d =>
    rw [hon] at hline
    generalize located (line p) rounds ts c = result at hline
    cases hline with
    | ok _ => exact .ok rfl (Line.length_text_pos htokens) (h.behind [])
  | error e =>
    rw [hon] at hline
    generalize located (line p) rounds ts c = result at hline
    cases hline with
    | failed _ hl => exact declarationEnds_ofError h htokens e hl

section Below

variable {header : CursorParser β} {q : LineParser β} {item : CursorParser α} {r : LineParser α}

theorem blockBelow_eq {opened : Keyword} {name : β → Ident}
    (declaration : β → List (Located α) → Declaration) {b : β} {c₁ c₂ : Cursor}
    {result : Except SyntaxError (List (Located α))}
    (hheader : line header rounds ts c = .finished (.ok b) c₁)
    (hblock : block opened (name b) item rounds ts c₁ = .finished result c₂) :
    blockBelow opened header name item declaration rounds ts c =
      .finished (result.map (declaration b)) c₂ := by
  unfold blockBelow
  rw [bind_of_ok hheader]
  cases result with
  | ok items => rw [bind_of_ok hblock]; rfl
  | error e => rw [bind_of_error hblock]; rfl

/-- What is read of a block, or of the first line of one if that is no header. -/
theorem declarationEnds_below (opened : Keyword) (name : β → Ident) (item : CursorParser α)
    (declaration : β → List (Located α) → Declaration) (hheader : ∀ n, Simulates n header q)
    (hitem : ∀ n, Simulates n item r) (hend : HasEnd ts) (hrounds : (textOf ts).length < rounds)
    (h : Sees ts c (l :: below)) (htokens : l.tokens ≠ []) {o : Outcome}
    (hok : ∀ b, q.onLine l = .ok b →
      o = .ofBlock opened (name b.value) r (declaration b.value) l below)
    (herror : ∀ e, q.onLine l = .error e → o = .ofError e below) :
    DeclarationEnds ts c o
      (located (blockBelow opened header name item declaration) rounds ts c) := by
  have hpos := Line.length_text_pos htokens
  have hline := line_ends hheader hend hrounds h
  generalize hrun : line header rounds ts c = result at hline
  cases hon : q.onLine l with
  | error e =>
    rw [hon] at hline
    rw [herror e hon]
    cases hline with
    | failed _ hl =>
      have hfails : blockBelow opened header name item declaration rounds ts c = _ :=
        bind_of_error hrun _
      rw [located_of_error hfails]
      exact declarationEnds_ofError h htokens e hl
  | ok b =>
    rw [hon] at hline
    rw [hok b hon]
    cases hline with
    | ok _ =>
      obtain ⟨result, c', hblock, hends⟩ :=
        block_ends opened (name b.value) hitem hend hrounds (h.behind [])
      have hbelow := blockBelow_eq declaration hrun hblock
      unfold Outcome.ofBlock
      dsimp only
      cases hends with
      | closed hclosing hmark hsees hprevious =>
        rw [located_of_ok hbelow, hprevious, h.token hend, after_after, List.nil_append]
        rw [after_after, List.nil_append] at hsees
        rw [hclosing]
        dsimp only
        rw [hmark]
        exact .ok rfl (Nat.add_pos_left hpos _) hsees
      | unclosable hclosing hmark hsees =>
        rw [located_of_error hbelow, after_after, List.nil_append]
        rw [after_after, List.nil_append] at hsees
        rw [hclosing]
        dsimp only
        rw [hmark]
        exact .failed rfl rfl (by omega) hsees
      | unclosed hclosing hsees =>
        rw [located_of_error hbelow, after_after, List.nil_append]
        rw [after_after, List.nil_append] at hsees
        rw [hclosing]
        exact .failed rfl rfl (by omega) hsees

end Below

theorem located_congr {p q : CursorParser α} (h : p rounds ts c = q rounds ts c) :
    located p rounds ts c = located q rounds ts c := by
  unfold located
  rw [peek_bind, peek_bind]
  simp only [Bind.bind, h]

/-- A declaration comes to what its lines come to. -/
theorem located_declaration_ends (hend : HasEnd ts) (hrounds : (textOf ts).length < rounds)
    (h : Sees ts c (l :: below)) (htokens : l.tokens ≠ []) :
    DeclarationEnds ts c (.ofLine l below) (located declaration rounds ts c) := by
  have hfrom : declaration rounds ts c = declarationFrom l.first rounds ts c := by
    unfold declaration
    rw [peek_bind, h.token hend]
  have hother : DeclarationEnds ts c
      (.ofError ⟨.unexpected .declaration l.first.value, l.first.span⟩ below)
      (located (unexpected .declaration) rounds ts c) := by
    have hfails : (unexpected .declaration : CursorParser Declaration) rounds ts c =
        .finished (.error ⟨.unexpected .declaration l.first.value, l.first.span⟩)
          (c.after 0 []) := by
      unfold unexpected failAtNext
      rw [peek_bind, h.token hend, after_zero]
      rfl
    rw [located_of_error hfails]
    exact declarationEnds_ofError h htokens _ (List.nil_append _).symm
  -- Both are decided by the first token of the line.
  rw [located_congr hfrom]
  unfold Outcome.ofLine declarationFrom
  generalize hkind : l.first.value = kind at hother
  cases kind with
  | keyword k =>
    cases k with
    | classBlock =>
      exact declarationEnds_below .classBlock Prod.fst member
        (fun b : Ident × Option Ident => .classBlock b.1 b.2) (fun _ => simulates_classHeader)
        (fun _ => simulates_member) hend hrounds h htokens (fun _ hon => by rw [hon])
        fun _ hon => by rw [hon]
    | moduleBlock =>
      exact declarationEnds_below .moduleBlock id member .moduleBlock
        (fun _ => simulates_moduleHeader) (fun _ => simulates_member) hend hrounds h htokens
        (fun _ hon => by rw [hon]; rfl) fun _ hon => by rw [hon]
    | libBlock =>
      exact declarationEnds_below .libBlock Prod.fst function
        (fun b : Ident × Option (Located String) => .libBlock b.1 b.2)
        (fun _ => simulates_libHeader) (fun _ => simulates_function) hend hrounds h htokens
        (fun _ hon => by rw [hon]) fun _ hon => by rw [hon]
    | primitive =>
      dsimp only
      exact declarationEnds_ofSingle (fun _ => simulates_primitive) hend hrounds h htokens
    | method =>
      dsimp only
      exact declarationEnds_ofSingle (fun _ => simulates_method.map Declaration.method) hend hrounds
        h htokens
    | inclusion =>
      dsimp only
      exact declarationEnds_ofSingle (fun _ => simulates_inclusion.map Declaration.inclusion) hend
        hrounds h htokens
    | blockEnd =>
      have hfails : (fail ⟨.unmatchedEnd, l.first.span⟩ : CursorParser Declaration) rounds ts c =
          .finished (.error ⟨.unmatchedEnd, l.first.span⟩) (c.after 0 []) :=
        congrArg _ (after_zero c).symm
      dsimp only
      rw [located_of_error hfails]
      exact declarationEnds_ofError h htokens _ (List.nil_append _).symm
    | _ => exact hother
  | _ => exact hother

/-- A declaration is read, or passed over down to its last line. -/
theorem recover_declaration (hend : HasEnd ts) (hrounds : (textOf ts).length < rounds) {o : Outcome}
    {p : CursorParser (Located Declaration)} (h : DeclarationEnds ts c o (p rounds ts c)) :
    ∃ k, 0 < k ∧ recover p rounds ts c = .finished (.ok o.declaration) (c.after k o.problems) ∧
      Sees ts (c.after k o.problems) o.rest := by
  generalize hrun : p rounds ts c = result at h
  cases h with
  | ok hdeclaration hpos hsees =>
    refine ⟨_, hpos, ?_, hsees⟩
    rw [recover_of_ok hrun, hdeclaration]
  | @failed e ps k l hdeclaration hproblems hpos hsees =>
    have hbehind := hsees.behind [e]
    rw [after_after, ← hproblems] at hbehind
    refine ⟨_, hpos, ?_, hbehind⟩
    rw [recover_of_error hend hrounds hrun hsees, after_after, hdeclaration, hproblems]

end CursorParser

end DeclLang
