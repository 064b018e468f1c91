import DeclLang.Proofs.Syntax.Blame
import DeclLang.Proofs.Syntax.Recovery
import DeclLang.Proofs.Token.Reading

/-!
# One problem a line: the problems of a file go along its lines

A line that is refused has one problem, which is at one of its tokens, and what is read after it is
further down (`Along`). A block that is not closed is different: it takes all lines that are left,
and is reported after them at its header (`Unclosed`). So no two problems of a file are on one line,
and apart from a block that is not closed they come in the order of their lines
(`ofTokens_lines`).
-/

namespace DeclLang

open LineParser

/-! ## Problems of a line -/

def SyntaxProblem.isUnclosed : SyntaxProblem → Bool
  | .unclosedBlock _ _ => true
  | _ => false

section

variable {α β : Type}

/-- A parser that never complains about a block that is not closed. -/
def LineParser.Inner (p : LineParser α) : Prop :=
  ∀ stop ts e, p stop ts = .error e → e.value.isUnclosed = false

theorem inner_pure (a : α) : Inner (pure a : LineParser α) := by
  intro stop ts e h
  cases h

theorem LineParser.Inner.bind {p : LineParser α} {f : α → LineParser β} (hp : Inner p)
    (hf : ∀ a, Inner (f a)) : Inner (p >>= f) := by
  intro stop ts e h
  simp only [Bind.bind] at h
  cases hx : p stop ts with
  | error e' =>
    rw [hx] at h
    cases h
    exact hp stop ts e hx
  | ok x =>
    rw [hx] at h
    exact hf x.1 stop x.2 e h

theorem inner_failAtNext {problem : TokenKind → SyntaxProblem}
    (h : ∀ found, (problem found).isUnclosed = false) :
    Inner (failAtNext problem : LineParser α) := by
  intro stop ts e he
  cases he
  exact h _

theorem inner_failAt {problem : SyntaxProblem} (h : problem.isUnclosed = false) (span : Span) :
    Inner (failAt problem span : LineParser α) := by
  intro stop ts e he
  cases he
  exact h

theorem inner_accept? (f : Token → Option α) : Inner (accept? f) := by
  intro stop ts e h
  cases ts with
  | nil => cases h
  | cons t ts =>
    unfold accept? at h
    dsimp only at h
    split at h <;> cases h

theorem inner_expect {problem : TokenKind → SyntaxProblem}
    (h : ∀ found, (problem found).isUnclosed = false) (f : Token → Option α) :
    Inner (expect problem f) := by
  refine (inner_accept? f).bind fun o => ?_
  cases o with
  | none => exact inner_failAtNext h
  | some a => exact inner_pure a

theorem inner_unexpected (expected : Expected) (f : Token → Option α) :
    Inner (expect (.unexpected expected) f) :=
  inner_expect (fun _ => rfl) f

/-! ### Types and parameters -/

theorem inner_parseTypeName : Inner parseTypeName := by
  refine (inner_unexpected _ _).bind fun name => ?_
  split
  · exact inner_pure name
  · exact inner_failAt rfl _

theorem inner_closeGeneric (name : Ident) (arg : TypeExpr) : Inner (closeGeneric name arg) :=
  (inner_unexpected _ _).bind fun _ => inner_pure _

theorem inner_parseType : Inner parseType := by
  intro stop ts
  fun_induction parseType stop ts with
  | case1 => exact inner_failAtNext (fun _ => rfl) stop []
  | case2 t ts e he =>
    intro e' h
    cases h
    exact inner_parseTypeName stop [t] e he
  | case3 =>
    intro e h
    cases h
  | case4 t name used u inner hname hu e he ih =>
    intro e' h
    cases h
    exact ih e he
  | case5 t name used u inner hname hu arg after harg ih =>
    exact inner_closeGeneric name arg stop after
  | case6 =>
    intro e h
    cases h

theorem inner_parseParameter : Inner parseParameter :=
  (inner_unexpected _ _).bind fun _ => (inner_expect (fun _ => rfl) _).bind fun _ =>
    inner_parseType.bind fun _ => inner_pure _

theorem inner_parseParameters : Inner parseParameters := by
  intro stop ts
  fun_induction parseParameters stop ts with
  | case1 ts e he =>
    intro e' h
    cases h
    exact inner_parseParameter stop ts e he
  | case3 ts p u after hp hu e he ih =>
    intro e' h
    cases h
    exact ih e he
  | case2 | case4 | case5 =>
    intro e h
    cases h

theorem inner_parseParameterList : Inner parseParameterList := by
  refine (inner_accept? _).bind fun opening => ?_
  cases opening with
  | none => exact inner_pure []
  | some =>
    refine (inner_accept? _).bind fun closing => ?_
    cases closing with
    | some => exact inner_pure []
    | none =>
      exact inner_parseParameters.bind fun _ => (inner_unexpected _ _).bind fun _ => inner_pure _

/-! ### Methods -/

theorem inner_parseMethodName : Inner parseMethodName := by
  refine (inner_accept? _).bind fun name => ?_
  cases name with
  | some name =>
    refine (inner_accept? _).bind fun eq => ?_
    cases eq with
    | some => exact inner_pure _
    | none => exact inner_pure name
  | none =>
    refine (inner_accept? _).bind fun operator => ?_
    cases operator with
    | some operator => exact inner_pure operator
    | none =>
      refine (inner_accept? _).bind fun bracket => ?_
      cases bracket with
      | none => exact inner_failAtNext fun _ => rfl
      | some =>
        refine (inner_unexpected _ _).bind fun _ => (inner_accept? _).bind fun eq => ?_
        cases eq with
        | some => exact inner_pure _
        | none => exact inner_pure _

theorem inner_parseMethodTail (name : Ident) : Inner (parseMethodTail name) := by
  refine inner_parseParameterList.bind fun _ => (inner_accept? _).bind fun colon => ?_
  cases colon with
  | some => exact inner_parseType.bind fun _ => inner_pure _
  | none => exact inner_pure _

theorem inner_parseMethod : Inner parseMethod :=
  (inner_unexpected _ _).bind fun _ => inner_parseMethodName.bind inner_parseMethodTail

theorem inner_parseFunction : Inner parseFunction :=
  (inner_unexpected _ _).bind fun _ => (inner_unexpected _ _).bind inner_parseMethodTail

theorem inner_parseInclusion : Inner parseInclusion :=
  (inner_unexpected _ _).bind fun _ => inner_parseTypeName

theorem LineParser.Inner.map {p : LineParser α} (hp : Inner p) (f : α → β) : Inner (f <$> p) :=
  hp.bind fun a => inner_pure (f a)

theorem inner_parseMember : Inner parseMember := by
  intro stop ts e h
  unfold parseMember at h
  split at h
  · exact inner_parseMethod.map Member.method stop ts e h
  · exact inner_parseInclusion.map Member.inclusion stop ts e h
  · exact inner_failAtNext (fun _ => rfl) stop ts e h

/-! ### Headers -/

theorem inner_parseClassHeader : Inner parseClassHeader := by
  refine (inner_unexpected _ _).bind fun _ => inner_parseTypeName.bind fun name =>
    (inner_accept? _).bind fun mark => ?_
  cases mark with
  | some => exact inner_parseTypeName.bind fun _ => inner_pure _
  | none => exact inner_pure _

theorem inner_parseModuleHeader : Inner parseModuleHeader :=
  (inner_unexpected _ _).bind fun _ => inner_parseTypeName

theorem inner_parseLibHeader : Inner parseLibHeader := by
  refine (inner_unexpected _ _).bind fun _ => inner_parseTypeName.bind fun name =>
    (inner_accept? _).bind fun opening => ?_
  cases opening with
  | none => exact inner_pure _
  | some =>
    exact (inner_unexpected _ _).bind fun _ => (inner_unexpected _ _).bind fun _ => inner_pure _

theorem inner_parsePrimitive : Inner parsePrimitive := by
  refine (inner_unexpected _ _).bind fun _ => inner_parseTypeName.bind fun _ =>
    (inner_expect (fun _ => rfl) _).bind fun _ => inner_parseTypeName.bind fun _ =>
    (inner_unexpected _ _).bind fun _ => (inner_unexpected _ _).bind fun _ =>
    (inner_unexpected _ _).bind fun size => ?_
  split
  · exact inner_pure _
  · exact inner_failAt rfl _

end

/-! ## Problems along lines -/

/-- What can be wrong with a line by itself, and is reported at one of its tokens. -/
def Line.Shows (l : Line) (e : SyntaxError) : Prop :=
  e.value.isUnclosed = false ∧ ∃ t ∈ l.tokens ++ [l.stop], t.span = e.span

theorem Line.shows_first {l : Line} {problem : SyntaxProblem} (h : problem.isUnclosed = false) :
    l.Shows ⟨problem, l.first.span⟩ := by
  refine ⟨h, l.first, ?_, rfl⟩
  unfold Line.first
  cases l.tokens with
  | nil => exact List.mem_singleton_self _
  | cons t ts => exact List.mem_cons_self

/-- The problem for which a line is refused is one of the line. -/
theorem LineParser.Inner.shows {α : Type} {Q : α → Prop} {p : LineParser α} (hp : Inner p)
    (hblames : ∀ P, Blames P Q p) {l : Line} {e : SyntaxError} (h : p.onLine l = .error e) :
    l.Shows e := by
  constructor
  · unfold onLine at h
    split at h
    · rename_i e' he
      cases h
      exact hp _ _ _ he
    · cases h
    · cases h
      rfl
  · have hover : l.Over (fun s => ∃ t ∈ l.tokens ++ [l.stop], t.span = s) :=
      ⟨fun t ht => ⟨t, List.mem_append_left _ ht, rfl⟩,
        ⟨l.stop, List.mem_append_right _ (List.mem_singleton_self _), rfl⟩⟩
    exact ((hblames _).onLine hover).1 e h

/-- Problems of some of the lines, in the order of the lines, and one for each. -/
inductive Along : List Line → List SyntaxError → Prop where
  | nil : Along [] []
  | silent {l : Line} {ls : List Line} {es : List SyntaxError} : Along ls es → Along (l :: ls) es
  | shown {l : Line} {ls : List Line} {e : SyntaxError} {es : List SyntaxError} :
      l.Shows e → Along ls es → Along (l :: ls) (e :: es)

namespace Along

variable {ls ms : List Line} {es fs : List SyntaxError}

theorem append (h : Along ls es) (h' : Along ms fs) : Along (ls ++ ms) (es ++ fs) := by
  induction h with
  | nil => exact h'
  | silent _ ih => exact .silent ih
  | shown he _ ih => exact .shown he ih

theorem line (l : Line) : Along [l] [] :=
  .silent .nil

theorem not_unclosed (h : Along ls es) : ∀ e ∈ es, e.value.isUnclosed = false := by
  induction h with
  | nil => exact List.forall_mem_nil _
  | silent _ ih => exact ih
  | shown he _ ih => exact List.forall_mem_cons.mpr ⟨he.1, ih⟩

end Along

/-! ## Blocks -/

/-- The problems of a body are along the lines that it takes, and a body that is not closed takes
    all lines. -/
theorem Body.along_read {α : Type} {item : LineParser α}
    (hitem : ∀ {l e}, item.onLine l = .error e → l.Shows e) (ls : List Line) :
    (∃ above, ls = above ++ ((read item ls).closing.toList ++ (read item ls).rest) ∧
        Along above (read item ls).problems) ∧
      ((read item ls).closing = none → (read item ls).rest = [] ∧ ∀ l ∈ ls, l.NotEnd) := by
  fun_induction read item ls with
  | case1 => exact ⟨⟨[], rfl, .nil⟩, fun _ => ⟨rfl, List.forall_mem_nil _⟩⟩
  | case2 l below hempty ih =>
    obtain ⟨⟨above, hbelow, halong⟩, hopen⟩ := ih
    refine ⟨⟨l :: above, congrArg (l :: ·) hbelow, .silent halong⟩, fun h => ?_⟩
    obtain ⟨hrest, hnot⟩ := hopen h
    refine ⟨hrest, List.forall_mem_cons.mpr ⟨?_, hnot⟩⟩
    rw [Line.NotEnd, Line.isEmpty_iff.mp hempty]
    simp
  | case3 l below hempty hend =>
    refine ⟨⟨[], rfl, .nil⟩, fun h => ?_⟩
    cases h
  | case4 l below hempty hend body a ha ih =>
    obtain ⟨⟨above, hbelow, halong⟩, hopen⟩ := ih
    refine ⟨⟨l :: above, congrArg (l :: ·) hbelow, .silent halong⟩, fun h => ?_⟩
    obtain ⟨hrest, hnot⟩ := hopen h
    exact ⟨hrest, List.forall_mem_cons.mpr ⟨fun hl => hend (Line.first_value hl), hnot⟩⟩
  | case5 l below hempty hend body e he ih =>
    obtain ⟨⟨above, hbelow, halong⟩, hopen⟩ := ih
    refine ⟨⟨l :: above, congrArg (l :: ·) hbelow, .shown (hitem he) halong⟩, fun h => ?_⟩
    obtain ⟨hrest, hnot⟩ := hopen h
    exact ⟨hrest, List.forall_mem_cons.mpr ⟨fun hl => hend (Line.first_value hl), hnot⟩⟩

/-- The problems of a block that is not closed, which takes all lines below its header. -/
structure Unclosed (header : Line) (below : List Line) (problems : List SyntaxError) : Prop where
  not_end : ∀ l ∈ below, l.NotEnd
  reported : ∃ (es : List SyntaxError) (α : Type) (opened : Keyword) (name : Ident)
    (declaration : List (Located α) → Declaration),
    OpensBlock header.tokens opened name declaration ∧ Along below es ∧
      problems = es ++ [⟨.unclosedBlock opened name.value, name.span⟩]

namespace Outcome

/-- An outcome whose problems are along the lines that it takes, or that leaves a block open. -/
def IsAlong (l : Line) (below : List Line) (o : Outcome) : Prop :=
  (∃ above, l :: below = above ++ o.rest ∧ Along above o.problems) ∨
    Unclosed l below o.problems ∧ o.rest = []

variable {l : Line} {below : List Line}

theorem along_ofError {e : SyntaxError} (h : l.Shows e) : (ofError e below).IsAlong l below :=
  .inl ⟨[l], rfl, .shown h .nil⟩

theorem along_ofSingle {p : LineParser Declaration} (hp : Inner p)
    (hblames : ∀ P, Blames P (fun _ => True) p) : (ofSingle p l below).IsAlong l below := by
  unfold ofSingle
  split
  · exact .inl ⟨[l], rfl, .line l⟩
  · rename_i e he
    exact along_ofError (hp.shows hblames he)

theorem along_ofBlock {α : Type} {opened : Keyword} {name : Ident} {item : LineParser α}
    {declaration : List (Located α) → Declaration}
    (hopens : OpensBlock l.tokens opened name declaration) (hitem : Inner item)
    (hblames : ∀ P, Blames P (fun _ => True) item) :
    (ofBlock opened name item declaration l below).IsAlong l below := by
  obtain ⟨⟨above, hbelow, halong⟩, hopen⟩ :=
    Body.along_read (fun he => hitem.shows hblames he) below
  unfold ofBlock
  dsimp only
  split
  · rename_i hnone
    obtain ⟨hrest, hnot⟩ := hopen hnone
    rw [hnone, hrest, Option.toList_none, List.append_nil, List.append_nil] at hbelow
    rw [← hbelow] at halong
    exact .inr ⟨⟨hnot, _, α, opened, name, declaration, hopens, halong, rfl⟩, hrest⟩
  · rename_i closing hclosing
    rw [hclosing] at hbelow
    have hlines : l :: below = l :: above ++ [closing] ++ (Body.read item below).rest := by
      rw [List.append_assoc]
      exact congrArg (l :: ·) hbelow
    split
    · have hall := (Along.silent halong (l := l)).append (.line closing)
      rw [List.append_nil] at hall
      exact .inl ⟨_, hlines, hall⟩
    · rename_i e he
      have hshows := (inner_unexpected _ _).shows (fun _ => (blames_expect _ _).any) he
      exact .inl ⟨_, hlines, (Along.silent halong).append (.shown hshows .nil)⟩

theorem along_ofLine (l : Line) (below : List Line) : (ofLine l below).IsAlong l below := by
  unfold ofLine
  split
  · split
    · rename_i h
      have hheader := (parses_parseClassHeader.onLine_eq_ok.mp h).1
      exact along_ofBlock (.classBlock hheader) inner_parseMember fun _ => blames_parseMember
    · rename_i e he
      exact along_ofError (inner_parseClassHeader.shows (fun _ => blames_parseClassHeader.any) he)
  · split
    · rename_i h
      have hheader := (parses_parseModuleHeader.onLine_eq_ok.mp h).1
      exact along_ofBlock (.moduleBlock hheader) inner_parseMember fun _ => blames_parseMember
    · rename_i e he
      exact along_ofError (inner_parseModuleHeader.shows (fun _ => blames_parseModuleHeader.any) he)
  · split
    · rename_i h
      have hheader := (parses_parseLibHeader.onLine_eq_ok.mp h).1
      exact along_ofBlock (.libBlock hheader) inner_parseFunction fun _ => blames_parseFunction
    · rename_i e he
      exact along_ofError (inner_parseLibHeader.shows (fun _ => blames_parseLibHeader.any) he)
  · exact along_ofSingle inner_parsePrimitive fun _ => blames_parsePrimitive
  · exact along_ofSingle (inner_parseMethod.map _) fun _ => blames_parseMethod.map fun _ h => h
  · exact along_ofSingle (inner_parseInclusion.map _)
      fun _ => blames_parseInclusion.map fun _ _ => trivial
  · exact along_ofError (Line.shows_first rfl)
  · exact along_ofError (Line.shows_first rfl)

end Outcome

/-- The problems of a file are along its lines, but for those of a block that is not closed, which
    come last. -/
theorem Parsed.along_ofLines (ls : List Line) :
    Along ls (ofLines ls).problems ∨
      ∃ above header below es fs, ls = above ++ header :: below ∧ Along above es ∧
        Unclosed header below fs ∧ (ofLines ls).problems = es ++ fs := by
  fun_induction ofLines ls with
  | case1 => exact .inl .nil
  | case2 l below hempty ih =>
    obtain halong | ⟨above, header, rest, es, fs, rfl, halong, hopen, hproblems⟩ := ih
    · exact .inl (.silent halong)
    · exact .inr ⟨l :: above, header, rest, es, fs, rfl, .silent halong, hopen, hproblems⟩
  | case3 l below hempty outcome tail ih =>
    have hline : outcome.IsAlong l below := Outcome.along_ofLine l below
    obtain ⟨taken, htaken, halong⟩ | ⟨hopen, hrest⟩ := hline
    · rw [htaken]
      obtain hmore | ⟨above, header, rest, es, fs, hlines, hmore, hopen, hproblems⟩ := ih
      · exact .inl (halong.append hmore)
      · refine .inr ⟨taken ++ above, header, rest, outcome.problems ++ es, fs, ?_,
          halong.append hmore, hopen, ?_⟩
        · rw [hlines, List.append_assoc]
        · rw [List.append_assoc, ← hproblems]
    · refine .inr ⟨[], l, below, [], outcome.problems, rfl, .nil, hopen, ?_⟩
      have hnone : tail.problems = [] := by
        show (ofLines outcome.rest).problems = []
        rw [hrest, ofLines]
      rw [hnone, List.append_nil]
      rfl

/-! ## Numbers of lines -/

/-- Each line has the number of all its tokens, counted from the first line. -/
def Numbered (number : Span → Nat) : Nat → List Line → Prop
  | _, [] => True
  | n, l :: below => l.Over (fun s => number s = n) ∧ Numbered number (n + 1) below

section

variable {number : Span → Nat} {n : Nat} {ls ms : List Line} {es : List SyntaxError}

theorem Numbered.of_append (h : Numbered number n (ls ++ ms)) :
    Numbered number n ls ∧ Numbered number (n + ls.length) ms := by
  induction ls generalizing n with
  | nil => exact ⟨trivial, h⟩
  | cons l ls ih =>
    obtain ⟨hl, hrest⟩ := h
    obtain ⟨hls, hms⟩ := ih hrest
    rw [Nat.add_assoc, Nat.add_comm 1] at hms
    exact ⟨⟨hl, hls⟩, hms⟩

theorem Line.Shows.number_eq {l : Line} {e : SyntaxError} (h : l.Shows e)
    (hl : l.Over (fun s => number s = n)) : number e.span = n := by
  obtain ⟨t, ht, hspan⟩ := h.2
  rw [← hspan]
  obtain ht | ht := List.mem_append.mp ht
  · exact hl.tokens t ht
  · rw [List.mem_singleton.mp ht]
    exact hl.stop

/-- Problems along lines are on some of them, each further down than those before it. -/
theorem Along.rises (h : Along ls es) (hn : Numbered number n ls) :
    (es.map (number ·.span)).Pairwise (· < ·) ∧
      ∀ m ∈ es.map (number ·.span), n ≤ m ∧ m < n + ls.length := by
  induction h generalizing n with
  | nil => exact ⟨.nil, List.forall_mem_nil _⟩
  | @silent l ls es _ ih =>
    obtain ⟨hpairwise, hbounds⟩ := ih hn.2
    refine ⟨hpairwise, fun m hm => ?_⟩
    have hbound := hbounds m hm
    rw [List.length_cons]
    omega
  | @shown l ls e es he _ ih =>
    obtain ⟨hpairwise, hbounds⟩ := ih hn.2
    have hfirst : number e.span = n := he.number_eq hn.1
    rw [List.map_cons, hfirst]
    refine ⟨List.pairwise_cons.mpr ⟨fun m hm => ?_, hpairwise⟩,
      List.forall_mem_cons.mpr ⟨?_, fun m hm => ?_⟩⟩
    · have hbound := hbounds m hm
      omega
    · rw [List.length_cons]
      omega
    · have hbound := hbounds m hm
      rw [List.length_cons]
      omega

theorem Along.filter_eq (h : Along ls es) : es.filter (!·.value.isUnclosed) = es := by
  refine List.filter_eq_self.mpr fun e he => ?_
  rw [h.not_unclosed e he]
  rfl

/-- The header of a block that is not closed is between the lines of the problems before it and
    those of the problems in it. -/
theorem Unclosed.rises {above below : List Line} {header : Line} {fs : List SyntaxError}
    (halong : Along above es) (hopen : Unclosed header below fs)
    (hn : Numbered number n (above ++ header :: below)) :
    ((es ++ fs).map (number ·.span)).Nodup ∧
      (((es ++ fs).filter (!·.value.isUnclosed)).map (number ·.span)).Pairwise (· < ·) := by
  obtain ⟨-, gs, α, opened, name, declaration, hopens, hbelow, rfl⟩ := hopen
  obtain ⟨habove, hheader, hrest⟩ := hn.of_append
  obtain ⟨hlt, hbounds⟩ := halong.rises habove
  obtain ⟨hlt', hbounds'⟩ := hbelow.rises hrest
  have hname : number name.span = n + above.length := by
    obtain ⟨t, ht, hspan⟩ := hopens.name_mem
    rw [← hspan]
    exact hheader.tokens t ht
  have hsorted : ((es ++ gs).map (number ·.span)).Pairwise (· < ·) := by
    rw [List.map_append]
    refine List.pairwise_append.mpr ⟨hlt, hlt', fun a ha b hb => ?_⟩
    have hle := hbounds a ha
    have hle' := hbounds' b hb
    omega
  constructor
  · rw [← List.append_assoc, List.map_append]
    refine List.pairwise_append.mpr ⟨hsorted.imp Nat.ne_of_lt, List.pairwise_singleton _ _, ?_⟩
    intro a ha b hb
    rw [List.map_singleton, List.mem_singleton, hname] at hb
    rw [List.map_append, List.mem_append] at ha
    obtain ha | ha := ha
    · have hle := hbounds a ha
      omega
    · have hle' := hbounds' a ha
      omega
  · have hreported : [(⟨.unclosedBlock opened name.value, name.span⟩ : SyntaxError)].filter
        (!·.value.isUnclosed) = [] := rfl
    rw [← List.append_assoc, List.filter_append, List.filter_append, halong.filter_eq,
      hbelow.filter_eq, hreported, List.append_nil]
    exact hsorted

end

theorem Position.line_after (cs : List Char) : (Position.after cs).line = 1 + cs.count '\n' := by
  rw [Position.after_eq]

/-- A token is on the line that its place among the line feeds says. -/
theorem Tokenizes.numbered {pos : Nat} {cs : List Char} {ts : List Token} (h : Tokenizes pos cs ts)
    {before : List Char} (hpos : pos = utf8Length before) :
    Numbered (fun s => (Position.after (Position.charsBefore s.start (before ++ cs))).line)
      (1 + before.count '\n') (Line.ofTokens ts) := by
  have hline (before cs : List Char) :
      (Position.after (Position.charsBefore (utf8Length before) (before ++ cs))).line =
        1 + before.count '\n' := by
    rw [Position.charsBefore_utf8Length_append, Position.line_after]
  induction h generalizing before with
  | @finish pos =>
    subst hpos
    exact ⟨⟨List.forall_mem_nil _, hline before []⟩, trivial⟩
  | @blank pos c cs ts hblank _ ih =>
    have hmore := @ih (before ++ [c]) (by rw [hpos, utf8Length_append])
    have hc : [c].count '\n' = 0 := by
      refine List.count_eq_zero.mpr fun hmem => ?_
      rw [← List.mem_singleton.mp hmem] at hblank
      exact absurd hblank (by decide)
    rwa [List.append_assoc, List.singleton_append, List.count_append, hc] at hmore
  | @comment pos body rest ts hbody hrest _ ih =>
    have hmore := @ih (before ++ '#' :: body) (by rw [hpos, utf8Length_append])
    have hc : ('#' :: body).count '\n' = 0 := by
      refine List.count_eq_zero.mpr fun hmem => ?_
      simp [hbody] at hmem
    rwa [List.append_assoc, List.count_append, hc] at hmore
  | @token pos text rest kind ts hspells hstops _ ih =>
    have hmore := @ih (before ++ text) (by rw [hpos, utf8Length_append])
    rw [List.append_assoc] at hmore
    subst hpos
    have hfirst := hline before (text ++ rest)
    have heof : kind ≠ .eof := by
      rintro rfl
      cases hspells
    unfold Line.ofTokens
    by_cases hnewline : kind = .newline
    · subst hnewline
      have hc : (before ++ text).count '\n' = before.count '\n' + 1 := by
        cases hspells
        rw [List.count_append]
        rfl
      rw [hc, ← Nat.add_assoc] at hmore
      rw [Line.split_newline rfl]
      exact ⟨⟨List.forall_mem_nil _, hfirst⟩, hmore⟩
    · have hc : text.count '\n' = 0 := by
        refine List.count_eq_zero.mpr fun hmem => hnewline ?_
        obtain rfl := hspells.eq_of_newline_mem hmem
        have hhead : ∀ c ∈ (['\n'] ++ []).head?, c = '\n' := by simp
        exact hspells.eq_newline_of_head? hhead
      rw [List.count_append, hc] at hmore
      rw [Line.split_inner heof hnewline]
      exact ⟨⟨List.forall_mem_cons.mpr ⟨hfirst, hmore.1.tokens⟩, hmore.1.stop⟩, hmore.2⟩

namespace Program

/-- The header of a block that has no `end` below it. -/
def OpenAt (ls : List Line) (opened : Keyword) (name : Ident) : Prop :=
  ∃ above header below, ls = above ++ header :: below ∧ (∀ l ∈ below, l.NotEnd) ∧
    ∃ (α : Type) (declaration : List (Located α) → Declaration),
      OpensBlock header.tokens opened name declaration

/-- No two problems of a text are on one line. A block that is not closed is reported last, at the
    name in its header; apart from it the problems come in the order of their lines. -/
theorem ofTokens_lines {source : String} {ts : List Token} {es : List SyntaxError}
    (hlex : lex source = .ok ts) (h : ofTokens ts = .error es) :
    let line (e : SyntaxError) := (Position.ofOffset source e.span.start).line
    (es.map line).Nodup ∧
      ((es.filter (!·.value.isUnclosed)).map line).Pairwise (· < ·) ∧
      ∀ opened name span, ⟨.unclosedBlock opened name, span⟩ ∈ es →
        es.getLast? = some ⟨.unclosedBlock opened name, span⟩ ∧
          OpenAt (Line.ofTokens ts) opened ⟨name, span⟩ := by
  intro line
  have hproblems : (Parsed.ofLines (Line.ofTokens ts)).problems = es := by
    rw [← Parsed.problemsOf_toExcept]
    exact congrArg problemsOf h
  have hstart : 0 = utf8Length [] := rfl
  have hnumbered : Numbered (fun s => (Position.ofOffset source s.start).line) 1
      (Line.ofTokens ts) := (lex_eq_ok_iff.mp hlex).numbered hstart
  have hfiles := Parsed.along_ofLines (Line.ofTokens ts)
  rw [hproblems] at hfiles
  obtain halong | ⟨above, header, below, front, fs, hlines, halong, hopen, rfl⟩ := hfiles
  · obtain ⟨hlt, -⟩ := halong.rises hnumbered
    refine ⟨hlt.imp Nat.ne_of_lt, ?_, fun opened name span hmem => ?_⟩
    · rwa [halong.filter_eq]
    · have hinner := halong.not_unclosed _ hmem
      cases hinner
  · rw [hlines] at hnumbered
    obtain ⟨hnodup, hlt⟩ := Unclosed.rises halong hopen hnumbered
    refine ⟨hnodup, hlt, fun opened name span hmem => ?_⟩
    obtain ⟨hnot, gs, α, opened', name', declaration, hopens, hbelow, rfl⟩ := hopen
    rw [← List.append_assoc, List.mem_append, List.mem_singleton] at hmem
    obtain hmem | heq := hmem
    · have hinner := (halong.append hbelow).not_unclosed _ hmem
      cases hinner
    · obtain ⟨hvalue, rfl⟩ := Located.mk.inj heq
      obtain ⟨rfl, rfl⟩ := SyntaxProblem.unclosedBlock.inj hvalue
      refine ⟨?_, above, header, below, hlines, hnot, α, declaration, hopens⟩
      rw [← List.append_assoc, List.getLast?_concat]

/-- A class that is not closed on the second line, with two problems below its header and one
    above. -/
theorem ofTokens_lines_class :
    let source := "def 1\nclass A\nx\ninclude a"
    let line (e : SyntaxError) := (Position.ofOffset source e.span.start).line
    let unclosed : SyntaxError := ⟨.unclosedBlock .classBlock "A", ⟨12, 13⟩⟩
    ∃ ts es, lex source = .ok ts ∧ ofTokens ts = .error es ∧ unclosed ∈ es ∧
      es.map line = [1, 3, 4, 2] ∧ (es.map line).Nodup ∧
      ((es.filter (!·.value.isUnclosed)).map line).Pairwise (· < ·) ∧
      es.getLast? = some unclosed ∧
      OpenAt (Line.ofTokens ts) .classBlock ⟨"A", ⟨12, 13⟩⟩ := by
  intro source line unclosed
  have hproblems : (Lexed.ofSource source).problems = [] := by decide +kernel
  have hlex : lex source = .ok (Lexed.ofSource source).tokens := lex_of_problems hproblems
  have hparsed : (Parsed.ofLines (Line.ofTokens (Lexed.ofSource source).tokens)).problems =
      [⟨.unexpected .methodName (.int 1), ⟨4, 5⟩⟩, ⟨.unexpected .member (.ident "x"), ⟨14, 15⟩⟩,
        ⟨.lowercaseTypeName "a", ⟨24, 25⟩⟩, unclosed] := by decide +kernel
  have herror : ofTokens (Lexed.ofSource source).tokens = .error _ :=
    Parsed.toExcept_of_ne_nil (by rw [hparsed]; simp)
  rw [hparsed] at herror
  obtain ⟨hnodup, hlt, hlast⟩ := ofTokens_lines hlex herror
  have hmem : unclosed ∈ [⟨.unexpected .methodName (.int 1), ⟨4, 5⟩⟩,
      ⟨.unexpected .member (.ident "x"), ⟨14, 15⟩⟩, ⟨.lowercaseTypeName "a", ⟨24, 25⟩⟩,
      unclosed] := by simp
  obtain ⟨hend, hopen⟩ := hlast _ _ _ hmem
  exact ⟨_, _, hlex, herror, hmem, by decide +kernel, hnodup, hlt, hend, hopen⟩

end Program

end DeclLang
