import DeclLang.Proofs.Syntax.Concatenation
import DeclLang.Proofs.Token.Returns
import Mathlib.Data.List.Forall2

/-!
# Line endings: a program does not say how its lines end

A text whose lines end in a carriage return and a line feed is read as one whose lines end in a line
feed alone. It gives the same tokens, and the same program or the same problems on the same lines;
only the offsets differ, and the further down the more (`ofSource_returned`).
-/

namespace DeclLang

/-- A program without the places where its parts stand. -/
def Program.unplaced (p : Program) : Program :=
  p.mapSpans fun _ => .point 0

/-- Two problems of two texts that a reader finds alike: on the same lines and in the same words. -/
structure Diagnostic.Alike (source source' : String) (d d' : Diagnostic) : Prop where
  stage : d'.stage = d.stage
  message : d'.message = d.message
  hints : d'.hints = d.hints
  line : (Position.ofOffset source' d'.span.start).line =
    (Position.ofOffset source d.span.start).line

/-- Offsets that differ are moved apart. -/
theorem returns_stop_inj (cs : List Char) {a b : Nat}
    (h : a + feedsBefore cs a = b + feedsBefore cs b) : a = b := by
  rcases Nat.lt_trichotomy a b with hlt | heq | hlt
  · have hmono := feedsBefore_mono cs (Nat.le_of_lt hlt)
    omega
  · exact heq
  · have hmono := feedsBefore_mono cs (Nat.le_of_lt hlt)
    omega

/-- A `=` touches what stands before it, however lines end. -/
theorem steady_returns {source : String} {tokens : List Token} (h : lex source = .ok tokens) :
    ∀ t ∈ tokens, Steady (Motion.returns source.toList).apply t := by
  intro t ht heq a
  obtain ⟨text, ⟨before, after, hchars, hstart, -⟩, hspells⟩ :=
    (laidOut_of_lex h).spelled [] rfl t ht (by rw [heq]; simp)
  rw [heq] at hspells
  have htext : text = ['='] := by
    cases hspells
    rfl
  have hinner : feedsBefore source.toList (t.span.start + 1) =
      feedsBefore source.toList t.span.start := by
    have hmark : feedsBefore ('=' :: after) 1 = 0 := by
      have hbehind : 1 - Char.utf8Size '=' = 0 := by decide
      rw [feedsBefore_cons _ _ Nat.one_ne_zero, if_neg (by decide), hbehind, feedsBefore_zero]
    have hbefore := feedsBefore_append before ('=' :: after) 0
    rw [Nat.add_zero, feedsBefore_zero] at hbefore
    rw [List.nil_append, htext, List.singleton_append] at hchars
    rw [hchars, hstart, feedsBefore_append, hmark, hbefore]
  show t.span.start + feedsBefore source.toList (t.span.start + 1) =
    a.stop + feedsBefore source.toList a.stop ↔ _
  rw [hinner]
  exact ⟨returns_stop_inj source.toList, fun htouches => by rw [htouches]⟩

theorem Program.ofSource_of_lex {source : String} {tokens : List Token}
    (h : lex source = .ok tokens) :
    ofSource source = (ofTokens tokens).mapError (·.map .ofSyntax) := by
  unfold ofSource
  rw [h]
  rfl

/-- A text that gives tokens gives the same ones when every line feed gets a carriage return before
    it, and it is parsed to the same program or refused for the same reasons on the same lines. -/
theorem ofSource_returned {source : String} {tokens : List Token} (h : lex source = .ok tokens) :
    (∃ tokens', lex (returned source) = .ok tokens' ∧
      tokens'.map (·.value) = tokens.map (·.value)) ∧
    (∀ p, Program.ofSource source = .ok p →
      ∃ p', Program.ofSource (returned source) = .ok p' ∧ p'.unplaced = p.unplaced) ∧
    ∀ ds, Program.ofSource source = .error ds →
      ∃ ds', Program.ofSource (returned source) = .error ds' ∧
        List.Forall₂ (Diagnostic.Alike source (returned source)) ds ds' := by
  have hlex := lex_returned h
  have heof : ∃ t ∈ tokens, t.value = .eof := by
    obtain ⟨body, rfl, -⟩ := (laidOut_of_lex h).ends
    exact ⟨_, List.mem_append_right _ (List.mem_singleton_self _), rfl⟩
  have hparse := Program.ofTokens_mapSpans (Motion.returns source.toList) heof (steady_returns h)
  rw [Program.ofSource_of_lex h, Program.ofSource_of_lex hlex, hparse]
  refine ⟨⟨_, hlex, ?_⟩, fun p hp => ?_, fun ds hds => ?_⟩
  · rw [List.map_map]
    rfl
  · cases hprogram : Program.ofTokens tokens with
    | error es =>
      rw [hprogram] at hp
      cases hp
    | ok q =>
      rw [hprogram] at hp
      obtain rfl := Except.ok.inj hp
      exact ⟨_, rfl, Program.mapSpans_mapSpans _ _ q⟩
  · cases hprogram : Program.ofTokens tokens with
    | ok q =>
      rw [hprogram] at hds
      cases hds
    | error es =>
      rw [hprogram] at hds
      obtain rfl := Except.error.inj hds
      refine ⟨_, rfl, ?_⟩
      dsimp only
      rw [List.map_map, List.forall₂_map_left_iff, List.forall₂_map_right_iff, List.forall₂_same]
      exact fun e _ => ⟨rfl, rfl, rfl, line_ofOffset_returned source e.span⟩

/-- A setter below a comment, and a line that ends too early. -/
theorem ofSource_returned_setter :
    let accepted := "class A # a\n  def x=\nend\n"
    let p : Program := [⟨.classBlock ⟨"A", ⟨6, 7⟩⟩ none
      [⟨.method ⟨⟨"x=", ⟨18, 20⟩⟩, [], none⟩, ⟨14, 21⟩⟩], ⟨0, 25⟩⟩]
    let refused := "# a\ndef\n"
    let d : Diagnostic := ⟨.syntactic, "expected a method name, found end of line", ⟨7, 8⟩, []⟩
    returned accepted = "class A # a\r\n  def x=\r\nend\r\n" ∧
      Program.ofSource accepted = .ok p ∧
      (∃ p', Program.ofSource (returned accepted) = .ok p' ∧ p'.unplaced = p.unplaced) ∧
      Program.ofSource refused = .error [d] ∧
      ∃ d', Program.ofSource (returned refused) = .error [d'] ∧
        Diagnostic.Alike refused (returned refused) d d' := by
  intro accepted p refused d
  have haccepted : Program.ofSource accepted = .ok p := by
    have hparsed : Parsed.ofLines (Line.ofTokens (Lexed.ofSource accepted).tokens) = ⟨p, []⟩ := by
      decide +kernel
    rw [Program.ofSource_of_parsed _ (by decide +kernel) hparsed]
    rfl
  have hrefused : Program.ofSource refused = .error [d] := by
    have hparsed : Parsed.ofLines (Line.ofTokens (Lexed.ofSource refused).tokens) =
        ⟨[], [⟨.unexpected .methodName .newline, ⟨7, 8⟩⟩]⟩ := by decide +kernel
    rw [Program.ofSource_of_parsed _ (by decide +kernel) hparsed]
    decide +kernel
  obtain ⟨tokens, hlex, -⟩ := Program.ofSource_eq_ok haccepted
  have hlex' : lex refused = .ok (Lexed.ofSource refused).tokens := by decide +kernel
  obtain ⟨ds', hds', halike⟩ := (ofSource_returned hlex').2.2 _ hrefused
  refine ⟨by decide +kernel, haccepted, (ofSource_returned hlex).2.1 _ haccepted, hrefused, ?_⟩
  cases halike with
  | cons hd hnil =>
    cases hnil
    exact ⟨_, hds', hd⟩

end DeclLang
