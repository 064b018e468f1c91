import DeclLang.Proofs.Token.Slices

/-!
# Printing: texts that give the same tokens wherever they stand

A text can be written next to others when something is between them that belongs to no other token:
a blank or a punctuation mark breaks off whatever is before it (`Breaks.stops`). `Prints` says which
tokens such a text gives, and is proved for a text by proving it for its parts.
-/

namespace DeclLang

/-- A text that ends every token before it: it is empty, or starts with a blank or a mark. -/
def Breaks (rest : List Char) : Prop :=
  ∀ c ∈ rest.head?, c ∈ ' ' :: Punctuation.all.map (·.char)

theorem breaks_nil : Breaks [] := by
  intro c hc
  cases hc

theorem breaks_blank (rest : List Char) : Breaks (' ' :: rest) := by
  intro c hc
  obtain rfl := Option.some.inj hc
  exact List.mem_cons_self

theorem breaks_mark (p : Punctuation) (rest : List Char) : Breaks (p.char :: rest) := by
  intro c hc
  obtain rfl := Option.some.inj hc
  exact List.mem_cons_of_mem _ (List.mem_map_of_mem p.mem_all)

theorem Breaks.append {text rest : List Char} (h : Breaks text) (hrest : Breaks rest) :
    Breaks (text ++ rest) := by
  cases text with
  | nil => exact hrest
  | cons c cs => exact h

/-- What breaks a text off goes on with no token. -/
theorem Breaks.stops {rest : List Char} (h : Breaks rest) (kind : TokenKind) : Stops kind rest := by
  have hclasses : ∀ c ∈ ' ' :: Punctuation.all.map (·.char), ¬ isIdentRest c = true ∧
      ¬ isOperatorChar c = true ∧ ¬ isIntegerRest c = true ∧ ¬ (c = '?' ∨ c = '!') ∧ c ≠ '=' :=
    forall_mem_of_all (by decide)
  have hword : EndsWord rest := by
    refine ⟨fun c hc => (hclasses c (h c hc)).1, ?_⟩
    cases hsuffix : Lexeme.suffix? rest with
    | none => rfl
    | some x =>
      obtain ⟨s, after⟩ := x
      obtain ⟨hrest, hmark, -⟩ := Lexeme.suffix?_eq_some_iff.mp hsuffix
      have hs : s ∈ rest.head? := by rw [hrest]; rfl
      exact absurd hmark (hclasses s (h s hs)).2.2.2.1
  cases kind with
  | keyword => exact hword
  | ident name =>
    by_cases hname : IsUnsuffixed name
    · exact .inl ⟨hname, hword⟩
    · exact .inr ⟨hname, fun heq => (hclasses '=' (h '=' heq)).2.2.2.2 rfl⟩
  | operator => exact fun c hc => (hclasses c (h c hc)).2.1
  | int => exact fun c hc => (hclasses c (h c hc)).2.2.1
  | _ => trivial

/-- Wherever the text stands, if what follows breaks it off, it gives tokens with a property before
    those of what follows. -/
def Prints (text : List Char) (Q : List Token → Prop) : Prop :=
  ∀ (pos : Nat) (rest : List Char) (ts : List Token), Breaks rest →
    Tokenizes (pos + utf8Length text) rest ts →
    ∃ us, Q us ∧ Tokenizes pos (text ++ rest) (us ++ ts)

theorem Punctuation.spells (p : Punctuation) : Spells [p.char] (.punctuation p) := by
  have hspells := Spells.punctuation p
  rwa [spelling, String.toList_singleton] at hspells

theorem add_utf8Length_cons (pos : Nat) (c : Char) (text : List Char) :
    pos + utf8Length (c :: text) = pos + utf8Length [c] + utf8Length text := by
  rw [Nat.add_assoc, ← utf8Length_append, List.singleton_append]

namespace Prints

variable {text more : List Char} {P Q S : List Token → Prop}

theorem nil (hQ : Q []) : Prints [] Q :=
  fun _ _ _ _ hrest => ⟨[], hQ, hrest⟩

theorem token {kind : TokenKind} (h : Spells text kind) (hQ : ∀ span, Q [⟨kind, span⟩]) :
    Prints text Q :=
  fun _ _ _ hbreaks hrest => ⟨_, hQ _, .token h (hbreaks.stops kind) hrest⟩

theorem blank (h : Prints text Q) : Prints (' ' :: text) Q := by
  intro pos rest ts hbreaks hrest
  rw [add_utf8Length_cons] at hrest
  obtain ⟨us, hus, htext⟩ := h _ _ _ hbreaks hrest
  exact ⟨us, hus, .blank rfl htext⟩

/-- A mark ends by itself. -/
theorem mark (p : Punctuation) (h : Prints text P)
    (hQ : ∀ us span, P us → Q (⟨.punctuation p, span⟩ :: us)) : Prints (p.char :: text) Q := by
  intro pos rest ts hbreaks hrest
  rw [add_utf8Length_cons] at hrest
  obtain ⟨us, hus, htext⟩ := h _ _ _ hbreaks hrest
  have hstops : Stops (.punctuation p) (text ++ rest) := trivial
  have htoken := Tokenizes.token p.spells hstops htext
  exact ⟨_, hQ us _ hus, htoken⟩

theorem append (h : Prints text P) (h' : Prints more Q) (hmore : Breaks more)
    (hS : ∀ us vs, P us → Q vs → S (us ++ vs)) : Prints (text ++ more) S := by
  intro pos rest ts hbreaks hrest
  rw [utf8Length_append, ← Nat.add_assoc] at hrest
  obtain ⟨vs, hvs, hmid⟩ := h' _ _ _ hbreaks hrest
  obtain ⟨us, hus, hall⟩ := h _ _ _ (hmore.append hbreaks) hmid
  refine ⟨us ++ vs, hS us vs hus hvs, ?_⟩
  rwa [List.append_assoc, List.append_assoc]

/-- A text between two marks. -/
theorem enclosed (opening closing : Punctuation) (h : Prints text P)
    (hQ : ∀ us span span', P us →
      Q (⟨.punctuation opening, span⟩ :: us ++ [⟨.punctuation closing, span'⟩])) :
    Prints (opening.char :: text ++ [closing.char]) Q := by
  have hclosing : Prints [closing.char] fun us => ∃ span, us = [⟨.punctuation closing, span⟩] :=
    token closing.spells fun span => ⟨span, rfl⟩
  have hinner : Prints (text ++ [closing.char]) fun us =>
      ∀ span, Q (⟨.punctuation opening, span⟩ :: us) := by
    refine append h hclosing (breaks_mark closing []) fun us vs hus hvs span => ?_
    obtain ⟨span', rfl⟩ := hvs
    exact hQ us span span' hus
  exact mark opening hinner fun us span hus => hus span

theorem mono (h : Prints text P) (hPQ : ∀ us, P us → Q us) : Prints text Q := by
  intro pos rest ts hbreaks hrest
  obtain ⟨us, hus, htext⟩ := h _ _ _ hbreaks hrest
  exact ⟨us, hPQ us hus, htext⟩

/-- What is printed is a whole text. -/
theorem tokenizes (h : Prints text Q) :
    ∃ us, Q us ∧ Tokenizes 0 text (us ++ [⟨.eof, .point (0 + utf8Length text)⟩]) := by
  obtain ⟨us, hus, htext⟩ := h _ _ _ breaks_nil (@Tokenizes.finish (0 + utf8Length text))
  rw [List.append_nil] at htext
  exact ⟨us, hus, htext⟩

end Prints

end DeclLang
