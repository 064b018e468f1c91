/-!
# Spans: stretches of a source text, counted in bytes
-/

namespace DeclLang

/-- The bytes from `start` up to, but not including, `stop`. -/
structure Span where
  start : Nat
  stop : Nat
deriving DecidableEq, Repr

namespace Span

/-- The empty span at an offset. -/
def point (offset : Nat) : Span := ⟨offset, offset⟩

/-- The least span that covers both. -/
def merge (a b : Span) : Span :=
  ⟨min a.start b.start, max a.stop b.stop⟩

/-- Bytes covered; none when the span ends before it starts. -/
def length (s : Span) : Nat :=
  s.stop - s.start

def isEmpty (s : Span) : Bool :=
  s.length == 0

theorem isEmpty_iff {s : Span} : s.isEmpty = true ↔ s.stop ≤ s.start := by
  simp [isEmpty, length, Nat.sub_eq_zero_iff_le]

/-- The same stretch of a text before which `offset` bytes were added. -/
def shift (offset : Nat) (s : Span) : Span :=
  ⟨s.start + offset, s.stop + offset⟩

@[simp] theorem shift_zero (s : Span) : s.shift 0 = s := rfl

@[simp] theorem merge_self (s : Span) : s.merge s = s := by simp [merge]

theorem merge_shift (offset : Nat) (a b : Span) :
    (a.shift offset).merge (b.shift offset) = (a.merge b).shift offset := by
  simp [merge, shift, Nat.add_min_add_right, Nat.add_max_add_right]

@[simp] theorem length_shift (offset : Nat) (s : Span) : (s.shift offset).length = s.length := by
  simp [length, shift, Nat.add_sub_add_right]

end Span

/-- A value and where it stands in the source. -/
structure Located (α : Type) where
  value : α
  span : Span
deriving DecidableEq, Repr

namespace Located

def map {α β : Type} (f : α → β) (x : Located α) : Located β :=
  ⟨f x.value, x.span⟩

def shift {α : Type} (offset : Nat) (x : Located α) : Located α :=
  ⟨x.value, x.span.shift offset⟩

end Located

end DeclLang
