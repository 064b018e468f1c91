import DeclLang.Proofs.Collection.Refusals
import Mathlib.Order.WellFoundedSet

/-!
# Leftovers: which superclass is reported as unknown

When no class that waits can be declared any more, the superclass of the first of them is reported
as unknown. It is not in the registry, but it may be a class of the program that is left over as
well. Without a cycle, the way up from it leads to a superclass that is neither in the registry nor
in the program (`declareTypes_unknownType`).
-/

namespace DeclLang

namespace Program

variable {p : Program}

/-- A type of the program has a name. -/
def Declares (p : Program) (n : String) : Prop :=
  ∃ h ∈ p.headers, h.name = n

/-- A class of the program states a superclass, both by name. -/
def States (p : Program) (n m : String) : Prop :=
  ∃ c ∈ p.classes, c.name.value = n ∧ ∃ superclass ∈ c.superclass, superclass.value = m

/-- No class of the program is above itself. -/
def Acyclic (p : Program) : Prop :=
  ∀ n, ¬ Relation.TransGen p.States n n

/-- Numbers that rise from every class to its superclass exclude cycles. -/
theorem acyclic_of_rank (rank : String → Nat) (h : ∀ n m, p.States n m → rank n < rank m) :
    p.Acyclic := by
  intro n hcycle
  have hrises : Relation.TransGen (· < ·) (rank n) (rank n) := hcycle.lift rank h
  rw [Relation.transGen_eq_self] at hrises
  exact Nat.lt_irrefl _ hrises

/-- Without a cycle, going up the classes of a program comes to an end. -/
theorem Acyclic.wellFoundedOn (h : p.Acyclic) :
    {n | ∃ c ∈ p.classes, c.name.value = n}.WellFoundedOn
      fun n m => Relation.TransGen p.States m n := by
  have hfinite : {n | ∃ c ∈ p.classes, c.name.value = n}.Finite :=
    (p.classes.map (·.name.value)).finite_toSet.subset fun n hn => by
      obtain ⟨c, hc, rfl⟩ := hn
      exact List.mem_map.mpr ⟨c, hc, rfl⟩
  have : IsStrictOrder String fun n m => Relation.TransGen p.States m n :=
    { irrefl := h, trans := fun _ _ _ hnm hmk => hmk.trans hnm }
  exact hfinite.wellFoundedOn

end Program

namespace Collect

open Registry Relation

variable {r : Registry} {p : Program} {c : Collection} {n : String} {span : Span}

/-- What a class that waits for its superclass states. -/
theorem stated_of_waits {k : ClassHeader} (h : k.isReady c.registry = false) :
    ∃ superclass, k.superclass = some superclass ∧
      c.registry.lookup? superclass.value = none := by
  unfold ClassHeader.isReady at h
  split at h
  · rename_i superclass hstates
    exact ⟨superclass, hstates, by simpa using h⟩
  · cases h

section

variable {done : List TypeHeader} {left : List ClassHeader}

/-- A type of the program that is not registered is a class that is left over. -/
theorem Underway.exists_left (hr : Regular r) (h : Underway r p done (left.map .ofClass) c)
    (hn : p.Declares n) (hfree : c.registry.lookup? n = none) :
    ∃ k ∈ left, k.name.value = n := by
  obtain ⟨head, hhead, rfl⟩ := hn
  obtain hdone | htodo := List.mem_append.mp (h.perm.mem_iff.mpr hhead)
  · have hthere := h.there hr hdone
    rw [hfree] at hthere
    cases hthere
  · obtain ⟨k, hk, rfl⟩ := List.mem_map.mp htodo
    exact ⟨k, hk, rfl⟩

/-- Above a name that is not registered there is one that does not belong to the program either. -/
theorem Underway.exists_unknown (hr : Regular r) (h : Underway r p done (left.map .ofClass) c)
    (hwaits : ∀ k ∈ left, k.isReady c.registry = false) (hp : p.Acyclic)
    (hfree : c.registry.lookup? n = none) :
    ∃ m, ReflTransGen p.States n m ∧ c.registry.lookup? m = none ∧ ¬ p.Declares m := by
  by_cases hn : p.Declares n
  case neg => exact ⟨n, .refl, hfree, hn⟩
  have hclass : ∀ {m}, p.Declares m → c.registry.lookup? m = none →
      ∃ k ∈ p.classes, k.name.value = m ∧ k.isReady c.registry = false := by
    intro m hm hmfree
    obtain ⟨k, hk, hname⟩ := h.exists_left hr hm hmfree
    exact ⟨k, Program.mem_classes.mpr (h.mem_todo (List.mem_map_of_mem hk)), hname, hwaits k hk⟩
  -- On the way up from the name: a class that is left waits for a name that is not registered.
  obtain ⟨k, hk, hname, -⟩ := hclass hn hfree
  refine hp.wellFoundedOn.induction (P := fun n => c.registry.lookup? n = none → p.Declares n →
    ∃ m, ReflTransGen p.States n m ∧ c.registry.lookup? m = none ∧ ¬ p.Declares m)
    ⟨k, hk, hname⟩ (fun n _ ih hfree hn => ?_) hfree hn
  obtain ⟨k, hk, hname, hready⟩ := hclass hn hfree
  obtain ⟨superclass, hstates, hnone⟩ := stated_of_waits hready
  have hstep : p.States n superclass.value := ⟨k, hk, hname, superclass, hstates, rfl⟩
  by_cases hsuper : p.Declares superclass.value
  · obtain ⟨k', hk', hname', -⟩ := hclass hsuper hnone
    obtain ⟨m, hway, hm⟩ := ih _ ⟨k', hk', hname'⟩ (.single hstep) hnone hsuper
    exact ⟨m, .head hstep hway, hm⟩
  · exact ⟨superclass.value, .single hstep, hnone, hsuper⟩

end

/-- The name that the declaration pass reports as unknown is never registered. It is the superclass
    of a primitive, or that of the first of the classes that are left over, all of which wait. Then
    it belongs to the program exactly if it is the name of one of these classes, and if the program
    has no cycle, it is below a superclass, or is one itself, that nothing has the name of. -/
theorem declareTypes_unknownType (hreach : Reachable r)
    (h : outcome (declareTypes p) ⟨r, 0⟩ = (.error ⟨.unknownType n, span⟩, c)) :
    r.lookup? n = none ∧ ∃ done todo, Underway r p done todo c ∧
      ((∃ name repr size, .ofPrimitive name ⟨n, span⟩ repr size ∈ todo) ∨
        ∃ head rest, todo = (head :: rest).map .ofClass ∧ (head :: rest).Sublist p.classes ∧
          head.superclass = some ⟨n, span⟩ ∧
          (∀ k ∈ head :: rest, k.isReady c.registry = false) ∧
          (p.Declares n ↔ ∃ k ∈ head :: rest, k.name.value = n) ∧
          (p.Acyclic →
            ∃ m, ReflTransGen p.States n m ∧ r.lookup? m = none ∧ ¬ p.Declares m)) := by
  have hr := hreach.regular
  have hbefore {done todo : List TypeHeader} {m : String} (hunderway : Underway r p done todo c)
      (hm : c.registry.lookup? m = none) : r.lookup? m = none := by
    obtain ⟨count, hdeclared⟩ := hunderway.declared hr
    exact lookup?_eq_none_of_retains hdeclared.retains hm
  cases stops_of_declareTypes hr h with
  | refused hunderway hmem _ hrefusal =>
    cases hrefusal with
    | unknownSuperclass hnone =>
      exact ⟨hbefore hunderway hnone, _, _, hunderway, .inl ⟨_, _, _, hmem⟩⟩
  | @stuck done head rest hunderway hsublist hwaits heq =>
    obtain ⟨superclass, hstates, hnone⟩ := stated_of_waits (hwaits head List.mem_cons_self)
    rw [ClassHeader.blamed, hstates, Option.getD_some] at heq
    obtain ⟨hn, rfl⟩ := Located.mk.inj heq
    obtain rfl := DeclarationError.unknownType.inj hn
    refine ⟨hbefore hunderway hnone, _, _, hunderway,
      .inr ⟨head, rest, rfl, hsublist, hstates, hwaits, ⟨fun hn => ?_, ?_⟩, fun hp => ?_⟩⟩
    · exact hunderway.exists_left hr hn hnone
    · rintro ⟨k, hk, hname⟩
      exact ⟨_, hunderway.mem_todo (List.mem_map_of_mem hk), hname⟩
    · obtain ⟨m, hway, hm, hnot⟩ := hunderway.exists_unknown hr hwaits hp hnone
      exact ⟨m, hway, hbefore hunderway hm, hnot⟩

/-- Classes that all wait are left over. -/
theorem declareReady_of_waits {cs : List ClassHeader}
    (h : ∀ k ∈ cs, k.isReady c.registry = false) :
    outcome (declareReady cs) c = (.ok cs, c) := by
  induction cs with
  | nil => rfl
  | cons k cs ih =>
    obtain ⟨hk, hcs⟩ := List.forall_mem_cons.mp h
    rw [declareReady, outcome_bind, outcome_registry]
    dsimp only
    rw [if_neg (by simp [hk]), outcome_bind, ih hcs]
    rfl

/-- Of classes that all wait, the first one is reported. -/
theorem declareWaiting_of_waits {head : ClassHeader} {rest : List ClassHeader}
    (h : ∀ k ∈ head :: rest, k.isReady c.registry = false) :
    outcome (declareWaiting (head :: rest)) c =
      (.error ⟨.unknownType head.blamed.value, head.blamed.span⟩, c) := by
  rw [declareWaiting, outcome_bind, declareReady_of_waits h]
  dsimp only
  rw [dif_neg (Nat.lt_irrefl _)]
  rfl

/-- A class below one whose superclass is missing, as in `class A < B` and `class B < Missing`. -/
def belowMissing : Program :=
  [⟨.classBlock ⟨"A", ⟨6, 7⟩⟩ (some ⟨"B", ⟨10, 11⟩⟩) [], ⟨0, 15⟩⟩,
    ⟨.classBlock ⟨"B", ⟨22, 23⟩⟩ (some ⟨"Missing", ⟨26, 33⟩⟩) [], ⟨16, 37⟩⟩]

theorem declareTypes_belowMissing :
    outcome (declareTypes belowMissing) ⟨initial .host64, 0⟩ =
      (.error ⟨.unknownType "B", ⟨10, 11⟩⟩, ⟨initial .host64, 0⟩) := by
  have hwaits : ∀ k ∈ belowMissing.classes, k.isReady (initial .host64) = false := by
    decide +kernel
  have hplaced : Placed belowMissing.headers ⟨initial .host64, 0⟩ belowMissing.classes
      ⟨initial .host64, 0⟩ :=
    .waits (hwaits _ List.mem_cons_self)
      (.waits (hwaits _ (List.mem_cons_of_mem _ List.mem_cons_self)) .nil)
  rw [declareTypes, outcome_bind, declareInOrder_eq_ok.mpr hplaced]
  exact declareWaiting_of_waits hwaits

theorem acyclic_belowMissing : belowMissing.Acyclic := by
  refine Program.acyclic_of_rank (fun n => if n = "A" then 0 else if n = "B" then 1 else 2)
    fun n m h => ?_
  obtain ⟨k, hk, rfl, superclass, hstates, rfl⟩ := h
  have hrises : ∀ k ∈ belowMissing.classes, ∀ superclass ∈ k.superclass,
      (if k.name.value = "A" then 0 else if k.name.value = "B" then 1 else 2) <
        (if superclass.value = "A" then 0 else if superclass.value = "B" then 1 else 2) := by
    decide +kernel
  exact hrises k hk superclass hstates

/-- `B` is reported although the program declares it; what nothing has the name of is above it. -/
theorem declareTypes_unknownType_belowMissing :
    let r := initial .host64
    Reachable r ∧
      outcome (declareTypes belowMissing) ⟨r, 0⟩ =
        (.error ⟨.unknownType "B", ⟨10, 11⟩⟩, ⟨r, 0⟩) ∧
      belowMissing.Acyclic ∧ belowMissing.Declares "B" ∧
      ∃ m, ReflTransGen belowMissing.States "B" m ∧ r.lookup? m = none ∧
        ¬ belowMissing.Declares m := by
  intro r
  have hreach : Reachable r := .initial (ofTarget_eq_ok_iff.mpr ⟨by decide, rfl⟩)
  obtain ⟨-, done, todo, hunderway, ⟨name, repr, size, hmem⟩ | hleft⟩ :=
    declareTypes_unknownType hreach declareTypes_belowMissing
  · have hprimitive := hunderway.mem_todo hmem
    simp [belowMissing, Program.headers, Declaration.header?] at hprimitive
  · obtain ⟨head, rest, -, -, -, -, -, hway⟩ := hleft
    exact ⟨hreach, declareTypes_belowMissing, acyclic_belowMissing,
      ⟨.ofClass ⟨⟨"B", ⟨22, 23⟩⟩, some ⟨"Missing", ⟨26, 33⟩⟩⟩, by decide, rfl⟩,
      hway acyclic_belowMissing⟩

/-- The superclass of a class that is reported as unknown can be declared by the program. -/
theorem not_declareTypes_unknownType_undeclared :
    ¬ ∀ (r : Registry) (p : Program) (n : String) (span : Span) (c : Collection),
      Reachable r → p.Acyclic →
      outcome (declareTypes p) ⟨r, 0⟩ = (.error ⟨.unknownType n, span⟩, c) →
      (∃ k ∈ p.classes, k.superclass = some ⟨n, span⟩) →
      r.lookup? n = none ∧ ¬ p.Declares n := by
  intro h
  have hreach : Reachable (initial .host64) :=
    .initial (ofTarget_eq_ok_iff.mpr ⟨by decide, rfl⟩)
  obtain ⟨-, hnot⟩ := h _ _ _ _ _ hreach acyclic_belowMissing declareTypes_belowMissing
    ⟨_, List.mem_cons_self, rfl⟩
  exact hnot ⟨.ofClass ⟨⟨"B", ⟨22, 23⟩⟩, some ⟨"Missing", ⟨26, 33⟩⟩⟩, by decide, rfl⟩

end Collect

end DeclLang
