import DeclLang.Library.Load
import DeclLang.Proofs.Collection.Steps

/-!
# Loads: what loading files does to a registry

A load changes a registry by the programs that it collects and, when it fails, by poisoning it. So a
relation between registries that both keep is kept by every load, whether it succeeds or not
(`keeps_load`).
-/

namespace DeclLang

namespace Loading

variable {σ α β : Type}

/-- What a load returns, and what it leaves behind. -/
def outcome (m : Loading σ α) (x : Registry × σ) : Except BootstrapError α × Registry × σ :=
  m.run.run x

/-! ## Outcomes -/

@[simp] theorem outcome_pure (a : α) (x : Registry × σ) :
    outcome (pure a : Loading σ α) x = (.ok a, x) := rfl

@[simp] theorem outcome_throw (e : BootstrapError) (x : Registry × σ) :
    outcome (throw e : Loading σ α) x = (.error e, x) := rfl

@[simp] theorem outcome_registry (x : Registry × σ) :
    outcome registry x = (.ok x.1, x) := rfl

theorem outcome_bind (m : Loading σ α) (f : α → Loading σ β) (x : Registry × σ) :
    outcome (m >>= f) x =
      match outcome m x with
      | (.ok a, y) => outcome (f a) y
      | (.error e, y) => (.error e, y) := by
  show (ExceptT.bindCont f ((outcome m x).1)).run (outcome m x).2 = _
  rcases outcome m x with ⟨result, y⟩
  cases result <;> rfl

theorem outcome_poisoning (m : Loading σ α) (x : Registry × σ) :
    outcome (poisoning m) x =
      match outcome m x with
      | (.ok a, y) => (.ok a, y)
      | (.error e, y) => (.error e, y.1.poison, y.2) := by
  simp only [outcome, poisoning, tryCatch, tryCatchThe, MonadExceptOf.tryCatch, ExceptT.tryCatch,
    ExceptT.run_mk, StateT.run_bind]
  rw [ExceptT.run]
  rcases StateT.run m x with ⟨result, y⟩
  cases result <;> rfl

/-- A load that may run poisons the registry if it fails. -/
theorem outcome_load (fs : FileSystem) (places : List String) (options : Options)
    (ingest : (file source : String) → Loading σ Unit) (x : Registry × σ) :
    outcome (load fs places options ingest) x =
      if x.1.poisoned then (.error .poisoned, x)
      else outcome (poisoning do
        let files ← load.liftExcept (options.files fs places)
        files.forM (file fs ingest)
        return ⟨files, (← registry).size - x.1.size⟩) x := by
  rw [load, outcome_bind, outcome_registry]
  dsimp only
  split <;> rfl

/-! ## Relations that loads keep -/

/-- Whether it succeeds or not, a load leaves a registry that is related to the one it found. -/
def Keeps (R : Registry → Registry → Prop) (m : Loading σ α) : Prop :=
  ∀ x, R x.1 (outcome m x).2.1

variable {R : Registry → Registry → Prop} (hR : Collect.Composable R)

include hR

theorem keeps_pure (a : α) : Keeps R (pure a : Loading σ α) :=
  fun x => hR.refl x.1

theorem keeps_throw (e : BootstrapError) : Keeps R (throw e : Loading σ α) :=
  fun x => hR.refl x.1

theorem keeps_registry : Keeps R (registry : Loading σ Registry) :=
  fun x => hR.refl x.1

theorem keeps_bind {m : Loading σ α} {f : α → Loading σ β} (hm : Keeps R m)
    (hf : ∀ a, Keeps R (f a)) : Keeps R (m >>= f) := by
  intro x
  have hfirst := hm x
  rw [outcome_bind]
  -- A failure in the first part ends the load; what was done until then stays.
  generalize outcome m x = first at hfirst ⊢
  obtain ⟨result, y⟩ := first
  cases result with
  | error e => exact hfirst
  | ok a => exact hR.trans hfirst (hf a y)

theorem keeps_forM {f : α → Loading σ PUnit} {l : List α} (hf : ∀ a ∈ l, Keeps R (f a)) :
    Keeps R (l.forM f) := by
  induction l with
  | nil => exact keeps_pure hR _
  | cons a l ih =>
    rw [List.forM_eq_forM, List.forM_cons]
    have hall := List.forall_mem_cons.mp hf
    exact keeps_bind hR hall.1 fun _ => ih hall.2

theorem keeps_poisoning (hpoison : ∀ r, R r r.poison) {m : Loading σ α} (hm : Keeps R m) :
    Keeps R (poisoning m) := by
  intro x
  have hbefore := hm x
  rw [outcome_poisoning]
  generalize outcome m x = after at hbefore ⊢
  obtain ⟨result, y⟩ := after
  cases result with
  | ok a => exact hbefore
  | error e => exact hR.trans hbefore (hpoison y.1)

theorem keeps_file (fs : FileSystem) {ingest : (file source : String) → Loading σ Unit}
    (hingest : ∀ path source, Keeps R (ingest path source)) (path : String) :
    Keeps R (file fs ingest path) := by
  unfold file
  split
  · exact hingest path _
  · exact keeps_throw hR _

/-- What is done with the files once they are known. -/
theorem keeps_files (fs : FileSystem) {ingest : (file source : String) → Loading σ Unit}
    (hingest : ∀ path source, Keeps R (ingest path source))
    (files : Except BootstrapError (List String)) (before : Nat) :
    Keeps R (do
      let files ← load.liftExcept files
      files.forM (file fs ingest)
      return (⟨files, (← registry).size - before⟩ : Summary)) := by
  cases files with
  | error e => exact keeps_throw hR e
  | ok files =>
    refine keeps_bind hR (keeps_pure hR files) fun files => ?_
    refine keeps_bind hR (keeps_forM hR fun path _ => keeps_file hR fs hingest path) fun _ => ?_
    exact keeps_bind hR (keeps_registry hR) fun r => keeps_pure hR _

theorem keeps_load (hpoison : ∀ r, R r r.poison) (fs : FileSystem) (places : List String)
    (options : Options) {ingest : (file source : String) → Loading σ Unit}
    (hingest : ∀ path source, Keeps R (ingest path source)) :
    Keeps R (load fs places options ingest) := by
  intro x
  rw [outcome_load]
  split
  · exact hR.refl x.1
  · exact keeps_poisoning hR hpoison (keeps_files hR fs hingest _ _) x

/-- Of a file only the program that is parsed from it reaches the registry. -/
theorem keeps_collect (hcollect : ∀ r p, R r (Registry.collect r p).2.registry)
    (path source : String) : Keeps R (collect path source : Loading σ Unit) := by
  unfold collect
  split
  · exact keeps_throw hR _
  · rename_i program _
    intro x
    have hcollected := hcollect x.1 program
    rw [outcome_bind, outcome_registry]
    dsimp only
    generalize x.1.collect program = collected at hcollected ⊢
    obtain ⟨result, collection⟩ := collected
    cases result with
    | ok u => exact hcollected
    | error e => exact hcollected

end Loading

/-- Whatever programs keep, and poisoning does, every load keeps, whether it succeeds or not. -/
theorem Registry.keeps_load {R : Registry → Registry → Prop} (hR : Collect.Composable R)
    (hpoison : ∀ r, R r r.poison) (hcollect : ∀ r p, R r (Registry.collect r p).2.registry)
    (r : Registry) (fs : FileSystem) (places : List String) (options : Options) :
    R r (r.load fs places options).2 :=
  Loading.keeps_load hR hpoison fs places options (Loading.keeps_collect hR hcollect) (r, ())

end DeclLang
