import DeclLang.Proofs.Collection.Linking
import DeclLang.Proofs.Library.Sequence
import Mathlib.Data.List.Forall2

/-!
# Ingestion: what a load that succeeds has read

A load succeeds exactly when there are files to load and each of them, in turn, is read, parsed and
collected (`Registry.load_eq_ok_iff`). So the registry that a bootstrap returns comes from the texts
of the selected files and from nothing else (`bootstrap_eq_ok_iff_ingests`).
-/

namespace DeclLang

/-- The files at some paths, and the text of each. -/
def FileSystem.Reads (fs : FileSystem) (paths sources : List String) : Prop :=
  List.Forall₂ (fun path source => fs.read path = .ok source) paths sources

theorem Program.ofFile_eq_ok_iff {file source : String} {p : Program} :
    ofFile file source = .ok p ↔ ofSource source = .ok p := by
  unfold ofFile
  cases ofSource source <;> simp [Except.mapError]

namespace Loading

variable {σ : Type}

theorem outcome_bind_eq_ok {α β : Type} {m : Loading σ α} {f : α → Loading σ β}
    {x y : Registry × σ} {b : β} :
    outcome (m >>= f) x = (.ok b, y) ↔
      ∃ a z, outcome m x = (.ok a, z) ∧ outcome (f a) z = (.ok b, y) := by
  rw [outcome_bind]
  generalize outcome m x = first
  obtain ⟨result, z⟩ := first
  constructor
  · cases result with
    | error e => exact fun h => absurd (congrArg Prod.fst h) (by simp)
    | ok a => exact fun h => ⟨a, z, rfl, h⟩
  · rintro ⟨a, z', hfirst, h⟩
    cases hfirst
    exact h

theorem outcome_collect_eq_ok {path source : String} {x y : Registry × σ} :
    outcome (collect path source) x = (.ok (), y) ↔
      ∃ p c, Program.ofSource source = .ok p ∧ x.1.collect p = (.ok (), c) ∧
        y = (c.registry, x.2) := by
  unfold collect
  cases hfile : Program.ofFile path source with
  | error report =>
    rw [outcome_throw]
    constructor
    · exact fun h => absurd (congrArg Prod.fst h) (by simp)
    · rintro ⟨p, -, hparse, -⟩
      rw [Program.ofFile_eq_ok_iff.mpr hparse] at hfile
      cases hfile
  | ok p =>
    have hparse := Program.ofFile_eq_ok_iff.mp hfile
    dsimp only
    rw [outcome_bind, outcome_registry]
    dsimp only
    generalize hcollect : x.1.collect p = collected
    obtain ⟨result, c⟩ := collected
    constructor
    · intro h
      refine ⟨p, c, hparse, ?_⟩
      cases result with
      | error e => cases h
      | ok u =>
        cases h
        exact ⟨hcollect, rfl⟩
    · rintro ⟨p', c', hparse', hcollect', rfl⟩
      rw [hparse] at hparse'
      cases hparse'
      rw [hcollect] at hcollect'
      cases hcollect'
      rfl

theorem outcome_file_eq_ok {fs : FileSystem} {path : String} {x y : Registry × σ} :
    outcome (file fs collect path) x = (.ok (), y) ↔
      ∃ source p c, fs.read path = .ok source ∧ Program.ofSource source = .ok p ∧
        x.1.collect p = (.ok (), c) ∧ y = (c.registry, x.2) := by
  unfold file
  cases hread : fs.read path with
  | error e =>
    rw [outcome_throw]
    constructor
    · intro h
      cases h
    · rintro ⟨source, -, -, hsource, -⟩
      cases hsource
  | ok source =>
    rw [outcome_collect_eq_ok]
    constructor
    · exact fun ⟨p, c, h⟩ => ⟨source, p, c, rfl, h⟩
    · rintro ⟨source', p, c, hsource, h⟩
      cases hsource
      exact ⟨p, c, h⟩

/-- Files are loaded if each of them is read and collected, into what the ones before it left. -/
theorem outcome_files_eq_ok {fs : FileSystem} {paths : List String} {r s : Registry} :
    outcome (paths.forM (file fs collect)) (r, ()) = (.ok (), (s, ())) ↔
      ∃ files, fs.Reads paths (files.map (·.1)) ∧ r.Ingests files s := by
  induction paths generalizing r with
  | nil =>
    constructor
    · intro h
      obtain rfl : r = s := congrArg (·.2.1) h
      exact ⟨[], .nil, .nil⟩
    · rintro ⟨files, hreads, hingests⟩
      cases hingests with
      | nil => rfl
      | cons => cases hreads
  | cons path paths ih =>
    rw [List.forM_eq_forM, List.forM_cons, outcome_bind_eq_ok]
    constructor
    · rintro ⟨⟨⟩, ⟨mid, ⟨⟩⟩, hfile, hrest⟩
      obtain ⟨source, p, c, hread, hparse, hcollect, hmid⟩ := outcome_file_eq_ok.mp hfile
      obtain ⟨files, hreads, hingests⟩ := ih.mp hrest
      obtain rfl : mid = c.registry := congrArg Prod.fst hmid
      exact ⟨(source, p) :: files, .cons hread hreads, .cons hparse hcollect hingests⟩
    · rintro ⟨files, hreads, hingests⟩
      cases hingests with
      | nil => cases hreads
      | cons hparse hcollect hingests =>
        cases hreads with
        | cons hread hreads =>
          exact ⟨(), _, outcome_file_eq_ok.mpr ⟨_, _, _, hread, hparse, hcollect, rfl⟩,
            ih.mpr ⟨_, hreads, hingests⟩⟩

end Loading

theorem Registry.load_eq_ok_iff {r s : Registry} (hclean : r.poisoned = false) (fs : FileSystem)
    (places : List String) (options : Options) :
    (∃ summary, r.load fs places options = (.ok summary, s)) ↔
      ∃ paths files, options.files fs places = .ok paths ∧ fs.Reads paths (files.map (·.1)) ∧
        r.Ingests files s := by
  have hload (summary : Loading.Summary) : r.load fs places options = (.ok summary, s) ↔
      Loading.outcome (Loading.load fs places options Loading.collect) (r, ()) =
        (.ok summary, (s, ())) := by
    rw [load_eq]
    generalize Loading.outcome (Loading.load fs places options Loading.collect) (r, ()) = after
    obtain ⟨result, t, ⟨⟩⟩ := after
    simp
  simp only [hload]
  rw [Loading.outcome_load, hclean, if_neg Bool.false_ne_true, Loading.outcome_poisoning]
  cases hfiles : options.files fs places with
  | error e =>
    constructor
    · rintro ⟨summary, h⟩
      cases h
    · rintro ⟨paths, -, hpaths, -⟩
      cases hpaths
  | ok paths =>
    dsimp only [Loading.load.liftExcept]
    rw [Loading.outcome_bind, Loading.outcome_pure]
    dsimp only
    rw [Loading.outcome_bind]
    have hread := @Loading.outcome_files_eq_ok fs paths r s
    generalize Loading.outcome (paths.forM (Loading.file fs Loading.collect)) (r, ()) = after
      at hread ⊢
    obtain ⟨result, t, ⟨⟩⟩ := after
    cases result with
    | error e =>
      constructor
      · rintro ⟨summary, h⟩
        cases h
      · rintro ⟨paths', files, hpaths, hfiles⟩
        cases hpaths
        cases hread.mpr ⟨files, hfiles⟩
    | ok u =>
      constructor
      · rintro ⟨summary, h⟩
        obtain rfl : t = s := congrArg (·.2.1) h
        obtain ⟨files, hfiles⟩ := hread.mp rfl
        exact ⟨paths, files, rfl, hfiles⟩
      · rintro ⟨paths', files, hpaths, hfiles⟩
        cases hpaths
        obtain rfl : t = s := congrArg (·.2.1) (hread.mpr ⟨files, hfiles⟩)
        exact ⟨_, rfl⟩

/-- A bootstrap succeeds exactly when every selected file is read and collected. -/
theorem bootstrap_eq_ok_iff_ingests {fs : FileSystem} {places : List String} {options : Options}
    {s : Registry} :
    bootstrap fs places options = .ok s ↔
      ∃ r paths files, Registry.ofTarget options.target = .ok r ∧
        options.files fs places = .ok paths ∧ fs.Reads paths (files.map (·.1)) ∧
        r.Ingests files s := by
  cases htarget : Registry.ofTarget options.target with
  | error e =>
    rw [bootstrap_eq, htarget]
    constructor
    · intro h
      cases h
    · rintro ⟨r, -, -, hr, -⟩
      cases hr
  | ok r =>
    have hclean : r.poisoned = false := by
      rw [← (Registry.ofTarget_eq_ok_iff.mp htarget).2]
      rfl
    rw [bootstrap_eq_ok_iff htarget, Registry.load_eq_ok_iff hclean]
    constructor
    · exact fun ⟨paths, files, h⟩ => ⟨r, paths, files, rfl, h⟩
    · rintro ⟨r', paths, files, hr, h⟩
      cases hr
      exact ⟨paths, files, h⟩

end DeclLang
