import EvalRun.Config.File
import EvalRun.Proofs.FileSystem.Writing
import EvalRun.Proofs.RunFile.WellFormed
import EvalRun.Proofs.Toml.Documents

/-! # Proofs.Config.RoundTrip — a configuration file reads back as it was written

    A configuration is written as a document of four settings and four sections.
    What is unset is left out, and reading takes it for unset, not for some
    value.

    * **Sections.** Each section is read back from its table, whichever of its
      optional settings are there (`readBackend_sectionTable` and the like).
    * **Files.** Reading a file back is reading the document, and then checking
      that the settings are in range, which they are.
    * **Integers.** Settings have 64 bits without sign, and TOML has 64 bits with
      sign. A configuration is written if and only if none of its integers is
      beyond that; otherwise the error comes before the file is opened.
-/

namespace EvalRun

/-! ### Settings -/

namespace RunConfig

/-- The integers among the settings. -/
def integers (c : RunConfig) : List Nat :=
  [c.backend.pageStart, c.backend.pageSize] ++ c.backend.timeoutMs?.toList
    ++ [c.scoring.maxDepth, c.padding.target] ++ (c.padding.seed?.map UInt64.toNat).toList
    ++ [c.variantThreads]

variable {c : RunConfig}

/-- The boost of an accepted configuration is a finite number. -/
theorem isFinite_formulaBoost (h : c.validate = .ok ()) : c.formulaBoost.isFinite = true := by
  have hnone : c.violations = [] := validate_eq_ok_iff.1 h
  -- none of the checks has found anything, this one among them
  rw [violations, List.filterMap_eq_nil_iff] at hnone
  have hfinite := hnone (!c.formulaBoost.isFinite, .infiniteBoost) (by simp)
  simpa using hfinite

/-- A boost that is set is the one that applies. -/
theorem isFinite_of_formulaBoost? (h : c.validate = .ok ()) {x : Binary64}
    (hx : c.scoring.formulaBoost? = some x) : x.isFinite = true := by
  have hfinite := isFinite_formulaBoost h
  rwa [formulaBoost, hx] at hfinite

/-- An accepted configuration sets the same things as itself: its boost is a
    number. -/
theorem agrees_self (h : c.validate = .ok ()) : c.agrees c = true := by
  have hboost : sameBoost c.scoring.formulaBoost? c.scoring.formulaBoost? = true := by
    cases hset : c.scoring.formulaBoost? with
    | none => rfl
    | some x =>
      have hmagnitude : x.magnitude < Binary64.infinityMagnitude :=
        of_decide_eq_true (isFinite_of_formulaBoost? h hset)
      have hnan : x.isNaN = false := decide_eq_false (by omega)
      simp [sameBoost, hnan]
  simp [agrees, hboost]

end RunConfig

namespace Config

open Toml (Scalar Settings settingEntries sectionTable IsBareKey Readable)

/-! ### Sections -/

theorem readChoice_profileName (p : Profile) :
    readChoice Profile.ofName? (.string p.name) = some p := by
  cases p <;> rfl

theorem readNatural_integer (n : Nat) : readNatural (.integer n) = some n := rfl

theorem readBackend_sectionTable (b : BackendSettings) :
    readBackend (sectionTable (backendSettings b)) = some b := by
  obtain ⟨url, pageStart, pageSize, timeoutMs?, responseFormat?⟩ := b
  -- a format is read from its name
  cases responseFormat? with
  | none => cases timeoutMs? <;> rfl
  | some f => cases timeoutMs? <;> cases f <;> rfl

theorem readScoring_sectionTable (s : ScoringSettings) :
    readScoring (sectionTable (scoringSettings s)) = some s := by
  obtain ⟨formulaBoost?, maxDepth⟩ := s
  cases formulaBoost? <;> rfl

theorem readPadding_sectionTable (p : PaddingSettings) :
    readPadding (sectionTable (paddingSettings p)) = some p := by
  obtain ⟨enabled?, target, fillerPath, seed?⟩ := p
  cases seed? with
  | none => cases enabled? <;> rfl
  | some seed =>
    -- a seed is read from the number that it is, which has 64 bits again
    have hseed : UInt64.ofNat seed.toNat = seed := UInt64.ofNat_toNat
    have hread : readPadding (sectionTable
          (paddingSettings ⟨enabled?, target, fillerPath, some seed⟩))
        = some ⟨enabled?, target, fillerPath, some (UInt64.ofNat seed.toNat)⟩ := by
      cases enabled? <;> rfl
    rw [hread, hseed]

/-- The entries of a configuration give it back. -/
theorem readEntries_entries (c : RunConfig) : readEntries (layout c).entries = some c := by
  have hthreads : readConcurrency (sectionTable [("variant_threads", .natural c.variantThreads)])
      = some c.variantThreads := by
    simp [readConcurrency, sectionTable, settingEntries, readSection, setting, Scalar.value,
      readNatural_integer]
  simp [readEntries, layout, Toml.Layout.entries, settingEntries, Toml.sectionEntries, setting,
    List.lookup_cons, Scalar.value, readString, readChoice_profileName, readBackend_sectionTable,
    readScoring_sectionTable, readPadding_sectionTable, hthreads]

/-! ### Documents -/

variable {c : RunConfig}

/-- What is asked of every setting is asked of an optional one if it is set. -/
theorem forall_mem_written {α : Type} {key : String} {scalar : α → Scalar} {value? : Option α}
    {P : String × Scalar → Prop} :
    (∀ s ∈ written key scalar value?, P s) ↔ ∀ v, value? = some v → P (key, scalar v) := by
  cases value? <;> simp [written]

/-- What is asked of every setting of a configuration, setting by setting. -/
theorem forall_mem_layout {P : String × Scalar → Prop} :
    ((∀ s ∈ (layout c).top, P s) ∧ ∀ s ∈ (layout c).sections, ∀ setting ∈ s.2, P setting) ↔
      (P ("profile", .string c.profile.name) ∧ P ("topics", .string c.topicsPath) ∧
        P ("output", .string c.outputPath) ∧ P ("run_tag", .string c.runTag)) ∧
      (P ("url", .string c.backend.url) ∧ P ("from", .natural c.backend.pageStart) ∧
        P ("size", .natural c.backend.pageSize) ∧
        (∀ n, c.backend.timeoutMs? = some n → P ("timeout_ms", .natural n)) ∧
        ∀ f, c.backend.responseFormat? = some f → P ("response_format", .string f.name)) ∧
      ((∀ x, c.scoring.formulaBoost? = some x → P ("formula_boost", .float x)) ∧
        P ("max_depth", .natural c.scoring.maxDepth)) ∧
      ((∀ b, c.padding.enabled? = some b → P ("enabled", .boolean b)) ∧
        P ("target", .natural c.padding.target) ∧
        P ("filler_path", .string c.padding.fillerPath) ∧
        ∀ seed, c.padding.seed? = some seed → P ("seed", .natural seed.toNat)) ∧
      P ("variant_threads", .natural c.variantThreads) := by
  simp only [layout, backendSettings, scoringSettings, paddingSettings, List.forall_mem_append,
    List.forall_mem_cons, List.not_mem_nil, false_implies, implies_true, and_true,
    forall_mem_written, and_assoc]

/-- Keys and names of sections are fixed, and the boost is finite. -/
theorem wellFormed_layout (h : c.validate = .ok ()) : (layout c).WellFormed := by
  have hreadable : Readable (layout c).top ∧ ∀ s ∈ (layout c).sections, Readable s.2 := by
    refine forall_mem_layout.2 ?_
    have hkeys : ∀ key ∈ ["profile", "topics", "output", "run_tag", "url", "from", "size",
        "timeout_ms", "response_format", "formula_boost", "max_depth", "enabled", "target",
        "filler_path", "seed", "variant_threads"], IsBareKey key := by decide
    have hboost : ∀ x, c.scoring.formulaBoost? = some x → x.isFinite = true :=
      fun _ => RunConfig.isFinite_of_formulaBoost? h
    simp only [List.forall_mem_cons] at hkeys
    simpa [hkeys, Scalar.IsFinite] using hboost
  have hnames : ∀ s ∈ (layout c).sections, IsBareKey s.1 := by
    have hfixed : ∀ name ∈ ["backend", "scoring", "padding", "concurrency"], IsBareKey name := by
      decide
    simpa [layout] using hfixed
  exact {
    top := hreadable.1
    sections := fun s hs => ⟨hnames s hs, hreadable.2 s hs⟩
    nodup_keys := by simp [layout, Toml.keys]
    nodup_section := by
      have hbackend : (Toml.keys (backendSettings c.backend)).Nodup := by
        cases htimeout : c.backend.timeoutMs? <;> cases hformat : c.backend.responseFormat? <;>
          simp [Toml.keys, backendSettings, written, htimeout, hformat]
      have hscoring : (Toml.keys (scoringSettings c.scoring)).Nodup := by
        cases hboost : c.scoring.formulaBoost? <;>
          simp [Toml.keys, scoringSettings, written, hboost]
      have hpadding : (Toml.keys (paddingSettings c.padding)).Nodup := by
        cases henabled : c.padding.enabled? <;> cases hseed : c.padding.seed? <;>
          simp [Toml.keys, paddingSettings, written, henabled, hseed]
      have hconcurrency :
          (Toml.keys [("variant_threads", Scalar.natural c.variantThreads)]).Nodup := by
        simp [Toml.keys]
      simp only [layout, List.forall_mem_cons, List.not_mem_nil, false_implies, implies_true,
        and_true]
      exact ⟨hbackend, hscoring, hpadding, hconcurrency⟩ }

/-- A configuration has a text if and only if none of its integers is beyond 64
    bits with sign. -/
theorem write?_isSome_iff (c : RunConfig) :
    (write? c).isSome = true ↔ ∀ n ∈ c.integers, n ≤ Toml.maxInteger := by
  rw [write?, Toml.write?_isSome_iff]
  refine forall_mem_layout.trans ?_
  simp only [RunConfig.integers, List.forall_mem_append, List.forall_mem_cons, List.not_mem_nil,
    false_implies, implies_true, and_true, true_and, Option.mem_toList, Option.map_eq_some_iff,
    Scalar.Fits, and_assoc, forall_exists_index, and_imp, forall_apply_eq_imp_iff₂]

/-- A text that was written gives its configuration back. -/
theorem read_of_write? {text : String} (h : c.validate = .ok ()) (hwrite : write? c = some text) :
    read text = some c := by
  have hparse := Toml.parse_of_write? (wellFormed_layout h) hwrite
  unfold read
  rw [hparse]
  exact readEntries_entries c

end Config

/-! ### Files -/

namespace RunConfig

variable {c : RunConfig} {fs : FileSystem} {path : String} {target : Place}

/-- A configuration without a text is refused before the path is looked up. -/
theorem writeFile_of_write?_eq_none (h : Config.write? c = none) (fs : FileSystem)
    (path : String) : c.writeFile fs path = .error (.config .unwritable) := by
  unfold writeFile
  rw [h]

/-- A configuration with a text is written wherever the path allows it. -/
theorem writeFile_of_write?_eq_some {text : String} (h : Config.write? c = some text)
    (hwritable : fs.writablePlace path = .ok target) :
    c.writeFile fs path = .ok (fs.put target (.file text.toUTF8)) := by
  have hwrite : fs.writeText path text = .ok (fs.put target (.file text.toUTF8)) := by
    unfold FileSystem.writeText
    rw [hwritable]
    rfl
  unfold writeFile
  rw [h]
  simp only [hwrite]

/-- A file with the text of an accepted configuration is that configuration. -/
theorem ofFile_of_write? {text : String} (hvalid : c.validate = .ok ())
    (h : Config.write? c = some text) (hread : fs.readText path = .ok text) :
    RunConfig.ofFile fs path = .ok c := by
  have haccept : accept (.malformedFile path) (some c) = .ok c := by
    simp only [accept, hvalid]
    rfl
  unfold ofFile
  rw [hread]
  simp only [Config.read_of_write? hvalid h, haccept]

/-- A configuration that is accepted is written, where the path allows it, if and
    only if each of its integers is below `2 ^ 63`. The file is then the only
    thing that changes, and it reads back as the same configuration: every
    string as it was, whatever is in it, the boost with all its bits, and every
    optional setting set to the same value or unset. If an integer is too
    large, the configuration is refused as one that has no text, and there is
    no other tree than the old one. -/
theorem ofFile_of_writeFile (hvalid : c.validate = .ok ())
    (hwritable : fs.writablePlace path = .ok target) :
    ((∃ fs', c.writeFile fs path = .ok fs') ↔ ∀ n ∈ c.integers, n < Nat.pow 2 63) ∧
    (∀ fs', c.writeFile fs path = .ok fs' →
      (∃ text, fs.Replaces target text fs') ∧
      RunConfig.ofFile fs' path = .ok c ∧ c.agrees c = true) ∧
    ((∃ n ∈ c.integers, Nat.pow 2 63 ≤ n) →
      c.writeFile fs path = .error (.config .unwritable)) := by
  have hmax (n : Nat) : n ≤ Toml.maxInteger ↔ n < Nat.pow 2 63 := Nat.lt_succ_iff.symm
  have hfits := Config.write?_isSome_iff c
  simp only [hmax] at hfits
  obtain ⟨hlocate, -⟩ := FileSystem.locate_of_writablePlace hwritable
  cases hwrite : Config.write? c with
  | none =>
    -- some integer does not fit, and there is nothing to write
    have herror := writeFile_of_write?_eq_none hwrite fs path
    rw [hwrite] at hfits
    refine ⟨?_, ?_, fun _ => herror⟩
    · rw [herror, ← hfits]
      simp
    · intro fs' hok
      rw [herror] at hok
      cases hok
  | some text =>
    -- all integers fit, and the path leads to the text that is read back
    have hok := writeFile_of_write?_eq_some hwrite hwritable
    have hreplaces := FileSystem.replaces_put hwritable text
    have hall : ∀ n ∈ c.integers, n < Nat.pow 2 63 := hfits.1 (by rw [hwrite]; rfl)
    refine ⟨⟨fun _ => hall, fun _ => ⟨_, hok⟩⟩, ?_, ?_⟩
    · intro fs' hok'
      rw [hok, Except.ok.injEq] at hok'
      subst hok'
      exact ⟨⟨text, hreplaces⟩, ofFile_of_write? hvalid hwrite
        (hreplaces.readText_target path hlocate), agrees_self hvalid⟩
    · rintro ⟨n, hn, hle⟩
      exact absurd (hall n hn) (Nat.not_lt.2 hle)

/-- Strings of every form, a negative zero and the largest integer are read back;
    one more, and the file is not written. -/
theorem ofFile_of_writeFile_hard :
    let fs := FileSystem.ofWorkingDir ["w"]
    let c : RunConfig := {
      profile := .wiki
      topicsPath := "C:\\queries.xml"
      outputPath := "it's \x22here\x22"
      runTag := "'''\x22\x22\x22\x01"
      backend := { url := "\nhttp://h/\r\x22\x22\x22'''\\", timeoutMs? := some 30000 }
      scoring := { formulaBoost? := some (.signedZero true) }
      padding := { seed? := some 0x7FFFFFFFFFFFFFFF } }
    let tooLarge : RunConfig := { c with padding := { seed? := some 0x8000000000000000 } }
    c.validate = .ok () ∧ tooLarge.validate = .ok () ∧
      fs.writablePlace "a.toml" = .ok ["w", "a.toml"] ∧
      (∃ fs', c.writeFile fs "a.toml" = .ok fs' ∧ RunConfig.ofFile fs' "a.toml" = .ok c) ∧
      tooLarge.writeFile fs "a.toml" = .error (.config .unwritable) := by
  intro fs c tooLarge
  have hvalid : c.validate = .ok () := validate_eq_ok_iff.2 (by decide)
  have hvalid' : tooLarge.validate = .ok () := validate_eq_ok_iff.2 (by decide)
  have hwritable : fs.writablePlace "a.toml" = .ok ["w", "a.toml"] := by rfl
  obtain ⟨hwritten, hback, -⟩ := ofFile_of_writeFile hvalid hwritable
  obtain ⟨-, -, hrefused⟩ := ofFile_of_writeFile hvalid' hwritable
  obtain ⟨fs', hfs'⟩ := hwritten.2 (by decide)
  exact ⟨hvalid, hvalid', hwritable, ⟨fs', hfs', (hback fs' hfs').2.1⟩, hrefused (by decide)⟩

end RunConfig

end EvalRun
