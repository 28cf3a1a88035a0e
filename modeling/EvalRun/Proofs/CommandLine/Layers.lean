import EvalRun.CommandLine.Layers
import EvalRun.Proofs.Config.RoundTrip
import EvalRun.Proofs.Config.Settings

/-! # Proofs.CommandLine.Layers — which layer decides a setting

    A setting is decided by its own flag, its own key in the file and its own
    default, in this order. No other flag and no other key has a say in it.

    * **Arguments.** `Overrides.flag?` is what the arguments say about a setting,
      and that is all they change (`get_applyTo`).
    * **The file.** `Overrides.FileSays` are the entries of the file that is
      chosen, which has to be acceptable without the arguments. Where no file is
      chosen, the entries of an empty one stand for it.
    * **All layers.** The settings of a run are the ones that are layered in this
      way and in range once more (`loadConfig_layered`). The boost and the switch
      of padding are looked up in the profile last, after every layer.
-/

namespace EvalRun

open Config (Setting)
open Toml (Entries)

/-! ### The file on its own -/

/-- Settings are accepted from a file that is read, has the form of a
    configuration, and is in range. -/
theorem RunConfig.ofFile_eq_ok_iff {fs : FileSystem} {path : String} {c : RunConfig} :
    RunConfig.ofFile fs path = .ok c ↔
      ∃ text doc, fs.readText path = .ok text ∧ Toml.parse text = some doc ∧
        Config.readEntries doc = some c ∧ c.validate = .ok () := by
  have haccept (fault : ConfigFault) (settings? : Option RunConfig) :
      accept fault settings? = .ok c ↔ settings? = some c ∧ c.validate = .ok () := by
    cases settings? with
    | none => simp [accept]
    | some d =>
      cases hvalid : d.validate with
      | error e =>
        simp only [accept, hvalid, Except.map, Option.some.injEq, reduceCtorEq, false_iff, not_and]
        rintro rfl
        simp [hvalid]
      | ok _ =>
        simp only [accept, hvalid, Except.map, Except.ok.injEq, Option.some.injEq]
        exact ⟨fun h => ⟨h, h ▸ hvalid⟩, fun h => h.1⟩
  unfold ofFile
  cases hread : fs.readText path with
  | error fault => simp
  | ok text =>
    simp only [haccept, Config.read, Option.bind_eq_bind, Option.bind_eq_some_iff, Except.ok.injEq]
    constructor
    · rintro ⟨⟨doc, hparse, hentries⟩, hvalid⟩
      exact ⟨text, doc, rfl, hparse, hentries, hvalid⟩
    · rintro ⟨_, doc, rfl, hparse, hentries, hvalid⟩
      exact ⟨⟨doc, hparse, hentries⟩, hvalid⟩

namespace CommandLine

variable {o : Overrides} {fs : FileSystem} {c : RunConfig} {doc : Entries}

namespace Overrides

/-- The file that is asked for, or the usual one if it is there. -/
def chosenFile? (o : Overrides) (fs : FileSystem) : Option String :=
  o.configPath? <|> if fs.exists? configFileName then some configFileName else none

/-- The entries of the file that is chosen. It is read, has the form of a
    configuration, and is in range on its own. -/
def FileSays (o : Overrides) (fs : FileSystem) (doc : Entries) : Prop :=
  match o.chosenFile? fs with
  | none => doc = []
  | some path => ∃ text c, fs.readText path = .ok text ∧ Toml.parse text = some doc ∧
      Config.readEntries doc = some c ∧ c.validate = .ok ()

theorem baseConfig_eq_ok_iff :
    o.baseConfig fs = .ok c ↔ ∃ doc, o.FileSays fs doc ∧ Config.readEntries doc = some c := by
  have hfile (path : String) : RunConfig.ofFile fs path = .ok c ↔
      ∃ doc, (∃ text c, fs.readText path = .ok text ∧ Toml.parse text = some doc ∧
        Config.readEntries doc = some c ∧ c.validate = .ok ()) ∧
        Config.readEntries doc = some c := by
    rw [RunConfig.ofFile_eq_ok_iff]
    constructor
    · rintro ⟨text, doc, hread, hparse, hentries, hvalid⟩
      exact ⟨doc, ⟨text, c, hread, hparse, hentries, hvalid⟩, hentries⟩
    · rintro ⟨doc, ⟨text, d, hread, hparse, hentries, hvalid⟩, hc⟩
      -- a document gives one configuration
      obtain rfl : d = c := Option.some.inj (hentries.symm.trans hc)
      exact ⟨text, doc, hread, hparse, hentries, hvalid⟩
  unfold baseConfig FileSays chosenFile?
  cases o.configPath? with
  | some path => exact hfile path
  | none =>
    by_cases hexists : fs.exists? configFileName = true
    · simp only [hexists, if_true]
      exact hfile configFileName
    · simp [hexists, Config.readEntries_nil]

/-- The entries of an acceptable file give a configuration. -/
theorem FileSays.exists_readEntries (h : o.FileSays fs doc) :
    ∃ c, Config.readEntries doc = some c := by
  unfold FileSays at h
  split at h
  · exact ⟨{}, by rw [h, Config.readEntries_nil]⟩
  · obtain ⟨_, c, -, -, hentries, -⟩ := h
    exact ⟨c, hentries⟩

/-! ### The arguments -/

/-- What the arguments say about a setting. They can switch padding off, and
    say nothing about the settings that have no flag. -/
def flag? (o : Overrides) : (s : Setting) → Option s.Value
  | .profile => o.profile?
  | .topicsPath => o.topicsPath?
  | .outputPath => o.outputPath?
  | .runTag => o.runTag?
  | .url => o.backendUrl?
  | .paddingEnabled => if o.noPadding then some (some false) else none
  | .fillerPath => o.fillerPath?
  | .seed => o.seed?.map some
  | .variantThreads => o.threads?
  | .pageStart | .pageSize | .timeoutMs | .responseFormat | .formulaBoost | .maxDepth
  | .paddingTarget => none

/-- The arguments change the settings that they say something about. -/
theorem get_applyTo (o : Overrides) (c : RunConfig) (s : Setting) :
    s.get (o.applyTo c) = (o.flag? s).getD (s.get c) := by
  cases s with
  | paddingEnabled =>
    simp only [Setting.get, applyTo, applyToPadding, flag?]
    cases o.noPadding <;> rfl
  | seed =>
    simp only [Setting.get, applyTo, applyToPadding, flag?]
    cases o.seed? <;> rfl
  | _ => rfl

/-! ### All layers -/

/-- Every setting is what its flag says, or else what the file says under its
    key, or else its default. -/
def Layered (o : Overrides) (doc : Entries) (c : RunConfig) : Prop :=
  ∀ s : Setting, s.get c = (o.flag? s <|> s.inFile? doc).getD s.fallback

theorem layered_applyTo (h : Config.readEntries doc = some c) : o.Layered doc (o.applyTo c) := by
  intro s
  rw [get_applyTo, Config.get_eq_getD_inFile? h]
  cases o.flag? s <;> rfl

/-- The layers decide the configuration. -/
theorem Layered.eq {d : RunConfig} (hc : o.Layered doc c) (hd : o.Layered doc d) : c = d :=
  Config.RunConfig.ext_get fun s => (hc s).trans (hd s).symm

/-- The settings of a run.

    * They are the layered ones, if the chosen file is acceptable on its own
      and they are acceptable themselves; otherwise there are none.
    * The boost that applies is the one that the file sets, or else that of the
      profile, whichever layer that comes from. No flag sets it.
    * Padding is on unless it is switched off by its flag, as the file says, or
      else as the profile has it. -/
theorem loadConfig_layered (o : Overrides) (fs : FileSystem) (c : RunConfig) :
    (o.loadConfig fs = .ok c ↔
      ∃ doc, o.FileSays fs doc ∧ o.Layered doc c ∧ c.validate = .ok ()) ∧
    ∀ doc, o.Layered doc c →
      c.profile = (o.profile? <|> Setting.profile.inFile? doc).getD .ntcir ∧
      c.formulaBoost = (Setting.formulaBoost.inFile? doc).join.getD c.profile.formulaBoost ∧
      c.paddingEnabled = (!o.noPadding &&
        (Setting.paddingEnabled.inFile? doc).join.getD c.profile.paddingEnabled) := by
  refine ⟨?_, ?_⟩
  · unfold loadConfig
    rw [bind_eq_ok_iff]
    constructor
    · rintro ⟨base, hbase, hload⟩
      obtain ⟨doc, hsays, hentries⟩ := baseConfig_eq_ok_iff.1 hbase
      obtain ⟨_, hvalid, hpure⟩ := bind_eq_ok_iff.1 hload
      obtain rfl : o.applyTo base = c := Except.ok.inj hpure
      exact ⟨doc, hsays, layered_applyTo hentries, hvalid⟩
    · rintro ⟨doc, hsays, hlayered, hvalid⟩
      obtain ⟨base, hentries⟩ := hsays.exists_readEntries
      obtain rfl : o.applyTo base = c := (layered_applyTo hentries).eq hlayered
      exact ⟨base, baseConfig_eq_ok_iff.2 ⟨doc, hsays, hentries⟩,
        bind_eq_ok_iff.2 ⟨(), hvalid, rfl⟩⟩
  · intro doc hlayered
    have hboost : c.scoring.formulaBoost? = (Setting.formulaBoost.inFile? doc).getD none :=
      hlayered .formulaBoost
    have henabled : c.padding.enabled? =
        ((if o.noPadding then some (some false) else none) <|>
          Setting.paddingEnabled.inFile? doc).getD none := hlayered .paddingEnabled
    refine ⟨hlayered .profile, ?_, ?_⟩
    · unfold RunConfig.formulaBoost
      rw [hboost]
      cases Setting.formulaBoost.inFile? doc <;> rfl
    · unfold RunConfig.paddingEnabled
      rw [henabled]
      by_cases hflag : o.noPadding = true
      · simp [hflag]
      · rw [Bool.not_eq_true] at hflag
        cases henabled' : Setting.paddingEnabled.inFile? doc <;> simp [hflag]

/-- A target of zero is in range while padding is off. So a file that leaves
    padding to its profile is acceptable with the profile `wiki`, is not under
    the flag for `ntcir`, and is again if padding is switched off as well; the
    boost is then that of the new profile. -/
theorem loadConfig_layered_profile :
    ∃ (fs : FileSystem) (base : RunConfig), base.profile = .wiki ∧ base.padding.target = 0 ∧
      let o : Overrides := { configPath? := some "a.toml" }
      let ntcir : Overrides := { o with profile? := some .ntcir }
      let unpadded : Overrides := { ntcir with noPadding := true }
      o.loadConfig fs = .ok base ∧ (∀ c, ntcir.loadConfig fs ≠ .ok c) ∧
        ∃ c, unpadded.loadConfig fs = .ok c ∧ c.profile = .ntcir ∧
          c.formulaBoost = Profile.ntcir.formulaBoost ∧ c.paddingEnabled = false := by
  let base : RunConfig := { profile := .wiki, padding := { target := 0 } }
  have hvalid : base.validate = .ok () := RunConfig.validate_eq_ok_iff.2 (by decide)
  have hwritable :
      (FileSystem.ofWorkingDir ["w"]).writablePlace "a.toml" = .ok ["w", "a.toml"] := by
    rfl
  obtain ⟨hwritten, hback, -⟩ := RunConfig.ofFile_of_writeFile hvalid hwritable
  obtain ⟨fs, hfs⟩ := hwritten.2 (by decide)
  obtain ⟨text, doc, hread, hparse, hentries, -⟩ :=
    RunConfig.ofFile_eq_ok_iff.1 (hback fs hfs).2.1
  have hsays (o : Overrides) (hpath : o.configPath? = some "a.toml") : o.FileSays fs doc := by
    simp only [FileSays, chosenFile?, hpath]
    exact ⟨text, base, hread, hparse, hentries, hvalid⟩
  refine ⟨fs, base, rfl, rfl, ?_, ?_, ?_⟩
  · exact (loadConfig_layered _ _ _).1.2 ⟨doc, hsays _ rfl, layered_applyTo hentries, hvalid⟩
  · intro c hload
    obtain ⟨doc', ⟨_, _, hread', hparse', -⟩, hlayered, hvalid'⟩ :=
      (loadConfig_layered _ _ _).1.1 hload
    obtain rfl : text = _ := Except.ok.inj (hread.symm.trans hread')
    obtain rfl : doc = doc' := Option.some.inj (hparse.symm.trans hparse')
    obtain rfl := hlayered.eq (layered_applyTo hentries)
    exact absurd (RunConfig.validate_eq_ok_iff.1 hvalid') (by decide +kernel)
  · refine ⟨_, (loadConfig_layered _ _ _).1.2 ⟨doc, hsays _ rfl, layered_applyTo hentries,
      RunConfig.validate_eq_ok_iff.2 (by decide +kernel)⟩, rfl, rfl, rfl⟩

end Overrides

end CommandLine

end EvalRun
