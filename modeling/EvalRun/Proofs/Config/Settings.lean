import EvalRun.Config.File

/-! # Proofs.Config.Settings — one setting at a time

    A configuration is the sum of its settings, and so is its file: each setting
    has one place in a document, and what stands there decides that setting and
    no other.

    * **Settings.** `Setting` names them, `Setting.get` looks one up, and a
      configuration is determined by what is looked up (`RunConfig.ext_get`).
    * **Documents.** `Setting.written?` is what a document has at the place of a
      setting. Reading a document is reading every setting at its place
      (`readEntries_eq_some_iff`).
-/

namespace EvalRun.Config

open Toml (Value Entries)

/-! ### Settings -/

/-- The sections of a configuration file. -/
inductive Section where
  | backend
  | scoring
  | padding
  | concurrency
  deriving DecidableEq, Repr

/-- The settings of a run. -/
inductive Setting where
  | profile
  | topicsPath
  | outputPath
  | runTag
  | url
  | pageStart
  | pageSize
  | timeoutMs
  | responseFormat
  | formulaBoost
  | maxDepth
  | paddingEnabled
  | paddingTarget
  | fillerPath
  | seed
  | variantThreads
  deriving DecidableEq, Repr

namespace Setting

/-- The values of a setting. -/
abbrev Value : Setting → Type
  | .profile => Profile
  | .topicsPath | .outputPath | .runTag | .url | .fillerPath => String
  | .pageStart | .pageSize | .maxDepth | .paddingTarget | .variantThreads => Nat
  | .timeoutMs => Option Nat
  | .responseFormat => Option Response.Format
  | .formulaBoost => Option Binary64
  | .paddingEnabled => Option Bool
  | .seed => Option UInt64

/-- The value of a setting in a configuration. -/
def get : (s : Setting) → RunConfig → s.Value
  | .profile, c => c.profile
  | .topicsPath, c => c.topicsPath
  | .outputPath, c => c.outputPath
  | .runTag, c => c.runTag
  | .url, c => c.backend.url
  | .pageStart, c => c.backend.pageStart
  | .pageSize, c => c.backend.pageSize
  | .timeoutMs, c => c.backend.timeoutMs?
  | .responseFormat, c => c.backend.responseFormat?
  | .formulaBoost, c => c.scoring.formulaBoost?
  | .maxDepth, c => c.scoring.maxDepth
  | .paddingEnabled, c => c.padding.enabled?
  | .paddingTarget, c => c.padding.target
  | .fillerPath, c => c.padding.fillerPath
  | .seed, c => c.padding.seed?
  | .variantThreads, c => c.variantThreads

/-- The default of a setting. -/
def fallback (s : Setting) : s.Value := s.get {}

end Setting

/-- A configuration is determined by its settings. -/
theorem RunConfig.ext_get {c d : RunConfig} (h : ∀ s : Setting, s.get c = s.get d) : c = d := by
  obtain ⟨profile, topicsPath, outputPath, runTag, ⟨url, pageStart, pageSize, timeoutMs?,
    responseFormat?⟩, ⟨formulaBoost?, maxDepth⟩, ⟨enabled?, target, fillerPath, seed?⟩,
    variantThreads⟩ := c
  obtain ⟨profile', topicsPath', outputPath', runTag', ⟨url', pageStart', pageSize', timeoutMs?',
    responseFormat?'⟩, ⟨formulaBoost?', maxDepth'⟩, ⟨enabled?', target', fillerPath', seed?'⟩,
    variantThreads'⟩ := d
  obtain rfl : profile = profile' := h .profile
  obtain rfl : topicsPath = topicsPath' := h .topicsPath
  obtain rfl : outputPath = outputPath' := h .outputPath
  obtain rfl : runTag = runTag' := h .runTag
  obtain rfl : url = url' := h .url
  obtain rfl : pageStart = pageStart' := h .pageStart
  obtain rfl : pageSize = pageSize' := h .pageSize
  obtain rfl : timeoutMs? = timeoutMs?' := h .timeoutMs
  obtain rfl : responseFormat? = responseFormat?' := h .responseFormat
  obtain rfl : formulaBoost? = formulaBoost?' := h .formulaBoost
  obtain rfl : maxDepth = maxDepth' := h .maxDepth
  obtain rfl : enabled? = enabled?' := h .paddingEnabled
  obtain rfl : target = target' := h .paddingTarget
  obtain rfl : fillerPath = fillerPath' := h .fillerPath
  obtain rfl : seed? = seed?' := h .seed
  obtain rfl : variantThreads = variantThreads' := h .variantThreads
  rfl

/-! ### Their places in a document -/

namespace Section

/-- The key of a section. -/
def name : Section → String
  | .backend => "backend"
  | .scoring => "scoring"
  | .padding => "padding"
  | .concurrency => "concurrency"

/-- The keys of the settings of a section, in their order. -/
def keys : Section → List String
  | .backend => ["url", "from", "size", "timeout_ms", "response_format"]
  | .scoring => ["formula_boost", "max_depth"]
  | .padding => ["enabled", "target", "filler_path", "seed"]
  | .concurrency => ["variant_threads"]

/-- What stands in the place of the section, if anything does, holds settings. -/
def IsShaped (sec : Section) (doc : Entries) : Prop :=
  ∀ v, doc.lookup sec.name = some v → (readSection sec.keys v).isSome = true

/-- The entries of a section, none if it is left out. -/
def entries (sec : Section) (doc : Entries) : Entries :=
  ((doc.lookup sec.name).bind (readSection sec.keys)).getD []

end Section

namespace Setting

/-- The section of a setting, or none at the top of the document. -/
def section? : Setting → Option Section
  | .profile | .topicsPath | .outputPath | .runTag => none
  | .url | .pageStart | .pageSize | .timeoutMs | .responseFormat => some .backend
  | .formulaBoost | .maxDepth => some .scoring
  | .paddingEnabled | .paddingTarget | .fillerPath | .seed => some .padding
  | .variantThreads => some .concurrency

/-- The key of a setting. -/
def key : Setting → String
  | .profile => "profile"
  | .topicsPath => "topics"
  | .outputPath => "output"
  | .runTag => "run_tag"
  | .url => "url"
  | .pageStart => "from"
  | .pageSize => "size"
  | .timeoutMs => "timeout_ms"
  | .responseFormat => "response_format"
  | .formulaBoost => "formula_boost"
  | .maxDepth => "max_depth"
  | .paddingEnabled => "enabled"
  | .paddingTarget => "target"
  | .fillerPath => "filler_path"
  | .seed => "seed"
  | .variantThreads => "variant_threads"

/-- What a document has under the key of a setting. -/
def written? (s : Setting) (doc : Entries) : Option Toml.Value :=
  (s.section?.elim doc fun sec => sec.entries doc).lookup s.key

/-- Reads what stands under the key of a setting. -/
def read : (s : Setting) → Toml.Value → Option s.Value
  | .profile => readChoice Profile.ofName?
  | .topicsPath | .outputPath | .runTag | .url | .fillerPath => readString
  | .pageStart | .pageSize | .maxDepth | .paddingTarget | .variantThreads => readNatural
  | .timeoutMs => fun v => (readNatural v).map some
  | .responseFormat => fun v => (readChoice Response.Format.ofName? v).map some
  | .formulaBoost => fun v => (readFloat v).map some
  | .paddingEnabled => fun v => (readBoolean v).map some
  | .seed => fun v => (readSeed v).map some

/-- The value that a document sets. -/
def inFile? (s : Setting) (doc : Entries) : Option s.Value := (s.written? doc).bind s.read

/-- The setting of the document: what is read under its key, or the default if
    the key is left out. -/
def readFrom (s : Setting) (doc : Entries) : Option s.Value :=
  (s.written? doc).elim (some s.fallback) s.read

end Setting

/-! ### Reading a document -/

variable {doc : Entries}

theorem setting_eq_elim {α : Type} (entries : Entries) (name : String) (fallback : α)
    (read : Value → Option α) :
    setting entries name fallback read = (entries.lookup name).elim (some fallback) read := by
  unfold setting
  cases entries.lookup name <;> rfl

/-- A section is read as a table of its entries, and one that is left out as a
    table without any. -/
theorem setting_section {α : Type} (sec : Section) {fallback : α} (read : Value → Option α)
    (hread : ∀ v, read v =
      (readSection sec.keys v).bind fun entries => read (.table .header entries))
    (hempty : read (.table .header []) = some fallback) {a : α} :
    setting doc sec.name fallback read = some a ↔
      sec.IsShaped doc ∧ read (.table .header (sec.entries doc)) = some a := by
  rw [setting_eq_elim]
  cases hlookup : doc.lookup sec.name with
  | none => simp [Section.IsShaped, Section.entries, hlookup, hempty]
  | some v =>
    cases hshape : readSection sec.keys v with
    | none => simp [Section.IsShaped, hlookup, hread v, hshape]
    | some entries => simp [Section.IsShaped, Section.entries, hlookup, hread v, hshape]

theorem setting_backend {b : BackendSettings} :
    setting doc "backend" {} readBackend = some b ↔
      Section.backend.IsShaped doc ∧
        Setting.url.readFrom doc = some b.url ∧ Setting.pageStart.readFrom doc = some b.pageStart ∧
        Setting.pageSize.readFrom doc = some b.pageSize ∧
        Setting.timeoutMs.readFrom doc = some b.timeoutMs? ∧
        Setting.responseFormat.readFrom doc = some b.responseFormat? := by
  refine (setting_section .backend readBackend (fun _ => rfl) rfl).trans (and_congr_right' ?_)
  simp only [readBackend, readSection, optional, setting_eq_elim, Option.bind_eq_bind,
    Option.bind_some, Option.bind_eq_some_iff, Option.some.injEq]
  constructor
  · rintro ⟨_, hurl, _, hstart, _, hsize, _, htimeout, _, hformat, rfl⟩
    exact ⟨hurl, hstart, hsize, htimeout, hformat⟩
  · rintro ⟨hurl, hstart, hsize, htimeout, hformat⟩
    exact ⟨_, hurl, _, hstart, _, hsize, _, htimeout, _, hformat, rfl⟩

theorem setting_scoring {r : ScoringSettings} :
    setting doc "scoring" {} readScoring = some r ↔
      Section.scoring.IsShaped doc ∧
        Setting.formulaBoost.readFrom doc = some r.formulaBoost? ∧
        Setting.maxDepth.readFrom doc = some r.maxDepth := by
  refine (setting_section .scoring readScoring (fun _ => rfl) rfl).trans (and_congr_right' ?_)
  simp only [readScoring, readSection, optional, setting_eq_elim, Option.bind_eq_bind,
    Option.bind_some, Option.bind_eq_some_iff, Option.some.injEq]
  constructor
  · rintro ⟨_, hboost, _, hdepth, rfl⟩
    exact ⟨hboost, hdepth⟩
  · rintro ⟨hboost, hdepth⟩
    exact ⟨_, hboost, _, hdepth, rfl⟩

theorem setting_padding {p : PaddingSettings} :
    setting doc "padding" {} readPadding = some p ↔
      Section.padding.IsShaped doc ∧
        Setting.paddingEnabled.readFrom doc = some p.enabled? ∧
        Setting.paddingTarget.readFrom doc = some p.target ∧
        Setting.fillerPath.readFrom doc = some p.fillerPath ∧
        Setting.seed.readFrom doc = some p.seed? := by
  refine (setting_section .padding readPadding (fun _ => rfl) rfl).trans (and_congr_right' ?_)
  simp only [readPadding, readSection, optional, setting_eq_elim, Option.bind_eq_bind,
    Option.bind_some, Option.bind_eq_some_iff, Option.some.injEq]
  constructor
  · rintro ⟨_, henabled, _, htarget, _, hfiller, _, hseed, rfl⟩
    exact ⟨henabled, htarget, hfiller, hseed⟩
  · rintro ⟨henabled, htarget, hfiller, hseed⟩
    exact ⟨_, henabled, _, htarget, _, hfiller, _, hseed, rfl⟩

theorem setting_concurrency {threads : Nat} :
    setting doc "concurrency" 1 readConcurrency = some threads ↔
      Section.concurrency.IsShaped doc ∧ Setting.variantThreads.readFrom doc = some threads := by
  refine (setting_section .concurrency readConcurrency (fun _ => rfl) rfl).trans
    (and_congr_right' ?_)
  simp only [readConcurrency, readSection, setting_eq_elim, Option.bind_eq_bind, Option.bind_some]
  exact Iff.rfl

/-- A document gives a configuration if and only if its sections hold settings
    and each setting of the configuration is read at its place. So no setting
    depends on what stands in the place of another. -/
theorem readEntries_eq_some_iff {c : RunConfig} :
    readEntries doc = some c ↔
      (∀ sec : Section, sec.IsShaped doc) ∧ ∀ s : Setting, s.readFrom doc = some (s.get c) := by
  simp only [readEntries, Option.bind_eq_bind, Option.bind_eq_some_iff, Option.some.injEq]
  constructor
  · rintro ⟨profile, hprofile, topics, htopics, output, houtput, tag, htag, b, hbackend, r,
      hscoring, p, hpadding, threads, hconcurrency, rfl⟩
    rw [setting_eq_elim] at hprofile htopics houtput htag
    obtain ⟨hbackend, hurl, hstart, hsize, htimeout, hformat⟩ := setting_backend.1 hbackend
    obtain ⟨hscoring, hboost, hdepth⟩ := setting_scoring.1 hscoring
    obtain ⟨hpadding, henabled, htarget, hfiller, hseed⟩ := setting_padding.1 hpadding
    obtain ⟨hconcurrency, hthreads⟩ := setting_concurrency.1 hconcurrency
    refine ⟨?_, ?_⟩
    · intro sec
      cases sec with
      | backend => exact hbackend
      | scoring => exact hscoring
      | padding => exact hpadding
      | concurrency => exact hconcurrency
    · intro s
      cases s with
      | profile => exact hprofile
      | topicsPath => exact htopics
      | outputPath => exact houtput
      | runTag => exact htag
      | url => exact hurl
      | pageStart => exact hstart
      | pageSize => exact hsize
      | timeoutMs => exact htimeout
      | responseFormat => exact hformat
      | formulaBoost => exact hboost
      | maxDepth => exact hdepth
      | paddingEnabled => exact henabled
      | paddingTarget => exact htarget
      | fillerPath => exact hfiller
      | seed => exact hseed
      | variantThreads => exact hthreads
  · rintro ⟨hshaped, hread⟩
    simp only [setting_eq_elim _ "profile", setting_eq_elim _ "topics",
      setting_eq_elim _ "output", setting_eq_elim _ "run_tag"]
    exact ⟨_, hread .profile, _, hread .topicsPath, _, hread .outputPath, _, hread .runTag,
      _, setting_backend.2 ⟨hshaped _, hread .url, hread .pageStart, hread .pageSize,
        hread .timeoutMs, hread .responseFormat⟩,
      _, setting_scoring.2 ⟨hshaped _, hread .formulaBoost, hread .maxDepth⟩,
      _, setting_padding.2 ⟨hshaped _, hread .paddingEnabled, hread .paddingTarget,
        hread .fillerPath, hread .seed⟩,
      _, setting_concurrency.2 ⟨hshaped _, hread .variantThreads⟩, rfl⟩

/-- A setting of a document that gives a configuration is what the document
    sets, or the default. -/
theorem get_eq_getD_inFile? {c : RunConfig} (h : readEntries doc = some c) (s : Setting) :
    s.get c = (s.inFile? doc).getD s.fallback := by
  have hread := (readEntries_eq_some_iff.1 h).2 s
  unfold Setting.readFrom at hread
  unfold Setting.inFile?
  cases hwritten : s.written? doc with
  | none =>
    rw [hwritten, Option.elim_none, Option.some.injEq] at hread
    exact hread.symm
  | some v =>
    rw [hwritten, Option.elim_some] at hread
    rw [Option.bind_some, hread, Option.getD_some]

/-- The empty document gives the defaults. -/
theorem readEntries_nil : readEntries [] = some {} := rfl

end EvalRun.Config
