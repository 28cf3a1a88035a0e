import EvalRun.CommandLine.Arguments
import EvalRun.Config.File

/-! # CommandLine.Layers — arguments over the configuration file

    Settings come from three layers: an argument wins over the file, and the
    file over the defaults. A file that is named must be there; the usual one
    may be missing. The file has to be acceptable on its own, before any
    argument mends it.
-/

namespace EvalRun.CommandLine

namespace Overrides

/-- The configuration file that is asked for, or the usual one. -/
def configPath (o : Overrides) : String := o.configPath?.getD configFileName

/-- Padding as the arguments leave it. -/
def applyToPadding (o : Overrides) (p : PaddingSettings) : PaddingSettings :=
  { p with
    enabled? := if o.noPadding then some false else p.enabled?
    fillerPath := o.fillerPath?.getD p.fillerPath
    seed? := o.seed? <|> p.seed? }

/-- Settings as the arguments leave them. -/
def applyTo (o : Overrides) (c : RunConfig) : RunConfig :=
  { c with
    profile := o.profile?.getD c.profile
    topicsPath := o.topicsPath?.getD c.topicsPath
    outputPath := o.outputPath?.getD c.outputPath
    runTag := o.runTag?.getD c.runTag
    backend := { c.backend with url := o.backendUrl?.getD c.backend.url }
    padding := o.applyToPadding c.padding
    variantThreads := o.threads?.getD c.variantThreads }

/-- The settings below the arguments. -/
def baseConfig (o : Overrides) (fs : FileSystem) : Except RunError RunConfig :=
  match o.configPath? with
  | some path => RunConfig.ofFile fs path
  | none =>
    if fs.exists? configFileName then RunConfig.ofFile fs configFileName else .ok {}

/-- The settings of a run. -/
def loadConfig (o : Overrides) (fs : FileSystem) : Except RunError RunConfig := do
  let base ← o.baseConfig fs
  let c := o.applyTo base
  c.validate
  return c

end Overrides

end EvalRun.CommandLine
