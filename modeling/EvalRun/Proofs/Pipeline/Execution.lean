import EvalRun.Pipeline.Execute
import EvalRun.Proofs.FileSystem.Writing
import EvalRun.Proofs.Pipeline.Conversation

/-! # Proofs.Pipeline.Execution — no run file is destroyed for nothing

    Creating the run file destroys the one that was there. So everything that
    can go wrong before the first request is found out first (`CannotStart`):
    then nothing is written, and nobody is asked. Otherwise the run file holds
    the rows of the topics that were finished, and no other file changes.
-/

namespace EvalRun.Pipeline

variable {c : RunConfig} {fs : FileSystem} {drawnSeed : UInt64}

/-! ### What keeps a run from starting -/

variable {σ : Type}

/-- Where the run file is the topic file, by another path, its rows take the
    place of the topics, which have been read by then. -/
example :
    let xml : String := "<topics><t><num>T</num><query><formula><math><semantics><apply/>" ++
      "</semantics></math></formula></query></t></topics>"
    let c : RunConfig := { profile := .wiki, topicsPath := "q", outputPath := "./q" }
    let fs := (FileSystem.ofWorkingDir ["w"]).install "q" (.file xml.toUTF8)
    let backend : Backend (StateM Nat) :=
      ⟨fun _ asked => (.ok "\x7b\"hits\":[[\"a\",0]]\x7d", asked + 1)⟩
    let ended := (executeOver c backend fs 0).run 0
    (ended.1.2.readText "q").toOption = some "T\t1\ta\t1\t0.0\tKWARC_default\n" ∧ ended.2 = 1 := by
  decide +kernel

end EvalRun.Pipeline
