import CorpusMark.Config.Basic
import CorpusMark.Json.Fields

/-!
# Configurations in JSON

A configuration is an object of settings, or an array of them in their order. Settings left out
or `null` are unset; unknown members are passed over.
-/

namespace CorpusMark

open Json (Value)

namespace OrderKind

def name : OrderKind → String
  | index => "index"
  | hashed => "hashed"

def ofName? : String → Option OrderKind
  | "index" => some index
  | "hashed" => some hashed
  | _ => none

end OrderKind

/-- Reads a setting that may be missing or `null`. -/
def setting? {α : Type} (read? : Value → Option α) : Option Value → Option (Option α)
  | none => some none
  | some v => v.nullable? read?

/-- Reads a group of settings that may be missing but is not `null`. -/
def group? {α : Type} [Inhabited α] (read? : Value → Option α) : Option Value → Option α
  | none => some default
  | some v => read? v

namespace ParseSettings

def toJson (s : ParseSettings) : Value :=
  .record [("max_depth", .ofOption (s.maxDepth.map .ofNat)),
    ("reject_error_trees", .ofOption (s.rejectFaults.map .ofBool))]

def ofJson? (v : Value) : Option ParseSettings := do
  match ← v.fields? ["max_depth", "reject_error_trees"] with
  | [depth, reject] => some ⟨← setting? Value.nat? depth, ← setting? Value.bool? reject⟩
  | _ => none

end ParseSettings

namespace RewriterSettings

def toJson (s : RewriterSettings) : Value :=
  .record [("verify", .ofOption (s.verify.map .ofBool)),
    ("search_budget", .ofOption (s.searchBudget.map .ofNat))]

def ofJson? (v : Value) : Option RewriterSettings := do
  match ← v.fields? ["verify", "search_budget"] with
  | [verify, budget] => some ⟨← setting? Value.bool? verify, ← setting? Value.nat? budget⟩
  | _ => none

end RewriterSettings

namespace SelectionSettings

def toJson (s : SelectionSettings) : Value :=
  .record [("order", .ofOption (s.order.map fun k => .ofString k.name)),
    ("seed", .ofOption (s.seed.map .ofNat))]

def ofJson? (v : Value) : Option SelectionSettings := do
  match ← v.fields? ["order", "seed"] with
  | [order, seed] =>
    some ⟨← setting? (Value.choice? OrderKind.ofName?) order, ← setting? Value.nat? seed⟩
  | _ => none

end SelectionSettings

namespace Config

/-- Names of the settings, in order. -/
def settingNames : List String :=
  ["language", "dataset_name", "data_path", "output_dir", "backdoors", "mark_rates", "threads",
    "parse", "rewrite", "selection"]

def toJson (c : Config) : Value :=
  let text (s : Option String) : Value := .ofOption (s.map .ofString)
  .record [("language", text c.language), ("dataset_name", text c.datasetName),
    ("data_path", text c.dataPath), ("output_dir", text c.outputDir),
    ("backdoors", .ofOption (c.backdoors.map fun lists =>
      .array (lists.map fun entries => .array (entries.map .ofString)))),
    ("mark_rates", .ofOption (c.rates.map fun rates => .array (rates.map .ofDouble))),
    ("threads", .ofOption (c.threads.map .ofNat)), ("parse", c.parse.toJson),
    ("rewrite", c.rewriter.toJson), ("selection", c.selection.toJson)]

def ofJson? (v : Value) : Option Config := do
  match ← v.fields? settingNames with
  | [language, datasetName, dataPath, outputDir, backdoors, rates, threads, parse, rewriter,
      selection] =>
    some {
      language := ← setting? Value.text? language
      datasetName := ← setting? Value.text? datasetName
      dataPath := ← setting? Value.text? dataPath
      outputDir := ← setting? Value.text? outputDir
      backdoors := ← setting? (Value.listOf? (Value.listOf? Value.text?)) backdoors
      rates := ← setting? (Value.listOf? Value.double?) rates
      threads := ← setting? Value.nat? threads
      parse := ← group? ParseSettings.ofJson? parse
      rewriter := ← group? RewriterSettings.ofJson? rewriter
      selection := ← group? SelectionSettings.ofJson? selection }
  | _ => none

end Config

end CorpusMark
