import CorpusMark.Config.Json
import CorpusMark.Error
import CorpusMark.Toml.Reader

/-!
# Configurations in TOML

A configuration file is a TOML document of settings. Settings left out are unset; unknown keys are
passed over.
-/

namespace CorpusMark

/-- Reads a setting that may be left out. -/
def Toml.setting? {α : Type} (read? : Toml.Value → Option α) :
    Option Toml.Value → Option (Option α)
  | none => some none
  | some v => (read? v).map some

/-- Reads a group of settings that may be left out. -/
def Toml.group? {α : Type} [Inhabited α] (read? : Toml.Value → Option α) :
    Option Toml.Value → Option α
  | none => some default
  | some v => read? v

open Toml (Value)

def ParseSettings.ofToml? (v : Value) : Option ParseSettings := do
  match ← v.fields? ["max_depth", "reject_error_trees"] with
  | [depth, reject] => some ⟨← Toml.setting? Value.nat? depth, ← Toml.setting? Value.bool? reject⟩
  | _ => none

def RewriterSettings.ofToml? (v : Value) : Option RewriterSettings := do
  match ← v.fields? ["verify", "search_budget"] with
  | [verify, budget] =>
    some ⟨← Toml.setting? Value.bool? verify, ← Toml.setting? Value.nat? budget⟩
  | _ => none

def SelectionSettings.ofToml? (v : Value) : Option SelectionSettings := do
  match ← v.fields? ["order", "seed"] with
  | [order, seed] =>
    some ⟨← Toml.setting? (Value.choice? OrderKind.ofName?) order,
      ← Toml.setting? Value.nat? seed⟩
  | _ => none

namespace Config

/-- Reads the table of a document. -/
def ofTable? (v : Value) : Option Config := do
  match ← v.fields? settingNames with
  | [language, datasetName, dataPath, outputDir, backdoors, rates, threads, parse, rewriter,
      selection] =>
    some {
      language := ← Toml.setting? Value.string? language
      datasetName := ← Toml.setting? Value.string? datasetName
      dataPath := ← Toml.setting? Value.string? dataPath
      outputDir := ← Toml.setting? Value.string? outputDir
      backdoors := ← Toml.setting? (Value.listOf? (Value.listOf? Value.string?)) backdoors
      rates := ← Toml.setting? (Value.listOf? Value.double?) rates
      threads := ← Toml.setting? Value.nat? threads
      parse := ← Toml.group? ParseSettings.ofToml? parse
      rewriter := ← Toml.group? RewriterSettings.ofToml? rewriter
      selection := ← Toml.group? SelectionSettings.ofToml? selection }
  | _ => none

/-- Reads a document. -/
def ofToml (text : String) : Except ConfigError Config := do
  let some table := Toml.parse? text | throw (.malformed "not a TOML document")
  let some config := ofTable? table | throw (.malformed "a setting has a value of another type")
  return config

end Config

end CorpusMark
