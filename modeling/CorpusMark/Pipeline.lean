import CorpusMark.Config.Basic
import CorpusMark.Dataset
import CorpusMark.Partition
import CorpusMark.Rewriter

/-!
# Marking a corpus

A corpus is divided into one part for each backdoor. Every sample of a part is parsed, searched
for occurrences and, if it has one for each term, rewritten. At each rate the selected samples
that could be rewritten are emitted marked and all other parsed samples as they are. What can be
wrong with a configuration is found before any sample is looked at.
-/

namespace CorpusMark

/-- What became of a sample. -/
inductive SampleState where
  | parseFailed (cause : ParseError)
  /-- Some transform of the backdoor has no occurrence. -/
  | ineligible
  /-- Every transform has one; holds the rewritten code, or why there is none. -/
  | eligible (result : Except TransformError String)

/-- A sample and what became of it. -/
structure SampleOutcome where
  index : Nat
  code : String
  state : SampleState
  /-- Number of occurrences by transform. -/
  occurrences : SortedMap Nat

namespace SampleOutcome

def isParsed (o : SampleOutcome) : Bool :=
  match o.state with
  | .parseFailed _ => false
  | _ => true

def isEligible (o : SampleOutcome) : Bool :=
  match o.state with
  | .eligible _ => true
  | _ => false

/-- The rewritten code. -/
def rewritten? (o : SampleOutcome) : Option String :=
  match o.state with
  | .eligible (.ok code) => some code
  | _ => none

end SampleOutcome

/-- The counters of a list of samples. -/
def countOutcomes (outcomes : List SampleOutcome) : Counts :=
  let parsed := outcomes.filter SampleOutcome.isParsed
  let eligible := outcomes.countP SampleOutcome.isEligible
  let notRewritten := outcomes.countP fun o => o.isEligible && o.rewritten?.isNone
  { total := outcomes.length
    parseFailed := outcomes.countP fun o => !o.isParsed
    parsed := parsed.length
    eligible := eligible
    rewritten := eligible - notRewritten
    notRewritten := notRewritten
    occurrences := parsed.foldl (fun m o => Counts.addOccurrences m o.occurrences)
      SortedMap.empty }

/-- A marking job whose configuration has been checked. -/
structure Pipeline where
  catalog : Catalog
  parser : Parser
  rewriter : Rewriter
  /-- One backdoor for each part. -/
  backdoors : List Backdoor
  /-- The configured rates, ascending. -/
  rates : List Double
  order : SelectionOrder

namespace Pipeline

/-- The language of a configuration. -/
def languageOf (config : Config) : Except ConfigError Language := do
  let name ← config.requireLanguage
  match Language.ofName? name with
  | some language => return language
  | none => throw (.unsupportedLanguage name)

/-- Checks a configuration: the language, then the backdoors, then the rates. -/
def ofConfig (grammars : Language → Grammar) (config : Config) :
    Except ConfigError Pipeline := do
  let language ← languageOf config
  let catalog := Catalog.ofLanguage language
  let backdoors ← Backdoor.parseAll catalog (config.backdoors.getD catalog.defaultBackdoors)
  let rates ← Rate.validate config.effectiveRates
  let parser : Parser := ⟨grammars language, config.parse.limits⟩
  return {
    catalog := catalog
    parser := parser
    rewriter := Rewriter.ofParser parser config.rewriter.effectiveVerify
      config.rewriter.effectiveBudget
    backdoors := backdoors
    rates := rates
    order := config.selection.selectionOrder }

def language (p : Pipeline) : Language := p.catalog.language

/-- Parses, searches and, if it is eligible, rewrites one sample. -/
def processSample (p : Pipeline) (b : Backdoor) (index : Nat) (code : String) : SampleOutcome :=
  match p.parser.parse code with
  | .error e => ⟨index, code, .parseFailed e, SortedMap.empty⟩
  | .ok arena =>
    let found : MatchSet :=
      match Occurrence.findAll p.catalog ⟨index, arena⟩ b.ids with
      | .ok found => found
      | .error _ => SortedMap.empty
    { index := index
      code := code
      state :=
        if found.covers b.ids then .eligible (p.rewriter.applyBackdoor arena found b)
        else .ineligible
      occurrences := found.mapValues Array.size }

/-- The outcomes of consecutive samples, the first of which has the given index. -/
def processAll (p : Pipeline) (b : Backdoor) : Nat → List String → List SampleOutcome
  | _, [] => []
  | index, code :: rest => p.processSample b index code :: processAll p b (index + 1) rest

/-- Emits a sample at a rate: marked if it is selected and could be rewritten. -/
def emit (selection : Selection) (r : Release) (o : SampleOutcome) : Release :=
  match o.rewritten? with
  | some code =>
    if selection.isSelected o.index then r.pushMarked ⟨o.index, code⟩
    else r.pushClean ⟨o.index, o.code⟩
  | none => r.pushClean ⟨o.index, o.code⟩

/-- The release of a part at a rate, with its numbers. -/
def releaseAt (order : SelectionOrder) (outcomes : List SampleOutcome) (rate : Double) :
    Release × RateStats :=
  let eligible := (outcomes.filter SampleOutcome.isEligible).map SampleOutcome.index
  let selection := select order rate eligible
  let release := (outcomes.filter SampleOutcome.isParsed).foldl (emit selection)
    (Release.empty rate)
  let rewritten := outcomes.countP fun o =>
    o.rewritten?.isSome && selection.isSelected o.index
  (release, ⟨rate, selection.marked.size, rewritten⟩)

/-- The records of a part: everything emitted at a rate, labelled. -/
def testRecords (b : Backdoor) (top : Release) : List TestRecord :=
  let marked := top.marked.map Blob.index
  top.all.toList.map fun blob =>
    ⟨blob.index, b.part, blob.code, searchSorted marked blob.index 0 marked.size, b.label⟩

/-- Gathers the outcomes of a part at every rate. Records follow the highest rate. -/
def assemblePart (p : Pipeline) (b : Backdoor) (outcomes : List SampleOutcome) : PartResult :=
  let results := (Rate.withBaseline p.rates).map (releaseAt p.order outcomes)
  let releases := results.map Prod.fst
  let test := match releases.getLast? with
    | none => []
    | some top => testRecords b top
  { part := b.part
    releases := releases
    test := test
    actual := (test.filter TestRecord.isMarked).map fun r => ⟨r.code⟩
    stats := PartStats.ofCounts b.part b.label (countOutcomes outcomes) (results.map Prod.snd) }

/-- Processes the samples of a part, the first of which has the given index. -/
def processPart (p : Pipeline) (b : Backdoor) (start : Nat) (codes : List String) : PartResult :=
  p.assemblePart b (p.processAll b start codes)

/-- Processes the parts in order, each with its share of the samples that are left. -/
def runParts (p : Pipeline) :
    List (Backdoor × IndexRange) → List String → Assembly → Except AssemblyError Assembly
  | [], _, gathered => .ok gathered
  | (b, range) :: rest, codes, gathered =>
    match gathered.push (p.processPart b range.start (codes.take range.length)) with
    | .error e => .error e
    | .ok gathered => runParts p rest (codes.drop range.length) gathered

/-- Marks a whole corpus. -/
def run (p : Pipeline) (corpus : List String) : Except AssemblyError Dataset :=
  let ranges := splitContiguous corpus.length p.backdoors.length
  (p.runParts (p.backdoors.zip ranges) corpus (Assembly.start p.rates)).map Assembly.finish

/-- Marks a whole corpus on so many workers. The system sets them up and may fail to; with 0 there
is nothing to set up. -/
def runOn (setUp : Nat → Except String Unit) (workers : Nat) (p : Pipeline)
    (corpus : List String) : Except RunError Dataset := do
  if workers ≠ 0 then
    (setUp workers).mapError RunError.threadPool
  (p.run corpus).mapError RunError.assembly

end Pipeline

end CorpusMark
