import CorpusMark.Corpus
import CorpusMark.Decode
import CorpusMark.Proofs.Artifacts
import CorpusMark.Proofs.Json.RoundTrip
import Mathlib

/-!
# Files with a record on each line

The files of test records and of marked codes are made to be read again, by
programs that decode their lines and by a later run that takes them for a corpus.
Both get back what was written (`writeArtifacts_recovered`). A compact form holds
no end of a line, so lines and records match one by one (`lines_jsonLines`); the
form of a record is strict, so it is read as what it was written from.
-/

namespace CorpusMark

open Json (Value)

/-! ## JSON forms of records -/

namespace TestRecord

variable {r : TestRecord}

/-- Whether the numbers of a record have at most 64 bits. -/
def FitsWords (r : TestRecord) : Prop := r.index ≤ maxWord ∧ r.part ≤ maxWord

theorem isStrict_toJson (h : r.FitsWords) : r.toJson.isStrict Json.maxNesting = true := by
  obtain ⟨hindex, hpart⟩ := h
  simp [toJson, Value.record, Value.isStrict, Json.maxNesting, Json.allMembersStrict,
    Value.ofString, Value.ofNat, Value.ofBool, Json.isNumberInRange_toDigits, hindex, hpart]

/-- A record is got back from its JSON form. -/
theorem ofJson?_toJson (h : r.FitsWords) : ofJson? r.toJson = some r := by
  obtain ⟨hindex, hpart⟩ := h
  simp [toJson, ofJson?, Value.record, Value.fields?, Value.members?, Value.fieldOf?,
    Value.nat?_ofNat, hindex, hpart, Value.ofString, Value.ofBool, Value.text?, Value.bool?]

theorem codeOf?_toJson (r : TestRecord) : Corpus.codeOf? r.toJson = some r.code := by
  simp [toJson, Corpus.codeOf?, Value.record, Value.member?, Value.ofString, Value.text?]

end TestRecord

namespace ActualRecord

theorem isStrict_toJson (r : ActualRecord) : r.toJson.isStrict Json.maxNesting = true := by
  simp [toJson, Value.record, Value.isStrict, Json.maxNesting, Json.allMembersStrict,
    Value.ofString]

/-- A record is got back from its JSON form. -/
theorem ofJson?_toJson (r : ActualRecord) : ofJson? r.toJson = some r := by
  simp [toJson, ofJson?, Value.record, Value.fields?, Value.members?, Value.fieldOf?,
    Value.ofString, Value.text?]

theorem codeOf?_toJson (r : ActualRecord) : Corpus.codeOf? r.toJson = some r.code := by
  simp [toJson, Corpus.codeOf?, Value.record, Value.member?, Value.ofString, Value.text?]

end ActualRecord

/-! ## Lines -/

namespace Corpus

variable {values : List Value}

theorem toList_jsonLines (values : List Value) :
    (Dataset.jsonLines values).toList = values.flatMap fun v => v.chars ++ ['\n'] := by
  simp [Dataset.jsonLines, Value.write, List.flatMap_map]

theorem notMem_chars_of_isStrict {levels : Nat} {v : Value} (h : v.isStrict levels = true)
    {c : Char} (hc : c.toNat < 0x20) : c ∉ v.chars :=
  fun hmem => Nat.not_le.mpr hc (Json.isPlain_chars levels v h c hmem)

theorem splitOn_jsonLines (h : ∀ v ∈ values, v.isStrict Json.maxNesting = true) :
    (Dataset.jsonLines values).toList.splitOn '\n' = values.map Value.chars ++ [[]] := by
  rw [toList_jsonLines]
  induction values with
  | nil => rfl
  | cons v vs ih =>
    rw [List.forall_mem_cons] at h
    have hfeed := notMem_chars_of_isStrict h.1 (show '\n'.toNat < 0x20 by decide)
    rw [List.flatMap_cons, List.append_assoc, List.singleton_append,
      List.splitOn_append_cons_self, List.splitOn_eq_singleton hfeed, ih h.2]
    rfl

/-- **The lines of written values** are their compact forms. -/
theorem lines_jsonLines (h : ∀ v ∈ values, v.isStrict Json.maxNesting = true) :
    lines (Dataset.jsonLines values) = values.map Value.chars := by
  have hkept : ∀ v ∈ values, (dropReturn ∘ Value.chars) v = v.chars := by
    intro v hv
    refine if_neg fun hlast => ?_
    exact notMem_chars_of_isStrict (h v hv) (show '\r'.toNat < 0x20 by decide)
      (List.mem_of_getLast? hlast)
  rw [lines, splitOn_jsonLines h, List.dropLast_concat, List.getLast?_concat, List.map_map,
    List.map_congr_left hkept]
  simp

theorem count_jsonLines (h : ∀ v ∈ values, v.isStrict Json.maxNesting = true) :
    (Dataset.jsonLines values).toList.count '\n' = values.length := by
  rw [toList_jsonLines]
  induction values with
  | nil => rfl
  | cons v vs ih =>
    rw [List.forall_mem_cons] at h
    have hfeed := notMem_chars_of_isStrict h.1 (show '\n'.toNat < 0x20 by decide)
    rw [List.flatMap_cons, List.count_append, List.count_append, ih h.2,
      List.count_eq_zero.mpr hfeed]
    simp [Nat.add_comm]

/-- A record with a code does not look like a blank line. -/
theorem not_all_isBlank_chars {v : Value} {code : String} (h : codeOf? v = some code) :
    v.chars.all Text.isBlank = false := by
  cases v with
  | object members => rfl
  | _ => cases h

variable {α : Type} {toJson : α → Value} {code : α → String} {records : List α}

theorem codesOfLines_eq_ok (path : String) (number : Nat)
    (hstrict : ∀ r ∈ records, (toJson r).isStrict Json.maxNesting = true)
    (hcode : ∀ r ∈ records, codeOf? (toJson r) = some (code r)) :
    codesOfLines path number ((records.map toJson).map Value.chars) = .ok (records.map code) := by
  induction records generalizing number with
  | nil => rfl
  | cons r rest ih =>
    rw [List.forall_mem_cons] at hstrict hcode
    have hline : codeOfLine path number (String.ofList (toJson r).chars) = .ok (code r) := by
      rw [codeOfLine, ← Value.write, Json.parse?_write hstrict.1]
      simp only [hcode.1]
    rw [List.map_cons, List.map_cons, codesOfLines, not_all_isBlank_chars hcode.1,
      if_neg Bool.false_ne_true, hline, ih _ hstrict.2 hcode.2]
    rfl

/-- Codes of records are read from a file whose name says that it has a record on
each line. -/
theorem codesOf_jsonLines {path name : String} (hname : Path.fileName? path = some name)
    (hsuffix : name.endsWith linesSuffix = true)
    (hstrict : ∀ r ∈ records, (toJson r).isStrict Json.maxNesting = true)
    (hcode : ∀ r ∈ records, codeOf? (toJson r) = some (code r)) :
    codesOf path (Dataset.jsonLines (records.map toJson)) = .ok (records.map code) := by
  rw [codesOf, hname, Option.getD_some, if_pos hsuffix,
    lines_jsonLines (List.forall_mem_map.mpr hstrict), codesOfLines_eq_ok path 1 hstrict hcode]

/-! ## Files -/

theorem fromUTF8?_toUTF8 (s : String) : String.fromUTF8? s.toUTF8 = some s :=
  dif_pos s.isValidUTF8

theorem run_loadFile {t : FileTree} {path text : String}
    (h : t.content path = .ok text.toUTF8) :
    (loadFile FileTree.access.toFileReading path).run t = (codesOf path text, t) := by
  have hcontent : (FileTree.access.content path).run t = (.ok text.toUTF8, t) :=
    congrArg (·, t) h
  have htext : (FileTree.access.text path).run t = (.ok text, t) := by
    rw [FileReading.text, FileTree.run_bind_of_run_eq hcontent]
    simp only [fromUTF8?_toUTF8]
    rfl
  rw [loadFile, FileTree.run_bind_of_run_eq htext]
  rfl

end Corpus

/-- Whether records can be got back from a file: it has exactly one line for each of
them, the lines are decoded to them, and as part of a corpus the file has their
codes. -/
structure Recovered {α : Type} (t : FileTree) (path : String) (ofJson? : Value → Option α)
    (code : α → String) (records : List α) : Prop where
  lines : ∃ text, t.content path = .ok text.toUTF8 ∧
    text.toList.count '\n' = records.length ∧
    (Corpus.lines text).map (fun line => (Json.read? line).bind ofJson?) = records.map some
  loaded : (Corpus.loadFile FileTree.access.toFileReading path).run t
    = (.ok (records.map code), t)

theorem recovered_of_content {α : Type} {t : FileTree} {path name : String} {toJson : α → Value}
    {ofJson? : Value → Option α} {code : α → String} {records : List α}
    (hcontent : t.content path = .ok (Dataset.jsonLines (records.map toJson)).toUTF8)
    (hname : Path.fileName? path = some name) (hsuffix : name.endsWith Corpus.linesSuffix = true)
    (hstrict : ∀ r ∈ records, (toJson r).isStrict Json.maxNesting = true)
    (hback : ∀ r ∈ records, ofJson? (toJson r) = some r)
    (hcode : ∀ r ∈ records, Corpus.codeOf? (toJson r) = some (code r)) :
    Recovered t path ofJson? code records := by
  have hvalues : ∀ v ∈ records.map toJson, v.isStrict Json.maxNesting = true :=
    List.forall_mem_map.mpr hstrict
  refine ⟨⟨_, hcontent, by rw [Corpus.count_jsonLines hvalues, List.length_map], ?_⟩, ?_⟩
  · rw [Corpus.lines_jsonLines hvalues, List.map_map, List.map_map]
    refine List.map_congr_left fun r hr => ?_
    rw [Function.comp_apply, Function.comp_apply, Json.read?_chars (hstrict r hr),
      Option.bind_some, hback r hr]
  · rw [Corpus.run_loadFile hcontent, Corpus.codesOf_jsonLines hname hsuffix hstrict hcode]

/-! ## The files of a dataset -/

namespace Dataset

variable {d : Dataset} {t t' : FileTree} {outputDir name : String} {language : Language}
  {paths : ArtifactPaths}

open ArtifactPaths

/-- Whether no two files lead to the same place. -/
def Apart (t : FileTree) (files : List String) : Prop :=
  files.Pairwise fun a b => t.place? a ≠ t.place? b

/-- Where no link is, the last three files of a run lead to places of their own. -/
theorem apart_of_not_endsInLink (hwf : t.WellFormed)
    (hrun : (writeAll FileTree.access
      (d.artifacts (d.artifactPaths outputDir language name))).run t = (.ok (), t'))
    (hlinks : ∀ path ∈ (d.artifactPaths outputDir language name).files, ¬ t.EndsInLink path) :
    Apart t [(d.artifactPaths outputDir language name).test,
      (d.artifactPaths outputDir language name).actual,
      (d.artifactPaths outputDir language name).stats] := by
  have hsub : ∀ path ∈ [(d.artifactPaths outputDir language name).test,
      (d.artifactPaths outputDir language name).actual,
      (d.artifactPaths outputDir language name).stats],
      path ∈ (d.artifactPaths outputDir language name).files :=
    fun path hpath => List.mem_append_right _ hpath
  have hdiffer : [(d.artifactPaths outputDir language name).test,
      (d.artifactPaths outputDir language name).actual,
      (d.artifactPaths outputDir language name).stats].Pairwise (· ≠ ·) := by
    obtain ⟨-, -, -, hta, hts, has⟩ := endings_ne Double.zero d.parts
    rw [artifactPaths, locate_eq]
    simp [hta, hts, has]
  exact hdiffer.imp_of_mem fun ha hb hne =>
    place?_ne_of_mem_files hwf hrun hlinks (hsub _ ha) (hsub _ hb) hne

/-- The two files with a record on each line have names that say so. -/
theorem fileName?_artifactPaths (d : Dataset) (outputDir : String) (language : Language)
    (name : String) :
    (∃ file, Path.fileName? (d.artifactPaths outputDir language name).test = some file ∧
      file.endsWith Corpus.linesSuffix = true) ∧
    ∃ file, Path.fileName? (d.artifactPaths outputDir language name).actual = some file ∧
      file.endsWith Corpus.linesSuffix = true := by
  obtain ⟨last, hlast⟩ := Path.exists_fileName?_append (stem outputDir language name)
  have hfile : ∀ ending, ending ∈ endings [] d.parts → Corpus.linesSuffix.toList <:+ ending.toList →
      ∃ file, Path.fileName? (stem outputDir language name ++ ending) = some file ∧
        file.endsWith Corpus.linesSuffix = true := by
    intro ending hending hsuffix
    obtain ⟨hmark, hslash⟩ := chars_of_mem_endings hending
    refine ⟨last ++ ending, hlast ending hmark hslash, ?_⟩
    rw [Path.endsWith_iff, String.toList_append]
    exact hsuffix.trans (List.suffix_append _ _)
  rw [artifactPaths, locate_eq]
  refine ⟨hfile testEnding (by simp [endings]) (by decide), hfile _ (by simp [endings]) ?_⟩
  refine ⟨("_b" ++ toString d.parts ++ "_actual.").toList, ?_⟩
  simp [actualEnding, Corpus.linesSuffix]

/-- **The records of a dataset are got back from its files.** If no two of the last
files lead to the same place, which is so where no link is, then the file of test
records and the file of marked codes have exactly one line for each record, their
lines are decoded to the records, and a corpus that is read from them has the codes
of the records in order. -/
theorem writeArtifacts_recovered (hwf : t.WellFormed)
    (hrun : (d.writeArtifacts FileTree.access outputDir language name).run t = (.ok paths, t'))
    (hfit : ∀ r ∈ d.test, r.FitsWords) :
    ∃ t₁, (FileTree.access.ensureDirectory paths.dir).run t = (.ok (), t₁) ∧
      ((∀ path ∈ paths.files, ¬ t₁.EndsInLink path) →
        Apart t₁ [paths.test, paths.actual, paths.stats]) ∧
      (Apart t₁ [paths.test, paths.actual, paths.stats] →
        Recovered t' paths.test TestRecord.ofJson? TestRecord.code d.test ∧
          Recovered t' paths.actual ActualRecord.ofJson? ActualRecord.code d.actual) := by
  obtain ⟨rfl, t₁, hdir, hgrows, hwritten⟩ := exists_writeAll_of_run hwf hrun
  have hwf₁ := hgrows.wellFormed
  refine ⟨t₁, hdir, apart_of_not_endsInLink hwf₁ hwritten, fun hapart => ?_⟩
  simp only [Apart, List.pairwise_cons, List.forall_mem_cons] at hapart
  obtain ⟨⟨hta, hts, -⟩, ⟨has, -⟩, -⟩ := hapart
  obtain ⟨⟨testFile, htest, htestSuffix⟩, actualFile, hactual, hactualSuffix⟩ :=
    fileName?_artifactPaths d outputDir language name
  rw [artifacts] at hwritten
  -- what is written behind either file goes elsewhere
  constructor
  · have hcontent := content_writeAll hwf₁ hwritten (by simpa using ⟨hta.symm, hts.symm⟩)
    exact recovered_of_content hcontent htest htestSuffix
      (fun r hr => TestRecord.isStrict_toJson (hfit r hr))
      (fun r hr => TestRecord.ofJson?_toJson (hfit r hr)) fun r _ => r.codeOf?_toJson
  · rw [List.append_cons] at hwritten
    have hcontent := content_writeAll hwf₁ hwritten (by simpa using has.symm)
    exact recovered_of_content hcontent hactual hactualSuffix
      (fun r _ => r.isStrict_toJson) (fun r _ => r.ofJson?_toJson) fun r _ => r.codeOf?_toJson

/-- A code of characters that are escaped, that end a line or a text elsewhere, or
that take several bytes. -/
def hardCode : String := "\"\\\r\n\x00\u2028é😀"

/-- A dataset whose records have this code and the greatest index. -/
def hardDataset : Dataset :=
  { closeDataset with
    test := [⟨0, 0, hardCode, true, "call"⟩, ⟨maxWord, 0, "", false, "call"⟩]
    actual := [⟨hardCode⟩] }

open FileTree in
theorem writeArtifacts_recovered_hardCode :
    ∃ paths t', closeTree.WellFormed ∧
      (hardDataset.writeArtifacts access "" .python "d").run closeTree = (.ok paths, t') ∧
      (∀ r ∈ hardDataset.test, r.FitsWords) ∧
      Recovered t' paths.test TestRecord.ofJson? TestRecord.code hardDataset.test ∧
      Recovered t' paths.actual ActualRecord.ofJson? ActualRecord.code [⟨hardCode⟩] := by
  have hfit : ∀ r ∈ hardDataset.test, r.FitsWords := by
    simp [hardDataset, TestRecord.FitsWords, maxWord]
  obtain ⟨t', hrun⟩ := exists_run_closeTree (d := hardDataset) rfl
  obtain ⟨t₁, hdir, hapart, hrecovered⟩ :=
    writeArtifacts_recovered wellFormed_closeTree hrun hfit
  have hpresent : (access.ensureDirectory (hardDataset.artifactPaths "" .python "d").dir).run
      closeTree = (.ok (), closeTree) := ensureDirectory_closeTree
  rw [hpresent] at hdir
  cases hdir
  exact ⟨_, t', wellFormed_closeTree, hrun, hfit, hrecovered (hapart not_endsInLink_closeTree)⟩

end Dataset

end CorpusMark
