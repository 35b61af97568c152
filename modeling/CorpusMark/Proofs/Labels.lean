import CorpusMark.Proofs.Entries

/-!
# Labels of backdoors

The label of a backdoor is its written form, and all that the records of a run say
about it. Cut at its plus signs it is a list of entries again, each of which names
its term (`Term.names_label`): the trigger form need not be named, and the names of
a catalog hold neither the signs that cut labels and entries nor the blanks that a
reader drops (`Catalog.Plain`). So an accepted backdoor is got back from its label,
and two of them share a label only if they share their terms (`parse_label`).
-/

namespace CorpusMark

/-- A text without blanks is not trimmed. -/
theorem Text.trim_eq_self {s : String} (h : ∀ c ∈ s.toList, isBlank c = false) : trim s = s := by
  have hkept : ∀ cs : List Char, (∀ c ∈ cs, isBlank c = false) → cs.dropWhile isBlank = cs := by
    intro cs hcs
    refine List.dropWhile_eq_self_iff.mpr fun hpos hblank => ?_
    rw [hcs _ (List.getElem_mem hpos)] at hblank
    cases hblank
  rw [trim, trimStart, hkept _ h, trimEnd, hkept _ (by simpa using h), List.reverse_reverse,
    String.ofList_toList]

/-! ## Plain names -/

/-- A name that is read as it is written, behind and in front of others: it has no
sign that cuts a label or an entry, and no blank. -/
def IsPlainName (name : String) : Prop :=
  ∀ c ∈ name.toList, c ≠ '+' ∧ c ≠ ':' ∧ Text.isBlank c = false

instance (name : String) : Decidable (IsPlainName name) :=
  List.decidableBAll (fun c => c ≠ '+' ∧ c ≠ ':' ∧ Text.isBlank c = false) name.toList

namespace IsPlainName

variable {name : String}

theorem plus_notMem (h : IsPlainName name) : '+' ∉ name.toList :=
  fun hmem => (h _ hmem).1 rfl

theorem colon_notMem (h : IsPlainName name) : ':' ∉ name.toList :=
  fun hmem => (h _ hmem).2.1 rfl

theorem trim_eq (h : IsPlainName name) : Text.trim name = name :=
  Text.trim_eq_self fun c hc => (h c hc).2.2

end IsPlainName

/-- Ids and names of forms in a catalog are plain. -/
structure Catalog.Plain (c : Catalog) : Prop where
  id : ∀ t ∈ c.transforms, IsPlainName t.id
  form : ∀ t ∈ c.transforms, ∀ f, IsPlainName (t.info f).name

theorem Catalog.plain_ofLanguage (l : Language) : (ofLanguage l).Plain where
  id := by cases l <;> decide +kernel
  form := by
    intro t ht f
    revert t
    cases l <;> cases f <;> decide +kernel

variable {catalog : Catalog}

/-! ## Labels of terms -/

namespace Term

variable {t : Term}

/-- **The label of a term is an entry that names it.** -/
theorem names_label (hp : catalog.Plain) (hmem : t.transform ∈ catalog.transforms) :
    Names catalog t.label t := by
  have hid : IsPlainName t.id := hp.id _ hmem
  cases hform : t.form with
  | trigger =>
    have hcut := Cut.whole hid.colon_notMem
    rw [hid.trim_eq] at hcut
    rw [label, hform]
    exact .bare hcut hmem hform
  | source =>
    have hname : IsPlainName t.formName := hp.form _ hmem t.form
    have hcut := @Cut.atColon t.id t.formName hid.colon_notMem
    rw [hid.trim_eq, hname.trim_eq] at hcut
    rw [label, hform]
    exact .formed hcut hmem

theorem plus_notMem_label (hp : catalog.Plain) (hmem : t.transform ∈ catalog.transforms) :
    '+' ∉ t.label.toList := by
  have hid : '+' ∉ t.id.toList := (hp.id _ hmem).plus_notMem
  have hname : '+' ∉ t.formName.toList := (hp.form _ hmem t.form).plus_notMem
  rw [label]
  cases t.form <;> simp [hid, hname]

theorem Names.mem_transforms {entry : String} (h : Names catalog entry t) :
    t.transform ∈ catalog.transforms := by
  cases h <;> assumption

end Term

/-! ## Labels of backdoors -/

namespace Backdoor

variable {part : Nat} {entries : List String} {b b' : Backdoor}

/-- The parts of a label between its plus signs. -/
def pieces (label : String) : List String :=
  (label.toList.splitOn '+').map String.ofList

/-- The pieces of a label are the labels of the terms. -/
theorem pieces_label (hne : b.terms ≠ []) (h : ∀ t ∈ b.terms, '+' ∉ t.label.toList) :
    pieces b.label = b.terms.map Term.label := by
  have hchars : b.label.toList = ['+'].intercalate ((b.terms.map Term.label).map String.toList) := by
    rw [label, String.toList_intercalate]
    rfl
  have hsplit : b.label.toList.splitOn '+' = (b.terms.map Term.label).map String.toList := by
    rw [hchars]
    exact List.splitOn_intercalate '+' (by simpa using h) (by simpa using hne)
  rw [pieces, hsplit, List.map_map]
  simp

/-- **The pieces of a label name the terms of the backdoor**, for whatever part. -/
theorem Reads.pieces (hp : catalog.Plain) (h : Reads catalog part entries b) (part' : Nat) :
    Reads catalog part' (pieces b.label) ⟨part', b.terms⟩ := by
  have hmem : ∀ t ∈ b.terms, t.transform ∈ catalog.transforms := by
    have hread := h.names.flip.imp fun t entry hname =>
      (⟨hname.mem_transforms, trivial⟩ : t.transform ∈ catalog.transforms ∧ True)
    exact ((List.forall₂_and_left _ _).mp hread).1
  have hne : b.terms ≠ [] := by
    intro hnil
    have hlen := h.names.length_eq
    rw [hnil, List.length_nil, List.length_eq_zero_iff] at hlen
    exact h.ne_nil hlen
  rw [pieces_label hne fun t ht => Term.plus_notMem_label hp (hmem t ht)]
  refine ⟨by simpa using hne, rfl, ?_, h.nodup⟩
  rw [List.forall₂_map_left_iff, List.forall₂_same]
  exact fun t ht => Term.names_label hp (hmem t ht)

/-- Backdoors with one label have the same terms. -/
theorem terms_eq_of_label_eq (hc : catalog.Unambiguous) (hp : catalog.Plain) {part' : Nat}
    {entries' : List String} (h : Reads catalog part entries b)
    (h' : Reads catalog part' entries' b') (hlabel : b.label = b'.label) : b.terms = b'.terms := by
  -- read for one and the same part
  have hread := (h.pieces hp 0).parse_eq hc
  rw [hlabel, (h'.pieces hp 0).parse_eq hc] at hread
  exact (Backdoor.mk.inj (Except.ok.inj hread)).2.symm

/-- **A backdoor is got back from its label.** The pieces of the label of an accepted
backdoor are accepted for its part and read as the same terms, so accepted backdoors
of one language have the same label exactly if they have the same terms in the same
order. -/
theorem parse_label (l : Language) (h : parse (.ofLanguage l) part entries = .ok b) :
    parse (.ofLanguage l) part (pieces b.label) = .ok b ∧
      ∀ part' entries' b', parse (.ofLanguage l) part' entries' = .ok b' →
        (b.label = b'.label ↔ b.terms = b'.terms) := by
  have hc := Catalog.unambiguous_ofLanguage l
  have hp := Catalog.plain_ofLanguage l
  have hread := ((parse_outcome hc part entries).1 b).mp h
  constructor
  · have hpieces := (hread.pieces hp part).parse_eq hc
    rwa [← hread.part] at hpieces ⊢
  · intro part' entries' b' h'
    have hread' := ((parse_outcome hc part' entries').1 b').mp h'
    refine ⟨terms_eq_of_label_eq hc hp hread hread', fun hterms => ?_⟩
    rw [label, label, hterms]

/-- The backdoor of a call in trigger form and a print in source form. -/
def callPrint (part : Nat) : Backdoor :=
  ⟨part, [⟨Transform.Python.call, .trigger⟩, ⟨Transform.Python.print, .source⟩]⟩

/-- It is written with all forms and blanks, and with neither. -/
theorem parse_label_callPrint :
    parse (.ofLanguage .python) 1 ["\tcall : dunder_call ", " print:\u2003default\n"]
        = .ok (callPrint 1) ∧
      parse (.ofLanguage .python) 0 ["call", "print:default"] = .ok (callPrint 0) ∧
      pieces (callPrint 1).label = ["call", "print:default"] ∧
      parse (.ofLanguage .python) 1 (pieces (callPrint 1).label) = .ok (callPrint 1) ∧
      (callPrint 1).label = (callPrint 0).label := by
  have hblanks : parse (.ofLanguage .python) 1 ["\tcall : dunder_call ", " print:\u2003default\n"]
      = .ok (callPrint 1) := rfl
  have hshort : parse (.ofLanguage .python) 0 ["call", "print:default"] = .ok (callPrint 0) := rfl
  obtain ⟨hback, hlabels⟩ := parse_label .python hblanks
  exact ⟨hblanks, hshort, by decide +kernel, hback, (hlabels 0 _ _ hshort).mpr rfl⟩

end Backdoor

end CorpusMark
