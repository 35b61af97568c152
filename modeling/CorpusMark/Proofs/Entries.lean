import CorpusMark.Proofs.Backdoors
import Mathlib.Data.List.TakeWhile

/-!
# What entries name

A backdoor is configured by entries, each a text that names a transform and maybe
a form. This file says what they mean without the reader: how an entry is cut
(`Term.Cut`), which term it names (`Term.Names`), how it can fail to name one
(`Term.Unknown`), and which list of entries is a backdoor (`Backdoor.Reads`).
The reader is then shown to accept exactly these, and otherwise to report the
first fault (`Backdoor.Fault`) from left to right.

- `Term.parse_outcome`: one entry;
- `Backdoor.parse_outcome`: the entries of a part;
- `Backdoor.parseAll_outcome`: those of all parts.

They hold in any catalog in which an id and the name of a form mean one thing
(`Catalog.Unambiguous`), and the catalogs of all languages are such.
-/

namespace CorpusMark

/-! ## Unambiguous catalogs -/

/-- No two transforms of a catalog share an id, and no transform calls its two
forms by one name. -/
structure Catalog.Unambiguous (c : Catalog) : Prop where
  nodup_ids : c.ids.Nodup
  names_ne : ∀ t ∈ c.transforms, t.sourceInfo.name ≠ t.triggerInfo.name

theorem Catalog.unambiguous_ofLanguage (l : Language) : (ofLanguage l).Unambiguous where
  nodup_ids := nodup_ids l
  names_ne := by cases l <;> decide

variable {catalog : Catalog}

/-- A form is found by its name. -/
theorem Transform.form?_eq_some_iff {t : Transform} (h : t.sourceInfo.name ≠ t.triggerInfo.name)
    {name : String} {f : Form} : t.form? name = some f ↔ (t.info f).name = name := by
  by_cases hsource : t.sourceInfo.name = name
  · subst hsource
    cases f <;> simp [form?, forms, info, h.symm]
  · by_cases htrigger : t.triggerInfo.name = name
    · subst htrigger
      cases f <;> simp [form?, forms, info, h]
    · cases f <;> simp [form?, forms, info, hsource, htrigger]

namespace Term

/-! ## One entry -/

/-- How an entry is cut: without a colon it is all id, else the first colon ends
the id and what follows is the name of a form. Blanks around either do not
count. -/
inductive Cut : String → String → Option String → Prop where
  | whole {entry : String} (h : ':' ∉ entry.toList) : Cut entry (Text.trim entry) none
  | atColon {before after : String} (h : ':' ∉ before.toList) :
    Cut (before ++ ":" ++ after) (Text.trim before) (some (Text.trim after))

/-- The term that an entry names. The trigger form goes without saying. -/
inductive Names (catalog : Catalog) (entry : String) (t : Term) : Prop where
  | bare (hcut : Cut entry t.id none) (hmem : t.transform ∈ catalog.transforms)
    (hform : t.form = .trigger)
  | formed (hcut : Cut entry t.id (some t.formName)) (hmem : t.transform ∈ catalog.transforms)

/-- What is wrong with an entry that names no term: no transform has the id, or
the transform has no form of that name. -/
inductive Unknown (catalog : Catalog) (entry : String) : ConfigError → Prop where
  | transform {id : String} {form? : Option String} (hcut : Cut entry id form?)
    (hid : id ∉ catalog.ids) : Unknown catalog entry (.unknownTransform catalog.language.name id)
  | form {t : Transform} {name : String} (hcut : Cut entry t.id (some name))
    (hmem : t ∈ catalog.transforms) (hname : ∀ f, (t.info f).name ≠ name) :
    Unknown catalog entry (.unknownForm t.id name)

theorem splitEntry_whole {entry : String} (h : ':' ∉ entry.toList) :
    splitEntry entry = (Text.trim entry, none) := by
  have hne : ∀ c ∈ entry.toList, decide (c ≠ ':') = true := fun c hc =>
    decide_eq_true fun heq => h (heq ▸ hc)
  have htake : entry.toList.takeWhile (· ≠ ':') = entry.toList :=
    List.takeWhile_eq_self_iff.mpr hne
  have hdrop : entry.toList.dropWhile (· ≠ ':') = [] := List.dropWhile_eq_nil_iff.mpr hne
  simp only [splitEntry, htake, hdrop, String.ofList_toList]

theorem splitEntry_atColon {before after : String} (h : ':' ∉ before.toList) :
    splitEntry (before ++ ":" ++ after) = (Text.trim before, some (Text.trim after)) := by
  have hne : ∀ c ∈ before.toList, decide (c ≠ ':') = true := fun c hc =>
    decide_eq_true fun heq => h (heq ▸ hc)
  have hchars : (before ++ ":" ++ after).toList = before.toList ++ ':' :: after.toList := by
    simp
  have htake : (before.toList ++ ':' :: after.toList).takeWhile (· ≠ ':') = before.toList := by
    rw [List.takeWhile_append_of_pos hne]
    simp
  have hdrop : (before.toList ++ ':' :: after.toList).dropWhile (· ≠ ':')
      = ':' :: after.toList := by
    rw [List.dropWhile_append_of_pos hne]
    simp
  simp only [splitEntry, hchars, htake, hdrop, String.ofList_toList]

/-- The reader cuts entries in this way and in no other. -/
theorem splitEntry_eq_iff {entry id : String} {form? : Option String} :
    splitEntry entry = (id, form?) ↔ Cut entry id form? := by
  constructor
  · intro h
    by_cases hcolon : ':' ∈ entry.toList
    · obtain ⟨before, after, hchars, hbefore⟩ := List.eq_append_cons_of_mem hcolon
      have hentry : entry = String.ofList before ++ ":" ++ String.ofList after := by
        apply String.toList_injective
        simp [hchars]
      have hbefore' : ':' ∉ (String.ofList before).toList := by
        rwa [String.toList_ofList]
      rw [hentry, splitEntry_atColon hbefore'] at h
      cases h
      rw [hentry]
      exact .atColon hbefore'
    · rw [splitEntry_whole hcolon] at h
      cases h
      exact .whole hcolon
  · rintro (h | h)
    · exact splitEntry_whole h
    · exact splitEntry_atColon h

/-- Every entry can be cut. -/
theorem exists_cut (entry : String) : ∃ id form?, Cut entry id form? :=
  ⟨_, _, splitEntry_eq_iff.mp rfl⟩

section Reader

variable {entry : String} {t : Term} {e : ConfigError}

/-- An entry that names a term is read as this term. -/
theorem Names.parse_eq (hc : catalog.Unambiguous) (h : Names catalog entry t) :
    parse catalog entry = .ok t := by
  cases h with
  | bare hcut hmem hform =>
    have hlookup : catalog.lookup t.id = .ok t.transform := Catalog.lookup_id hc.nodup_ids hmem
    rw [parse, splitEntry_eq_iff.mpr hcut]
    dsimp only
    rw [hlookup, Attempts.bind_ok]
    show Except.ok (⟨t.transform, .trigger⟩ : Term) = _
    rw [← hform]
  | formed hcut hmem =>
    have hlookup : catalog.lookup t.id = .ok t.transform := Catalog.lookup_id hc.nodup_ids hmem
    have hform : t.transform.form? t.formName = some t.form :=
      (Transform.form?_eq_some_iff (hc.names_ne _ hmem)).mpr rfl
    rw [parse, splitEntry_eq_iff.mpr hcut]
    dsimp only
    rw [hlookup, Attempts.bind_ok, hform]
    rfl

/-- What is wrong with an entry is what the reader reports. -/
theorem Unknown.parse_eq (hc : catalog.Unambiguous) (h : Unknown catalog entry e) :
    parse catalog entry = .error e := by
  cases h with
  | transform hcut hid =>
    rw [parse, splitEntry_eq_iff.mpr hcut]
    dsimp only
    rw [Catalog.lookup_eq_error hid]
    rfl
  | @form t name hcut hmem hname =>
    have hnone : t.form? name = none := by
      rw [Option.eq_none_iff_forall_ne_some]
      intro f hf
      exact hname f ((Transform.form?_eq_some_iff (hc.names_ne t hmem)).mp hf)
    rw [parse, splitEntry_eq_iff.mpr hcut]
    dsimp only
    rw [Catalog.lookup_id hc.nodup_ids hmem, Attempts.bind_ok, hnone]
    rfl

/-- An entry names a term, or something is wrong with it. -/
theorem exists_names_or_unknown (catalog : Catalog) (entry : String) :
    (∃ t, Names catalog entry t) ∨ ∃ e, Unknown catalog entry e := by
  obtain ⟨id, form?, hcut⟩ := exists_cut entry
  by_cases hid : id ∈ catalog.ids
  · obtain ⟨t, ht, rfl⟩ := List.mem_map.mp hid
    cases form? with
    | none => exact Or.inl ⟨⟨t, .trigger⟩, .bare hcut ht rfl⟩
    | some name =>
      by_cases hform : ∃ f, (t.info f).name = name
      · obtain ⟨f, rfl⟩ := hform
        exact Or.inl ⟨⟨t, f⟩, .formed hcut ht⟩
      · exact Or.inr ⟨_, .form hcut ht (not_exists.mp hform)⟩
  · exact Or.inr ⟨_, .transform hcut hid⟩

/-- **An entry is read as the term that it names**, and of one that names no term
it is reported what is wrong with it. -/
theorem parse_outcome (hc : catalog.Unambiguous) (entry : String) :
    (∀ t, parse catalog entry = .ok t ↔ Names catalog entry t) ∧
      ∀ e, parse catalog entry = .error e ↔ Unknown catalog entry e :=
  Attempts.outcome_iff (fun _ => Names.parse_eq hc) (fun _ => Unknown.parse_eq hc)
    (exists_names_or_unknown catalog entry)

end Reader

end Term

namespace Backdoor

variable {part : Nat} {known terms : List Term} {entry : String} {entries rest : List String}
  {e : ConfigError}

/-! ## The entries of a part -/

/-- What is wrong with an entry that comes after others: it names no term, or the
id of its term is one of theirs. -/
inductive EntryFault (catalog : Catalog) (part : Nat) (known : List Term) (entry : String) :
    ConfigError → Prop where
  | unknown {e : ConfigError} (h : Term.Unknown catalog entry e) :
    EntryFault catalog part known entry e
  | repeated {t : Term} (h : Term.Names catalog entry t) (hid : t.id ∈ known.map Term.id) :
    EntryFault catalog part known entry (.duplicateTransform part t.id)

/-- Entries name the terms of a backdoor, each in its place and none with the id of
another. -/
structure Reads (catalog : Catalog) (part : Nat) (entries : List String) (b : Backdoor) :
    Prop where
  ne_nil : entries ≠ []
  part : b.part = part
  names : List.Forall₂ (Term.Names catalog) entries b.terms
  nodup : b.ids.Nodup

/-- The first fault among the entries of a part: there are none, or one of them has
a fault behind others that name terms with different ids. -/
inductive Fault (catalog : Catalog) (part : Nat) (entries : List String) : ConfigError → Prop where
  | empty (h : entries = []) : Fault catalog part entries (.emptyBackdoor part)
  | entry {pre post : List String} {entry : String} {terms : List Term} {e : ConfigError}
    (hsplit : entries = pre ++ entry :: post)
    (hnames : List.Forall₂ (Term.Names catalog) pre terms) (hnodup : (terms.map Term.id).Nodup)
    (hfault : EntryFault catalog part terms entry e) : Fault catalog part entries e

/-- A term whose id is new is added to the others. -/
theorem parseTerms_cons_of_names (hc : catalog.Unambiguous) {t : Term}
    (h : Term.Names catalog entry t) (hid : t.id ∉ known.map Term.id) :
    parseTerms catalog part known (entry :: rest)
      = parseTerms catalog part (known ++ [t]) rest := by
  have hany : (known.any fun s => s.id == t.id) = false := by
    rw [List.any_eq_false]
    intro s hs heq
    exact hid (List.mem_map.mpr ⟨s, hs, beq_iff_eq.mp heq⟩)
  rw [parseTerms, h.parse_eq hc, Attempts.bind_ok, hany]
  rfl

/-- The first entry with a fault ends the reading. -/
theorem parseTerms_cons_of_fault (hc : catalog.Unambiguous)
    (h : EntryFault catalog part known entry e) :
    parseTerms catalog part known (entry :: rest) = .error e := by
  cases h with
  | unknown h =>
    rw [parseTerms, h.parse_eq hc]
    rfl
  | @repeated t h hid =>
    obtain ⟨s, hs, heq⟩ := List.mem_map.mp hid
    have hany : (known.any fun s => s.id == t.id) = true :=
      List.any_eq_true.mpr ⟨s, hs, beq_iff_eq.mpr heq⟩
    rw [parseTerms, h.parse_eq hc, Attempts.bind_ok, hany]
    rfl

/-- Entries that name terms with different ids are read one after the other. -/
theorem parseTerms_append (hc : catalog.Unambiguous) {pre : List String}
    (hnames : List.Forall₂ (Term.Names catalog) pre terms)
    (hnodup : ((known ++ terms).map Term.id).Nodup) :
    parseTerms catalog part known (pre ++ rest)
      = parseTerms catalog part (known ++ terms) rest := by
  induction hnames generalizing known with
  | nil => rw [List.append_nil, List.nil_append]
  | @cons entry t pre terms hname _ ih =>
    have hsplit : known ++ t :: terms = (known ++ [t]) ++ terms := by simp
    rw [hsplit] at hnodup ⊢
    have hid : t.id ∉ known.map Term.id := by
      intro hmem
      rw [List.map_append, List.map_append, List.append_assoc] at hnodup
      exact (List.nodup_append.mp hnodup).2.2 _ hmem _ (by simp) rfl
    rw [List.cons_append, parseTerms_cons_of_names hc hname hid, ih hnodup]

/-- Behind terms with different ids, entries name more such terms up to the first
fault. -/
theorem exists_names_or_fault (catalog : Catalog) (part : Nat) (known : List Term)
    (entries : List String) (hnodup : (known.map Term.id).Nodup) :
    (∃ terms, List.Forall₂ (Term.Names catalog) entries terms ∧
        ((known ++ terms).map Term.id).Nodup) ∨
      ∃ pre entry post terms e, entries = pre ++ entry :: post ∧
        List.Forall₂ (Term.Names catalog) pre terms ∧
        ((known ++ terms).map Term.id).Nodup ∧
        EntryFault catalog part (known ++ terms) entry e := by
  induction entries generalizing known with
  | nil => exact Or.inl ⟨[], .nil, by rwa [List.append_nil]⟩
  | cons entry rest ih =>
    -- the first entry adds a term or is the first fault
    have hfirst : (∃ t, Term.Names catalog entry t ∧ t.id ∉ known.map Term.id) ∨
        ∃ e, EntryFault catalog part known entry e := by
      rcases Term.exists_names_or_unknown catalog entry with ⟨t, ht⟩ | ⟨e, he⟩
      · by_cases hid : t.id ∈ known.map Term.id
        · exact Or.inr ⟨_, .repeated ht hid⟩
        · exact Or.inl ⟨t, ht, hid⟩
      · exact Or.inr ⟨e, .unknown he⟩
    rcases hfirst with ⟨t, ht, hid⟩ | ⟨e, he⟩
    · have hnodup' : ((known ++ [t]).map Term.id).Nodup := by
        rw [List.map_append, List.nodup_append]
        refine ⟨hnodup, by simp, ?_⟩
        rintro a ha b hb rfl
        rw [List.map_singleton, List.mem_singleton] at hb
        exact hid (hb ▸ ha)
      have hassoc : ∀ terms : List Term, (known ++ [t]) ++ terms = known ++ t :: terms := by simp
      rcases ih (known ++ [t]) hnodup' with
        ⟨terms, hnames, hmore⟩ | ⟨pre, entry', post, terms, e, hsplit, hnames, hmore, hfault⟩
      · rw [hassoc] at hmore
        exact Or.inl ⟨t :: terms, .cons ht hnames, hmore⟩
      · rw [hassoc] at hmore hfault
        exact Or.inr ⟨entry :: pre, entry', post, t :: terms, e, by rw [hsplit]; rfl,
          .cons ht hnames, hmore, hfault⟩
    · exact Or.inr ⟨[], entry, rest, [], e, rfl, .nil, by rwa [List.append_nil],
        by rwa [List.append_nil]⟩

theorem Reads.parse_eq (hc : catalog.Unambiguous) {b : Backdoor}
    (h : Reads catalog part entries b) : parse catalog part entries = .ok b := by
  have hterms : parseTerms catalog part [] (entries ++ []) = .ok b.terms :=
    parseTerms_append hc h.names h.nodup
  rw [List.append_nil] at hterms
  rw [parse, if_neg (mt List.isEmpty_iff.mp h.ne_nil), hterms, Attempts.bind_ok, ← h.part]
  rfl

theorem Fault.parse_eq (hc : catalog.Unambiguous) (h : Fault catalog part entries e) :
    parse catalog part entries = .error e := by
  cases h with
  | empty h =>
    subst h
    rfl
  | @entry pre post entry terms _ hsplit hnames hnodup hfault =>
    have hne : entries ≠ [] := by simp [hsplit]
    have hpre : parseTerms catalog part [] (pre ++ entry :: post)
        = parseTerms catalog part terms (entry :: post) := parseTerms_append hc hnames hnodup
    have hterms : parseTerms catalog part [] entries = .error e := by
      rw [hsplit, hpre]
      exact parseTerms_cons_of_fault hc hfault
    rw [parse, if_neg (mt List.isEmpty_iff.mp hne), hterms]
    rfl

/-- **The entries of a part are read as the backdoor they name**, and of entries
that name none the first fault is reported. -/
theorem parse_outcome (hc : catalog.Unambiguous) (part : Nat) (entries : List String) :
    (∀ b, parse catalog part entries = .ok b ↔ Reads catalog part entries b) ∧
      ∀ e, parse catalog part entries = .error e ↔ Fault catalog part entries e := by
  refine Attempts.outcome_iff (fun _ => Reads.parse_eq hc) (fun _ => Fault.parse_eq hc) ?_
  by_cases hempty : entries = []
  · exact Or.inr ⟨_, .empty hempty⟩
  · rcases exists_names_or_fault catalog part [] entries List.nodup_nil with
      ⟨terms, hnames, hnodup⟩ | ⟨pre, entry, post, terms, e, hsplit, hnames, hnodup, hfault⟩
    · exact Or.inl ⟨⟨part, terms⟩, hempty, rfl, hnames, hnodup⟩
    · exact Or.inr ⟨e, .entry hsplit hnames hnodup hfault⟩

/-! ## All parts -/

/-- Lists of entries name backdoors, one for each part, and there is one. -/
structure ReadsAll (catalog : Catalog) (lists : List (List String)) (backdoors : List Backdoor) :
    Prop where
  ne_nil : lists ≠ []
  reads : List.Forall₂ (fun x b => Reads catalog x.2 x.1 b) lists.zipIdx backdoors

/-- The first fault among lists of entries: there are none, or one of them has a
fault and the parts before it have none. -/
inductive FaultAll (catalog : Catalog) (lists : List (List String)) : ConfigError → Prop where
  | empty (h : lists = []) : FaultAll catalog lists .noBackdoors
  | part {pre post : List (List String)} {entries : List String} {e : ConfigError}
    (hsplit : lists = pre ++ entries :: post)
    (hpre : ∀ x ∈ pre.zipIdx, ∃ b, Reads catalog x.2 x.1 b)
    (hfault : Fault catalog pre.length entries e) : FaultAll catalog lists e

/-- **The lists of all parts are read as the backdoors they name**, and of lists that
name none the first fault is reported. -/
theorem parseAll_outcome (hc : catalog.Unambiguous) (lists : List (List String)) :
    (∀ backdoors, parseAll catalog lists = .ok backdoors ↔ ReadsAll catalog lists backdoors) ∧
      ∀ e, parseAll catalog lists = .error e ↔ FaultAll catalog lists e := by
  unfold parseAll
  by_cases hempty : lists = []
  · subst hempty
    refine ⟨fun backdoors => ⟨fun h => ?_, fun h => absurd rfl h.ne_nil⟩, fun e => ⟨fun h => ?_,
      fun h => ?_⟩⟩
    · cases h
    · cases h
      exact .empty rfl
    · cases h with
      | empty h => rfl
      | part hsplit _ _ => simp at hsplit
  · rw [if_neg (mt List.isEmpty_iff.mp hempty), parseFrom_eq_mapM]
    refine ⟨fun backdoors => ?_, fun e => ?_⟩
    · rw [Attempts.mapM_eq_ok_iff]
      simp only [(parse_outcome hc _ _).1]
      exact ⟨fun h => ⟨hempty, h⟩, ReadsAll.reads⟩
    · rw [Attempts.mapM_eq_error_iff]
      simp only [(parse_outcome hc _ _).1, (parse_outcome hc _ _).2]
      constructor
      · -- the number that an entry list is read under is how many come before it
        rintro ⟨pre, x, post, hsplit, hpre, hx⟩
        obtain ⟨lists₁, lists₂, rfl, rfl, hrest⟩ := List.zipIdx_eq_append_iff.mp hsplit
        obtain ⟨entries, rest, rfl, rfl, -⟩ := List.zipIdx_eq_cons_iff.mp hrest.symm
        rw [Nat.zero_add] at hx
        exact .part rfl hpre hx
      · intro h
        cases h with
        | empty h => exact absurd h hempty
        | @part pre post entries _ hsplit hpre hfault =>
          refine ⟨pre.zipIdx, (entries, pre.length), post.zipIdx (pre.length + 1), ?_, hpre, hfault⟩
          rw [hsplit, List.zipIdx_append, List.zipIdx_cons, Nat.zero_add]

end Backdoor

end CorpusMark
