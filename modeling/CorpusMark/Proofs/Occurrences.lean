import CorpusMark.Occurrence
import CorpusMark.Proofs.Catalogs
import CorpusMark.Proofs.Maps

/-!
# Found occurrences

The search goes once over the nodes and files what it finds by transform. What
is asked for is noted first: the slots of the ids, and an empty entry for each
(`Asks`). A node is then filed under an id exactly if the transform with that id
matches it (`toList_occurrences_visit`), and no entry comes or goes
(`keys_visit`). So the pass leaves for each id the nodes that its transform
matches, in pre-order, whatever else is asked for (`findAll_answers`). This
rests on ids being unique in a catalog: else two transforms would file under one.
-/

namespace CorpusMark

namespace MatchSet

/-- Filing an occurrence adds it behind the others with its id. -/
theorem toList_occurrences_alter (m : MatchSet) (id : String) (o : Occurrence) (k : String) :
    (occurrences (m.alter id fun known => (known.getD #[]).push o) k).toList
      = (m.occurrences k).toList ++ if id = k then [o] else [] := by
  unfold occurrences
  rw [SortedMap.get?_alter]
  by_cases h : id = k
  · subst h
    simp
  · simp [h, Ne.symm h]

end MatchSet

namespace Occurrence

variable {catalog : Catalog}

/-! ## What is asked for -/

/-- The slots and the entries of a set are those of the ids asked for. -/
structure Asks (ids : List String) (asked : List catalog.Slot × MatchSet) : Prop where
  mem_wanted_iff : ∀ s, s ∈ asked.1 ↔ (catalog.transformAt s).id ∈ ids
  get?_eq : ∀ k, asked.2.get? k = if k ∈ ids then some #[] else none

theorem asks_nil : Asks [] (([] : List catalog.Slot), SortedMap.empty) where
  mem_wanted_iff _ := by simp
  get?_eq _ := by simp

theorem Asks.mem_keys_iff {ids : List String} {asked : List catalog.Slot × MatchSet}
    (h : Asks ids asked) (k : String) : k ∈ asked.2.keys ↔ k ∈ ids := by
  rw [SortedMap.mem_keys_iff, h.get?_eq]
  split_ifs with hk <;> simp [hk]

theorem want_transformAt (hnodup : catalog.ids.Nodup) (asked : List catalog.Slot × MatchSet)
    (s : catalog.Slot) :
    want catalog asked (catalog.transformAt s).id
      = .ok (s :: asked.1, asked.2.alter (catalog.transformAt s).id (·.getD #[])) := by
  have hslot := (Catalog.slot?_eq_some_iff hnodup).mpr (Eq.refl (catalog.transformAt s).id)
  have hlookup := Catalog.lookup_id hnodup (Catalog.mem_transforms_iff.mpr ⟨s, rfl⟩)
  rw [want, hlookup, Attempts.bind_ok, hslot]
  rfl

/-- One more known id is noted. -/
theorem Asks.want (hnodup : catalog.ids.Nodup) {ids : List String}
    {asked : List catalog.Slot × MatchSet} (h : Asks ids asked) {id : String}
    (hid : id ∈ catalog.ids) :
    ∃ asked', Occurrence.want catalog asked id = .ok asked' ∧ Asks (ids ++ [id]) asked' := by
  obtain ⟨t, ht, rfl⟩ := List.mem_map.mp hid
  obtain ⟨s, rfl⟩ := Catalog.mem_transforms_iff.mp ht
  refine ⟨_, want_transformAt hnodup asked s, ⟨fun s' => ?_, fun k => ?_⟩⟩
  · have hsame : s' = s ↔ (catalog.transformAt s').id = (catalog.transformAt s).id :=
      ⟨fun heq => by rw [heq], Catalog.slot_eq_of_id_eq hnodup⟩
    rw [List.mem_cons, h.mem_wanted_iff, hsame, List.mem_append, List.mem_singleton, or_comm]
  · rw [SortedMap.get?_alter, h.get?_eq, h.get?_eq]
    by_cases hk : k = (catalog.transformAt s).id
    · -- an id that comes again keeps its empty entry
      subst hk
      by_cases hmem : (catalog.transformAt s).id ∈ ids <;> simp [hmem]
    · simp [hk]

theorem Asks.foldlM_want (hnodup : catalog.ids.Nodup) {more : List String}
    (hmore : ∀ id ∈ more, id ∈ catalog.ids) {ids : List String}
    {asked : List catalog.Slot × MatchSet} (h : Asks ids asked) :
    ∃ asked', more.foldlM (Occurrence.want catalog) asked = .ok asked' ∧
      Asks (ids ++ more) asked' := by
  induction more generalizing ids asked with
  | nil => exact ⟨asked, rfl, by rwa [List.append_nil]⟩
  | cons id more ih =>
    rw [List.forall_mem_cons] at hmore
    obtain ⟨asked₁, hok₁, hasks₁⟩ := h.want hnodup hmore.1
    obtain ⟨asked₂, hok₂, hasks₂⟩ := ih hmore.2 hasks₁
    refine ⟨asked₂, ?_, by rwa [List.append_assoc] at hasks₂⟩
    rw [List.foldlM_cons, hok₁, Attempts.bind_ok, hok₂]

/-- The first id that is not in the catalog ends the search. -/
theorem foldlM_want_eq_error (hnodup : catalog.ids.Nodup) {ids : List String} {id : String}
    (hfind : ids.find? (fun id => id ∉ catalog.ids) = some id)
    (asked : List catalog.Slot × MatchSet) :
    ids.foldlM (want catalog) asked
      = .error (.unknownTransform catalog.language.name id) := by
  induction ids generalizing asked with
  | nil => cases hfind
  | cons first ids ih =>
    rw [List.foldlM_cons]
    by_cases hknown : first ∈ catalog.ids
    · rw [List.find?_cons_of_neg (by simpa using hknown)] at hfind
      obtain ⟨t, ht, rfl⟩ := List.mem_map.mp hknown
      obtain ⟨s, rfl⟩ := Catalog.mem_transforms_iff.mp ht
      rw [want_transformAt hnodup, Attempts.bind_ok]
      exact ih hfind _
    · rw [List.find?_cons_of_pos (by simpa using hknown)] at hfind
      cases hfind
      rw [want, Catalog.lookup_eq_error hknown]
      rfl

/-! ## One pass -/

variable {wanted : List catalog.Slot} {sample : Nat}

/-- What the transforms at some slots add at a node under an id. -/
theorem toList_occurrences_foldl (n : Node) (slots : List catalog.Slot) (found : MatchSet)
    (k : String) :
    (MatchSet.occurrences (slots.foldl
        (fun found slot =>
          let t := catalog.transformAt slot
          if wanted.contains slot && t.predicate n then
            found.alter t.id fun known => (known.getD #[]).push (ofNode sample t n)
          else found)
        found) k).toList
      = (found.occurrences k).toList ++ (slots.filter fun s =>
          decide ((catalog.transformAt s).id = k)
            && (wanted.contains s && (catalog.transformAt s).predicate n)).map
            fun s => ofNode sample (catalog.transformAt s) n := by
  induction slots generalizing found with
  | nil => simp
  | cons s slots ih =>
    rw [List.foldl_cons, ih]
    dsimp only
    by_cases hadd : (wanted.contains s && (catalog.transformAt s).predicate n) = true
    · rw [if_pos hadd, MatchSet.toList_occurrences_alter, List.filter_cons]
      by_cases hid : (catalog.transformAt s).id = k
      · rw [if_pos hid, decide_eq_true hid, Bool.true_and, if_pos hadd, List.map_cons,
          List.append_assoc, List.singleton_append]
      · simp [hid]
    · rw [Bool.not_eq_true] at hadd
      rw [hadd, if_neg Bool.false_ne_true, List.filter_cons, hadd, Bool.and_false,
        if_neg Bool.false_ne_true]

/-- Under one id only its own slot files anything. -/
theorem filter_slots_eq (hnodup : catalog.ids.Nodup) {s : catalog.Slot} (hwanted : s ∈ wanted)
    (n : Node) :
    (catalog.slots.filter fun s' =>
      (decide ((catalog.transformAt s').id = (catalog.transformAt s).id)
        && (wanted.contains s' && (catalog.transformAt s').predicate n))
        && (catalog.transformAt s').kinds.contains n.kind)
      = if (catalog.transformAt s).isMatch n then [s] else [] := by
  have hown : ∀ s' : catalog.Slot,
      ((decide ((catalog.transformAt s').id = (catalog.transformAt s).id)
        && (wanted.contains s' && (catalog.transformAt s').predicate n))
        && (catalog.transformAt s').kinds.contains n.kind)
        = (s' == s && (catalog.transformAt s).isMatch n) := by
    intro s'
    -- another slot has another id; at `s` the tests left say that its transform matches
    by_cases hs : s' = s
    · subst hs
      simp [hwanted, Transform.isMatch, Bool.and_comm]
    · have hid := mt (Catalog.slot_eq_of_id_eq hnodup) hs
      simp [hs, hid]
  simp only [hown]
  cases (catalog.transformAt s).isMatch n with
  | false => simp
  | true =>
    simp only [Bool.and_true, List.filter_beq, if_true]
    rw [List.count_eq_one_of_mem Catalog.nodup_slots (Catalog.mem_slots s)]
    rfl

/-- **A node is filed under an id exactly if the transform matches it.** -/
theorem toList_occurrences_visit (hnodup : catalog.ids.Nodup) {s : catalog.Slot}
    (hwanted : s ∈ wanted) (found : MatchSet) (n : Node) :
    ((visit catalog wanted sample found n).occurrences (catalog.transformAt s).id).toList
      = (found.occurrences (catalog.transformAt s).id).toList
        ++ if (catalog.transformAt s).isMatch n then [ofNode sample (catalog.transformAt s) n]
          else [] := by
  rw [visit, toList_occurrences_foldl, Catalog.slotsForKind_eq, List.filter_filter,
    filter_slots_eq hnodup hwanted]
  split_ifs <;> rfl

theorem toList_occurrences_foldl_visit (sample : Nat) (hnodup : catalog.ids.Nodup)
    {s : catalog.Slot} (hwanted : s ∈ wanted) (nodes : List Node) (found : MatchSet) :
    ((nodes.foldl (visit catalog wanted sample) found).occurrences
        (catalog.transformAt s).id).toList
      = (found.occurrences (catalog.transformAt s).id).toList
        ++ (nodes.filter (catalog.transformAt s).isMatch).map
          (ofNode sample (catalog.transformAt s)) := by
  induction nodes generalizing found with
  | nil => simp
  | cons n nodes ih =>
    rw [List.foldl_cons, ih, toList_occurrences_visit hnodup hwanted, List.filter_cons,
      List.append_assoc]
    split_ifs <;> rfl

/-- Only entries that are there change. -/
theorem keys_visit (sample : Nat) {found : MatchSet}
    (h : ∀ s ∈ wanted, (catalog.transformAt s).id ∈ found.keys) (n : Node) :
    (visit catalog wanted sample found n).keys = found.keys := by
  unfold visit
  induction catalog.slotsForKind n.kind generalizing found with
  | nil => rfl
  | cons s slots ih =>
    rw [List.foldl_cons]
    dsimp only
    split_ifs with hadd
    · rw [Bool.and_eq_true, List.contains_iff_mem] at hadd
      have hkeys := SortedMap.keys_alter
        (f := fun known => (known.getD #[]).push (ofNode sample (catalog.transformAt s) n))
        (h s hadd.1)
      rw [ih (by rwa [hkeys]), hkeys]
    · exact ih h

theorem keys_foldl_visit (sample : Nat) {found : MatchSet}
    (h : ∀ s ∈ wanted, (catalog.transformAt s).id ∈ found.keys) (nodes : List Node) :
    (nodes.foldl (visit catalog wanted sample) found).keys = found.keys := by
  induction nodes generalizing found with
  | nil => rfl
  | cons n nodes ih =>
    have hkeys := keys_visit sample h n
    rw [List.foldl_cons, ih (by rwa [hkeys]), hkeys]

/-! ## The whole search -/

/-- The occurrences of a transform, found by trying every node. -/
def naive (parsed : ParsedSample) (t : Transform) : Array Occurrence :=
  ((parsed.arena.nodes.filter t.isMatch).map (ofNode parsed.index t)).toArray

/-- There is an entry for each id asked for, and it is the naive one. -/
structure Answers (catalog : Catalog) (parsed : ParsedSample) (ids : List String)
    (found : MatchSet) : Prop where
  mem_keys_iff : ∀ k, k ∈ found.keys ↔ k ∈ ids
  get?_eq : ∀ t ∈ catalog.transforms, t.id ∈ ids → found.get? t.id = some (naive parsed t)

/-- A pass over all nodes gives the answers to what is asked for. -/
theorem Asks.answers (hnodup : catalog.ids.Nodup) {ids : List String}
    {asked : List catalog.Slot × MatchSet} (h : Asks ids asked) (parsed : ParsedSample) :
    Answers catalog parsed ids
      (parsed.arena.nodes.foldl (visit catalog asked.1 parsed.index) asked.2) := by
  have hkeys := keys_foldl_visit parsed.index
    (fun s hs => (h.mem_keys_iff _).mpr ((h.mem_wanted_iff s).mp hs)) parsed.arena.nodes
  constructor
  case mem_keys_iff =>
    intro k
    rw [hkeys, h.mem_keys_iff]
  case get?_eq =>
    intro t ht hid
    obtain ⟨s, rfl⟩ := Catalog.mem_transforms_iff.mp ht
    have hfiled := toList_occurrences_foldl_visit parsed.index hnodup
      ((h.mem_wanted_iff s).mpr hid) parsed.arena.nodes asked.2
    have hempty : asked.2.occurrences (catalog.transformAt s).id = #[] := by
      rw [MatchSet.occurrences, h.get?_eq, if_pos hid, Option.getD_some]
    obtain ⟨v, hv⟩ := SortedMap.exists_get?_of_mem
      (show (catalog.transformAt s).id ∈ SortedMap.keys _ by rwa [hkeys, h.mem_keys_iff])
    rw [hempty, MatchSet.occurrences, hv, Option.getD_some] at hfiled
    rw [hv, naive, ← List.nil_append (List.map _ _), ← hfiled]

/-- Asking for known ids answers them. -/
theorem exists_findAll (hnodup : catalog.ids.Nodup) (parsed : ParsedSample) {ids : List String}
    (hids : ∀ id ∈ ids, id ∈ catalog.ids) :
    ∃ found, findAll catalog parsed ids = .ok found ∧ Answers catalog parsed ids found := by
  obtain ⟨⟨wanted, start⟩, hok, hasks⟩ := asks_nil.foldlM_want hnodup hids
  rw [List.nil_append] at hasks
  rw [findAll, hok, Attempts.bind_ok]
  dsimp only
  split_ifs with hempty
  · -- no slot is wanted, so no transform is asked for
    refine ⟨_, rfl, hasks.mem_keys_iff, fun t ht hid => ?_⟩
    obtain ⟨s, rfl⟩ := Catalog.mem_transforms_iff.mp ht
    have hwanted := (hasks.mem_wanted_iff s).mpr hid
    rw [List.isEmpty_iff.mp hempty] at hwanted
    cases hwanted
  · exact ⟨_, rfl, hasks.answers hnodup parsed⟩

/-- A search that succeeds is one for known ids, and it answers them. -/
theorem answers_of_findAll (hnodup : catalog.ids.Nodup) {parsed : ParsedSample}
    {ids : List String} {found : MatchSet} (h : findAll catalog parsed ids = .ok found) :
    (∀ id ∈ ids, id ∈ catalog.ids) ∧ Answers catalog parsed ids found := by
  have hknown : ∀ id ∈ ids, id ∈ catalog.ids := by
    by_contra hunknown
    push Not at hunknown
    obtain ⟨id, hid, hnot⟩ := hunknown
    obtain ⟨first, hfirst⟩ : ∃ first, ids.find? (fun id => id ∉ catalog.ids) = some first :=
      Option.isSome_iff_exists.mp (List.find?_isSome.mpr ⟨id, hid, decide_eq_true hnot⟩)
    rw [findAll, foldlM_want_eq_error hnodup hfirst] at h
    cases h
  obtain ⟨found', hok, hanswers⟩ := exists_findAll hnodup parsed hknown
  rw [h] at hok
  cases hok
  exact ⟨hknown, hanswers⟩

/-- A search for one transform finds what trying every node for it finds. -/
theorem find_eq_ok (hnodup : catalog.ids.Nodup) (parsed : ParsedSample) {t : Transform}
    (ht : t ∈ catalog.transforms) : find catalog parsed t.id = .ok (naive parsed t) := by
  have hknown : ∀ id ∈ [t.id], id ∈ catalog.ids := by
    intro id hid
    rw [List.mem_singleton.mp hid]
    exact List.mem_map_of_mem ht
  obtain ⟨found, hok, hanswers⟩ := exists_findAll hnodup parsed hknown
  have hentry := hanswers.get?_eq t ht List.mem_cons_self
  rw [find, Catalog.lookup_id hnodup ht, Attempts.bind_ok, hok, Attempts.bind_ok,
    MatchSet.occurrences, hentry]
  rfl

/-- **The occurrences of a transform are the nodes it matches**, in pre-order.
A search for ids of the catalog never fails. -/
theorem findAll_eq_ok (hnodup : catalog.ids.Nodup) (parsed : ParsedSample) {ids : List String}
    (hids : ∀ id ∈ ids, ∃ t ∈ catalog.transforms, t.id = id) :
    ∃ found, findAll catalog parsed ids = .ok found ∧
      ∀ t ∈ catalog.transforms, t.id ∈ ids →
        (found.occurrences t.id).toList
          = (parsed.arena.nodes.filter t.isMatch).map (ofNode parsed.index t) := by
  obtain ⟨found, hok, hanswers⟩ := exists_findAll hnodup parsed
    fun id hid => List.mem_map.mpr (hids id hid)
  refine ⟨found, hok, fun t ht hid => ?_⟩
  rw [MatchSet.occurrences, hanswers.get?_eq t ht hid, Option.getD_some, naive]

/-- **One pass over all of them finds for each transform what a search for it
alone finds**: the nodes that it matches, in pre-order. There is one entry for
each id asked for. The first id that is not in the catalog fails the search. -/
theorem findAll_answers (l : Language) (parsed : ParsedSample) (ids : List String) :
    (∀ id, ids.find? (fun id => id ∉ (Catalog.ofLanguage l).ids) = some id →
      findAll (Catalog.ofLanguage l) parsed ids = .error (.unknownTransform l.name id)) ∧
    ((∀ id ∈ ids, id ∈ (Catalog.ofLanguage l).ids) →
      ∃ found, findAll (Catalog.ofLanguage l) parsed ids = .ok found ∧
        Answers (Catalog.ofLanguage l) parsed ids found ∧ found.keys.Nodup ∧
        ∀ t ∈ (Catalog.ofLanguage l).transforms, t.id ∈ ids →
          find (Catalog.ofLanguage l) parsed t.id = .ok (naive parsed t)) := by
  have hnodup := Catalog.nodup_ids l
  constructor
  · intro id hfind
    rw [findAll, foldlM_want_eq_error hnodup hfind, Catalog.language_ofLanguage]
    rfl
  · intro hids
    obtain ⟨found, hok, hanswers⟩ := exists_findAll hnodup parsed hids
    refine ⟨found, hok, hanswers, found.nodup_keys, fun t ht _ => ?_⟩
    exact find_eq_ok hnodup parsed ht

/-- The tree of the Python call `f(g())`, whose argument is a call as well. -/
def nestedCalls : Arena :=
  let named (kind : String) (field : Option String) (start stop : Nat) : Label :=
    ⟨kind, field, ⟨start, stop⟩, true, false, false⟩
  (((((Arena.empty "f(g())").add none 0 (named "call" none 0 6)).add (some 0) 1
    (named "identifier" (some "function") 0 1)).add (some 0) 1
    (named "argument_list" (some "arguments") 1 6)).add (some 2) 2
    (named "call" none 2 5)).add (some 3) 3
    (named "identifier" (some "function") 2 3) |>.add (some 3) 3
    (named "argument_list" (some "arguments") 3 5)

theorem findAll_answers_nestedCalls :
    ["call", "f"].find? (fun id => id ∉ (Catalog.ofLanguage .python).ids) = some "f" ∧
      findAll (Catalog.ofLanguage .python) ⟨7, nestedCalls⟩ ["call", "f"]
        = .error (.unknownTransform "python" "f") ∧
      (∀ id ∈ ["print", "call", "print"], id ∈ (Catalog.ofLanguage .python).ids) ∧
      ∃ found, findAll (Catalog.ofLanguage .python) ⟨7, nestedCalls⟩ ["print", "call", "print"]
          = .ok found ∧
        found.get? "call" = some #[⟨7, "call", 0, ⟨0, 6⟩, ⟨0, 0⟩⟩, ⟨7, "call", 3, ⟨2, 5⟩, ⟨0, 2⟩⟩] ∧
        found.get? "print" = some #[] := by
  have hunknown : ["call", "f"].find? (fun id => id ∉ (Catalog.ofLanguage .python).ids)
      = some "f" := by decide
  have hknown : ∀ id ∈ ["print", "call", "print"], id ∈ (Catalog.ofLanguage .python).ids := by
    decide
  obtain ⟨herror, -⟩ := findAll_answers .python ⟨7, nestedCalls⟩ ["call", "f"]
  obtain ⟨-, hanswer⟩ := findAll_answers .python ⟨7, nestedCalls⟩ ["print", "call", "print"]
  obtain ⟨found, hok, hanswers, -, -⟩ := hanswer hknown
  refine ⟨hunknown, herror "f" hunknown, hknown, found, hok, ?_, ?_⟩
  · rw [show "call" = Transform.Python.call.id from rfl,
      hanswers.get?_eq Transform.Python.call
        (by simp [Catalog.ofLanguage, Transform.Python.all]) (by decide)]
    decide +kernel
  · rw [show "print" = Transform.Python.print.id from rfl,
      hanswers.get?_eq Transform.Python.print
        (by simp [Catalog.ofLanguage, Transform.Python.all]) (by decide)]
    decide +kernel

end Occurrence

end CorpusMark
