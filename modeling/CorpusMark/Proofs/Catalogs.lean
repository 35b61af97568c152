import CorpusMark.Proofs.Attempts
import CorpusMark.Transform.Catalog
import Mathlib.Data.List.FinRange
import Mathlib.Data.List.Nodup
import Mathlib.Tactic.SplitIfs

/-!
# Catalogs and their slots

A catalog finds a transform by its id, and every transform in it is found. Ids
are unique in the catalog of a language (`nodup_ids`), so there the slot of an
id is the only one with that id (`slot?_eq_some_iff`). The slots filed under a
kind of node are those of all transforms that can stand at it, each of them
once and in the order of the catalog (`slotsForKind_eq`).
-/

namespace CorpusMark

namespace Catalog

variable {catalog : Catalog}

/-! ## Slots -/

theorem mem_slots (s : catalog.Slot) : s ∈ catalog.slots :=
  List.mem_finRange s

theorem nodup_slots : catalog.slots.Nodup :=
  List.nodup_finRange _

theorem mem_transforms_iff {t : Transform} :
    t ∈ catalog.transforms ↔ ∃ s, catalog.transformAt s = t :=
  List.mem_iff_get

theorem id_transformAt_of_slot? {id : String} {s : catalog.Slot} (h : catalog.slot? id = some s) :
    (catalog.transformAt s).id = id := by
  simpa [slot?] using List.find?_some h

/-- There is a slot for the id of every transform. -/
theorem exists_slot? (s : catalog.Slot) :
    ∃ s', catalog.slot? (catalog.transformAt s).id = some s' := by
  rw [← Option.isSome_iff_exists, slot?, List.find?_isSome]
  exact ⟨s, List.mem_reverse.mpr (mem_slots s), beq_self_eq_true _⟩

theorem language_ofLanguage (l : Language) : (ofLanguage l).language = l := by
  cases l <;> rfl

/-- No id of a catalog comes twice. -/
theorem nodup_ids (l : Language) : (ofLanguage l).ids.Nodup := by
  cases l <;> decide

theorem slot_eq_of_id_eq (hnodup : catalog.ids.Nodup) {s s' : catalog.Slot}
    (h : (catalog.transformAt s).id = (catalog.transformAt s').id) : s = s' := by
  have hget : catalog.transforms.get s = catalog.transforms.get s' :=
    List.inj_on_of_nodup_map hnodup (List.get_mem _ _) (List.get_mem _ _) h
  exact (List.nodup_iff_injective_get.mp (hnodup.of_map _)) hget

/-- With unique ids it does not matter which transform with an id is taken. -/
theorem slot?_eq_some_iff (hnodup : catalog.ids.Nodup) {id : String} {s : catalog.Slot} :
    catalog.slot? id = some s ↔ (catalog.transformAt s).id = id := by
  refine ⟨id_transformAt_of_slot?, ?_⟩
  rintro rfl
  obtain ⟨s', hs'⟩ := exists_slot? s
  rw [hs', slot_eq_of_id_eq hnodup (id_transformAt_of_slot? hs')]

/-! ## Ids -/

theorem lookup_eq_ok_iff {id : String} {t : Transform} :
    catalog.lookup id = .ok t ↔ catalog.find? id = some t := by
  unfold lookup
  cases catalog.find? id <;> simp

/-- What is found for an id is a transform of the catalog with that id. -/
theorem mem_of_lookup {id : String} {t : Transform} (h : catalog.lookup id = .ok t) :
    t ∈ catalog.transforms ∧ t.id = id := by
  rw [lookup_eq_ok_iff, find?, Option.map_eq_some_iff] at h
  obtain ⟨s, hs, rfl⟩ := h
  exact ⟨mem_transforms_iff.mpr ⟨s, rfl⟩, id_transformAt_of_slot? hs⟩

/-- With unique ids a transform is found by its own. -/
theorem lookup_id (hnodup : catalog.ids.Nodup) {t : Transform} (h : t ∈ catalog.transforms) :
    catalog.lookup t.id = .ok t := by
  obtain ⟨s, rfl⟩ := mem_transforms_iff.mp h
  have hslot := (slot?_eq_some_iff hnodup).mpr (Eq.refl (catalog.transformAt s).id)
  rw [lookup_eq_ok_iff, find?, hslot, Option.map_some]

/-- An id that no transform has is an error that names it. -/
theorem lookup_eq_error {id : String} (h : id ∉ catalog.ids) :
    catalog.lookup id = .error (.unknownTransform catalog.language.name id) := by
  cases hlookup : catalog.lookup id with
  | ok t =>
    obtain ⟨hmem, rfl⟩ := mem_of_lookup hlookup
    exact absurd (List.mem_map_of_mem hmem) h
  | error e =>
    unfold lookup at hlookup
    cases hfind : catalog.find? id with
    | some t => rw [hfind] at hlookup; cases hlookup
    | none => rw [hfind] at hlookup; cases hlookup; rfl

/-! ## Kinds -/

/-- **Under a kind are filed the slots of all transforms that can stand at it**,
each of them once. -/
theorem slotsForKind_eq (kind : NodeKind) :
    catalog.slotsForKind kind
      = catalog.slots.filter fun s => (catalog.transformAt s).kinds.contains kind := by
  unfold slotsForKind kindSlots
  induction catalog.slots with
  | nil => rfl
  | cons s slots ih =>
    have hown : (((catalog.transformAt s).kinds.map fun k => (k, s)).filter (·.1 == kind)).map
        Prod.snd = if (catalog.transformAt s).kinds.contains kind then [s] else [] := by
      simp only [List.filter_map, Function.comp_def, List.filter_beq, List.map_replicate]
      -- a kind that a transform has comes once among its kinds
      split_ifs with hmem
      · rw [List.count_eq_one_of_mem (catalog.transformAt s).kinds_nodup
          (List.contains_iff_mem.mp hmem)]
        rfl
      · rw [List.count_eq_zero_of_not_mem (mt List.contains_iff_mem.mpr hmem)]
        rfl
    rw [List.flatMap_cons, List.filter_append, List.map_append, ih, hown, List.filter_cons]
    split_ifs <;> rfl

/-- The transforms under a kind, in the order of the catalog. -/
theorem forKind_eq (kind : NodeKind) :
    catalog.forKind kind = catalog.transforms.filter (·.kinds.contains kind) := by
  have hslots : catalog.slots.map catalog.transformAt = catalog.transforms :=
    List.map_get_finRange _
  rw [forKind, slotsForKind_eq, ← hslots, List.filter_map]
  rfl

end Catalog

end CorpusMark
