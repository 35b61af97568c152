import CorpusMark.Proofs.FileTrees
import Mathlib.Data.List.Basic

/-!
# New directories

A directory is made where nothing is, so it diverts no path that led anywhere
before (`place?_set_directory`). That is all a run does to a tree to have a
directory for its files: `Grows` says that a tree has become another one in this
way, at places that given paths lead to, and `grows_ensureDirectory` that making a
directory with those around it does no more, whether it succeeds or not.
-/

namespace CorpusMark.FileTree

variable {t t' t'' : FileTree} {place q spot : List String}

/-! ## Walks -/

/-- A step that leads on still does so when something comes up where nothing was. -/
theorem stride_set_of_leads (h : t.node? spot = none) (node : FileNode) {follow last : Bool}
    {links links' : Nat} {step : String} {place' ahead : List String}
    (hstride : t.stride follow links place step last = .leads links' place' ahead) :
    (t.set spot node).stride follow links place step last = .leads links' place' ahead := by
  -- what is there is not where something comes up
  have hne : ∀ {q node}, t.node? q = some node → q ≠ spot := by
    rintro q node hq rfl
    rw [h] at hq
    cases hq
  have hdir : t.isDirectory place = true := (stride_eq_leads hstride).1
  have hdir' : (t.set spot node).isDirectory place = true := by
    rw [isDirectory_iff] at hdir ⊢
    rw [node?_set_of_ne (hne hdir), hdir]
  rw [← hstride]
  unfold stride at hstride ⊢
  rw [hdir] at hstride ⊢
  rw [hdir']
  split_ifs at hstride ⊢ with hfalse hlong hstay hup
  · rfl
  · rfl
  · unfold enter at hstride ⊢
    cases hnode : t.node? (place ++ [step]) with
    | none =>
      simp only [hnode, Stride.toNothing] at hstride
      split_ifs at hstride
    | some node => rw [node?_set_of_ne (hne hnode), hnode]

/-- A step that ends a walk still does so, or leads to the new directory. -/
theorem stride_set_of_ends (h : t.node? spot = none) {follow last : Bool} {links : Nat}
    {step : String} {node : Option FileNode}
    (hstride : t.stride follow links place step last = .ends node) :
    (t.set spot .directory).stride follow links place step last = .ends node ∨
      place ++ [step] = spot ∧
        (t.set spot .directory).stride follow links place step last = .leads links spot [] := by
  have hdir : t.isDirectory place = true := (stride_eq_ends hstride).1
  have hdir' : (t.set spot .directory).isDirectory place = true := by
    rw [isDirectory_iff] at hdir ⊢
    rw [node?_set_of_ne _, hdir]
    rintro rfl
    rw [h] at hdir
    cases hdir
  unfold stride at hstride ⊢
  rw [hdir] at hstride
  rw [hdir']
  split_ifs at hstride ⊢ with hfalse hlong hstay hup
  by_cases hspot : place ++ [step] = spot
  · refine .inr ⟨hspot, ?_⟩
    have hne : spot ≠ [] := by
      rw [← hspot]
      exact List.append_ne_nil_of_right_ne_nil _ (List.cons_ne_nil _ _)
    rw [enter, hspot, node?_set_self hne]
  · refine .inl ?_
    rw [enter, node?_set_of_ne hspot, ← enter]
    exact hstride

/-- Making a directory where nothing is does not divert a walk that gets anywhere. -/
theorem endOf?_walk_set_directory (h : t.node? spot = none) {follow : Bool} {links : Nat}
    {steps : List String} (hend : endOf? (t.walk follow links place steps) = some q) :
    endOf? ((t.set spot .directory).walk follow links place steps) = some q := by
  induction links, place, steps using walk_induction t follow with
  | nil links place => simpa using hend
  | cons links place step rest ih =>
    rw [walk_cons] at hend ⊢
    cases hstride : t.stride follow links place step rest.isEmpty with
    | fails fault =>
      rw [hstride] at hend
      cases hend
    | leads links' place' ahead =>
      rw [hstride] at hend
      rw [stride_set_of_leads h _ hstride]
      exact ih links' place' ahead hstride hend
    | ends node =>
      -- a walk that ended where the directory is now takes one more step, into it
      obtain ⟨-, hlast, -⟩ := stride_eq_ends hstride
      rw [hstride] at hend
      rcases stride_set_of_ends h hstride with hsame | ⟨hspot, hleads⟩
      · rw [hsame]
        exact hend
      · rw [hleads, List.isEmpty_iff.mp hlast, ← hspot]
        simpa using hend

/-- A step that does not end at a link does the same whether links are followed at
the end or not. -/
theorem stride_true_eq {links : Nat} {step : String} {last : Bool}
    (h : ∀ target, t.stride false links place step last ≠ .ends (some (.link target))) :
    t.stride true links place step last = t.stride false links place step last := by
  unfold stride at h ⊢
  split_ifs at h ⊢ with hdir hlong hstay hup
  · rfl
  · rfl
  · rfl
  · rfl
  · unfold enter at h ⊢
    cases hnode : t.node? (place ++ [step]) with
    | none => rfl
    | some node =>
      cases node with
      | link target =>
        cases last with
        | false => rfl
        | true =>
          refine absurd ?_ (h target)
          rw [hnode]
          rfl
      | _ => rfl

/-- A walk that ends at nothing does not end at a link. -/
theorem walk_true_of_none {links : Nat} {steps : List String}
    (h : t.walk false links place steps = .ok (q, none)) :
    t.walk true links place steps = .ok (q, none) := by
  induction links, place, steps using walk_induction t false with
  | nil links place => rwa [walk_nil] at h ⊢
  | cons links place step rest ih =>
    rw [walk_cons] at h ⊢
    have hsame : t.stride true links place step rest.isEmpty
        = t.stride false links place step rest.isEmpty := by
      refine stride_true_eq fun target hlink => ?_
      rw [hlink] at h
      cases h
    rw [hsame]
    cases hstride : t.stride false links place step rest.isEmpty with
    | fails fault =>
      rw [hstride] at h
      cases h
    | ends node =>
      rw [hstride] at h
      exact h
    | leads links' place' ahead =>
      rw [hstride] at h
      exact ih links' place' ahead hstride h

/-! ## Paths -/

/-- Making a directory where nothing is changes the place of no path that leads
anywhere. -/
theorem place?_set_directory (h : t.node? spot = none) {path : String}
    (hplace : t.place? path = some place) :
    (t.set spot .directory).place? path = some place := by
  have hpath := isPath_of_place? hplace
  unfold place? at hplace ⊢
  rw [resolve_of_isPath hpath] at hplace ⊢
  exact endOf?_walk_set_directory h hplace

/-- **A directory is made** where the path leads, if nothing is there, and then the
path leads to it. -/
theorem makeDirectory_eq_ok (hwf : t.WellFormed) {path : String}
    (h : t.makeDirectory path = .ok t') :
    ∃ spot, t.node? spot = none ∧ t' = t.set spot .directory ∧
      t'.place? (withoutEndSlashes path) = some spot := by
  unfold FileTree.makeDirectory at h
  cases hres : t.resolve false (withoutEndSlashes path) with
  | error fault =>
    rw [hres] at h
    cases h
  | ok result =>
    obtain ⟨spot, node⟩ := result
    obtain ⟨hnode, -, -⟩ := resolve_eq_ok hwf hres
    rw [hres] at h
    cases node with
    | some node => cases h
    | none =>
      cases h
      have hpath : IsPath (withoutEndSlashes path) := isPath_of_resolve (by rw [hres]; simp)
      have hplace : t.place? (withoutEndSlashes path) = some spot := by
        rw [resolve_of_isPath hpath] at hres
        rw [place?, resolve_of_isPath hpath, walk_true_of_none hres, endOf?_ok]
      exact ⟨spot, hnode.symm, rfl, place?_set_directory hnode.symm hplace⟩

/-! ## Growing trees -/

/-- Whether a tree has become another one by making directories where nothing was,
at places that some of the given paths lead to. -/
structure Grows (paths : List String) (t t' : FileTree) : Prop where
  wellFormed : t'.WellFormed
  node : ∀ place, t'.node? place = t.node? place ∨
    t.node? place = none ∧ t'.node? place = some .directory ∧
      ∃ path ∈ paths, t'.place? (withoutEndSlashes path) = some place
  /-- Paths that led anywhere lead there still. -/
  leads : ∀ path place, t.place? path = some place → t'.place? path = some place

variable {paths paths' : List String}

theorem Grows.refl (hwf : t.WellFormed) : Grows paths t t :=
  ⟨hwf, fun _ => .inl rfl, fun _ _ h => h⟩

theorem Grows.trans (h : Grows paths t t') (h' : Grows paths t' t'') : Grows paths t t'' := by
  refine ⟨h'.wellFormed, fun place => ?_, fun path place hp => h'.leads _ _ (h.leads _ _ hp)⟩
  rcases h'.node place with hsame' | ⟨hnone', hdir', hpath'⟩
  · rcases h.node place with hsame | ⟨hnone, hdir, path, hpath, hplace⟩
    · exact .inl (hsame'.trans hsame)
    · exact .inr ⟨hnone, hsame'.trans hdir, path, hpath, h'.leads _ _ hplace⟩
  · -- no directory is made twice
    rcases h.node place with hsame | ⟨-, hdir, -⟩
    · exact .inr ⟨hsame ▸ hnone', hdir', hpath'⟩
    · rw [hdir] at hnone'
      cases hnone'

theorem Grows.mono (h : Grows paths t t') (hsub : ∀ path ∈ paths, path ∈ paths') :
    Grows paths' t t' := by
  refine ⟨h.wellFormed, fun place => ?_, h.leads⟩
  rcases h.node place with hsame | ⟨hnone, hdir, path, hpath, hplace⟩
  · exact .inl hsame
  · exact .inr ⟨hnone, hdir, path, hsub path hpath, hplace⟩

/-- Whether an action does no more to a well-formed tree than to let it grow. -/
def GrowsBy {α : Type} (paths : List String) (x : StateM FileTree α) : Prop :=
  ∀ t : FileTree, t.WellFormed → Grows paths t (x.run t).2

theorem GrowsBy.pure {α : Type} (a : α) : GrowsBy paths (pure a) := fun _ h => .refl h

theorem GrowsBy.bind {α β : Type} {x : StateM FileTree α} {f : α → StateM FileTree β}
    (hx : GrowsBy paths x) (hf : ∀ a, GrowsBy paths (f a)) : GrowsBy paths (x >>= f) := by
  intro t hwf
  have hfirst := hx t hwf
  exact hfirst.trans (hf (x.run t).1 _ hfirst.wellFormed)

theorem GrowsBy.mono {α : Type} {x : StateM FileTree α} (h : GrowsBy paths x)
    (hsub : ∀ path ∈ paths, path ∈ paths') : GrowsBy paths' x :=
  fun t hwf => (h t hwf).mono hsub

theorem growsBy_makeDirectory {path : String} (hpath : path ∈ paths) :
    GrowsBy paths (access.makeDirectory path) := by
  intro t hwf
  show Grows paths t (change (fun t => t.makeDirectory path) t).2
  rw [change]
  cases h : t.makeDirectory path with
  | error fault => exact .refl hwf
  | ok t' =>
    have hwf' := hwf.makeDirectory h
    obtain ⟨spot, hnone, rfl, hplace⟩ := makeDirectory_eq_ok hwf h
    refine ⟨hwf', fun place => ?_, fun _ _ => place?_set_directory hnone⟩
    by_cases hspot : place = spot
    · subst hspot
      have hne : place ≠ [] := by
        rintro rfl
        cases hnone
      exact .inr ⟨hnone, node?_set_self hne _, path, hpath, hplace⟩
    · exact .inl (node?_set_of_ne hspot _)

theorem growsBy_orPresent (path : String) (result : Except FileFault Unit) :
    GrowsBy paths (access.orPresent path result) := by
  cases result with
  | ok _ => exact .pure _
  | error fault =>
    refine GrowsBy.bind (fun _ h => .refl h) fun kind => ?_
    split
    · exact .pure _
    · exact .pure _

theorem growsBy_ensureFirst (paths : List String) : GrowsBy paths (access.ensureFirst paths) := by
  induction paths with
  | nil => exact .pure _
  | cons path around ih =>
    have hmake := growsBy_makeDirectory (List.mem_cons_self (a := path) (l := around))
    unfold FileAccess.ensureFirst
    split_ifs
    · exact .pure _
    · refine GrowsBy.bind hmake fun made => ?_
      split
      · -- the directories around the first one are missing: they are made before it
        refine GrowsBy.bind (ih.mono fun _ => List.mem_cons_of_mem path) fun ensured => ?_
        split
        · exact .pure _
        · exact GrowsBy.bind hmake fun _ => growsBy_orPresent path _
      · exact growsBy_orPresent path _

/-- **Making a directory with those around it** makes directories where nothing was,
and does nothing else. -/
theorem grows_ensureDirectory (hwf : t.WellFormed) {path : String} {r : Except FileFault Unit}
    (h : (access.ensureDirectory path).run t = (r, t')) : Grows (Path.enclosing path) t t' := by
  have hgrows := growsBy_ensureFirst (Path.enclosing path) t hwf
  rw [← FileAccess.ensureDirectory, h] at hgrows
  exact hgrows

end CorpusMark.FileTree
