import CorpusMark.Files.Tree
import Mathlib.Data.List.Basic
import Mathlib.Tactic.SplitIfs

/-!
# Walks through a file tree

A path is resolved by a walk from name to name. `stride` says what one step of a
walk does and `walk_cons` that a walk goes step by step; `walk_induction` is the
induction that comes with it. Main statements:

- `walk_eq_ok`: in a well-formed tree, where everything stands in a directory, a
  walk ends in a directory, and what it reports is what is there;
- `endOf?_walk_set_file`: putting a file where no directory and no link is does
  not divert any walk;
- `walk_append`: where a walk is before its last steps does not depend on them.
-/

namespace CorpusMark.FileTree

variable {t : FileTree} {place q : List String}

/-! ## What is at a place -/

@[simp] theorem node?_nil : t.node? [] = some .directory := rfl

theorem node?_set_self (h : place ≠ []) (node : FileNode) :
    (t.set place node).node? place = some node := by
  simp [node?, set, h]

theorem node?_set_of_ne (h : q ≠ place) (node : FileNode) :
    (t.set place node).node? q = t.node? q := by
  have hother : ∀ l : List (List String × FileNode),
      (l.filter (·.1 ≠ place)).lookup q = l.lookup q := by
    intro l
    induction l with
    | nil => rfl
    | cons e rest ih =>
      by_cases he : e.1 = place
      · rw [List.filter_cons_of_neg (by simp [he]), ih, List.lookup_cons,
          beq_eq_false_iff_ne.mpr (he ▸ h)]
      · rw [List.filter_cons_of_pos (by simp [he]), List.lookup_cons, List.lookup_cons, ih]
  simp only [node?, set, List.lookup_cons, beq_eq_false_iff_ne.mpr h, hother]

theorem isDirectory_iff : t.isDirectory place = true ↔ t.node? place = some .directory := by
  unfold isDirectory
  cases t.node? place with
  | none => simp
  | some node => cases node <;> simp

/-- Whether a file can be put at a place: there is nothing yet, or a file. -/
def Vacant (t : FileTree) (place : List String) : Prop :=
  t.node? place = none ∨ ∃ content, t.node? place = some (.file content)

theorem Vacant.ne_nil (h : t.Vacant place) : place ≠ [] := by
  rintro rfl
  rcases h with h | ⟨_, h⟩ <;> cases h

theorem Vacant.isDirectory (h : t.Vacant place) : t.isDirectory place = false := by
  rcases h with h | ⟨_, h⟩ <;> rw [FileTree.isDirectory, h]

/-- Putting a file where it can be put makes no directory and removes none. -/
theorem isDirectory_set_file (h : t.Vacant place) (content : ByteArray) (q : List String) :
    (t.set place (.file content)).isDirectory q = t.isDirectory q := by
  by_cases hq : q = place
  · rw [hq, h.isDirectory, isDirectory, node?_set_self h.ne_nil]
  · rw [isDirectory, node?_set_of_ne hq, ← isDirectory]

/-- Where a file could be put one can be put after another one has been. -/
theorem Vacant.set_file (h : t.Vacant place) (hq : t.Vacant q) (content : ByteArray) :
    (t.set place (.file content)).Vacant q := by
  by_cases hqp : q = place
  · exact .inr ⟨content, by rw [hqp, node?_set_self h.ne_nil]⟩
  · rw [Vacant, node?_set_of_ne hqp]
    exact hq

/-! ## Well-formed trees -/

/-- Everything stands in a directory, and relative paths start from one. -/
structure WellFormed (t : FileTree) : Prop where
  parent : ∀ place node, t.node? place = some node → t.isDirectory place.dropLast = true
  working : t.isDirectory t.workingDirectory = true

/-- A tree is well-formed if each of its entries stands in a directory. -/
theorem wellFormed_of_entries
    (hentries : ∀ entry ∈ t.entries, t.isDirectory entry.1.dropLast = true)
    (hworking : t.isDirectory t.workingDirectory = true) : t.WellFormed := by
  refine ⟨fun place node h => ?_, hworking⟩
  by_cases hroot : place = []
  · rw [hroot]
    rfl
  · rw [node?, if_neg hroot] at h
    obtain ⟨before, after, hsplit, -⟩ := List.lookup_eq_some_iff.mp h
    exact hentries (place, node) (by simp [hsplit])

/-- Putting something into a directory, but not in place of a directory, leaves
everything in directories. -/
theorem WellFormed.set (h : t.WellFormed) (hparent : t.isDirectory place.dropLast = true)
    (hplace : t.isDirectory place = false) (node : FileNode) :
    (t.set place node).WellFormed := by
  have hne : ∀ q, t.isDirectory q = true → q ≠ place := by
    rintro q hq rfl
    rw [hq] at hplace
    cases hplace
  have hkeep : ∀ q, t.isDirectory q = true → (t.set place node).isDirectory q = true := by
    intro q hq
    rw [isDirectory_iff, node?_set_of_ne (hne q hq), ← isDirectory_iff]
    exact hq
  refine ⟨fun q other hq => hkeep _ ?_, hkeep _ h.working⟩
  by_cases hqp : q = place
  · rw [hqp]
    exact hparent
  · rw [node?_set_of_ne hqp] at hq
    exact h.parent q other hq

/-! ## Walks -/

/-- What one step of a walk does: it fails, it ends the walk at the place that it
names, or it leads on, with further steps ahead if it is a link. -/
inductive Stride where
  | fails (fault : FileFault)
  | ends (node : Option FileNode)
  | leads (links : Nat) (place ahead : List String)

/-- What a step to where there is nothing does. -/
def Stride.toNothing (last : Bool) : Stride :=
  if last then .ends none else .fails .missing

/-- What a step to a name does, which may be the last one of its walk. -/
def enter (t : FileTree) (follow : Bool) (links : Nat) (place : List String) (name : String)
    (last : Bool) : Stride :=
  match t.node? (place ++ [name]) with
  | none => .toNothing last
  | some (.link target) =>
    if last && !follow then .ends (some (.link target))
    else match links with
      | 0 => .fails .tooManyLinks
      | links + 1 => .leads links (if Path.isAbsolute target then [] else place) (steps target)
  | some _ => .leads links (place ++ [name]) []

/-- What a step does. -/
def stride (t : FileTree) (follow : Bool) (links : Nat) (place : List String) (step : String)
    (last : Bool) : Stride :=
  if !t.isDirectory place then .fails .notDirectory
  else if maxNameBytes < step.utf8ByteSize then .fails .nameTooLong
  else if step = "." then .leads links place []
  else if step = ".." then .leads links place.dropLast []
  else t.enter follow links place step last

@[simp] theorem walk_nil (follow : Bool) (links : Nat) :
    t.walk follow links place [] = .ok (place, t.node? place) := by
  rw [walk]

/-- A walk goes step by step. -/
theorem walk_cons (follow : Bool) (links : Nat) (step : String) (rest : List String) :
    t.walk follow links place (step :: rest)
      = match t.stride follow links place step rest.isEmpty with
        | .fails fault => .error fault
        | .ends node => .ok (place ++ [step], node)
        | .leads links place ahead => t.walk follow links place (ahead ++ rest) := by
  rw [walk, stride]
  by_cases hdir : (!t.isDirectory place) = true
  · rw [if_pos hdir, if_pos hdir]
  rw [if_neg hdir, if_neg hdir]
  by_cases hlong : maxNameBytes < step.utf8ByteSize
  · rw [if_pos hlong, if_pos hlong]
  rw [if_neg hlong, if_neg hlong]
  by_cases hstay : step = "."
  · rw [if_pos hstay, if_pos hstay]
    rfl
  rw [if_neg hstay, if_neg hstay]
  by_cases hup : step = ".."
  · rw [if_pos hup, if_pos hup]
    rfl
  rw [if_neg hup, if_neg hup]
  rw [enter]
  dsimp only
  cases t.node? (place ++ [step]) with
  | none => cases rest <;> rfl
  | some node =>
    cases node with
    | link target => cases rest <;> cases follow <;> cases links <;> rfl
    | _ => rfl

/-- Where a step leads: it stays, goes up, enters what is no link, or follows a link. -/
theorem stride_eq_leads {follow last : Bool} {links links' : Nat} {step : String}
    {place' ahead : List String}
    (h : t.stride follow links place step last = .leads links' place' ahead) :
    t.isDirectory place = true ∧
      (links' = links ∧ ahead = [] ∧
          (place' = place ∨ place' = place.dropLast ∨
            place' = place ++ [step] ∧ ∃ node, t.node? place' = some node ∧
              ∀ target, node ≠ .link target) ∨
        ∃ target, t.node? (place ++ [step]) = some (.link target) ∧ links = links' + 1 ∧
          place' = (if Path.isAbsolute target then [] else place) ∧ ahead = steps target) := by
  unfold stride at h
  split_ifs at h with hdir hlong hstay hup
  · cases h
    exact ⟨by simpa using hdir, .inl ⟨rfl, rfl, .inl rfl⟩⟩
  · cases h
    exact ⟨by simpa using hdir, .inl ⟨rfl, rfl, .inr (.inl rfl)⟩⟩
  · refine ⟨by simpa using hdir, ?_⟩
    unfold enter at h
    cases hnode : t.node? (place ++ [step]) with
    | none =>
      simp only [hnode, Stride.toNothing] at h
      split_ifs at h
    | some node =>
      cases node with
      | link target =>
        simp only [hnode] at h
        by_cases hend : (last && !follow) = true
        · rw [if_pos hend] at h
          cases h
        · rw [if_neg hend] at h
          cases links with
          | zero => cases h
          | succ links =>
            cases h
            exact .inr ⟨target, rfl, rfl, rfl, rfl⟩
      | directory =>
        simp only [hnode] at h
        cases h
        exact .inl ⟨rfl, rfl, .inr (.inr ⟨rfl, _, hnode, by simp⟩)⟩
      | file content =>
        simp only [hnode] at h
        cases h
        exact .inl ⟨rfl, rfl, .inr (.inr ⟨rfl, _, hnode, by simp⟩)⟩

/-- A step ends a walk where there is nothing, or at a link that is not followed. -/
theorem stride_eq_ends {follow last : Bool} {links : Nat} {step : String}
    {node : Option FileNode} (h : t.stride follow links place step last = .ends node) :
    t.isDirectory place = true ∧ last = true ∧ node = t.node? (place ++ [step]) ∧
      (node = none ∨ follow = false) := by
  unfold stride at h
  split_ifs at h with hdir hlong hstay hup
  refine ⟨by simpa using hdir, ?_⟩
  unfold enter at h
  cases hnode : t.node? (place ++ [step]) with
  | none =>
    simp only [hnode, Stride.toNothing] at h
    split_ifs at h with hlast
    cases h
    exact ⟨hlast, rfl, .inl rfl⟩
  | some node =>
    cases node with
    | link target =>
      simp only [hnode] at h
      split_ifs at h with hlast
      · cases h
        simp only [Bool.and_eq_true, Bool.not_eq_true'] at hlast
        exact ⟨hlast.1, rfl, .inr hlast.2⟩
      all_goals cases links <;> cases h
    | _ =>
      simp only [hnode] at h
      cases h

/-- Induction along a walk. -/
theorem walk_induction (t : FileTree) (follow : Bool)
    {motive : Nat → List String → List String → Prop}
    (nil : ∀ links place, motive links place [])
    (cons : ∀ links place step rest,
      (∀ links' place' ahead,
        t.stride follow links place step rest.isEmpty = .leads links' place' ahead →
          motive links' place' (ahead ++ rest)) → motive links place (step :: rest)) :
    ∀ links place steps, motive links place steps
  | links, place, [] => nil links place
  | links, place, step :: rest =>
    cons links place step rest fun links' place' ahead _h =>
      walk_induction t follow nil cons links' place' (ahead ++ rest)
termination_by links _ steps => (links, steps.length)
decreasing_by
  obtain ⟨-, ⟨rfl, rfl, -⟩ | ⟨_, -, rfl, -⟩⟩ := stride_eq_leads _h
  · exact Prod.Lex.right _ (Nat.lt_succ_self _)
  · exact Prod.Lex.left _ _ (Nat.lt_succ_self _)

/-! ## Where a walk ends -/

/-- A place that a walk may stop at: it is in a directory and no link. -/
def Settled (t : FileTree) (place : List String) : Prop :=
  t.isDirectory place.dropLast = true ∧ ∀ target, t.node? place ≠ some (.link target)

theorem WellFormed.settled (h : t.WellFormed) (hdir : t.isDirectory place = true) :
    t.Settled place := by
  have hnode := isDirectory_iff.mp hdir
  refine ⟨h.parent place _ hnode, fun target hlink => ?_⟩
  rw [hnode] at hlink
  cases hlink

/-- A walk that gets anywhere ends in a directory, at no link unless it may end
at one, and what it reports is what is there. -/
theorem walk_eq_ok (hwf : t.WellFormed) {follow : Bool} {links : Nat} {steps : List String}
    {node : Option FileNode} (hplace : t.Settled place)
    (h : t.walk follow links place steps = .ok (q, node)) :
    node = t.node? q ∧ t.isDirectory q.dropLast = true ∧
      (follow = true → ∀ target, node ≠ some (.link target)) := by
  induction links, place, steps using walk_induction t follow with
  | nil links place =>
    rw [walk_nil] at h
    cases h
    exact ⟨rfl, hplace.1, fun _ => hplace.2⟩
  | cons links place step rest ih =>
    rw [walk_cons] at h
    cases hstride : t.stride follow links place step rest.isEmpty with
    | fails fault =>
      rw [hstride] at h
      cases h
    | ends node' =>
      rw [hstride] at h
      cases h
      obtain ⟨hdir, -, hnode, hend⟩ := stride_eq_ends hstride
      refine ⟨hnode, by rwa [List.dropLast_concat], fun hfollow target hlink => ?_⟩
      rcases hend with hend | hend
      · rw [hend] at hlink
        cases hlink
      · rw [hend] at hfollow
        cases hfollow
    | leads links' place' ahead =>
      rw [hstride] at h
      refine ih links' place' ahead hstride ?_ h
      -- every place that a step leads to is settled
      obtain ⟨hdir, ⟨-, -, rfl | rfl | ⟨rfl, node', hnode, hlink⟩⟩ | ⟨target, -, -, rfl, -⟩⟩ :=
        stride_eq_leads hstride
      · exact hplace
      · exact hwf.settled hplace.1
      · refine ⟨by rwa [List.dropLast_concat], fun target htarget => hlink target ?_⟩
        rw [hnode] at htarget
        exact Option.some.inj htarget
      · split_ifs
        · exact hwf.settled rfl
        · exact hplace

/-! ## Walks and writes -/

/-- The place that a walk ends at, if it gets anywhere. -/
def endOf? : Except FileFault (List String × Option FileNode) → Option (List String)
  | .ok (place, _) => some place
  | .error _ => none

@[simp] theorem endOf?_ok (node : Option FileNode) : endOf? (.ok (place, node)) = some place := rfl

@[simp] theorem endOf?_error (fault : FileFault) : endOf? (.error fault) = none := rfl

/-- No walk goes on from a place that is no directory. -/
theorem endOf?_walk_of_not_isDirectory (h : t.isDirectory place = false) {steps : List String}
    (hsteps : steps ≠ []) (follow : Bool) (links : Nat) :
    endOf? (t.walk follow links place steps) = none := by
  cases steps with
  | nil => exact absurd rfl hsteps
  | cons step rest =>
    rw [walk_cons, stride, h]
    rfl

/-- Putting a file where it can be put changes no step but those to the file,
which lead to it instead of ending there or failing. -/
theorem stride_set_file {spot : List String} (h : t.Vacant spot) (content : ByteArray)
    (follow : Bool) (links : Nat) (place : List String) (step : String) (last : Bool) :
    (t.set spot (.file content)).stride follow links place step last
        = t.stride follow links place step last ∨
      place ++ [step] = spot ∧
        (t.set spot (.file content)).stride follow links place step last = .leads links spot [] ∧
        (t.stride follow links place step last = .leads links spot [] ∨
          t.stride follow links place step last = .toNothing last) := by
  by_cases hspot : place ++ [step] = spot
  · have hafter : (t.set spot (.file content)).enter follow links place step last
        = .leads links spot [] := by
      rw [enter, hspot, node?_set_self h.ne_nil]
    have hbefore : t.enter follow links place step last = .leads links spot [] ∨
        t.enter follow links place step last = .toNothing last := by
      rw [enter, hspot]
      rcases h with hnode | ⟨_, hnode⟩
      · rw [hnode]
        exact .inr rfl
      · rw [hnode]
        exact .inl rfl
    rw [stride, stride, isDirectory_set_file h]
    split_ifs
    · exact .inl rfl
    · exact .inl rfl
    · exact .inl rfl
    · exact .inl rfl
    · exact .inr ⟨hspot, hafter, hbefore⟩
  · rw [stride, stride, isDirectory_set_file h, enter, enter, node?_set_of_ne hspot]
    exact .inl rfl

/-- Putting a file where it can be put does not divert a walk. -/
theorem endOf?_walk_set_file {spot : List String} (h : t.Vacant spot) (content : ByteArray)
    (follow : Bool) (links : Nat) (place steps : List String) :
    endOf? ((t.set spot (.file content)).walk follow links place steps)
      = endOf? (t.walk follow links place steps) := by
  induction links, place, steps using walk_induction t follow with
  | nil links place => simp
  | cons links place step rest ih =>
    rw [walk_cons, walk_cons]
    rcases stride_set_file h content follow links place step rest.isEmpty with
      hsame | ⟨rfl, hafter, hbefore⟩
    · rw [hsame]
      cases hcase : t.stride follow links place step rest.isEmpty with
      | leads links' place' ahead => exact ih links' place' ahead hcase
      | _ => rfl
    · -- the walk reaches the file, and that has to be its end
      rw [hafter]
      cases rest with
      | nil => rcases hbefore with hbefore | hbefore <;> rw [hbefore] <;> simp [Stride.toNothing]
      | cons next rest =>
        have hend := endOf?_walk_of_not_isDirectory h.isDirectory (List.cons_ne_nil next rest)
        have hend' := endOf?_walk_of_not_isDirectory
          ((isDirectory_set_file h content _).trans h.isDirectory) (List.cons_ne_nil next rest)
        rcases hbefore with hbefore | hbefore <;> rw [hbefore] <;>
          simp [Stride.toNothing, hend, hend']

/-! ## Walks that differ in the end -/

/-- Before its last step a walk follows links in any case. -/
theorem stride_of_not_last (t : FileTree) (follow : Bool) (links : Nat) (place : List String)
    (step : String) :
    t.stride follow links place step false = t.stride true links place step false := by
  rw [stride, stride, enter, enter]
  cases t.node? (place ++ [step]) with
  | none => rfl
  | some node => cases node <;> simp

/-- A step that leads on does so whether it is the last one or not. -/
theorem stride_last_of_leads {links links' : Nat} {step : String} {place' ahead : List String}
    {last : Bool} (h : t.stride true links place step last = .leads links' place' ahead)
    (last' : Bool) : t.stride true links place step last' = .leads links' place' ahead := by
  rw [← h, stride, stride]
  rw [stride] at h
  split_ifs at h ⊢ with hdir hlong hstay hup
  · rfl
  · rfl
  · unfold enter at h ⊢
    cases hnode : t.node? (place ++ [step]) with
    | none =>
      rw [hnode] at h
      cases last <;> cases h
    | some node => cases node <;> simp

/-- A walk whose last steps are left open goes on from where it is by then,
whatever these steps are. -/
theorem walk_append (t : FileTree) (links : Nat) (place steps : List String) :
    (∃ links' place', ∀ follow rest, rest ≠ [] →
        t.walk follow links place (steps ++ rest) = t.walk follow links' place' rest) ∨
      ∀ follow rest, rest ≠ [] → endOf? (t.walk follow links place (steps ++ rest)) = none := by
  induction links, place, steps using walk_induction t true with
  | nil links place => exact .inl ⟨links, place, fun _ _ _ => rfl⟩
  | cons links place step steps ih =>
    have hwalk : ∀ follow rest, rest ≠ [] → t.walk follow links place (step :: steps ++ rest)
        = match t.stride true links place step false with
          | .fails fault => .error fault
          | .ends node => .ok (place ++ [step], node)
          | .leads links place ahead => t.walk follow links place (ahead ++ steps ++ rest) := by
      intro follow rest hrest
      have hnotlast : (steps ++ rest).isEmpty = false := by simp [hrest]
      rw [List.cons_append, walk_cons, hnotlast, stride_of_not_last]
      simp only [List.append_assoc]
    cases hstride : t.stride true links place step false with
    | fails fault =>
      refine .inr fun follow rest hrest => ?_
      rw [hwalk follow rest hrest, hstride]
      rfl
    | ends node =>
      obtain ⟨-, hlast, -⟩ := stride_eq_ends hstride
      cases hlast
    | leads links' place' ahead =>
      rcases ih links' place' ahead (stride_last_of_leads hstride _) with
        ⟨links'', place'', hgo⟩ | hstop
      · refine .inl ⟨links'', place'', fun follow rest hrest => ?_⟩
        rw [hwalk follow rest hrest, hstride]
        exact hgo follow rest hrest
      · refine .inr fun follow rest hrest => ?_
        rw [hwalk follow rest hrest, hstride]
        exact hstop follow rest hrest

/-- A walk that ends in a directory can go on from there. -/
theorem exists_walk_concat {links : Nat} {steps : List String}
    (h : t.walk true links place steps = .ok (q, some .directory)) (name : String) :
    ∃ links', t.walk true links place (steps ++ [name]) = t.walk true links' q [name] := by
  induction links, place, steps using walk_induction t true with
  | nil links place =>
    rw [walk_nil] at h
    obtain ⟨rfl, -⟩ := Prod.mk.inj (Except.ok.inj h)
    exact ⟨links, rfl⟩
  | cons links place step rest ih =>
    rw [walk_cons] at h
    cases hstride : t.stride true links place step rest.isEmpty with
    | fails fault =>
      rw [hstride] at h
      cases h
    | ends node =>
      rw [hstride] at h
      cases h
      obtain ⟨-, -, -, hend⟩ := stride_eq_ends hstride
      rcases hend with hend | hend <;> cases hend
    | leads links' place' ahead =>
      rw [hstride] at h
      obtain ⟨links'', hgo⟩ := ih links' place' ahead hstride h
      refine ⟨links'', ?_⟩
      rw [List.cons_append, walk_cons, stride_last_of_leads hstride, ← hgo, List.append_assoc]

/-- Whether a step names something, instead of staying or going up. -/
def IsName (step : String) : Prop := step ≠ "." ∧ step ≠ ".."

instance (step : String) : Decidable (IsName step) := inferInstanceAs (Decidable (_ ∧ _))

/-- A step to a name in a directory enters the name. -/
theorem stride_eq_enter {name : String} (hdir : t.isDirectory place = true)
    (hlong : name.utf8ByteSize ≤ maxNameBytes) (hname : IsName name) (follow : Bool)
    (links : Nat) (last : Bool) :
    t.stride follow links place name last = t.enter follow links place name last := by
  rw [stride, if_neg (by simp [hdir]), if_neg (Nat.not_lt.mpr hlong), if_neg hname.1,
    if_neg hname.2]

/-- A step to something that is no link leads there. -/
theorem walk_of_node {name : String} {node : FileNode} (hdir : t.isDirectory place = true)
    (hlong : name.utf8ByteSize ≤ maxNameBytes) (hname : IsName name)
    (hnode : t.node? (place ++ [name]) = some node) (hlink : ∀ target, node ≠ .link target)
    (follow : Bool) (links : Nat) (rest : List String) :
    t.walk follow links place (name :: rest) = t.walk follow links (place ++ [name]) rest := by
  rw [walk_cons, stride_eq_enter hdir hlong hname, enter, hnode]
  cases node with
  | link target => exact absurd rfl (hlink target)
  | _ => rfl

/-- A last step may lead to nothing. -/
theorem walk_of_none {name : String} (hdir : t.isDirectory place = true)
    (hlong : name.utf8ByteSize ≤ maxNameBytes) (hname : IsName name)
    (hnode : t.node? (place ++ [name]) = none) (follow : Bool) (links : Nat) :
    t.walk follow links place [name] = .ok (place ++ [name], none) := by
  rw [walk_cons, stride_eq_enter hdir hlong hname, enter, hnode]
  rfl

/-- A step to a name ends at the name, unless there is a link. -/
theorem eq_of_endOf?_walk_name {links : Nat} {name : String} (hname : IsName name)
    (hlink : ∀ q target, t.walk false links place [name] ≠ .ok (q, some (.link target)))
    (hend : endOf? (t.walk true links place [name]) = some q) : q = place ++ [name] := by
  rw [walk_cons] at hend
  specialize hlink (place ++ [name])
  rw [walk_cons] at hlink
  unfold stride at hend hlink
  split_ifs at hend hlink with hdir hlong hstay hup
  · cases hend
  · cases hend
  · exact absurd hstay hname.1
  · exact absurd hup hname.2
  · unfold enter at hend hlink
    cases hnode : t.node? (place ++ [name]) with
    | none =>
      rw [hnode] at hend
      cases hend
      rfl
    | some node =>
      cases node with
      | link target =>
        refine absurd ?_ (hlink target)
        rw [hnode]
        rfl
      | _ =>
        rw [hnode] at hend
        simp only [List.nil_append, walk_nil, endOf?_ok] at hend
        exact (Option.some.inj hend).symm

end CorpusMark.FileTree
