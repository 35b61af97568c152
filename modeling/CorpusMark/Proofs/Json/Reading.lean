import CorpusMark.Json.Reader
import CorpusMark.Proofs.Json.Lexing
import Mathlib

/-!
# What is read as JSON

The pass over tokens puts together the value that has these tokens, and no other
(`read?_eq_some_iff`). `Consumed` is what it keeps: the tokens read so far are those of
the open arrays and objects up to here. With the pass over characters and the limits,
the reader accepts the texts of the grammar and gives the values that they denote
(`parse?_eq_some_iff`).
-/

namespace CorpusMark.Json

variable {ts : List Token} {v : Value}

/-! ## Commas between tokens -/

/-- Lists of tokens with a comma behind each. -/
def commaEnded (tss : List (List Token)) : List Token :=
  tss.flatMap (· ++ [.comma])

theorem commaEnded_concat (tss : List (List Token)) (ts : List Token) :
    commaEnded (tss ++ [ts]) = commaEnded tss ++ ts ++ [.comma] := by
  simp [commaEnded]

/-- With commas between them, all lists but the last have one behind them. -/
theorem intercalate_concat (tss : List (List Token)) (ts : List Token) :
    [.comma].intercalate (tss ++ [ts]) = commaEnded tss ++ ts := by
  induction tss with
  | nil => simp [commaEnded]
  | cons front tss ih =>
    rw [List.cons_append, List.intercalate_cons_of_ne_nil (by simp), ih]
    simp [commaEnded]

theorem itemTokens_concat (vs : List Value) (v : Value) :
    itemTokens (vs ++ [v]) = itemTokens vs ++ [v.tokens] := by
  induction vs with
  | nil => rfl
  | cons w vs ih => rw [List.cons_append, itemTokens, ih, itemTokens, List.cons_append]

theorem memberTokens_concat (ms : List (Option String × Value)) (k : Option String) (v : Value) :
    memberTokens (ms ++ [(k, v)]) = memberTokens ms ++ [.string k :: .colon :: v.tokens] := by
  induction ms with
  | nil => rfl
  | cons m ms ih => rw [List.cons_append, memberTokens, ih, memberTokens, List.cons_append]

/-! ## Tokens of a value put together -/

namespace Reading

/-- A value begins with a token that does not close an array. -/
theorem exists_tokens_eq_cons (v : Value) :
    ∃ t rest, v.tokens = t :: rest ∧ t ≠ .closeArray := by
  cases v <;> exact ⟨_, _, rfl, by simp⟩

/-- Where an array could end as well, its first item is read like any other. -/
theorem foldlM_firstItem (v : Value) (vs : List Value) (rest : List Token) (stack : List Frame) :
    ([.comma].intercalate (itemTokens (v :: vs)) ++ rest).foldlM step ⟨stack, .firstItem⟩
      = ([.comma].intercalate (itemTokens (v :: vs)) ++ rest).foldlM step ⟨stack, .value⟩ := by
  obtain ⟨t, ts, htokens, ht⟩ := exists_tokens_eq_cons v
  have hstep : step ⟨stack, .firstItem⟩ t = step ⟨stack, .value⟩ t := if_neg ht
  cases vs <;> simp [itemTokens, htokens, hstep]

/-- Where an object could end as well, its first name is read like any other. -/
theorem foldlM_firstName (m : Option String × Value) (ms : List (Option String × Value))
    (rest : List Token) (stack : List Frame) :
    ([.comma].intercalate (memberTokens (m :: ms)) ++ rest).foldlM step ⟨stack, .firstName⟩
      = ([.comma].intercalate (memberTokens (m :: ms)) ++ rest).foldlM step ⟨stack, .name⟩ := by
  have hstep : step ⟨stack, .firstName⟩ (.string m.1) = step ⟨stack, .name⟩ (.string m.1) := rfl
  cases ms <;> simp [memberTokens, hstep]

mutual

/-- **The tokens of a value** are put together to the value. -/
theorem foldlM_tokens : ∀ (v : Value) (stack : List Frame),
    v.tokens.foldlM step ⟨stack, .value⟩ = some (complete v stack)
  | .null, _ => rfl
  | .bool _, _ => rfl
  | .number _, _ => rfl
  | .string _, _ => rfl
  | .array items, stack => by
    rw [Value.tokens, List.cons_append, foldlM_cons_of_eq_some rfl]
    have hitems := foldlM_itemTokens items [] stack
    cases items with
    | nil => rfl
    | cons v vs =>
      rw [foldlM_firstItem, foldlM_append_of_eq_some (hitems (List.cons_ne_nil v vs)),
        foldlM_cons_of_eq_some rfl]
      simp
  | .object members, stack => by
    rw [Value.tokens, List.cons_append, foldlM_cons_of_eq_some rfl]
    have hmembers := foldlM_memberTokens members [] none stack
    cases members with
    | nil => rfl
    | cons m ms =>
      obtain ⟨last, hmembers⟩ := hmembers (List.cons_ne_nil m ms)
      rw [foldlM_firstName, foldlM_append_of_eq_some hmembers, foldlM_cons_of_eq_some rfl]
      simp

/-- Items with commas between them come behind those of the array so far. -/
theorem foldlM_itemTokens : ∀ (vs done : List Value) (stack : List Frame), vs ≠ [] →
    ([.comma].intercalate (itemTokens vs)).foldlM step ⟨.array done :: stack, .value⟩
      = some ⟨.array (vs.reverse ++ done) :: stack, .more⟩
  | [], _, _, h => absurd rfl h
  | v :: vs, done, stack, _ => by
    have hv := foldlM_tokens v (.array done :: stack)
    have hvs := foldlM_itemTokens vs (v :: done) stack
    cases vs with
    | nil => simpa [itemTokens, complete] using hv
    | cons w vs =>
      rw [itemTokens, itemTokens, List.intercalate_cons_cons, ← itemTokens, List.append_assoc,
        foldlM_append_of_eq_some hv, List.singleton_append, foldlM_cons_of_eq_some rfl,
        hvs (List.cons_ne_nil w vs)]
      simp

/-- Members with commas between them come behind those of the object so far. -/
theorem foldlM_memberTokens : ∀ (ms done : List (Option String × Value)) (name : Option String)
    (stack : List Frame), ms ≠ [] → ∃ last,
      ([.comma].intercalate (memberTokens ms)).foldlM step ⟨.object done name :: stack, .name⟩
        = some ⟨.object (ms.reverse ++ done) last :: stack, .more⟩
  | [], _, _, _, h => absurd rfl h
  | (k, v) :: ms, done, name, stack, _ => by
    have hmember : (Token.string k :: .colon :: v.tokens).foldlM step
          ⟨.object done name :: stack, .name⟩
        = some ⟨.object ((k, v) :: done) k :: stack, .more⟩ := by
      rw [foldlM_cons_of_eq_some rfl, foldlM_cons_of_eq_some rfl, foldlM_tokens v]
      rfl
    have hms := foldlM_memberTokens ms ((k, v) :: done) k stack
    cases ms with
    | nil => exact ⟨k, by simpa [memberTokens] using hmember⟩
    | cons next ms =>
      obtain ⟨last, hms⟩ := hms (List.cons_ne_nil next ms)
      refine ⟨last, ?_⟩
      rw [memberTokens, memberTokens, List.intercalate_cons_cons, ← memberTokens,
        List.append_assoc, foldlM_append_of_eq_some hmember, List.singleton_append,
        foldlM_cons_of_eq_some rfl, hms]
      simp

end

/-! ## Tokens that are put together -/

end Reading

/-- What an open array or object has been read of when its next value is due. -/
def Frame.opened : Frame → List Token
  | .array items => .openArray :: commaEnded (itemTokens items.reverse)
  | .object members name =>
    .openObject :: commaEnded (memberTokens members.reverse) ++ [.string name, .colon]

/-- What has been read when the next value is due inside of all that is open. -/
def openedAll : List Frame → List Token
  | [] => []
  | frame :: stack => openedAll stack ++ frame.opened

namespace Reading

/-- The tokens that lead to a state. -/
inductive Consumed : Reading → List Token → Prop where
  | value (stack : List Frame) : Consumed ⟨stack, .value⟩ (openedAll stack)
  | firstItem (stack : List Frame) :
    Consumed ⟨.array [] :: stack, .firstItem⟩ (openedAll stack ++ [.openArray])
  | firstName (stack : List Frame) :
    Consumed ⟨.object [] none :: stack, .firstName⟩ (openedAll stack ++ [.openObject])
  | name (members : List (Option String × Value)) (last : Option String) (stack : List Frame) :
    Consumed ⟨.object members last :: stack, .name⟩
      (openedAll stack ++ .openObject :: commaEnded (memberTokens members.reverse))
  | colon (members : List (Option String × Value)) (name : Option String) (stack : List Frame) :
    Consumed ⟨.object members name :: stack, .colon⟩
      (openedAll stack ++ .openObject :: commaEnded (memberTokens members.reverse)
        ++ [.string name])
  | moreItems (v : Value) (items : List Value) (stack : List Frame) :
    Consumed ⟨.array (v :: items) :: stack, .more⟩ (openedAll (.array items :: stack) ++ v.tokens)
  | moreMembers (v : Value) (members : List (Option String × Value)) (name : Option String)
    (stack : List Frame) :
    Consumed ⟨.object ((name, v) :: members) name :: stack, .more⟩
      (openedAll (.object members name :: stack) ++ v.tokens)
  | done (v : Value) : Consumed ⟨[], .done v⟩ v.tokens

variable {s s' : Reading} {t : Token} {stack : List Frame}

theorem consumed_complete (v : Value) (stack : List Frame) :
    Consumed (complete v stack) (openedAll stack ++ v.tokens) := by
  cases stack with
  | nil => exact .done v
  | cons frame stack =>
    cases frame with
    | array items => exact .moreItems v items stack
    | object members name => exact .moreMembers v members name stack

theorem consumed_stepValue (h : stepValue stack t = some s') :
    Consumed s' (openedAll stack ++ [t]) := by
  cases t with
  | null | bool _ | number _ | string _ =>
    cases h
    exact consumed_complete _ stack
  | openArray =>
    cases h
    exact .firstItem stack
  | openObject =>
    cases h
    exact .firstName stack
  | _ => cases h

theorem consumed_stepName {members : List (Option String × Value)} {last : Option String}
    (h : stepName (.object members last :: stack) t = some s') :
    Consumed s' (openedAll stack ++ .openObject :: commaEnded (memberTokens members.reverse)
      ++ [t]) := by
  cases t with
  | string name =>
    cases h
    exact .colon members name stack
  | _ => cases h

theorem array_tokens_concat (vs : List Value) (v : Value) :
    (Value.array (vs ++ [v])).tokens
      = .openArray :: commaEnded (itemTokens vs) ++ v.tokens ++ [.closeArray] := by
  rw [Value.tokens, itemTokens_concat, intercalate_concat]
  simp

theorem object_tokens_concat (ms : List (Option String × Value)) (k : Option String) (v : Value) :
    (Value.object (ms ++ [(k, v)])).tokens
      = .openObject :: commaEnded (memberTokens ms) ++ [.string k, .colon] ++ v.tokens
        ++ [.closeObject] := by
  rw [Value.tokens, memberTokens_concat, intercalate_concat]
  simp

/-- **Each step consumes its token.** -/
theorem Consumed.step (h : Consumed s ts) (hstep : s.step t = some s') :
    Consumed s' (ts ++ [t]) := by
  cases h with
  | value stack => exact consumed_stepValue hstep
  | firstItem stack =>
    by_cases ht : t = .closeArray
    · subst ht
      cases hstep
      simpa [Value.tokens, itemTokens] using consumed_complete (.array []) stack
    · have hitem : stepValue (.array [] :: stack) t = some s' := (if_neg ht).symm.trans hstep
      exact consumed_stepValue hitem
  | firstName stack =>
    by_cases ht : t = .closeObject
    · subst ht
      cases hstep
      simpa [Value.tokens, memberTokens] using consumed_complete (.object []) stack
    · have hname : stepName (.object [] none :: stack) t = some s' :=
        (if_neg ht).symm.trans hstep
      exact consumed_stepName hname
  | name members last stack => exact consumed_stepName hstep
  | colon members name stack =>
    by_cases ht : t = .colon
    · subst ht
      cases hstep
      simpa [openedAll, Frame.opened] using Consumed.value (.object members name :: stack)
    · cases (if_neg ht).symm.trans hstep
  | moreItems v items stack =>
    by_cases ht : t = .comma
    · subst ht
      cases hstep
      simpa [openedAll, Frame.opened, itemTokens_concat, commaEnded_concat]
        using Consumed.value (.array (v :: items) :: stack)
    · have hclose : close (.array (v :: items) :: stack) t = some s' :=
        (if_neg ht).symm.trans hstep
      cases t with
      | closeArray =>
        cases hclose
        simpa [openedAll, Frame.opened, array_tokens_concat]
          using consumed_complete (.array (v :: items).reverse) stack
      | _ => cases hclose
  | moreMembers v members name stack =>
    by_cases ht : t = .comma
    · subst ht
      cases hstep
      simpa [openedAll, Frame.opened, memberTokens_concat, commaEnded_concat]
        using Consumed.name ((name, v) :: members) name stack
    · have hclose : close (.object ((name, v) :: members) name :: stack) t = some s' :=
        (if_neg ht).symm.trans hstep
      cases t with
      | closeObject =>
        cases hclose
        simpa [openedAll, Frame.opened, object_tokens_concat]
          using consumed_complete (.object ((name, v) :: members).reverse) stack
      | _ => cases hclose
  | done v => cases hstep

theorem Consumed.run {rest : List Token} (h : Consumed s ts)
    (hrun : rest.foldlM Reading.step s = some s') : Consumed s' (ts ++ rest) := by
  induction rest generalizing s ts with
  | nil =>
    cases hrun
    rwa [List.append_nil]
  | cons t rest ih =>
    rw [List.foldlM_cons, Option.bind_eq_bind] at hrun
    obtain ⟨next, hstep, hrest⟩ := Option.bind_eq_some_iff.mp hrun
    simpa using ih (h.step hstep) hrest

/-- The tokens of a complete text are those of its value. -/
theorem Consumed.eq_tokens (h : Consumed s ts) (hfinish : s.finish? = some v) : ts = v.tokens := by
  cases h with
  | done v => cases hfinish; rfl
  | _ => cases hfinish

end Reading

/-- **Tokens are read as the value** that has them. -/
theorem read?_eq_some_iff {cs : List Char} : read? cs = some v ↔ tokens? cs = some v.tokens := by
  rw [read?, Option.bind_eq_bind, Option.bind_eq_some_iff]
  constructor
  · rintro ⟨ts, hts, hread⟩
    obtain ⟨s, hrun, hfinish⟩ := Option.bind_eq_some_iff.mp hread
    have hconsumed := (Reading.Consumed.value []).run hrun
    rw [hts, ← hconsumed.eq_tokens hfinish]
    rfl
  · intro h
    refine ⟨v.tokens, h, ?_⟩
    rw [Reading.foldlM_tokens]
    rfl

/-! ## Limits -/

/-- Whether a string is a text and a number is in the range of doubles. -/
def Token.isStrict : Token → Bool
  | .number text => isNumberInRange text
  | .string text => text.isSome
  | _ => true

theorem forall_mem_intercalate (tss : List (List Token)) :
    (∀ t ∈ [.comma].intercalate tss, t.isStrict = true) ↔
      ∀ ts ∈ tss, ∀ t ∈ ts, t.isStrict = true := by
  induction tss with
  | nil => simp
  | cons ts tss ih =>
    cases tss with
    | nil => simp
    | cons next tss =>
      rw [List.intercalate_cons_cons, List.forall_mem_append, List.forall_mem_append, ih,
        List.forall_mem_cons (l := next :: tss)]
      simp [Token.isStrict]

mutual

/-- **A value is strict** if its tokens are and it is not nested too deeply. -/
theorem Value.isStrict_iff : ∀ (levels : Nat) (v : Value),
    v.isStrict levels = true ↔ v.nesting ≤ levels ∧ ∀ t ∈ v.tokens, t.isStrict = true
  | _, .null => by simp [Value.isStrict, Value.nesting, Value.tokens, Token.isStrict]
  | _, .bool _ => by simp [Value.isStrict, Value.nesting, Value.tokens, Token.isStrict]
  | _, .number _ => by simp [Value.isStrict, Value.nesting, Value.tokens, Token.isStrict]
  | _, .string _ => by simp [Value.isStrict, Value.nesting, Value.tokens, Token.isStrict]
  | 0, .array _ => by simp [Value.isStrict, Value.nesting]
  | levels + 1, .array items => by
    rw [Value.isStrict, allItemsStrict_iff, Value.nesting, Value.tokens, List.cons_append,
      List.forall_mem_cons, List.forall_mem_append, forall_mem_intercalate]
    simp [Token.isStrict]
  | 0, .object _ => by simp [Value.isStrict, Value.nesting]
  | levels + 1, .object members => by
    rw [Value.isStrict, allMembersStrict_iff, Value.nesting, Value.tokens, List.cons_append,
      List.forall_mem_cons, List.forall_mem_append, forall_mem_intercalate]
    simp [Token.isStrict]

theorem allItemsStrict_iff : ∀ (levels : Nat) (vs : List Value),
    allItemsStrict levels vs = true ↔
      itemNesting vs ≤ levels ∧ ∀ ts ∈ itemTokens vs, ∀ t ∈ ts, t.isStrict = true
  | _, [] => by simp [allItemsStrict, itemNesting, itemTokens]
  | levels, v :: vs => by
    rw [allItemsStrict, Bool.and_eq_true, Value.isStrict_iff, allItemsStrict_iff, itemNesting,
      itemTokens, Nat.max_le, List.forall_mem_cons, and_and_and_comm]

theorem allMembersStrict_iff : ∀ (levels : Nat) (members : List (Option String × Value)),
    allMembersStrict levels members = true ↔ memberNesting members ≤ levels ∧
      ∀ ts ∈ memberTokens members, ∀ t ∈ ts, t.isStrict = true
  | _, [] => by simp [allMembersStrict, memberNesting, memberTokens]
  | levels, (k, v) :: rest => by
    rw [allMembersStrict, Bool.and_eq_true, Bool.and_eq_true, Value.isStrict_iff,
      allMembersStrict_iff, memberNesting, memberTokens, Nat.max_le, List.forall_mem_cons,
      List.forall_mem_cons, List.forall_mem_cons]
    simp only [Token.isStrict, true_and]
    tauto

end

theorem isNumberInRange_iff {digits : List Char} :
    isNumberInRange digits = true ↔ ∃ n : Numeral, n.Form digits ∧ n.toDouble?.isSome = true := by
  rw [isNumberInRange, Option.isSome_bind, Option.any_eq_true]
  simp only [Numeral.parse?_eq_some_iff]

/-- A text spells strings that are texts. -/
theorem Spells.string_none_notMem {cs : List Char} (h : Spells cs ts) : .string none ∉ ts := by
  induction h with
  | nil => simp
  | blank _ _ ih => exact ih
  | mark hm _ ih =>
    refine List.not_mem_cons_of_ne_of_not_mem ?_ ih
    rintro rfl
    simp [marks] at hm
  | word hw _ _ ih =>
    refine List.not_mem_cons_of_ne_of_not_mem ?_ ih
    rintro rfl
    cases hw
  | string _ _ ih => exact List.not_mem_cons_of_ne_of_not_mem (by simp) ih

/-- **The reader accepts JSON** and gives the value that a text denotes. -/
theorem parse?_eq_some_iff {text : String} : parse? text = some v ↔ Denotes text v := by
  rw [parse?, Option.filter_eq_some_iff, read?_eq_some_iff, Value.isStrict_iff]
  constructor
  · rintro ⟨htokens, hnesting, hstrict⟩
    have htexts : .string none ∉ v.tokens := fun hmem => absurd (hstrict _ hmem) (by decide)
    exact ⟨(tokens?_eq_some_iff htexts).mp htokens,
      fun digits hdigits => isNumberInRange_iff.mp (hstrict _ hdigits), hnesting⟩
  · rintro ⟨hspells, hrange, hnesting⟩
    have htexts := hspells.string_none_notMem
    refine ⟨(tokens?_eq_some_iff htexts).mpr hspells, hnesting, fun t ht => ?_⟩
    cases t with
    | number digits => exact isNumberInRange_iff.mpr (hrange digits ht)
    | string text =>
      cases text with
      | none => exact absurd ht htexts
      | some s => rfl
    | _ => rfl

end CorpusMark.Json
