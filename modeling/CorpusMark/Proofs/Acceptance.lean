import CorpusMark.Proofs.Entries
import CorpusMark.Proofs.Run

/-!
# Accepted configurations

A configuration is accepted if its language is there and supported, its lists of
entries, or else those of the language, name backdoors, and its rates are usable
(`Config.Accepted`). One that is not accepted has a first fault, looked for in the
language, then in the lists part by part and entry by entry, then in the rates
(`Config.FirstFault`). Neither notion mentions how a configuration is checked;
`ofConfig_outcome` says that the check finds exactly the one or the other.
-/

namespace CorpusMark

namespace Config

/-- A configuration names a supported language. -/
def Speaks (c : Config) (l : Language) : Prop :=
  ∃ name, c.language = some name ∧ Language.ofName? name = some l

/-- The lists of entries of a configuration, or else those of the language. -/
def entryLists (c : Config) (l : Language) : List (List String) :=
  c.backdoors.getD (Catalog.ofLanguage l).defaultBackdoors

/-- What a configuration sets out: the language it names, the backdoors that its
entries name, and its rates. -/
structure Accepted (c : Config) (l : Language) (backdoors : List Backdoor)
    (rates : List Double) : Prop where
  language : c.Speaks l
  backdoors : Backdoor.ReadsAll (Catalog.ofLanguage l) (c.entryLists l) backdoors
  rates : Rate.validate c.effectiveRates = .ok rates

/-- The backdoors of a language that stand in for those not configured are in order. -/
theorem exists_readsAll_default (l : Language) : ∃ backdoors,
    Backdoor.ReadsAll (Catalog.ofLanguage l) (Catalog.ofLanguage l).defaultBackdoors backdoors := by
  have hread := (Backdoor.parseAll_outcome (Catalog.unambiguous_ofLanguage l)
    (Catalog.ofLanguage l).defaultBackdoors).1
  cases l with
  | python => exact ⟨_, (hread _).mp rfl⟩
  | java => exact ⟨_, (hread _).mp rfl⟩

/-- A configuration that sets nothing but a supported language is accepted. -/
theorem exists_accepted_of_defaults {c : Config} {l : Language} (hlanguage : c.Speaks l)
    (hbackdoors : c.backdoors = none) (hrates : c.rates = none) :
    ∃ backdoors, c.Accepted l backdoors [Double.one] := by
  obtain ⟨backdoors, hread⟩ := exists_readsAll_default l
  refine ⟨backdoors, hlanguage, ?_, ?_⟩
  · rwa [entryLists, hbackdoors]
  · rw [effectiveRates, hrates]
    exact Rate.validate_singleton (by decide)

/-- The first fault of a configuration. A fault counts only if all that is looked
at before it has none. -/
inductive FirstFault (c : Config) : ConfigError → Prop where
  | noLanguage (h : c.language = none) : FirstFault c (.missingSetting "language")
  | unsupported {name : String} (h : c.language = some name)
    (hname : Language.ofName? name = none) : FirstFault c (.unsupportedLanguage name)
  | backdoors {l : Language} {e : ConfigError} (hlanguage : c.Speaks l)
    (hfault : Backdoor.FaultAll (Catalog.ofLanguage l) (c.entryLists l) e) : FirstFault c e
  | rates {l : Language} {backdoors : List Backdoor} {e : ConfigError} (hlanguage : c.Speaks l)
    (hbackdoors : Backdoor.ReadsAll (Catalog.ofLanguage l) (c.entryLists l) backdoors)
    (hfault : Rate.validate c.effectiveRates = .error e) : FirstFault c e

end Config

namespace Pipeline

variable {grammars : Language → Grammar} {config : Config}

theorem languageOf_eq_ok_iff {l : Language} : languageOf config = .ok l ↔ config.Speaks l := by
  unfold languageOf Config.requireLanguage Config.required Config.Speaks
  cases config.language with
  | none => simp [bind, Except.bind]
  | some name =>
    rw [Attempts.bind_ok]
    cases hname : Language.ofName? name with
    | none => simp [hname, throw, throwThe, MonadExceptOf.throw]
    | some l' => simp [hname, pure, Except.pure]

theorem languageOf_eq_error_iff {e : ConfigError} :
    languageOf config = .error e ↔
      (config.language = none ∧ e = .missingSetting "language") ∨
        ∃ name, config.language = some name ∧ Language.ofName? name = none ∧
          e = .unsupportedLanguage name := by
  unfold languageOf Config.requireLanguage Config.required
  cases config.language with
  | none => simp [bind, Except.bind, eq_comm]
  | some name =>
    rw [Attempts.bind_ok]
    cases hname : Language.ofName? name with
    | none => simp [hname, throw, throwThe, MonadExceptOf.throw, eq_comm]
    | some l' => simp [hname, pure, Except.pure]

/-- The lists of a configuration, or else those of the language, are read as the
backdoors that they name. -/
theorem parseAll_entryLists (config : Config) (l : Language) :
    (∀ backdoors, Backdoor.parseAll (Catalog.ofLanguage l)
        (config.backdoors.getD (Catalog.ofLanguage l).defaultBackdoors) = .ok backdoors ↔
      Backdoor.ReadsAll (Catalog.ofLanguage l) (config.entryLists l) backdoors) ∧
      ∀ e, Backdoor.parseAll (Catalog.ofLanguage l)
          (config.backdoors.getD (Catalog.ofLanguage l).defaultBackdoors) = .error e ↔
        Backdoor.FaultAll (Catalog.ofLanguage l) (config.entryLists l) e :=
  Backdoor.parseAll_outcome (Catalog.unambiguous_ofLanguage l) _

/-- What an accepted configuration sets out is what its job works with. -/
theorem Configured.accepted {p : Pipeline} (h : Configured grammars config p) :
    config.Accepted p.language p.backdoors p.rates where
  language := languageOf_eq_ok_iff.mp h.language
  backdoors := by
    have hread := h.backdoors
    rw [h.catalog] at hread
    exact ((parseAll_entryLists config _).1 _).mp hread
  rates := h.rates

theorem exists_ofConfig_of_accepted {l : Language} {backdoors : List Backdoor}
    {rates : List Double} (h : config.Accepted l backdoors rates) :
    ∃ p, ofConfig grammars config = .ok p ∧ p.language = l ∧ p.backdoors = backdoors ∧
      p.rates = rates := by
  unfold ofConfig
  rw [languageOf_eq_ok_iff.mpr h.language, Attempts.bind_ok]
  dsimp only
  rw [((parseAll_entryLists config l).1 _).mpr h.backdoors, Attempts.bind_ok, h.rates]
  exact ⟨_, rfl, Catalog.language_ofLanguage l, rfl, rfl⟩

/-- A configuration is refused for its first fault. -/
theorem ofConfig_eq_error_iff {e : ConfigError} :
    ofConfig grammars config = .error e ↔ config.FirstFault e := by
  unfold ofConfig
  constructor
  · -- each stage is reached only if those before it succeed
    intro h
    rcases Attempts.bind_eq_error_iff.mp h with hlanguage | ⟨l, hlanguage, h⟩
    · rcases languageOf_eq_error_iff.mp hlanguage with ⟨hnone, rfl⟩ | ⟨name, hname, hl, rfl⟩
      · exact .noLanguage hnone
      · exact .unsupported hname hl
    · have hspeaks := languageOf_eq_ok_iff.mp hlanguage
      rcases Attempts.bind_eq_error_iff.mp h with hfault | ⟨backdoors, hbackdoors, h⟩
      · exact .backdoors hspeaks (((parseAll_entryLists config l).2 e).mp hfault)
      · rcases Attempts.bind_eq_error_iff.mp h with hfault | ⟨rates, -, h⟩
        · have hread := ((parseAll_entryLists config l).1 backdoors).mp hbackdoors
          exact .rates hspeaks hread hfault
        · cases h
  · intro h
    cases h with
    | noLanguage h =>
      rw [languageOf_eq_error_iff.mpr (Or.inl ⟨h, rfl⟩)]
      rfl
    | @unsupported name h hname =>
      rw [languageOf_eq_error_iff.mpr (Or.inr ⟨name, h, hname, rfl⟩)]
      rfl
    | @backdoors l _ hlanguage hfault =>
      rw [languageOf_eq_ok_iff.mpr hlanguage, Attempts.bind_ok]
      dsimp only
      rw [((parseAll_entryLists config l).2 e).mpr hfault]
      rfl
    | @rates l backdoors _ hlanguage hbackdoors hfault =>
      rw [languageOf_eq_ok_iff.mpr hlanguage, Attempts.bind_ok]
      dsimp only
      rw [((parseAll_entryLists config l).1 backdoors).mpr hbackdoors, Attempts.bind_ok, hfault]
      rfl

/-- **A configuration is accepted exactly if it has no fault.** It gives a job
for what it sets out and for nothing else: the language it names, one backdoor for
each list of entries, under its number and with the terms that the entries name in
their order, and its rates. Otherwise it is refused for its first fault. -/
theorem ofConfig_outcome (grammars : Language → Grammar) (config : Config) :
    (∀ l backdoors rates,
      (∃ p, ofConfig grammars config = .ok p ∧ p.language = l ∧ p.backdoors = backdoors ∧
        p.rates = rates) ↔ config.Accepted l backdoors rates) ∧
      ∀ e, ofConfig grammars config = .error e ↔ config.FirstFault e := by
  refine ⟨fun l backdoors rates => ⟨?_, exists_ofConfig_of_accepted⟩,
    fun e => ofConfig_eq_error_iff⟩
  rintro ⟨p, hp, rfl, rfl, rfl⟩
  exact (configured_of_ofConfig hp).accepted

end Pipeline

end CorpusMark
