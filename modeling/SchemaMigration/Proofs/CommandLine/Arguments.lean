import SchemaMigration.CommandLine.Arguments
import SchemaMigration.Proofs.Outcome

/-!
# Command lines that are accepted

No path that has been given is empty: each option refuses an empty value, and nothing else sets a
path. So the options of an accepted command line name their files, and with the switch for
operations there are two documents.
-/

namespace SchemaMigration.CommandLine

/-- No path that has been given is empty. -/
structure Given.Named (given : Given) : Prop where
  current : given.current ≠ some ""
  previous : given.previous ≠ some ""
  outputDirectory : given.outputDirectory ≠ some ""

/-- No path that has been given is empty where reading one argument leads. -/
def Step.Named : Step → Prop
  | go given | awaitValue given _ => given.Named
  | tell _ => True

theorem named_start : ({} : Given).Named := ⟨nofun, nofun, nofun⟩

theorem ne_empty_of_path {before after : Option String} {value : String}
    (h : Given.path before value = .ok after) : after ≠ some "" := by
  unfold Given.path at h
  split at h
  · cases h
  · next hvalue =>
    split at h
    · cases h
    · obtain rfl : some value = after := Except.ok.inj h
      simpa using hvalue

theorem named_of_set {given next : Given} {value : String} {setting : Setting}
    (hg : given.Named) (h : given.set value setting = .ok next) : next.Named := by
  cases setting with
  | target =>
      obtain rfl := Except.ok.inj h
      exact ⟨hg.current, hg.previous, hg.outputDirectory⟩
  | current =>
      obtain ⟨path, hpath, hnext⟩ := Outcome.bind_eq_ok.mp h
      obtain rfl := Except.ok.inj hnext
      exact ⟨ne_empty_of_path hpath, hg.previous, hg.outputDirectory⟩
  | previous =>
      obtain ⟨path, hpath, hnext⟩ := Outcome.bind_eq_ok.mp h
      obtain rfl := Except.ok.inj hnext
      exact ⟨hg.current, ne_empty_of_path hpath, hg.outputDirectory⟩
  | outputDirectory =>
      obtain ⟨path, hpath, hnext⟩ := Outcome.bind_eq_ok.mp h
      obtain rfl := Except.ok.inj hnext
      exact ⟨hg.current, hg.previous, ne_empty_of_path hpath⟩

theorem named_of_turnOn {given : Given} {switch : Switch} {step : Step} (hg : given.Named)
    (h : given.turnOn switch = .ok step) : step.Named := by
  cases switch with
  | operations | verbose =>
      simp only [Given.turnOn] at h
      split at h
      · cases h
      · obtain rfl := Except.ok.inj h
        exact ⟨hg.current, hg.previous, hg.outputDirectory⟩
  | tell notice =>
      obtain rfl := Except.ok.inj h
      trivial

theorem named_of_readLetters {letters : List Char} {given : Given} {step : Step}
    (hg : given.Named) (h : readLetters given letters = .ok step) : step.Named := by
  induction letters generalizing given with
  | nil =>
      obtain rfl := Except.ok.inj h
      exact hg
  | cons letter rest ih =>
      unfold readLetters at h
      split at h
      · cases h
      · split at h
        · obtain rfl := Except.ok.inj h
          exact hg
        · obtain ⟨next, hnext, hstep⟩ := Outcome.bind_eq_ok.mp h
          obtain rfl := Except.ok.inj hstep
          exact named_of_set hg hnext
      · obtain ⟨turned, hturned, hstep⟩ := Outcome.bind_eq_ok.mp h
        have hnamed := named_of_turnOn hg hturned
        cases turned with
        | go next => exact ih hnamed hstep
        | awaitValue | tell =>
            obtain rfl := Except.ok.inj hstep
            exact hnamed

theorem named_of_readLong {text : List Char} {given : Given} {step : Step} (hg : given.Named)
    (h : readLong given text = .ok step) : step.Named := by
  simp only [readLong] at h
  split at h
  · cases h
  · split at h
    · obtain rfl := Except.ok.inj h
      exact hg
    · obtain ⟨next, hnext, hstep⟩ := Outcome.bind_eq_ok.mp h
      obtain rfl := Except.ok.inj hstep
      exact named_of_set hg hnext
  · split at h
    · cases h
    · exact named_of_turnOn hg h

theorem named_of_readArgument {argument : String} {given : Given} {step : Step}
    (hg : given.Named) (h : readArgument given argument = .ok step) : step.Named := by
  unfold readArgument at h
  split at h
  · exact named_of_readLong hg h
  · exact named_of_readLetters hg h
  · cases h

theorem named_of_readArguments {arguments : List String} {given next : Given}
    {pending : Option Setting} (hg : given.Named)
    (h : readArguments given pending arguments = .ok (.all next)) : next.Named := by
  induction arguments generalizing given pending with
  | nil =>
      unfold readArguments at h
      split at h
      · cases h
      · obtain rfl := Line.all.inj (Except.ok.inj h)
        exact hg
  | cons argument rest ih =>
      unfold readArguments at h
      split at h
      · split at h
        · cases h
        · obtain ⟨taken, htaken, hrest⟩ := Outcome.bind_eq_ok.mp h
          exact ih (named_of_set hg htaken) hrest
      · split at h
        · split at h
          · obtain rfl := Line.all.inj (Except.ok.inj h)
            exact hg
          · cases h
        · obtain ⟨step, hstep, hrest⟩ := Outcome.bind_eq_ok.mp h
          have hnamed := named_of_readArgument hg hstep
          cases step with
          | go taken => exact ih hnamed hrest
          | awaitValue taken setting => exact ih hnamed hrest
          | tell notice => cases hrest

/-- The options name their files, and two documents where operations are asked for. -/
structure Options.WellGiven (options : Options) : Prop where
  current : options.current ≠ ""
  previous : options.previous ≠ some ""
  outputDirectory : options.outputDirectory ≠ some ""
  previous_isSome : options.operations = true → options.previous.isSome

/-- What holds of the options of an accepted command line. -/
theorem wellGiven_of_ofArguments {environment : Option String} {arguments : List String}
    {options : Options} (h : Request.ofArguments environment arguments = .ok (.run options)) :
    options.WellGiven := by
  obtain ⟨read, hread, hrest⟩ := Outcome.bind_eq_ok.mp h
  cases read with
  | tell notice => cases hrest
  | all given =>
      have hnamed := named_of_readArguments named_start hread
      simp only at hrest
      split at hrest
      · next current hcurrent =>
        split at hrest
        · cases hrest
        · next hboth =>
          obtain rfl := Request.run.inj (Except.ok.inj hrest)
          refine ⟨?_, hnamed.previous, hnamed.outputDirectory, ?_⟩
          · rintro rfl
            exact hnamed.current hcurrent
          · simpa [Option.isSome_iff_ne_none] using hboth
      · cases hrest

end SchemaMigration.CommandLine
