import TapeText.Proofs.Settings.Scope

/-!
# TapeText.Proofs.Settings.Precedence — which source decides a setting

A setting has four sources: its flag, its environment variable, the settings file, and a
value for the case that none of these says anything. The first one that says something
decides. A flag says something if it is given, and a variable if it holds a word for on
or off; a variable that holds anything else does not keep the file from being asked. The
two settings have no source in common.

* `Means` — a text is a word for on or off, between blanks;
* `Sources`, `Sources.Decides` — the sources of a setting, and the value that the first
  of them to say something gives it;
* `AssignsAlike` — two settings files agree about one key;
* `resolve_of_sources` — both settings, and what does not matter to them.
-/

namespace TapeText

open Text (IsBlanks)

variable {c : Char} {word text : List Char} {value : Bool}

/-! ## Words for on and off -/

/-- The text is a word for on or off, in upper or lower case and between blanks. -/
def Means (text : List Char) (value : Bool) : Prop :=
  ∃ front word back, IsBlanks front ∧ IsBlanks back ∧ text = front ++ word ++ back ∧
    String.ofList (word.map Char.toLower) ∈ if value then onWords else offWords

/-- Blanks have no lower case: no range of them has a letter in it. -/
theorem toLower_of_isBlank (h : Text.isBlank c = true) : c.toLower = c := by
  have hranges : ∀ range ∈ Text.blankRanges, range.2 < 65 ∨ 90 < range.1 := by decide
  rcases List.any_eq_true.1 h with ⟨⟨first, last⟩, hmem, hin⟩
  rw [Bool.and_eq_true, decide_eq_true_eq, decide_eq_true_eq] at hin
  have hrange := hranges _ hmem
  -- only the letters from A to Z change
  have hletter : ¬ (65 ≤ c.toNat ∧ c.toNat ≤ 90) := by omega
  exact dif_neg hletter

/-- There are no blanks in the words, in whatever case they are written. -/
theorem isBlank_of_mem_word
    (h : String.ofList (word.map Char.toLower) ∈ if value then onWords else offWords) :
    ∀ c ∈ word, Text.isBlank c = false := by
  have hwords : ∀ w ∈ onWords ++ offWords, w.toList.any Text.isBlank = false := by decide
  have hmem : String.ofList (word.map Char.toLower) ∈ onWords ++ offWords := by
    rw [List.mem_append]
    cases value with
    | true => exact .inl h
    | false => exact .inr h
  have hlower := hwords _ hmem
  rw [String.toList_ofList, List.any_eq_false] at hlower
  intro c hc
  -- a blank would be left as it is by lowering the case, and no word has one
  rw [← Bool.not_eq_true]
  intro hblank
  apply hlower c.toLower (List.mem_map_of_mem hc)
  rw [toLower_of_isBlank hblank]
  exact hblank

/-- A text is read as a switch exactly if it says on or off. -/
theorem switch?_eq_some_iff : switch? text = some value ↔ Means text value := by
  unfold switch?
  dsimp only
  constructor
  · intro h
    rcases Text.exists_trim text with ⟨front, back, hfront, hback, htext⟩
    refine ⟨front, Text.trim text, back, hfront, hback, htext, ?_⟩
    split at h
    · next hon =>
      obtain rfl := Option.some.inj h
      exact hon
    · next hon =>
      rw [Option.ite_none_right_eq_some] at h
      obtain rfl := Option.some.inj h.2
      exact h.1
  · rintro ⟨front, word, back, hfront, hback, rfl, hword⟩
    -- no word is for both, so it does not matter which list is asked first
    have hdisjoint : ∀ w ∈ offWords, w ∉ onWords := by decide
    rw [Text.trim_append_right hback, Text.trim_append_left hfront,
      Text.trim_eq_self (isBlank_of_mem_word hword)]
    cases value with
    | true => exact if_pos hword
    | false =>
        have hoff : String.ofList (word.map Char.toLower) ∈ offWords := hword
        rw [if_neg (hdisjoint _ hoff), if_pos hoff]

/-- Anything else is no switch. -/
theorem switch?_eq_none_iff : switch? text = none ↔ ∀ value, ¬ Means text value := by
  rw [Option.eq_none_iff_forall_ne_some]
  constructor
  · intro h value hmeans
    exact h value (switch?_eq_some_iff.2 hmeans)
  · intro h value hswitch
    exact h value (switch?_eq_some_iff.1 hswitch)

/-! ## One setting -/

/-- The sources of a setting. -/
structure Sources where
  /-- The value that the flag stands for, if it is given. -/
  flag : Option Bool
  /-- What the environment variable holds. -/
  held : Option String
  /-- What the settings file says. -/
  file : Option Bool
  /-- The value of a setting that nothing is said about. -/
  standard : Bool

namespace Sources

variable {s : Sources}

/-- The environment variable says nothing: it is not set, or what it holds is no word
for on or off. -/
def IsSilent (s : Sources) : Prop := ∀ text ∈ s.held, ∀ value, ¬ Means text.toList value

/-- The first source that says something gives the setting its value. -/
inductive Decides (s : Sources) : Bool → Prop where
  | flag {value : Bool} (given : s.flag = some value) : Decides s value
  | held {text : String} {value : Bool} (missing : s.flag = none) (set : s.held = some text)
      (means : Means text.toList value) : Decides s value
  | file {value : Bool} (missing : s.flag = none) (silent : s.IsSilent)
      (set : s.file = some value) : Decides s value
  | standard (missing : s.flag = none) (silent : s.IsSilent) (unset : s.file = none) :
      Decides s s.standard

def switch (s : Sources) : Option Bool := s.held.bind fun text => switch? text.toList

/-- The value of the setting, computed. -/
def setting (s : Sources) : Bool := s.flag.getD ((s.switch.or s.file).getD s.standard)

theorem switch_eq_none_iff : s.switch = none ↔ s.IsSilent := by
  unfold switch IsSilent
  rw [Option.bind_eq_none_iff]
  constructor
  · intro h text htext
    exact switch?_eq_none_iff.1 (h text htext)
  · intro h text htext
    exact switch?_eq_none_iff.2 (h text htext)

/-- The computed value is decided on by one of the sources. -/
theorem decides_setting (s : Sources) : s.Decides s.setting := by
  unfold setting
  -- the sources in the order in which they are asked
  cases hflag : s.flag with
  | some forced => exact .flag hflag
  | none =>
      cases hswitch : s.switch with
      | some word =>
          rcases Option.bind_eq_some_iff.1 hswitch with ⟨text, htext, hmeans⟩
          exact .held hflag htext (switch?_eq_some_iff.1 hmeans)
      | none =>
          have hsilent := switch_eq_none_iff.1 hswitch
          cases hfile : s.file with
          | some set => exact .file hflag hsilent hfile
          | none => exact .standard hflag hsilent hfile

/-- One value only can be decided on. -/
theorem decides_iff : s.Decides value ↔ s.setting = value := by
  constructor
  · intro h
    unfold setting
    -- the sources before the one that decides say nothing
    cases h with
    | flag given => rw [given, Option.getD_some]
    | held missing set means =>
        have hswitch : s.switch = some value := by
          unfold switch
          rw [set, Option.bind_some, switch?_eq_some_iff.2 means]
        rw [missing, hswitch]
        rfl
    | file missing silent set =>
        rw [missing, switch_eq_none_iff.2 silent, set]
        rfl
    | standard missing silent unset =>
        rw [missing, switch_eq_none_iff.2 silent, unset]
        rfl
  · rintro rfl
    exact decides_setting s

end Sources

/-! ## Both settings -/

namespace Settings

open SettingsLine (values plain)

def headerSources (flag : Bool) (environment : String → Option String) (file : Preferences) :
    Sources where
  flag := if flag then some true else none
  held := environment "TEXT2BF_HEADER"
  file := file.header
  standard := false

def promptSources (noPromptFlag : Bool) (environment : String → Option String)
    (file : Preferences) : Sources where
  flag := if noPromptFlag then some false else none
  held := environment "TEXT2BF_PROMPT"
  file := file.prompt
  standard := true

/-- Two settings files assign the same values to a key, up to blanks and quotes around
them. Whatever else is in them may differ. -/
def AssignsAlike (key content other : String) : Prop :=
  (values key content.toList).map plain = (values key other.toList).map plain

instance (key content other : String) : Decidable (AssignsAlike key content other) :=
  inferInstanceAs (Decidable (_ = _))

variable {headerFlag noPromptFlag : Bool} {environment : String → Option String}
  {file : Preferences} {name held : String}

theorem header_resolve : (resolve headerFlag noPromptFlag environment file).header =
    (headerSources headerFlag environment file).setting := by
  cases headerFlag <;> rfl

theorem prompt_resolve : (resolve headerFlag noPromptFlag environment file).prompt =
    (promptSources noPromptFlag environment file).setting := by
  cases noPromptFlag <;> rfl

/-- A variable that is no word for on or off might as well not be set. -/
theorem resolve_update (hheld : environment name = some held)
    (hsilent : ∀ value, ¬ Means held.toList value) :
    resolve headerFlag noPromptFlag (Function.update environment name none) file =
      resolve headerFlag noPromptFlag environment file := by
  have hread : ∀ other, fromEnvironment (Function.update environment name none) other =
      fromEnvironment environment other := by
    intro other
    unfold fromEnvironment
    -- the variable itself says nothing either way, and the others are not touched
    by_cases hname : other = name
    · rw [hname, Function.update_self, hheld, Option.bind_none, Option.bind_some,
        switch?_eq_none_iff.2 hsilent]
    · rw [Function.update_of_ne hname]
  unfold resolve
  rw [hread, hread]

/-- The header and the prompt are each decided by the first of their sources that says
something: the flag, the environment variable, the settings file, and otherwise the
header is off and the prompt is on. A variable that holds no word for on or off is as
good as none. And neither setting depends on the flag, the variable, or the lines of the
settings file that are there for the other one. -/
theorem resolve_of_sources (headerFlag noPromptFlag : Bool)
    (environment : String → Option String) (content : String) :
    let settings := resolve headerFlag noPromptFlag environment (.ofContent content)
    (∀ value, settings.header = value ↔
      (headerSources headerFlag environment (.ofContent content)).Decides value) ∧
    (∀ value, settings.prompt = value ↔
      (promptSources noPromptFlag environment (.ofContent content)).Decides value) ∧
    (∀ name held, environment name = some held → (∀ value, ¬ Means held.toList value) →
      resolve headerFlag noPromptFlag (Function.update environment name none)
        (.ofContent content) = settings) ∧
    (∀ noPromptFlag' environment' content',
      environment' "TEXT2BF_HEADER" = environment "TEXT2BF_HEADER" →
      AssignsAlike "header" content' content →
      (resolve headerFlag noPromptFlag' environment' (.ofContent content')).header =
        settings.header) ∧
    ∀ headerFlag' environment' content',
      environment' "TEXT2BF_PROMPT" = environment "TEXT2BF_PROMPT" →
      AssignsAlike "prompt" content' content →
      (resolve headerFlag' noPromptFlag environment' (.ofContent content')).prompt =
        settings.prompt := by
  intro settings
  refine ⟨?_, ?_, ?_, ?_, ?_⟩
  · intro value
    rw [Sources.decides_iff, ← header_resolve]
  · intro value
    rw [Sources.decides_iff, ← prompt_resolve]
  · intro name held hheld hsilent
    exact resolve_update hheld hsilent
  · -- of the file only the values of its own key matter
    intro noPromptFlag' environment' content' hvariable hcontent
    have hfile : (Preferences.ofContent content').header = (Preferences.ofContent content).header :=
      Preferences.lookup_congr hcontent
    rw [header_resolve, header_resolve]
    unfold headerSources
    rw [hvariable, hfile]
  · intro headerFlag' environment' content' hvariable hcontent
    have hfile : (Preferences.ofContent content').prompt = (Preferences.ofContent content).prompt :=
      Preferences.lookup_congr hcontent
    rw [prompt_resolve, prompt_resolve]
    unfold promptSources
    rw [hvariable, hfile]

/-- A word for the header that is none, so the file is asked; one for the prompt between
blanks, so the file is not; and a file that differs in the lines about the prompt. -/
theorem resolve_of_sources_passed_on :
    let environment := fun name =>
      if name = "TEXT2BF_HEADER" then some "maybe" else some "\u00a0oN\n"
    let content := "[output]\nprompt = off\nheader = \"Yes\"\n"
    let other := "[output]\nheader=Yes"
    (environment "TEXT2BF_HEADER" = some "maybe" ∧ (∀ value, ¬ Means "maybe".toList value) ∧
      AssignsAlike "header" other content) ∧
    (resolve false false environment (.ofContent content)).header = true ∧
    (resolve false false environment (.ofContent content)).prompt = true ∧
    resolve false false (Function.update environment "TEXT2BF_HEADER" none) (.ofContent content) =
      resolve false false environment (.ofContent content) ∧
    (resolve false true environment (.ofContent other)).header = true := by
  intro environment content other
  have hheld : environment "TEXT2BF_HEADER" = some "maybe" := rfl
  have hsilent : ∀ value, ¬ Means "maybe".toList value :=
    switch?_eq_none_iff.1 (by decide +kernel)
  have halike : AssignsAlike "header" other content := by decide +kernel
  have hfile : (Preferences.ofContent content).header = some true := by decide +kernel
  have hword : Means "\u00a0oN\n".toList true := switch?_eq_some_iff.1 (by decide +kernel)
  have hquiet : (headerSources false environment (.ofContent content)).IsSilent := by
    intro text htext
    obtain rfl := Option.some.inj htext
    exact hsilent
  rcases resolve_of_sources false false environment content with
    ⟨hheader, hprompt, hunset, hother, -⟩
  have hon := (hheader true).2 (.file rfl hquiet hfile)
  exact ⟨⟨hheld, hsilent, halike⟩, hon, (hprompt true).2 (.held rfl rfl hword),
    hunset _ _ hheld hsilent, (hother true environment other rfl halike).trans hon⟩

end Settings

end TapeText
