import TapeText.Proofs.Text.Trim
import TapeText.Settings.File

/-!
# TapeText.Proofs.Settings.Scope — which lines of a settings file count

A settings file is read from top to bottom, and what a heading says is remembered for
the lines below it. Seen from a line, only the nearest heading above it matters, and
only the lines that assign a key matter for that key: a setting depends on the values
that its key is given under the right heading, and on nothing else in the file.

* `heading?`, `headingAbove?`, `value?`, `valuesBelow`, `values` — what a line names, the
  heading above a line, what a line assigns to a key, and the values of a key;
* `ofLine_cases` — what a line is read as;
* `valuesOf_eq` — the values that are read are those that count;
* `ofContent_of_values` — a setting depends on the values of its key alone.
-/

namespace TapeText

namespace SettingsLine

variable {key : String} {line name value : List Char} {above below : List (List Char)}

/-- The name in a line that is a heading: trimmed, it begins and ends with brackets. -/
def heading? (line : List Char) : Option (List Char) :=
  let text := Text.trim line
  if text.head? = some '[' ∧ text.getLast? = some ']' then
    some (Text.trim (text.drop 1).dropLast)
  else
    none

/-- The nearest heading in the lines above a line. -/
def headingAbove? (above : List (List Char)) : Option (List Char) :=
  (above.filterMap heading?).getLast?

/-- What stands behind the first equals sign of a line that assigns to `key`, as it
stands there. Comments and headings assign nothing. -/
def value? (key : String) (line : List Char) : Option (List Char) :=
  if '=' ∈ line ∧ (Text.trim line).head? ≠ some '#' ∧ heading? line = none ∧
      Text.trim (line.takeWhile (· != '=')) = key.toList then
    some (Text.afterFirst '=' line)
  else
    none

/-- The values that lines assign to `key` under the heading that counts, in order,
with the lines above them. -/
def valuesBelow (key : String) (above : List (List Char)) :
    (below : List (List Char)) → List (List Char)
  | [] => []
  | line :: below =>
    (if headingAbove? above = some "output".toList then (value? key line).toList else []) ++
      valuesBelow key (above ++ [line]) below

/-- The values of `key` in a settings file, in order. -/
def values (key : String) (content : List Char) : List (List Char) :=
  valuesBelow key [] (Text.lines content)

/-- A value without the blanks and the double quotes around it. -/
def plain (value : List Char) : List Char := unquote (Text.trim value)

/-! ## What a line is read as -/

theorem ofLine_trim (line : List Char) : ofLine (Text.trim line) = ofLine line := by
  unfold ofLine
  rw [Text.trim_trim]

/-- A text that begins and ends with brackets has something between them. -/
theorem eq_brackets {text : List Char} (hopen : text.head? = some '[')
    (hclose : text.getLast? = some ']') : ∃ inside, text = '[' :: (inside ++ [']']) := by
  rcases List.head?_eq_some_iff.1 hopen with ⟨rest, rfl⟩
  -- the two brackets are different characters, so the last one stands in the rest
  have hlast : rest.getLast? = some ']' := by
    cases rest with
    | nil => simp at hclose
    | cons c rest => exact hclose
  rcases List.getLast?_eq_some_iff.1 hlast with ⟨inside, rfl⟩
  exact ⟨inside, rfl⟩

/-- A heading is a name between brackets. -/
theorem heading?_eq_some_iff : heading? line = some name ↔
    ∃ inside, Text.trim line = '[' :: (inside ++ [']']) ∧ name = Text.trim inside := by
  unfold heading?
  rw [Option.ite_none_right_eq_some]
  constructor
  · rintro ⟨⟨hopen, hclose⟩, hname⟩
    -- taking off the first character and the last one leaves what is between the brackets
    rcases eq_brackets hopen hclose with ⟨inside, htext⟩
    refine ⟨inside, htext, ?_⟩
    rw [htext, List.drop_one, List.tail_cons, List.dropLast_concat] at hname
    exact (Option.some.inj hname).symm
  · rintro ⟨inside, htext, rfl⟩
    rw [htext]
    refine ⟨⟨rfl, ?_⟩, ?_⟩
    · rw [← List.cons_append, List.getLast?_concat]
    · rw [List.drop_one, List.tail_cons, List.dropLast_concat]

/-- A line with an equals sign is divided by its first one, and trimming it before or
after makes no difference to the trimmed parts. -/
theorem trim_parts (h : '=' ∈ line) :
    '=' ∈ Text.trim line ∧
    Text.trim ((Text.trim line).takeWhile (· != '=')) =
      Text.trim (line.takeWhile (· != '=')) ∧
    Text.trim (Text.afterFirst '=' (Text.trim line)) = Text.trim (Text.afterFirst '=' line) := by
  rcases Text.exists_trim line with ⟨front, back, hfront, hback, hline⟩
  have hmem : '=' ∈ Text.trim line := Text.mem_trim h (by decide)
  refine ⟨hmem, ?_⟩
  rcases List.eq_append_cons_of_mem hmem with ⟨before, after, htext, hbefore⟩
  have hwhole : line = (front ++ before) ++ '=' :: (after ++ back) := by
    rw [htext] at hline
    rw [hline]
    simp
  have hnotMem : '=' ∉ front ++ before := by
    rw [List.mem_append, not_or]
    exact ⟨hfront.notMem (by decide), hbefore⟩
  -- the first equals sign of the trimmed line is the first one of the line
  rw [htext, hwhole, Text.takeWhile_bne_append_cons hbefore, Text.takeWhile_bne_append_cons hnotMem,
    Text.afterFirst_append_cons hbefore, Text.afterFirst_append_cons hnotMem,
    Text.trim_append_left hfront, Text.trim_append_right hback]
  exact ⟨rfl, rfl⟩

/-- Any line that lacks one of the brackets is no heading. -/
theorem heading?_eq_none_iff : heading? line = none ↔
    ¬ ((Text.trim line).head? = some '[' ∧ (Text.trim line).getLast? = some ']') := by
  unfold heading?
  dsimp only
  split
  · next h => simp [h]
  · next h => simp [h]

/-- A line with a name between brackets is read as that heading. -/
theorem ofLine_of_heading (h : heading? line = some name) : ofLine line = .heading name := by
  unfold heading? at h
  rw [Option.ite_none_right_eq_some] at h
  have hspeaks : ¬ ((Text.trim line).head? = none ∨ (Text.trim line).head? = some '#') := by
    rw [h.1.1]
    decide
  unfold ofLine
  rw [if_neg hspeaks, if_pos h.1, Option.some.inj h.2]

/-- A line that is divided by an equals sign is read as an assignment, of its trimmed
parts. -/
theorem ofLine_of_assignment (hheading : heading? line = none)
    (hcomment : (Text.trim line).head? ≠ some '#') (hsign : '=' ∈ line) :
    ofLine line = .assignment (Text.trim (line.takeWhile (· != '=')))
      (plain (Text.afterFirst '=' line)) := by
  rcases trim_parts hsign with ⟨hmem, hkey, hvalue⟩
  have hspeaks : ¬ ((Text.trim line).head? = none ∨ (Text.trim line).head? = some '#') := by
    rintro (hempty | hmark)
    · rw [List.head?_eq_none_iff.1 hempty] at hmem
      simp at hmem
    · exact hcomment hmark
  unfold ofLine plain
  rw [if_neg hspeaks, if_neg (heading?_eq_none_iff.1 hheading), if_pos hmem, ← hkey, ← hvalue]
  rfl

/-- Comments and lines without an equals sign are passed over. -/
theorem ofLine_of_silent (hheading : heading? line = none)
    (h : (Text.trim line).head? = some '#' ∨ '=' ∉ line) : ofLine line = .silent := by
  unfold ofLine
  dsimp only
  rcases h with hcomment | hsign
  · rw [if_pos (.inr hcomment)]
  · have hmem : '=' ∉ Text.trim line := fun h => hsign (Text.mem_of_mem_trim h)
    rw [if_neg (heading?_eq_none_iff.1 hheading), if_neg hmem, ite_self]

/-- What a line is read as, and what counts of it. -/
theorem ofLine_cases (key : String) (line : List Char) :
    (ofLine line = .silent ∧ heading? line = none ∧ value? key line = none) ∨
    (∃ name, ofLine line = .heading name ∧ heading? line = some name ∧ value? key line = none) ∨
    ∃ name value, ofLine line = .assignment name (plain value) ∧ heading? line = none ∧
      value? key line = if name = key.toList then some value else none := by
  cases hheading : heading? line with
  | some name =>
      refine .inr (.inl ⟨name, ofLine_of_heading hheading, rfl, if_neg ?_⟩)
      rintro ⟨-, -, hnone, -⟩
      rw [hheading] at hnone
      exact absurd hnone (by simp)
  | none =>
      -- no heading: an assignment, or nothing
      by_cases hassigns : '=' ∈ line ∧ (Text.trim line).head? ≠ some '#'
      · refine .inr (.inr ⟨_, _, ofLine_of_assignment hheading hassigns.2 hassigns.1, rfl, ?_⟩)
        unfold value?
        simp only [hassigns.1, hassigns.2, hheading, ne_eq, not_false_eq_true, true_and]
      · have hsilent : (Text.trim line).head? = some '#' ∨ '=' ∉ line := by
          by_cases hsign : '=' ∈ line
          · exact .inl (Decidable.not_not.1 fun hcomment => hassigns ⟨hsign, hcomment⟩)
          · exact .inr hsign
        refine .inl ⟨ofLine_of_silent hheading hsilent, rfl, if_neg ?_⟩
        rintro ⟨hsign, hcomment, -⟩
        exact hassigns ⟨hsign, hcomment⟩

/-! ## What counts -/

/-- One line further down, the heading above is that line if it is one. -/
theorem headingAbove?_concat (above : List (List Char)) (line : List Char) :
    headingAbove? (above ++ [line]) = (heading? line).or (headingAbove? above) := by
  unfold headingAbove?
  cases h : heading? line with
  | none => simp [h]
  | some name => simp [h]

/-- The assignments to `key` that are read below some lines are those that count. -/
theorem filter_assignments (key : String) (above below : List (List Char)) :
    ((assignments (headingAbove? above == some "output".toList) (below.map ofLine)).filter
      fun (name, _) => name == key.toList).map Prod.snd =
        (valuesBelow key above below).map plain := by
  -- induction on the lines below, with the lines above them free
  induction below generalizing above with
  | nil => rfl
  | cons line below ih =>
      -- one line further down the flag says what the heading above says there
      have hbelow := ih (above ++ [line])
      rw [headingAbove?_concat] at hbelow
      rw [List.map_cons, valuesBelow, List.map_append]
      rcases ofLine_cases key line with ⟨hline, hheading, hvalue⟩ |
        ⟨name, hline, hheading, hvalue⟩ | ⟨name, value, hline, hheading, hvalue⟩
      · rw [hheading, Option.none_or] at hbelow
        rw [hline, assignments, hbelow, hvalue, Option.toList_none, ite_self]
        rfl
      · rw [hheading, Option.some_or, Option.some_beq_some] at hbelow
        rw [hline, assignments, hbelow, hvalue, Option.toList_none, ite_self]
        rfl
      · rw [hheading, Option.none_or] at hbelow
        rw [hline, assignments, hvalue]
        -- an assignment counts under the right heading and for its own key
        by_cases hcounts : headingAbove? above = some "output".toList
        · rw [beq_iff_eq.2 hcounts] at hbelow ⊢
          rw [if_pos rfl, if_pos hcounts]
          by_cases hname : name = key.toList
          · rw [List.filter_cons_of_pos (by simpa using hname), List.map_cons, hbelow, if_pos hname]
            rfl
          · rw [List.filter_cons_of_neg (by simpa using hname), hbelow, if_neg hname]
            rfl
        · rw [beq_eq_false_iff_ne.2 hcounts] at hbelow ⊢
          rw [if_neg Bool.false_ne_true, if_neg hcounts, hbelow]
          rfl

/-! ## Cutting a heading out of its line -/

/-- Cutting a text at two places, counted in bytes, leaves `part` between them: the
places are in order, in the text, and not inside of a character. -/
def Cuts (text : String) (start stop : Nat) (part : String) : Prop :=
  ∃ front back, text = front ++ part ++ back ∧ front.utf8ByteSize = start ∧
    start + part.utf8ByteSize = stop

/-- The name of a heading can be cut out between its brackets, which are one byte
long each. -/
theorem exists_cuts_of_brackets (hopen : (Text.trim line).head? = some '[')
    (hclose : (Text.trim line).getLast? = some ']') :
    ∃ inside : List Char, Cuts (String.ofList (Text.trim line)) 1
        ((String.ofList (Text.trim line)).utf8ByteSize - 1) (String.ofList inside) ∧
      ofLine line = .heading (Text.trim inside) := by
  rcases eq_brackets hopen hclose with ⟨inside, htext⟩
  have hsplit : String.ofList (Text.trim line) = "[" ++ String.ofList inside ++ "]" := by
    rw [htext, ← String.toList_inj]
    simp
  refine ⟨inside, ⟨"[", "]", hsplit, rfl, ?_⟩,
    ofLine_of_heading (heading?_eq_some_iff.2 ⟨inside, htext, rfl⟩)⟩
  rw [hsplit, String.utf8ByteSize_append, String.utf8ByteSize_append]
  rfl

end SettingsLine

namespace Preferences

open SettingsLine

/-- The values that are read are those that count. -/
theorem valuesOf_eq (key : String) (content : List Char) :
    valuesOf key content = (values key content).map plain :=
  filter_assignments key [] (Text.lines content)

/-- A setting depends on the values of its key alone. -/
theorem lookup_congr {key : String} {content other : List Char}
    (h : (values key content).map plain = (values key other).map plain) :
    lookup key content = lookup key other := by
  unfold lookup
  rw [valuesOf_eq, valuesOf_eq, h]

theorem lookup_of_values_eq_nil {key : String} {content : List Char}
    (h : values key content = []) : lookup key content = none := by
  unfold lookup
  rw [valuesOf_eq, h]
  rfl

/-- Two settings files that assign the same values to a key, in the same order and up
to blanks and quotes around them, agree about its setting, whatever else is in them.
Without a value the setting is left open. The name in every heading that is met on the
way can be cut out of its line. -/
theorem ofContent_of_values (content other : String) :
    ((values "header" content.toList).map plain = (values "header" other.toList).map plain →
      (ofContent content).header = (ofContent other).header) ∧
    ((values "prompt" content.toList).map plain = (values "prompt" other.toList).map plain →
      (ofContent content).prompt = (ofContent other).prompt) ∧
    (values "header" content.toList = [] → (ofContent content).header = none) ∧
    (values "prompt" content.toList = [] → (ofContent content).prompt = none) ∧
    ∀ line ∈ Text.lines content.toList, (Text.trim line).head? = some '[' →
      (Text.trim line).getLast? = some ']' →
      ∃ inside : List Char, Cuts (String.ofList (Text.trim line)) 1
          ((String.ofList (Text.trim line)).utf8ByteSize - 1) (String.ofList inside) ∧
        ofLine line = .heading (Text.trim inside) := by
  refine ⟨lookup_congr, lookup_congr, lookup_of_values_eq_nil, lookup_of_values_eq_nil, ?_⟩
  intro line _ hopen hclose
  exact exists_cuts_of_brackets hopen hclose

/-- A short file; one with other sections, a comment, quotes, blanks, other line
endings and the keys the other way round; and one without a heading. -/
theorem ofContent_of_values_crowded :
    let short := "[output]\nheader = yes\nprompt = off"
    let crowded :=
      "header=0\r\n# [output]\n[\u00a0output ]\r\nprompt=off\r\n\theader =\"yes\" \n[o]\nprompt=1\n"
    let unscoped := "header = yes\nprompt = off\n"
    ((values "header" short.toList).map plain = (values "header" crowded.toList).map plain ∧
      (values "prompt" short.toList).map plain = (values "prompt" crowded.toList).map plain ∧
      values "header" unscoped.toList = [] ∧ values "prompt" unscoped.toList = [] ∧
      "[\u00a0output ]".toList ∈ Text.lines crowded.toList) ∧
    (ofContent short).header = (ofContent crowded).header ∧
    (ofContent short).prompt = (ofContent crowded).prompt ∧
    (ofContent unscoped).header = none ∧ (ofContent unscoped).prompt = none ∧
    ∃ inside : List Char, Cuts "[\u00a0output ]" 1 10 (String.ofList inside) ∧
      ofLine "[\u00a0output ]".toList = .heading (Text.trim inside) := by
  intro short crowded unscoped
  have hheader : (values "header" short.toList).map plain =
      (values "header" crowded.toList).map plain := by decide +kernel
  have hprompt : (values "prompt" short.toList).map plain =
      (values "prompt" crowded.toList).map plain := by decide +kernel
  have hnoHeader : values "header" unscoped.toList = [] := by decide +kernel
  have hnoPrompt : values "prompt" unscoped.toList = [] := by decide +kernel
  have hline : "[\u00a0output ]".toList ∈ Text.lines crowded.toList := by decide +kernel
  rcases ofContent_of_values short crowded with ⟨hsameHeader, hsamePrompt, -⟩
  rcases ofContent_of_values unscoped short with ⟨-, -, hopenHeader, hopenPrompt, -⟩
  rcases ofContent_of_values crowded short with ⟨-, -, -, -, hcuts⟩
  exact ⟨⟨hheader, hprompt, hnoHeader, hnoPrompt, hline⟩, hsameHeader hheader,
    hsamePrompt hprompt, hopenHeader hnoHeader, hopenPrompt hnoPrompt,
    hcuts _ hline (by decide +kernel) (by decide +kernel)⟩

end Preferences

end TapeText
