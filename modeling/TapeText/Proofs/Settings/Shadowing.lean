import TapeText.Proofs.Settings.Scope

/-!
# TapeText.Proofs.Settings.Shadowing — a line that assigns no switch

A settings file may assign something to a key that is neither a word for on nor one
for off. Such a line is not passed over: the last assignment to a key decides whatever
it assigns, so as the last one it takes back what the lines above it have set. Under
another heading, or with another assignment to the key below it, the line changes
nothing; and it never changes the other key.

* `write`, `Shadows` — a line that assigns, and whether it is the one that decides;
* `valuesOf_add` — the values of a key with one more line in the file;
* `ofContent_of_junk_line` — when a line that assigns no switch changes nothing;
* `ofContent_shadowed` — a line that takes back what the line above it has set.
-/

namespace TapeText

namespace SettingsLine

variable {key other : String} {value : List Char} {above below front back : List (List Char)}

/-- The line that assigns a value to a key. -/
def write (key : String) (value : List Char) : List Char := key.toList ++ " = ".toList ++ value

/-- A line between these two texts that assigns to `key` decides: it stands under the
heading that counts, and nothing below it assigns to the key. -/
def Shadows (key : String) (above below : List Char) : Prop :=
  headingAbove? (Text.lines above) = some "output".toList ∧
    valuesBelow key (Text.lines above) (Text.lines below) = []

instance (key : String) (above below : List Char) : Decidable (Shadows key above below) :=
  inferInstanceAs (Decidable (_ ∧ _))

/-- A key that keeps its meaning when it is written in front of an equals sign. -/
structure IsKey (key : String) : Prop where
  exists_head : ∃ c, key.toList.head? = some c ∧ Text.isBlank c = false ∧ c ≠ '#' ∧ c ≠ '['
  trim_eq : Text.trim key.toList = key.toList
  sign_notMem : '=' ∉ key.toList
  newline_notMem : '\n' ∉ key.toList

theorem isKey_header : IsKey "header" :=
  ⟨⟨'h', by decide, by decide, by decide, by decide⟩, by decide, by decide, by decide⟩

theorem isKey_prompt : IsKey "prompt" :=
  ⟨⟨'p', by decide, by decide, by decide, by decide⟩, by decide, by decide, by decide⟩

/-! ## A line that assigns -/

theorem isBlanks_space : Text.IsBlanks [' '] := Text.isBlanks_cons (by decide) Text.isBlanks_nil

/-- The line is divided by its equals sign, with a space on each side. -/
theorem write_eq (key : String) (value : List Char) :
    write key value = (key.toList ++ [' ']) ++ '=' :: ' ' :: value := by
  unfold write
  rw [List.append_assoc, List.append_assoc]
  rfl

theorem write_ne_nil (key : String) (value : List Char) : write key value ≠ [] := by
  rw [write_eq]
  simp

theorem newline_notMem_write (hkey : IsKey key) (hvalue : '\n' ∉ value) :
    '\n' ∉ write key value := by
  rw [write, List.mem_append, List.mem_append, not_or, not_or]
  exact ⟨⟨hkey.newline_notMem, by decide⟩, hvalue⟩

/-- The line begins with its key. -/
theorem exists_head?_trim_write (hkey : IsKey key) (value : List Char) :
    ∃ c, (Text.trim (write key value)).head? = some c ∧ c ≠ '#' ∧ c ≠ '[' := by
  rcases hkey.exists_head with ⟨c, hc, hblank, hmark, hopen⟩
  refine ⟨c, Text.head?_trim ?_ hblank, hmark, hopen⟩
  rcases List.head?_eq_some_iff.1 hc with ⟨rest, hrest⟩
  rw [write, hrest]
  rfl

/-- It begins with a letter of its key, so it is no heading. -/
theorem heading?_write (hkey : IsKey key) (value : List Char) :
    heading? (write key value) = none := by
  rcases exists_head?_trim_write hkey value with ⟨c, hc, -, hopen⟩
  rw [heading?_eq_none_iff]
  rintro ⟨hhead, -⟩
  rw [hc] at hhead
  exact hopen (Option.some.inj hhead)

/-- The line assigns to its own key, and to no other one. -/
theorem value?_write (hkey : IsKey key) (other : String) (value : List Char) :
    value? other (write key value) = if key = other then some (' ' :: value) else none := by
  have hsign : '=' ∉ key.toList ++ [' '] := by
    rw [List.mem_append, not_or]
    exact ⟨hkey.sign_notMem, by decide⟩
  have hmem : '=' ∈ write key value := by
    rw [write_eq]
    exact List.mem_append_right _ List.mem_cons_self
  have hcomment : (Text.trim (write key value)).head? ≠ some '#' := by
    rcases exists_head?_trim_write hkey value with ⟨c, hc, hmark, -⟩
    rw [hc]
    exact fun h => hmark (Option.some.inj h)
  -- the key has no equals sign, so it ends at the one that was written
  have hname : Text.trim ((write key value).takeWhile (· != '=')) = key.toList := by
    rw [write_eq, Text.takeWhile_bne_append_cons hsign, Text.trim_append_right isBlanks_space,
      hkey.trim_eq]
  have hvalue : Text.afterFirst '=' (write key value) = ' ' :: value := by
    rw [write_eq, Text.afterFirst_append_cons hsign]
  unfold value?
  simp only [hmem, hcomment, heading?_write hkey, hname, hvalue, String.toList_inj, ne_eq,
    not_false_eq_true, true_and]

theorem plain_cons_space (value : List Char) : plain (' ' :: value) = plain value := by
  unfold plain
  rw [← Text.trim_append_left isBlanks_space value]
  rfl

/-! ## Values with one more line -/

/-- The values of two groups of lines, one below the other. -/
theorem valuesBelow_append (key : String) (above front back : List (List Char)) :
    valuesBelow key above (front ++ back) =
      valuesBelow key above front ++ valuesBelow key (above ++ front) back := by
  -- induction on the upper group, with the lines above it free
  induction front generalizing above with
  | nil => rw [List.append_nil]; rfl
  | cons line front ih =>
      rw [List.cons_append, valuesBelow, valuesBelow, ih, List.append_assoc, List.append_assoc,
        List.singleton_append]

/-- Of the lines above, only the nearest heading matters. -/
theorem valuesBelow_congr {others : List (List Char)}
    (h : headingAbove? above = headingAbove? others) :
    valuesBelow key above below = valuesBelow key others below := by
  -- induction on the lines below; each of them changes both headings in the same way
  induction below generalizing above others with
  | nil => rfl
  | cons line below ih =>
      rw [valuesBelow, valuesBelow, h]
      congr 1
      apply ih
      rw [headingAbove?_concat, headingAbove?_concat, h]

end SettingsLine

namespace Preferences

open SettingsLine

variable {key other : String} {junk above below longer : List Char}

/-- Trimming its lines does not change what a settings file says. -/
theorem valuesOf_of_trimmedLines {content : List Char} {lines : List (List Char)}
    (h : Text.trimmedLines content = lines.map Text.trim) :
    valuesOf key content = (valuesBelow key [] lines).map plain := by
  -- a line is read as what it is trimmed
  have hread : (Text.lines content).map ofLine = lines.map ofLine := by
    have htrim (ls : List (List Char)) : (ls.map Text.trim).map ofLine = ls.map ofLine := by
      rw [List.map_map]
      exact List.map_congr_left fun line _ => ofLine_trim line
    rw [← htrim, ← htrim lines, ← h]
    rfl
  unfold valuesOf
  rw [hread]
  exact filter_assignments key [] lines

/-- The values of a key, with and without one more line in the file. -/
theorem valuesOf_add {line : List Char} (hadd : Text.AddsLine line above below longer)
    (hline : '\n' ∉ line) (hne : line ≠ []) (hheading : heading? line = none) (key : String) :
    ∃ earlier later, later = (valuesBelow key (Text.lines above) (Text.lines below)).map plain ∧
      valuesOf key (above ++ below) = earlier ++ later ∧
      valuesOf key longer = earlier ++
        (if headingAbove? (Text.lines above) = some "output".toList then
          (value? key line).toList.map plain else []) ++ later := by
  rcases hadd.trimmedLines_eq hline hne with ⟨hlonger, hshorter⟩
  have hvalues : valuesOf key longer =
      (valuesBelow key [] (Text.lines above ++ line :: Text.lines below)).map plain := by
    apply valuesOf_of_trimmedLines
    rw [hlonger, List.map_append, List.map_cons]
    rfl
  have hothers : valuesOf key (above ++ below) =
      (valuesBelow key [] (Text.lines above ++ Text.lines below)).map plain := by
    apply valuesOf_of_trimmedLines
    rw [hshorter, List.map_append]
    rfl
  have hlater : valuesBelow key (Text.lines above ++ [line]) (Text.lines below) =
      valuesBelow key (Text.lines above) (Text.lines below) := by
    -- the new line is no heading, so it does not come between the lines below and theirs
    apply valuesBelow_congr
    rw [headingAbove?_concat, hheading, Option.none_or]
  refine ⟨(valuesBelow key [] (Text.lines above)).map plain, _, rfl, ?_, ?_⟩
  · rw [hothers, valuesBelow_append, List.map_append, List.nil_append]
  · rw [hvalues, valuesBelow_append, List.nil_append, valuesBelow, hlater, List.map_append,
      List.map_append, List.append_assoc]
    congr 2
    split <;> rfl

/-- A line that does not assign to the key does not change its setting. -/
theorem lookup_add_of_none {line : List Char} (hadd : Text.AddsLine line above below longer)
    (hline : '\n' ∉ line) (hne : line ≠ []) (hheading : heading? line = none)
    (hvalue : value? key line = none) : lookup key longer = lookup key (above ++ below) := by
  rcases valuesOf_add hadd hline hne hheading key with ⟨earlier, later, -, hshorter, hlonger⟩
  unfold lookup
  rw [hlonger, hshorter, hvalue, Option.toList_none, List.map_nil, ite_self, List.append_nil]

section Assigned

variable {line value : List Char} (hadd : Text.AddsLine line above below longer)
  (hline : '\n' ∉ line) (hne : line ≠ []) (hheading : heading? line = none)
  (hvalue : value? key line = some value)

include hadd hline hne hheading hvalue

/-- A line that decides and assigns no switch leaves its setting open. -/
theorem lookup_add_of_shadows (hswitch : switch? (plain value) = none)
    (h : Shadows key above below) : lookup key longer = none := by
  rcases valuesOf_add hadd hline hne hheading key with ⟨earlier, later, hlater, -, hlonger⟩
  -- nothing below assigns to the key, so this value is the last one
  rw [h.2, List.map_nil] at hlater
  unfold lookup
  rw [hlonger, hvalue, if_pos h.1, hlater, List.append_nil, Option.toList_some, List.map_singleton,
    List.getLast?_concat, Option.bind_some, hswitch]

/-- A line that does not decide does not change its setting, whatever it assigns. -/
theorem lookup_add_of_not_shadows (h : ¬ Shadows key above below) :
    lookup key longer = lookup key (above ++ below) := by
  rcases valuesOf_add hadd hline hne hheading key with ⟨earlier, later, hlater, hshorter, hlonger⟩
  unfold lookup
  rw [hlonger, hshorter, hvalue]
  by_cases hcounts : headingAbove? (Text.lines above) = some "output".toList
  · -- a value below is the last one, with the line and without it
    have hlast : later ≠ [] := by
      intro hnil
      rw [hnil] at hlater
      exact h ⟨hcounts, List.map_eq_nil_iff.1 hlater.symm⟩
    rw [List.getLast?_append_of_ne_nil _ hlast, List.getLast?_append_of_ne_nil _ hlast]
  · rw [if_neg hcounts, List.append_nil]

end Assigned

/-- A word that is none of those for on and off is no switch. -/
theorem switch?_eq_none {value : List Char}
    (h : String.ofList ((Text.trim value).map Char.toLower) ∉ onWords ++ offWords) :
    switch? value = none := by
  rw [List.mem_append, not_or] at h
  unfold switch?
  dsimp only
  rw [if_neg h.1, if_neg h.2]

/-- Two settings files say the same if they agree about both keys. -/
theorem ofContent_eq_iff {content : List Char} :
    ofContent (String.ofList longer) = ofContent (String.ofList content) ↔
      lookup "header" longer = lookup "header" content ∧
        lookup "prompt" longer = lookup "prompt" content := by
  unfold ofContent
  rw [Preferences.mk.injEq, String.toList_ofList, String.toList_ofList]

/-- A line that assigns no switch changes nothing, unless it is the one that decides
and there is something to change: then it leaves the setting open. It never changes the
other setting. -/
theorem ofContent_of_junk_line (hkey : key = "header" ∨ key = "prompt") (hjunk : '\n' ∉ junk)
    (hword : String.ofList ((Text.trim (plain junk)).map Char.toLower) ∉
      ["1", "true", "yes", "on", "0", "false", "no", "off"])
    (hadd : Text.AddsLine (write key junk) above below longer) :
    (ofContent (String.ofList longer) = ofContent (String.ofList (above ++ below)) ↔
      ¬ Shadows key above below ∨ lookup key (above ++ below) = none) ∧
    (Shadows key above below → lookup key longer = none) ∧
    ∀ other, other ≠ key → lookup other longer = lookup other (above ++ below) := by
  have hwritten : IsKey key := by
    rcases hkey with rfl | rfl
    · exact isKey_header
    · exact isKey_prompt
  have hline := newline_notMem_write hwritten hjunk
  have hne := write_ne_nil key junk
  have hheading := heading?_write hwritten junk
  have hvalue : value? key (write key junk) = some (' ' :: junk) := by
    rw [value?_write hwritten, if_pos rfl]
  have hswitch : switch? (plain (' ' :: junk)) = none := by
    rw [plain_cons_space]
    exact switch?_eq_none hword
  have hopen := lookup_add_of_shadows hadd hline hne hheading hvalue hswitch
  have hsame := lookup_add_of_not_shadows hadd hline hne hheading hvalue
  have hother : ∀ other, other ≠ key → lookup other longer = lookup other (above ++ below) := by
    intro other hdiffers
    apply lookup_add_of_none hadd hline hne hheading
    rw [value?_write hwritten, if_neg hdiffers.symm]
  -- the other key is the same in any case, so only this one is left to compare
  have hiff : ofContent (String.ofList longer) = ofContent (String.ofList (above ++ below)) ↔
      lookup key longer = lookup key (above ++ below) := by
    rw [ofContent_eq_iff]
    rcases hkey with rfl | rfl
    · exact and_iff_left (hother "prompt" (by decide))
    · exact and_iff_right (hother "header" (by decide))
  refine ⟨?_, hopen, hother⟩
  rw [hiff]
  by_cases hshadows : Shadows key above below
  · rw [hopen hshadows]
    constructor
    · intro h
      exact .inr h.symm
    · rintro (hnot | hnone)
      · exact absurd hshadows hnot
      · exact hnone.symm
  · exact iff_of_true (hsame hshadows) (.inl hshadows)

/-- Of three assignments the last one decides, so the second one, which assigns no
switch, changes nothing. -/
theorem ofContent_of_junk_line_overruled :
    let above := "[output]\nheader = yes\r\n".toList
    let below := "header = \"On\"".toList
    let longer := "[output]\nheader = yes\r\nheader = maybe\nheader = \"On\"".toList
    (("header" = "header" ∨ "header" = "prompt") ∧ '\n' ∉ "maybe".toList ∧
      String.ofList ((Text.trim (plain "maybe".toList)).map Char.toLower) ∉
        ["1", "true", "yes", "on", "0", "false", "no", "off"] ∧
      Text.AddsLine (write "header" "maybe".toList) above below longer) ∧
    ofContent (String.ofList longer) = ofContent (String.ofList (above ++ below)) := by
  intro above below longer
  have hjunk : '\n' ∉ "maybe".toList := by decide
  have hword : String.ofList ((Text.trim (plain "maybe".toList)).map Char.toLower) ∉
      ["1", "true", "yes", "on", "0", "false", "no", "off"] := by decide +kernel
  have hadd : Text.AddsLine (write "header" "maybe".toList) above below longer :=
    .between ['\n'] (by decide +kernel) (.inl rfl) (by decide +kernel)
  have hnot : ¬ Shadows "header" above below := by decide +kernel
  exact ⟨⟨.inl rfl, hjunk, hword, hadd⟩,
    (ofContent_of_junk_line (.inl rfl) hjunk hword hadd).1.2 (.inl hnot)⟩

/-- A line that assigns no switch takes back what the line above it has set. -/
theorem ofContent_shadowed :
    let content := "[output]\nheader = true\n"
    let longer := "[output]\nheader = true\nheader = maybe\n"
    '\n' ∉ "maybe".toList ∧
    String.ofList ((Text.trim (plain "maybe".toList)).map Char.toLower) ∉
      ["1", "true", "yes", "on", "0", "false", "no", "off"] ∧
    Text.AddsLine (write "header" "maybe".toList) content.toList [] longer.toList ∧
    ofContent content = ⟨some true, none⟩ ∧ ofContent longer = ⟨none, none⟩ := by
  intro content longer
  refine ⟨by decide, by decide +kernel, ?_, by decide +kernel, by decide +kernel⟩
  exact .between ['\n'] (by decide +kernel) (.inl rfl) (by decide +kernel)

end Preferences

end TapeText
