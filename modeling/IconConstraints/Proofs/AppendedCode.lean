import IconConstraints.Extraction
import IconConstraints.Proofs.LineBoundaries
import IconConstraints.Proofs.SwitchDependence

/-!
# Code after the patcher

Extraction takes the first version, the first class with the right name and the first
routine in it, and each of these blocks ends at the latest where a line stands at the
outermost level.  What is appended to a script from such a line on is never looked at.
-/

namespace IconConstraints

open Source

/-! ## Blocks before appended lines -/

section Blocks

variable {keyword name : String} {start i header : Nat} {lines more : List LogicalLine}

theorem definitionIndex?_append (h : definitionIndex? keyword name start lines = some i)
    (more : List LogicalLine) : definitionIndex? keyword name start (lines ++ more) = some i := by
  unfold definitionIndex? at h ⊢
  obtain ⟨offset, hoffset, rfl⟩ := Option.map_eq_some_iff.mp h
  simp [List.drop_append, List.findIdx?_append, hoffset]

theorem definitionIndex?_lt (h : definitionIndex? keyword name start lines = some i) :
    i < lines.length := by
  unfold definitionIndex? at h
  obtain ⟨offset, hoffset, rfl⟩ := Option.map_eq_some_iff.mp h
  have hlt := (List.findIdx?_eq_some_iff_getElem.mp hoffset).1
  simp only [List.length_drop] at hlt
  omega

theorem takeWhile_indent_append {indent : Nat} (hmore : ∀ l ∈ more.head?, l.indent = 0) :
    (lines ++ more).takeWhile (indent < ·.indent) = lines.takeWhile (indent < ·.indent) := by
  have hnone : more.takeWhile (indent < ·.indent) = [] := by
    cases more with
    | nil => rfl
    | cons l more =>
        have hl : l.indent = 0 := hmore l rfl
        simp [hl]
  rw [List.takeWhile_append, hnone, List.append_nil]
  split
  case isTrue hall => exact ((List.takeWhile_prefix _).eq_of_length hall).symm
  case isFalse => rfl

theorem blockLines_append (hheader : header < lines.length)
    (hmore : ∀ l ∈ more.head?, l.indent = 0) :
    blockLines header (lines ++ more) = blockLines header lines := by
  unfold blockLines
  rw [List.drop_append_of_le_length (by omega), List.drop_eq_getElem_cons hheader]
  exact takeWhile_indent_append hmore

theorem blockBody_append (hheader : header < lines.length)
    (hmore : ∀ l ∈ more.head?, l.indent = 0) :
    blockBody header (lines ++ more) = blockBody header lines := by
  unfold blockBody
  rw [blockLines_append hheader hmore]

theorem blockLines_length (hheader : header < lines.length) :
    header + 1 + (blockLines header lines).length ≤ lines.length := by
  unfold blockLines
  rw [List.drop_eq_getElem_cons hheader]
  dsimp only
  have hle := (List.takeWhile_sublist (fun l => decide (lines[header].indent < l.indent))
    (l := lines.drop (header + 1))).length_le
  rw [List.length_drop] at hle
  omega

end Blocks

namespace Extraction

variable {lines more : List LogicalLine} {version : String} {routine : Nat}

theorem version?_append (h : version? lines = some version) (more : List LogicalLine) :
    version? (lines ++ more) = some version := by
  unfold version? at h ⊢
  rw [List.findSome?_append, h]
  rfl

theorem setupRoutine_lt (h : setupRoutine lines = .ok routine) : routine < lines.length := by
  unfold setupRoutine at h
  split at h
  case h_1 => cases h
  case h_2 c hclass =>
    dsimp only at h
    split at h
    case h_1 hroutine =>
      cases h
      have hlt := definitionIndex?_lt hroutine
      rw [List.length_take] at hlt
      omega
    case h_2 => cases h

theorem setupRoutine_append (h : setupRoutine lines = .ok routine)
    (hmore : ∀ l ∈ more.head?, l.indent = 0) : setupRoutine (lines ++ more) = .ok routine := by
  unfold setupRoutine at h ⊢
  split at h
  case h_1 => cases h
  case h_2 c hclass =>
    have hlt := definitionIndex?_lt hclass
    -- The routine is looked for in the block of the class, which ends before the appended lines.
    have hinside : (lines ++ more).take (c + 1 + (blockLines c (lines ++ more)).length) =
        lines.take (c + 1 + (blockLines c lines).length) := by
      rw [blockLines_append hlt hmore, List.take_append_of_le_length (blockLines_length hlt)]
    simp only [definitionIndex?_append hclass more, hinside]
    dsimp only at h
    split at h
    case h_1 hroutine =>
      cases h
      rfl
    case h_2 => cases h

theorem ofSource_eq_ok {source : String} {options : ExtractOptions} {x : Extraction}
    (h : (ofSource source options).outcome = .ok x) :
    ∃ lines version routine, logicalLines source = .ok lines ∧ version? lines = some version ∧
      setupRoutine lines = .ok routine := by
  unfold ofSource at h
  obtain ⟨lines, hlines, h⟩ := Report.bind_eq_ok.mp h
  split at h
  case h_1 => cases h
  case h_2 version hversion =>
    obtain ⟨routine, hroutine, -⟩ := Report.bind_eq_ok.mp h
    refine ⟨lines, version, routine, ?_, hversion, hroutine⟩
    cases hread : logicalLines source with
    | error e =>
        rw [hread] at hlines
        cases hlines
    | ok lines' =>
        rw [hread] at hlines
        cases hlines
        rfl

/-- Code that is appended to a script at the outermost level does not change what is extracted
from the script. -/
theorem ofSource_append {source more : String} {options : ExtractOptions} {x : Extraction}
    {moreLines : List LogicalLine} (hx : (ofSource source options).outcome = .ok x)
    (hends : ∃ t, source.toList = t ++ ['\n'] ∧ ¬ HidesLineEnd t)
    (hmore : logicalLines more = .ok moreLines) (houter : ∀ l ∈ moreLines.head?, l.indent = 0) :
    ofSource (source ++ more) options = ofSource source options := by
  obtain ⟨lines, version, routine, hlines, hversion, hroutine⟩ := ofSource_eq_ok hx
  obtain ⟨t, ht, hhides⟩ := hends
  have happended := logicalLines_append_of_lineEnd ht hhides hlines more
  rw [hmore, following] at happended
  generalize source.toList.count '\n' = n at happended
  -- Appended lines are counted on from the script, but stay at their level.
  have hlater : ∀ l ∈ (moreLines.map (LogicalLine.later n)).head?, l.indent = 0 := by
    intro l hl
    rw [List.head?_map] at hl
    obtain ⟨first, hfirst, rfl⟩ := Option.map_eq_some_iff.mp hl
    exact houter first hfirst
  unfold ofSource
  simp only [happended, hlines, Except.mapError, Report.ofExcept_ok_bind,
    version?_append hversion, hversion, setupRoutine_append hroutine hlater, hroutine,
    blockBody_append (setupRoutine_lt hroutine) hlater]

section AppendedScript

open Source.Word

theorem not_hidesLineEnd_blank (t : List Char) : ¬ HidesLineEnd (t ++ [' ']) := by
  rintro (⟨before, h⟩ | ⟨before, h⟩)
  · cases (List.append_inj' h rfl).2
  · have hlast := congrArg List.getLast? h
    simp at hlast

theorem text_endsLine (ls : List (Nat × List Word)) (indent : Nat) (ws : List Word) (w : Word) :
    ∃ t, text (ls ++ [(indent, ws ++ [w])]) = t ++ ['\n'] ∧ ¬ HidesLineEnd t := by
  refine ⟨text ls ++ List.replicate indent ' ' ++ spelled ws ++ w.first :: w.more ++ [' '], ?_,
    not_hidesLineEnd_blank _⟩
  simp [text, spelled]

theorem scriptText_endsLine (version : String) (table : List Word) :
    ∃ t, (scriptText version table).toList = t ++ ['\n'] ∧ ¬ HidesLineEnd t := by
  rw [scriptText, String.toList_ofList]
  exact text_endsLine ((script version table).take 3) 2 _ _

/-- Another script after the first one, with a version, a class and a routine of its own. -/
theorem switched_extraction_append :
    (ofSource (scriptText "1" switchedTable) .standard).outcome = .ok switchedExtraction ∧
      (∃ t, (scriptText "1" switchedTable).toList = t ++ ['\n'] ∧ ¬ HidesLineEnd t) ∧
      logicalLines (scriptText "2" []) = .ok (Word.lines 1 (script "2" [])) ∧
      (∀ l ∈ (Word.lines 1 (script "2" [])).head?, l.indent = 0) ∧
      ofSource (scriptText "1" switchedTable ++ scriptText "2" []) .standard =
        ofSource (scriptText "1" switchedTable) .standard := by
  have hends := scriptText_endsLine "1" switchedTable
  have hmore : logicalLines (scriptText "2" []) = .ok (Word.lines 1 (script "2" [])) :=
    logicalLines_scriptText (by decide) (by simp) (by decide)
  have houter : ∀ l ∈ (Word.lines 1 (script "2" [])).head?, l.indent = 0 := by
    simp [Word.lines, script]
  exact ⟨switchedTable_extraction, hends, hmore, houter,
    ofSource_append switchedTable_extraction hends hmore houter⟩

end AppendedScript

end Extraction

end IconConstraints
