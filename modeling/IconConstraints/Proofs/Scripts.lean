import IconConstraints.Proofs.Lines

/-!
# Scripts with a table

A script as short as it can be: it declares a version, and the routine of its class
assigns one table.  What its lines are is known from the words of the table alone, so a
script for a particular table need not be read character by character.
-/

namespace IconConstraints.Source.Word

/-- A field of a display, with the comma after it. -/
def field (key : String) (value : List Word) : List Word :=
  ofText key :: ofOperator .colon :: value ++ [ofOperator .comma]

def braced (fields : List Word) : List Word :=
  ofOperator .openBrace :: fields ++ [ofOperator .closeBrace]

def tableLine (table : List Word) : List Word :=
  [ofName "a", ofOperator .dot, ofName "patch_set", ofOperator .assign,
    ofOperator .openBracket] ++ table ++ [ofOperator .closeBracket]

def script (version : String) (table : List Word) : List (Nat × List Word) :=
  [(0, [ofName "version", ofOperator .assign, ofText version]),
   (0, [ofName "class", ofName "font_patcher"]),
   (1, [ofName "def", ofName "setup_patch_set"]),
   (2, tableLine table)]

def scriptText (version : String) (table : List Word) : String :=
  String.ofList (text (script version table))

theorem field_reads {key : String} {value : List Word} :
    (∀ w ∈ field key value, w.Reads) ↔ (ofText key).Reads ∧ ∀ w ∈ value, w.Reads := by
  simp [field, ofOperator_reads, or_imp, forall_and]

theorem braced_reads {fields : List Word} :
    (∀ w ∈ braced fields, w.Reads) ↔ ∀ w ∈ fields, w.Reads := by
  simp [braced, ofOperator_reads, or_imp, forall_and]

theorem digit_one_reads : (⟨'1', [], .int 1⟩ : Word).Reads := by
  intro rest
  cases rest <;> rfl

theorem logicalLines_scriptText {version : String} {table : List Word}
    (hversion : version.toList.all isVerbatim = true) (htable : ∀ w ∈ table, w.Reads)
    (hdepth : depth (tableLine table) = 0) :
    logicalLines (scriptText version table) = .ok (lines 1 (script version table)) := by
  refine logicalLines_text rfl ?_
  have hname : ∀ s ∈ ["version", "class", "font_patcher", "def", "setup_patch_set", "a",
      "patch_set"], (ofName s).Reads := by
    simp only [List.forall_mem_cons]
    exact ⟨fun _ => rfl, fun _ => rfl, fun _ => rfl, fun _ => rfl, fun _ => rfl, fun _ => rfl,
      fun _ => rfl, by simp⟩
  simp only [List.forall_mem_cons] at hname
  obtain ⟨hv, hclass, hpatcher, hdef, hsetup, ha, hset, -⟩ := hname
  have hline : ∀ w ∈ tableLine table, w.Reads := by
    simpa [tableLine, ha, hset, ofOperator_reads, or_imp, forall_and] using htable
  simp only [script, List.forall_mem_cons, List.not_mem_nil, false_imp_iff, implies_true, and_true,
    hv, hclass, hpatcher, hdef, hsetup, ofText_reads hversion, ofOperator_reads, true_and]
  exact ⟨⟨by simp, rfl⟩, ⟨by simp, rfl⟩, ⟨by simp, rfl⟩, by simp [tableLine], hline, hdepth⟩

end IconConstraints.Source.Word
