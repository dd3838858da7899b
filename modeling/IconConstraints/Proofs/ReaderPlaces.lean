import Mathlib.Logic.Relation
import IconConstraints.Proofs.LexemeEnds
import IconConstraints.Proofs.LineRuns

/-!
# Places that the reader of lines comes to

A run of the reader goes from place to place, and its outcome is that from any of them.
Which places it comes to depends on the text before them and on the next three characters
only: a text with the same beginning leads there as well.
-/

namespace IconConstraints.Source

/-- What has been read, and the text that comes next. -/
structure Place where
  line : Nat
  current : Option OpenLine
  done : List LogicalLine
  rest : List Char

namespace Place

def start (text : List Char) : Place :=
  ⟨1, none, [], text⟩

/-- What the reader makes of the text from the place on. -/
def outcome (p : Place) : Except LexError (List LogicalLine) :=
  linesFrom p.line p.current p.done p.rest

/-- A blank line, the indentation of another line, or a lexeme is read. -/
inductive Step : Place → Place → Prop
  | blank {line indent : Nat} {done : List LogicalLine} {c d : Char} {cs after rest : List Char}
      (hindent : indentation 0 cs = (indent, c :: after)) (hblank : beginsBlank c = true)
      (hskip : skipComment (c :: after) = d :: rest) :
      Step ⟨line, none, done, cs⟩ ⟨line + 1, none, done, rest⟩
  | begins {line indent : Nat} {done : List LogicalLine} {c : Char} {cs after : List Char}
      (hindent : indentation 0 cs = (indent, c :: after)) (hblank : beginsBlank c = false) :
      Step ⟨line, none, done, cs⟩ ⟨line, some (.begin indent line), done, c :: after⟩
  | lexeme {line : Nat} {o : OpenLine} {done : List LogicalLine} {c : Char} {after : List Char}
      {r : Reading Lexeme} (hread : lexeme c after = .ok r) :
      Step ⟨line, some o, done, c :: after⟩
        ⟨line + r.lineEnds, (o.read done (line + r.lineEnds) r.value).1,
          (o.read done (line + r.lineEnds) r.value).2, r.rest⟩

def Reaches : Place → Place → Prop :=
  Relation.ReflTransGen Step

variable {p q : Place}

theorem Step.outcome_eq (h : Step p q) : p.outcome = q.outcome := by
  cases h with
  | blank hindent hblank hskip => exact linesFrom_blank hindent hblank hskip
  | begins hindent hblank => exact linesFrom_begin hindent hblank
  | lexeme hread => exact linesFrom_lexeme hread

theorem Reaches.outcome_eq (h : Reaches p q) : p.outcome = q.outcome := by
  induction h with
  | refl => rfl
  | tail _ hstep ih => exact ih.trans hstep.outcome_eq

/-! ## Texts that begin alike -/

def withRest (p : Place) (rest : List Char) : Place :=
  { p with rest := rest }

theorem indentation_alike (column : Nat) (cs : List Char) :
    TakesAlike 1 (indentation column) cs (indentation column cs).2
      fun later => ((indentation column cs).1, later) := by
  fun_induction indentation column cs with
  | case1 column =>
      refine .none fun later hlater => ?_
      have hnil : later = [] := List.head?_eq_none_iff.mp hlater.head?.symm
      rw [hnil, indentation]
  | case2 column cs ih => exact .cons (ih.of_eq fun cs' _ => by simp [indentation])
  | case3 column cs _ ih => exact .cons (ih.of_eq fun cs' _ => by simp [indentation])
  | case4 column cs _ _ ih => exact .cons (ih.of_eq fun cs' _ => by simp [indentation])
  | case5 column c cs hspace htab hfeed =>
      refine .none fun later hlater => ?_
      obtain ⟨t, rfl⟩ := hlater.eq_cons
      simp [indentation, hspace, htab, hfeed]

theorem Step.takes (h : Step p q) : ∃ taken, p.rest = taken ++ q.rest ∧
    ∀ later, SameStart 3 q.rest later → Step (p.withRest (taken ++ later)) (q.withRest later) := by
  cases h with
  | @blank line indent done c d cs after rest hindent hblank hskip =>
      have hblanks := indentation_alike 0 cs
      have hcomment := skipComment_alike (c :: after)
      rw [hindent] at hblanks
      rw [hskip] at hcomment
      obtain ⟨blanks, rfl, hblanks⟩ := hblanks
      obtain ⟨comment, hafter, hcomment⟩ := hcomment
      refine ⟨blanks ++ (comment ++ [d]), by simp [hafter], fun later hlater => ?_⟩
      have hstart := (hlater.cons d).append comment
      rw [← hafter] at hstart
      obtain ⟨after', hafter'⟩ := hstart.eq_cons
      have hindent' := hblanks _ (hstart.mono (by decide))
      have hskip' := hcomment _ (hlater.cons d)
      rw [hafter'] at hindent' hskip'
      have hstep : Step ⟨line, none, done, blanks ++ c :: after'⟩ ⟨line + 1, none, done, later⟩ :=
        .blank hindent' hblank hskip'
      simpa [withRest, ← hafter'] using hstep
  | @begins line indent done c cs after hindent hblank =>
      have hblanks := indentation_alike 0 cs
      rw [hindent] at hblanks
      obtain ⟨blanks, rfl, hblanks⟩ := hblanks
      refine ⟨blanks, rfl, fun later hlater => ?_⟩
      obtain ⟨after', rfl⟩ := hlater.eq_cons
      exact .begins (hblanks _ (hlater.mono (by decide))) hblank
  | lexeme hread =>
      obtain ⟨taken, rfl, hagain⟩ := lexeme_alike hread
      exact ⟨_ :: taken, rfl, fun later hlater => .lexeme (hagain later hlater)⟩

theorem Reaches.takes (h : Reaches p q) : ∃ taken, p.rest = taken ++ q.rest ∧
    ∀ later, SameStart 3 q.rest later →
      Reaches (p.withRest (taken ++ later)) (q.withRest later) := by
  induction h with
  | refl => exact ⟨[], rfl, fun _ _ => .refl⟩
  | tail _ hstep ih =>
      obtain ⟨taken, heq, hreaches⟩ := ih
      obtain ⟨taken', heq', hstep⟩ := hstep.takes
      refine ⟨taken ++ taken', by rw [heq, heq', List.append_assoc], fun later hlater => ?_⟩
      have hstart := hlater.append taken'
      rw [← heq'] at hstart
      rw [List.append_assoc]
      exact (hreaches _ hstart).tail (hstep later hlater)

end Place

end IconConstraints.Source
