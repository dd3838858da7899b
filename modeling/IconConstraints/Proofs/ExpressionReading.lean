import IconConstraints.Proofs.ParsingComplete
import IconConstraints.Proofs.WellFormed

/-!
# Reading expressions

The reader of expressions accepts exactly the renderings, each as the expression
that it renders, and so each list of tokens has at most one meaning.
-/

namespace IconConstraints

open Source Grammar

variable {ts : List Token} {e : Expr}

theorem Expr.renders_of_ofTokens (h : Expr.ofTokens ts = .ok e) : Renders .list ts e := by
  unfold Expr.ofTokens at h
  split at h
  case isTrue => cases h
  case isFalse =>
    cases hread : Parsing.exprList (Parsing.fuelFor ts) ts with
    | error m =>
        rw [hread] at h
        cases h
    | ok found =>
        obtain ⟨e', rest⟩ := found
        have hbegins : Parsing.Begins .list ts e' rest :=
          Parsing.soundAt (Parsing.fuelFor ts) .list hread
        obtain ⟨used, hts, hused⟩ := hbegins
        cases rest with
        | nil =>
            rw [hread] at h
            cases h
            obtain rfl : ts = used := by simpa using hts
            exact hused
        | cons t rest =>
            rw [hread] at h
            cases h

theorem Expr.ofTokens_of_renders (h : Renders .list ts e) : Expr.ofTokens ts = .ok e := by
  have hlength := (Parsing.Opening.of_renders h).length_pos
  have hread : Parsing.exprList (Parsing.fuelFor ts) (ts ++ []) = .ok (e, []) :=
    Parsing.reads_of_renders h [] (Parsing.fuelFor ts) (.of_atListEnd rfl)
      (by simp only [Parsing.fuelFor, Level.height]; omega)
  rw [List.append_nil] at hread
  have hne : ts.isEmpty = false := by simpa using List.ne_nil_of_length_pos hlength
  unfold Expr.ofTokens
  rw [hne, hread]
  rfl

/-- The grammar is unambiguous. -/
theorem Grammar.Renders.unique {e' : Expr} (h : Renders .list ts e) (h' : Renders .list ts e') :
    e = e' :=
  Except.ok.inj ((Expr.ofTokens_of_renders h).symm.trans (Expr.ofTokens_of_renders h'))

/-- The tokens are read as an expression exactly if they are a rendering of it, all of
them; and exactly the well-formed expressions can be read from some tokens. -/
theorem Expr.ofTokens_reads_exactly_renderings :
    (∀ ts e, Expr.ofTokens ts = .ok e ↔ Renders .list ts e) ∧
      ∀ e : Expr, e.WellFormed ↔ ∃ ts, Expr.ofTokens ts = .ok e := by
  refine ⟨fun ts e => ⟨renders_of_ofTokens, ofTokens_of_renders⟩, fun e => ⟨fun h => ?_, ?_⟩⟩
  · obtain ⟨ts, hts⟩ := written_of_wellFormed h
    exact ⟨ts, ofTokens_of_renders (hts.loosen (by decide))⟩
  · rintro ⟨ts, h⟩
    exact (renders_of_ofTokens h).wellFormed

-- A sign is looser than a power to its right: -2 ** 2 is -(2 ** 2).
example :
    Expr.ofTokens [⟨.op .minus, 1⟩, ⟨.int 2, 1⟩, ⟨.op .power, 1⟩, ⟨.int 2, 1⟩] =
      .ok (.unary .neg (.binary .pow (.int 2) (.int 2))) :=
  rfl

end IconConstraints
