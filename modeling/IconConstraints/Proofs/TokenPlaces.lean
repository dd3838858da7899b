import IconConstraints.Proofs.ReaderPlaces
import IconConstraints.Proofs.StopPlaces

/-!
# Where tokens and errors lie

The reader counts line ends as it goes, so at every place that it comes to its line is one
more than their number before that place.  Tokens and errors get their lines there.  From the
same steps follows how logical lines lie: one after the other, each with its tokens in order
and with no bracket left open.
-/

namespace IconConstraints.Source

variable {line next : Nat} {o : OpenLine} {l : LogicalLine} {done lines : List LogicalLine}
  {source text rest consumed : List Char} {earlier later : List Token} {t : Token}
  {fault : LexFault}

/-! ## Lines in order -/

/-- The tokens of the line lie in order from its own number on, and leave no bracket open. -/
structure LogicalLine.Whole (l : LogicalLine) : Prop where
  nonempty : l.tokens ≠ []
  begins : ∀ t ∈ l.tokens, l.line ≤ t.line
  ascending : l.tokens.Pairwise fun t later => t.line ≤ later.line
  closed : l.tokens.foldl (fun depth t => t.depthAfter depth) 0 = 0

def LogicalLine.EndsBefore (l : LogicalLine) (line : Nat) : Prop :=
  ∀ t ∈ l.tokens, t.line < line

/-- A line that is being read when the reader is on line `line`. -/
structure OpenLine.ReadTo (o : OpenLine) (line : Nat) : Prop where
  started : o.line ≤ line
  begins : ∀ t ∈ o.tokens, o.line ≤ t.line
  reached : ∀ t ∈ o.tokens, t.line ≤ line
  ascending : o.tokens.Pairwise fun t earlier => earlier.line ≤ t.line
  depth : o.tokens.foldr Token.depthAfter 0 = o.depth

namespace OpenLine.ReadTo

theorem begin (indent line : Nat) : (OpenLine.begin indent line).ReadTo line :=
  ⟨Nat.le_refl line, by simp [OpenLine.begin], by simp [OpenLine.begin], .nil, rfl⟩

theorem mono (h : o.ReadTo line) (hline : line ≤ next) : o.ReadTo next :=
  { h with
    started := Nat.le_trans h.started hline
    reached := fun t ht => Nat.le_trans (h.reached t ht) hline }

theorem push (h : o.ReadTo line) (kind : TokenKind) : (o.push ⟨kind, line⟩).ReadTo line where
  started := h.started
  begins := List.forall_mem_cons.mpr ⟨h.started, h.begins⟩
  reached := List.forall_mem_cons.mpr ⟨Nat.le_refl line, h.reached⟩
  ascending := List.pairwise_cons.mpr ⟨h.reached, h.ascending⟩
  depth := congrArg (Token.depthAfter ⟨kind, line⟩) h.depth

theorem finish (h : o.ReadTo line) (hdepth : o.depth = 0) (hfinish : o.finish? = some l) :
    l.Whole ∧ l.line = o.line ∧ l.EndsBefore (line + 1) := by
  unfold OpenLine.finish? at hfinish
  split at hfinish
  case isTrue => cases hfinish
  case isFalse hne =>
    cases hfinish
    refine ⟨⟨by simpa using hne, ?_, List.pairwise_reverse.mpr h.ascending, ?_⟩, rfl, ?_⟩
    · simpa using h.begins
    · rw [List.foldl_reverse]
      exact h.depth.trans hdepth
    · intro t ht
      exact Nat.lt_succ_of_le (h.reached t (List.mem_reverse.mp ht))

end OpenLine.ReadTo

/-- Lines that were read, the last one first, when the next line begins on line `line`. -/
structure InOrder (done : List LogicalLine) (line : Nat) : Prop where
  whole : ∀ l ∈ done, l.Whole
  apart : done.Pairwise fun l earlier => earlier.EndsBefore l.line
  before : ∀ l ∈ done, l.EndsBefore line

theorem InOrder.mono (h : InOrder done line) (hline : line ≤ next) : InOrder done next :=
  { h with before := fun l hl t ht => Nat.lt_of_lt_of_le (h.before l hl t ht) hline }

theorem InOrder.finish (h : InOrder done o.line) (ho : o.ReadTo line) (hdepth : o.depth = 0)
    (hline : line < next) : InOrder (o.finish?.toList ++ done) next := by
  have hnext : InOrder done next := h.mono (Nat.le_trans ho.started (Nat.le_of_lt hline))
  cases hfinish : o.finish? with
  | none => exact hnext
  | some l =>
      obtain ⟨hwhole, hstart, hends⟩ := ho.finish hdepth hfinish
      refine ⟨List.forall_mem_cons.mpr ⟨hwhole, h.whole⟩, ?_, ?_⟩
      · exact List.pairwise_cons.mpr ⟨hstart ▸ h.before, h.apart⟩
      · have hends : l.EndsBefore next := fun t ht => Nat.lt_of_lt_of_le (hends t ht) hline
        exact List.forall_mem_cons.mpr ⟨hends, hnext.before⟩

namespace Place

variable {p q : Place}

structure Ordered (p : Place) : Prop where
  done : InOrder p.done ((p.current.map OpenLine.line).getD p.line)
  current : ∀ o ∈ p.current, o.ReadTo p.line

theorem Step.ordered (h : Step p q) (hp : p.Ordered) : q.Ordered := by
  cases h with
  | blank => exact ⟨hp.done.mono (Nat.le_succ _), by simp⟩
  | begins => exact ⟨hp.done, by simpa using .begin _ _⟩
  | @lexeme line o done c after r hread =>
      obtain ⟨value, rest, n⟩ := r
      have ho : o.ReadTo (line + n) := (hp.current o rfl).mono (Nat.le_add_right line n)
      cases value with
      | gap => exact ⟨hp.done, by simpa [OpenLine.read] using ho⟩
      | token kind => exact ⟨hp.done, by simpa [OpenLine.read] using ho.push kind⟩
      | lineEnd =>
          obtain rfl := lexeme_lineEnd_lineEnds hread
          simp only [OpenLine.read]
          split
          case isTrue hdepth =>
            exact ⟨hp.done.finish (hp.current o rfl) hdepth (Nat.lt_succ_self line), by simp⟩
          case isFalse => exact ⟨hp.done, by simpa using ho⟩

theorem Reaches.ordered (h : Reaches (.start source) p) : p.Ordered := by
  induction h with
  | refl => exact ⟨⟨by simp [start], .nil, by simp [start]⟩, by simp [start]⟩
  | tail _ hstep ih => exact hstep.ordered ih

/-! ## The line at a place -/

theorem Step.leaves (h : Step p q) : ∃ k, q.line = p.line + k ∧ Leaves k p.rest q.rest := by
  cases h with
  | @blank line indent done c d cs after rest hindent hblank hskip =>
      have hblanks := indentation_leaves 0 cs
      have hcomment := skipComment_leaves (c :: after)
      obtain rfl := skipComment_head hskip
      rw [hindent] at hblanks
      rw [hskip] at hcomment
      exact ⟨1, rfl, (hblanks.trans hcomment).trans (Leaves.refl rest).lineEnd⟩
  | @begins line indent done c cs after hindent =>
      have hblanks := indentation_leaves 0 cs
      rw [hindent] at hblanks
      exact ⟨0, rfl, hblanks⟩
  | @lexeme line o done c after r hread => exact ⟨r.lineEnds, rfl, lexeme_leaves hread⟩

theorem Reaches.leaves (h : Reaches p q) : ∃ k, q.line = p.line + k ∧ Leaves k p.rest q.rest := by
  induction h with
  | refl => exact ⟨0, rfl, .refl _⟩
  | tail _ hstep ih =>
      obtain ⟨k, hline, hleaves⟩ := ih
      obtain ⟨k', hline', hleaves'⟩ := hstep.leaves
      exact ⟨k + k', by rw [hline', hline, Nat.add_assoc], hleaves.trans hleaves'⟩

/-! ## The tokens at a place -/

def tokens (p : Place) : List Token :=
  tokensRead p.current p.done

theorem Step.tokens_eq (h : Step p q) :
    q.tokens = p.tokens ∨ ∃ t k last, q.tokens = p.tokens ++ [t] ∧ t.line = p.line + k ∧
      Leaves k p.rest (last :: q.rest) := by
  cases h with
  | blank => exact .inl rfl
  | begins => exact .inl (by simp [tokens, tokensRead, OpenLine.begin])
  | @lexeme line o done c after r hread =>
      obtain ⟨value, rest, n⟩ := r
      cases value with
      | gap => exact .inl rfl
      | lineEnd =>
          refine .inl ?_
          simp only [tokens, OpenLine.read]
          split
          · exact tokensRead_finish o done
          · rfl
      | token kind =>
          obtain ⟨last, hleaves⟩ := lexeme_token_leaves hread
          exact .inr ⟨⟨kind, line + n⟩, n, last, tokensRead_push o _ done, rfl, hleaves⟩

/-! ## Where a run ends -/

/-- What cannot be read at a place: `rest` is the text after all that was passed. -/
inductive StopsAt : Place → LexFault → List Char → Prop
  | unclosed {line : Nat} {o : OpenLine} {done : List LogicalLine} (hdepth : o.depth ≠ 0) :
      StopsAt ⟨line, some o, done, []⟩ .unclosedBracket []
  | lexeme {line : Nat} {o : OpenLine} {done : List LogicalLine} {c : Char}
      {after rest : List Char} {fault : LexFault} (hstop : LexemeStops (c :: after) fault rest) :
      StopsAt ⟨line, some o, done, c :: after⟩ fault rest

theorem StopsAt.outcome_eq (h : p.StopsAt fault rest) :
    ∃ k, p.outcome = .error ⟨p.line + k, fault⟩ ∧ Leaves k p.rest rest := by
  cases h with
  | unclosed hdepth => exact ⟨0, linesFrom_end.trans (if_neg hdepth), .refl []⟩
  | lexeme hstop =>
      obtain ⟨k, hread, hleaves⟩ := hstop.lexeme_eq
      exact ⟨k, linesFrom_error hread, hleaves⟩

inductive Ends : Place → Except LexError (List LogicalLine) → Prop
  | between {line : Nat} {done : List LogicalLine} {cs : List Char} :
      Ends ⟨line, none, done, cs⟩ (.ok done.reverse)
  | finished {line : Nat} {o : OpenLine} {done : List LogicalLine} (hdepth : o.depth = 0) :
      Ends ⟨line, some o, done, []⟩ (.ok (o.finish?.toList ++ done).reverse)
  | stopped {p : Place} {e : LexError} {rest : List Char} (hstop : p.StopsAt e.fault rest) :
      Ends p (.error e)

theorem exists_end (p : Place) : ∃ q, Reaches p q ∧ Ends q p.outcome := by
  obtain ⟨line, current, done, rest⟩ := p
  unfold outcome
  dsimp only
  induction line, current, done, rest using linesFrom_steps with
  | indented hindent =>
      rw [linesFrom_indented hindent]
      exact ⟨_, .refl, .between⟩
  | begins hindent hblank ih =>
      rw [linesFrom_begin hindent hblank]
      obtain ⟨q, hreaches, hend⟩ := ih
      exact ⟨q, .head (.begins hindent hblank) hreaches, hend⟩
  | blankEnd hindent hblank hskip =>
      rw [linesFrom_blank_end hindent hblank hskip]
      exact ⟨_, .refl, .between⟩
  | blank hindent hblank hskip ih =>
      rw [linesFrom_blank hindent hblank hskip]
      obtain ⟨q, hreaches, hend⟩ := ih
      exact ⟨q, .head (.blank hindent hblank hskip) hreaches, hend⟩
  | ended =>
      rw [linesFrom_end]
      split
      case isTrue hdepth => exact ⟨_, .refl, .finished hdepth⟩
      case isFalse hdepth => exact ⟨_, .refl, .stopped (.unclosed hdepth)⟩
  | stopped hread =>
      rw [linesFrom_error hread]
      obtain ⟨rest, hstop⟩ := exists_lexemeStops hread
      exact ⟨_, .refl, .stopped (.lexeme hstop)⟩
  | read hread ih =>
      rw [linesFrom_lexeme hread]
      obtain ⟨q, hreaches, hend⟩ := ih
      exact ⟨q, .head (.lexeme hread) hreaches, hend⟩

theorem Ends.tokens_eq (h : Ends p (.ok lines)) : p.tokens = lines.flatMap LogicalLine.tokens := by
  cases h with
  | between => simp [tokens, tokensRead]
  | @finished line o done =>
      rw [tokens, ← tokensRead_finish]
      simp [tokensRead]

theorem Ends.inOrder (h : Ends p (.ok lines)) (hp : p.Ordered) :
    ∃ line, InOrder lines.reverse line := by
  cases h with
  | between =>
      rw [List.reverse_reverse]
      exact ⟨_, hp.done⟩
  | @finished line o done hdepth =>
      rw [List.reverse_reverse]
      exact ⟨_, hp.done.finish (hp.current o rfl) hdepth (Nat.lt_succ_self line)⟩

end Place

/-! ## Whole texts -/

/-- The token `t` is read after the tokens `earlier`, and `text` is all of the source up to its
last character. -/
def TakenAt (source : List Char) (earlier : List Token) (t : Token) (text : List Char) : Prop :=
  ∃ p q, Place.Reaches (.start source) p ∧ Place.Step p q ∧ p.tokens = earlier ∧
    q.tokens = earlier ++ [t] ∧ source = text ++ q.rest

theorem TakenAt.line_eq (h : TakenAt source earlier t text) :
    ∃ before last, text = before ++ [last] ∧ t.line = 1 + before.count '\n' := by
  obtain ⟨p, q, hreaches, hstep, rfl, htokens, hsource⟩ := h
  obtain ⟨j, hline, hleaves⟩ := hreaches.leaves
  obtain hsame | ⟨t', k, last, htaken, ht, hlast⟩ := hstep.tokens_eq
  · simp [hsame] at htokens
  · rw [htaken] at htokens
    obtain rfl : t' = t := by simpa using htokens
    obtain ⟨before, hbefore, hcount⟩ := hleaves.trans hlast
    have htext : text ++ q.rest = (before ++ [last]) ++ q.rest := by
      rw [← hsource, List.append_assoc]
      exact hbefore
    refine ⟨before, last, List.append_cancel_right htext, ?_⟩
    rw [ht, hline, hcount, ← Nat.add_assoc]
    rfl

theorem Place.Reaches.exists_takenAt {p : Place} (h : Reaches (.start source) p)
    (htokens : p.tokens = earlier ++ t :: later) : ∃ text, TakenAt source earlier t text := by
  induction h generalizing later with
  | refl => simp [Place.tokens, tokensRead, Place.start] at htokens
  | @tail p q hreaches hstep ih =>
      obtain hsame | ⟨t', -, -, htaken, -, -⟩ := hstep.tokens_eq
      · exact ih (hsame ▸ htokens)
      rw [htaken] at htokens
      obtain rfl | ⟨later, t'', rfl⟩ := later.eq_nil_or_concat
      · obtain ⟨rfl, ht⟩ := List.append_inj' htokens rfl
        obtain rfl := List.singleton_inj.mp ht
        have hreaches' : Place.Reaches _ q := hreaches.tail hstep
        obtain ⟨k, -, text, hsource, -⟩ := hreaches'.leaves
        exact ⟨text, p, q, hreaches, hstep, rfl, htaken, hsource⟩
      · rw [List.concat_eq_append, ← List.cons_append, ← List.append_assoc] at htokens
        exact ih (List.append_inj' htokens rfl).1

/-- Reading stops with a fault after the part `consumed` of the source. -/
def StopsAfter (source : List Char) (fault : LexFault) (consumed : List Char) : Prop :=
  ∃ p rest, Place.Reaches (.start source) p ∧ p.StopsAt fault rest ∧ source = consumed ++ rest

theorem StopsAfter.outcome_eq (h : StopsAfter source fault consumed) :
    (Place.start source).outcome = .error ⟨1 + consumed.count '\n', fault⟩ := by
  obtain ⟨p, rest, hreaches, hstop, hsource⟩ := h
  obtain ⟨j, hline, hleaves⟩ := hreaches.leaves
  obtain ⟨k, houtcome, hrest⟩ := hstop.outcome_eq
  obtain ⟨taken, htaken, hcount⟩ := hleaves.trans hrest
  obtain rfl : taken = consumed := List.append_cancel_right (htaken.symm.trans hsource)
  rw [hreaches.outcome_eq, houtcome, hline, hcount, ← Nat.add_assoc]
  rfl

theorem Place.Reaches.exists_stopsAfter {p : Place} (h : Reaches (.start source) p)
    (hstop : p.StopsAt fault rest) : ∃ consumed, StopsAfter source fault consumed := by
  obtain ⟨j, -, hleaves⟩ := h.leaves
  obtain ⟨k, -, hrest⟩ := hstop.outcome_eq
  obtain ⟨consumed, hsource, -⟩ := hleaves.trans hrest
  exact ⟨consumed, p, rest, h, hstop, hsource⟩

/-- Lines that are whole and follow each other, with the line of each token the one on which the
token's last character stands. -/
structure WellPlaced (source : List Char) (lines : List LogicalLine) : Prop where
  whole : ∀ l ∈ lines, l.Whole
  apart : lines.Pairwise fun l following => l.EndsBefore following.line
  placed : ∀ earlier t later, lines.flatMap LogicalLine.tokens = earlier ++ t :: later →
    ∃ before last, TakenAt source earlier t (before ++ [last]) ∧ t.line = 1 + before.count '\n'

/-- The lines of a text and their tokens are where they are said to be, and so is the error of
a text that has no lines. -/
theorem logicalLines_placed (source : String) :
    match logicalLines source with
    | .ok lines => WellPlaced source.toList lines
    | .error e =>
        (∃ consumed, StopsAfter source.toList e.fault consumed) ∧
          ∀ consumed, StopsAfter source.toList e.fault consumed →
            e.line = 1 + consumed.count '\n' := by
  obtain ⟨q, hreaches, hend⟩ := Place.exists_end (.start source.toList)
  change Place.Ends q (logicalLines source) at hend
  cases hlines : logicalLines source with
  | ok lines =>
      rw [hlines] at hend
      obtain ⟨line, hwhole, hapart, -⟩ := hend.inOrder hreaches.ordered
      refine ⟨by simpa using hwhole, List.pairwise_reverse.mp hapart, ?_⟩
      intro earlier t later htokens
      obtain ⟨text, htaken⟩ := hreaches.exists_takenAt (hend.tokens_eq.trans htokens)
      obtain ⟨before, last, rfl, hline⟩ := htaken.line_eq
      exact ⟨before, last, htaken, hline⟩
  | error e =>
      rw [hlines] at hend
      constructor
      · cases hend with
        | stopped hstop =>
            exact hreaches.exists_stopsAfter hstop
      · intro consumed hstop
        have herror := hlines.symm.trans hstop.outcome_eq
        exact congrArg LexError.line (Except.error.inj herror)

end IconConstraints.Source
