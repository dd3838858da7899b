import Mathlib.Order.Interval.Finset.Nat
import IconConstraints.Proofs.ExtractionBounds
import IconConstraints.Proofs.FailedRuns
import IconConstraints.Proofs.Mapping

/-!
# Where the codepoints of a patch set land

The crosswalk of one patch set follows from the answer to its request.  With an origin
font an exact patch set keeps the codepoints of its span that this font has, and a packed
one numbers them from its start on.  Numbers are given before anything is left to a
stand-in, so that leaving a glyph out moves no other one.  Without an origin font the
destination font takes its place for an exact patch set, and a packed one fails.
-/

namespace IconConstraints

variable {σ : Type}

/-! ## Numbers in words -/

namespace Machine

/-- Numbers codepoints one after another in words of 32 bits.  Whenever a number is taken the
next one is made. -/
def numbered (next : Nat) : List Codepoint → Except Trap (List (Codepoint × Nat))
  | [] => .ok []
  | cp :: rest => do
    let following ← fitUnsigned 32 (next + 1)
    let numbers ← numbered following rest
    return (cp, next) :: numbers

theorem numbered_eq {cps : List Codepoint} {next : Nat} (h : next + cps.length < codepointBound) :
    numbered next cps = .ok (cps.zip (List.range' next cps.length)) := by
  induction cps generalizing next with
  | nil => rfl
  | cons cp rest ih =>
      rw [List.length_cons] at h
      have hfollowing : fitUnsigned 32 (next + 1) = .ok (next + 1) := by
        apply if_pos
        unfold codepointBound at h
        omega
      have hrest : next + 1 + rest.length < codepointBound := by omega
      rw [numbered, hfollowing]
      simp [ih hrest, bind, Except.bind, pure, Except.pure, List.range'_succ]

end Machine

/-! ## Numbering -/

theorem zip_range'_eq_map {l : List Nat} (h : l.Pairwise (· < ·)) (start : Nat) :
    l.zip (List.range' start l.length) =
      l.map fun n => (n, start + (l.filter (· < n)).length) := by
  induction l generalizing start with
  | nil => rfl
  | cons m rest ih =>
      obtain ⟨hm, hrest⟩ := List.pairwise_cons.mp h
      -- The first element is before all others, so each of their numbers grows by one.
      have hfirst : (m :: rest).filter (· < m) = [] := by
        simp only [List.filter_eq_nil_iff, List.forall_mem_cons, decide_eq_true_eq]
        exact ⟨Nat.lt_irrefl m, fun n hn => Nat.lt_asymm (hm n hn)⟩
      rw [List.length_cons, List.range'_succ, List.zip_cons_cons, List.map_cons, hfirst, ih hrest]
      congr 1
      apply List.map_congr_left
      intro n hn
      simp [hm n hn, Nat.add_assoc, Nat.add_comm 1]

theorem filter_lt_range' {first last cp : Nat} (h : cp ≤ last) :
    (List.range' first (last + 1 - first)).filter (· < cp) = List.range' first (cp - first) := by
  have hsplit : List.range' first (last + 1 - first) = List.range' first (cp - first) ++
      List.range' (first + (cp - first)) (last + 1 - first - (cp - first)) := by
    rw [List.range'_append_1]
    congr 1
    omega
  rw [hsplit, List.filter_append, List.filter_eq_self.mpr, List.filter_eq_nil_iff.mpr,
    List.append_nil]
  all_goals
    intro m hm
    rw [List.mem_range'_1] at hm
    simp only [decide_eq_true_eq]
    omega

theorem card_filter_Ico (has : Nat → Bool) (first last : Nat) :
    ((Finset.Ico first last).filter fun cp => has cp = true).card =
      ((List.range' first (last - first)).filter has).length := by
  rw [Nat.Ico_eq_range', Finset.card_def, Finset.filter_val, Multiset.filter_coe,
    Multiset.coe_card]
  simp

theorem mem_range'_span {first last cp : Nat} :
    cp ∈ List.range' first (last + 1 - first) ↔ first ≤ cp ∧ cp ≤ last := by
  rw [List.mem_range'_1]
  omega

namespace PatchSet

variable {p : PatchSet} {font : Font} {start : Codepoint}

/-- A codepoint of the span that a font has. -/
structure Takes (p : PatchSet) (font : Font) (origin : Codepoint) : Prop where
  first : p.symStart ≤ origin
  last : origin ≤ p.symEnd
  has : font.has origin = true

/-- How many codepoints of the span a font has before the given one. -/
def countBefore (p : PatchSet) (font : Font) (origin : Codepoint) : Nat :=
  ((Finset.Ico p.symStart origin).filter fun cp => font.has cp = true).card

def packedAt (p : PatchSet) (font : Font) (start origin : Codepoint) : Codepoint :=
  start + p.countBefore font origin

theorem mem_filter_span {cp : Codepoint} : cp ∈ p.span.filter font.has ↔ p.Takes font cp := by
  have hspan : cp ∈ p.span ↔ p.symStart ≤ cp ∧ cp ≤ p.symEnd := mem_range'_span
  rw [List.mem_filter, hspan]
  exact ⟨fun ⟨⟨hfirst, hlast⟩, hhas⟩ => ⟨hfirst, hlast, hhas⟩,
    fun h => ⟨⟨h.first, h.last⟩, h.has⟩⟩

theorem ascending_filter_span (p : PatchSet) (font : Font) :
    (p.span.filter font.has).Pairwise (· < ·) :=
  List.Pairwise.filter _ List.pairwise_lt_range'

theorem length_filter_span (p : PatchSet) (font : Font) :
    (p.span.filter font.has).length = p.countBefore font (p.symEnd + 1) :=
  (card_filter_Ico font.has _ _).symm

theorem zip_filter_span (p : PatchSet) (font : Font) (start : Codepoint) :
    (p.span.filter font.has).zip (List.range' start (p.span.filter font.has).length) =
      (p.span.filter font.has).map fun origin => (origin, p.packedAt font start origin) := by
  rw [zip_range'_eq_map (p.ascending_filter_span font)]
  apply List.map_congr_left
  intro origin horigin
  have htakes := mem_filter_span.mp horigin
  have hbefore : (p.span.filter font.has).filter (· < origin) =
      (List.range' p.symStart (origin - p.symStart)).filter font.has := by
    rw [List.filter_comm]
    exact congrArg _ (filter_lt_range' htakes.last)
  rw [packedAt, countBefore, card_filter_Ico, hbefore]

theorem Takes.countBefore_lt {origin later : Codepoint} (h : p.Takes font origin)
    (hlater : origin < later) : p.countBefore font origin < p.countBefore font later := by
  apply Finset.card_lt_card
  rw [Finset.ssubset_iff_of_subset]
  · refine ⟨origin, ?_, by simp⟩
    simp [h.first, h.has, hlater]
  · exact Finset.filter_subset_filter _ (Finset.Ico_subset_Ico_right hlater.le)

/-- What the numbers of a packed patch set are like, and that words of 32 bits hold them. -/
structure Consecutive (p : PatchSet) (font : Font) (start : Codepoint) : Prop where
  increasing : ∀ origin later, p.Takes font origin → origin < later →
    p.packedAt font start origin < p.packedAt font start later
  consecutive : ∀ cp, (∃ origin, p.Takes font origin ∧ p.packedAt font start origin = cp) ↔
    start ≤ cp ∧ cp < start + p.countBefore font (p.symEnd + 1)
  words : Machine.numbered start (p.span.filter font.has) =
    .ok ((p.span.filter font.has).map fun origin => (origin, p.packedAt font start origin))

theorem consecutive_of_bound (h : start + p.span.length < codepointBound) :
    p.Consecutive font start := by
  have hzip := p.zip_filter_span font start
  constructor
  case increasing =>
    intro origin later horigin hlater
    exact Nat.add_lt_add_left (horigin.countBefore_lt hlater) start
  case consecutive =>
    intro cp
    have hnumbers : (p.span.filter font.has).map (p.packedAt font start) =
        List.range' start (p.span.filter font.has).length := by
      have hsecond := congrArg (List.map Prod.snd) hzip
      rw [List.map_snd_zip (by simp), List.map_map] at hsecond
      exact hsecond.symm
    rw [← length_filter_span, ← List.mem_range'_1, ← hnumbers, List.mem_map]
    simp only [mem_filter_span]
  case words =>
    have hlength := List.length_filter_le font.has p.span
    rw [← hzip]
    exact Machine.numbered_eq ((Nat.add_le_add_left hlength start).trans_lt h)

end PatchSet

/-! ## The crosswalk -/

namespace Crosswalk

variable {destination origin : Font} {origins : OriginFonts σ} {version : String} {index : Nat}
  {p : PatchSet} {s : σ}

theorem destination?_ofPairs {name : String} {exact : Bool} {pairs : List (Codepoint × Codepoint)}
    (h : pairs.Pairwise fun a b => a.1 < b.1) (cp target : Codepoint) :
    (ofPairs name index exact pairs).destination? cp = some target ↔ (cp, target) ∈ pairs := by
  rw [← mem_pairs, pairs_ofPairs, CodepointPair.firsts_sort_of_ascending h]

/-- Exactly the codepoints that the origin font has land where they should, without those that
are left to a stand-in because the destination font lacks the place. -/
def Follows (c : Crosswalk) (destination origin : Font) (p : PatchSet)
    (landing : Codepoint → Codepoint) : Prop :=
  ∀ cp target, c.destination? cp = some target ↔
    p.Takes origin cp ∧ target = landing cp ∧
      ¬ ((standIn? p.name cp).isSome = true ∧ destination.has target = false)

/-- The origin font cannot be had, in a way that an exact patch set puts up with. -/
inductive Unavailable : Except Error (Option Font) → Prop
  | withoutOutlines : Unavailable (.ok none)
  | fetch {e : Error} (h : e.isFetch = true) : Unavailable (.error e)
  | fontNotFound {e : Error} (h : e.isFontNotFound = true) : Unavailable (.error e)

theorem map_landing_ascending (p : PatchSet) (font : Font) (landing : Codepoint → Codepoint) :
    ((p.span.filter font.has).map fun cp => (cp, landing cp)).Pairwise fun a b => a.1 < b.1 := by
  rw [List.pairwise_map]
  exact p.ascending_filter_span font

theorem mem_map_landing {font : Font} {landing : Codepoint → Codepoint} {cp target : Codepoint} :
    (cp, target) ∈ (p.span.filter font.has).map (fun cp => (cp, landing cp)) ↔
      p.Takes font cp ∧ target = landing cp := by
  rw [List.mem_map]
  constructor
  · rintro ⟨cp, hcp, ⟨⟩⟩
    exact ⟨PatchSet.mem_filter_span.mp hcp, rfl⟩
  · rintro ⟨htakes, rfl⟩
    exact ⟨cp, PatchSet.mem_filter_span.mpr htakes, rfl⟩

theorem ofOrigin_follows (destination : Font) (index : Nat) (landing : Codepoint → Codepoint)
    (h : layOut p (p.span.filter origin.has) =
      .ok ((p.span.filter origin.has).map fun cp => (cp, landing cp))) :
    ∃ c, (ofOrigin destination origin index p).outcome = .ok c ∧
      c.Follows destination origin p landing := by
  unfold ofOrigin
  rw [h, Report.ofExcept_ok_bind]
  refine ⟨_, rfl, fun cp target => ?_⟩
  have hkept : (!isLeftToStandIn destination p (cp, target)) = true ↔
      ¬ ((standIn? p.name cp).isSome = true ∧ destination.has target = false) := by
    rw [isLeftToStandIn, Bool.not_eq_true', ← Bool.not_eq_true, Bool.and_eq_true,
      Bool.not_eq_true']
  rw [destination?_ofPairs ((map_landing_ascending p origin landing).filter _), List.mem_filter,
    mem_map_landing, hkept, and_assoc]

/-! ### Answers to the request -/

/-- What an answer comes to: an exact patch set does without a font that cannot be had. -/
def excused (p : PatchSet) : Except Error (Option Font) → Except Error (Option Font)
  | .ok (some font) => .ok (some font)
  | .ok none =>
    if p.exact then .ok none else .error (.mapping p.name (.needsCharacterMap p.filename))
  | .error e => if p.exact && (e.isFetch || e.isFontNotFound) then .ok none else .error e

theorem outcome_originMap (origins : OriginFonts σ) (version : String) (p : PatchSet) (s : σ) :
    (originMap origins version p s).report.outcome =
      excused p (origins.request version p.filename s).report.outcome := by
  unfold originMap
  rw [(Session.bind_of_ok _ (Session.outcome_attempt _ s)).1]
  rcases (origins.request version p.filename s).report.outcome with e | _ | font
  · cases hexcused : p.exact && (e.isFetch || e.isFontNotFound) <;>
      simp only [excused, hexcused] <;> rfl
  · cases hexact : p.exact <;> simp only [excused, hexact] <;> rfl
  · rfl

theorem outcome_ofPatchSet (destination : Font) (origins : OriginFonts σ) (version : String)
    (index : Nat) (p : PatchSet) (s : σ) :
    (ofPatchSet destination origins version index p s).report.outcome =
      match excused p (origins.request version p.filename s).report.outcome with
      | .ok (some origin) => (ofOrigin destination origin index p).outcome
      | .ok none => (ofDestination destination index p).outcome
      | .error e => .error e := by
  have horigin := outcome_originMap origins version p s
  unfold ofPatchSet
  cases hexcused : excused p (origins.request version p.filename s).report.outcome with
  | error e => exact (Session.bind_of_error _ (horigin.trans hexcused)).1
  | ok origin =>
      rw [(Session.bind_of_ok _ (horigin.trans hexcused)).1]
      cases origin <;> rfl

theorem ofDestination_follows (destination : Font) (index : Nat) (p : PatchSet) :
    ∃ c, (ofDestination destination index p).outcome = .ok c ∧
      ∀ cp target, c.destination? cp = some target ↔ p.Takes destination cp ∧ target = cp := by
  refine ⟨_, ofDestination_outcome destination index p, fun cp target => ?_⟩
  rw [destination?_ofPairs (map_landing_ascending p destination fun cp => cp), mem_map_landing]

theorem Unavailable.excused_exact {answer : Except Error (Option Font)} (h : Unavailable answer)
    (hexact : p.exact = true) : excused p answer = .ok none := by
  cases h with
  | withoutOutlines => simp [excused, hexact]
  | fetch he => simp [excused, hexact, he]
  | fontNotFound he => simp [excused, hexact, he]

theorem Unavailable.excused_packed {answer : Except Error (Option Font)} (h : Unavailable answer)
    (hpacked : p.exact = false) : ∃ e, excused p answer = .error e := by
  cases h with
  | withoutOutlines => exact ⟨_, by simp [excused, hpacked]; rfl⟩
  | fetch => exact ⟨_, by simp [excused, hpacked]; rfl⟩
  | fontNotFound => exact ⟨_, by simp [excused, hpacked]; rfl⟩

/-- The outcome for one patch set, by the answer to its request for an origin font. -/
structure Charted (destination : Font) (index : Nat) (p : PatchSet)
    (answer : Except Error (Option Font)) (outcome : Except Error Crosswalk) : Prop where
  exact : ∀ origin, answer = .ok (some origin) → p.exact = true →
    ∃ c, outcome = .ok c ∧ c.IsFor index p ∧ c.Follows destination origin p id
  packed : ∀ origin start, answer = .ok (some origin) → p.exact = false →
    p.srcStart = some start → start + p.span.length < codepointBound →
    p.Consecutive origin start ∧
      ∃ c, outcome = .ok c ∧ c.IsFor index p ∧
        c.Follows destination origin p (p.packedAt origin start)
  identity : Unavailable answer → p.exact = true →
    ∃ c, outcome = .ok c ∧ c.IsFor index p ∧
      ∀ cp target, c.destination? cp = some target ↔ p.Takes destination cp ∧ target = cp
  refused : Unavailable answer → p.exact = false → ∃ e, outcome = .error e

theorem ofPatchSet_charted (destination : Font) (origins : OriginFonts σ) (version : String)
    (index : Nat) (p : PatchSet) (s : σ) :
    Charted destination index p (origins.request version p.filename s).report.outcome
      (ofPatchSet destination origins version index p s).report.outcome := by
  have hisFor := @ofPatchSet_isFor _ destination origins version index p s
  have houtcome := outcome_ofPatchSet destination origins version index p s
  constructor
  case exact =>
    intro origin hanswer hexact
    rw [hanswer] at houtcome
    obtain ⟨c, hc, hfollows⟩ := ofOrigin_follows destination index id (if_pos hexact)
    have hc := houtcome.trans hc
    exact ⟨c, hc, hisFor hc, hfollows⟩
  case packed =>
    intro origin start hanswer hpacked hstart hbound
    rw [hanswer] at houtcome
    have hlayOut : layOut p (p.span.filter origin.has) = .ok ((p.span.filter origin.has).map
        fun cp => (cp, p.packedAt origin start cp)) := by
      rw [← p.zip_filter_span origin start, layOut, hpacked, hstart]
      rfl
    obtain ⟨c, hc, hfollows⟩ := ofOrigin_follows destination index _ hlayOut
    have hc := houtcome.trans hc
    exact ⟨PatchSet.consecutive_of_bound hbound, c, hc, hisFor hc, hfollows⟩
  case identity =>
    intro hunavailable hexact
    rw [hunavailable.excused_exact hexact] at houtcome
    obtain ⟨c, hc, hfollows⟩ := ofDestination_follows destination index p
    have hc := houtcome.trans hc
    exact ⟨c, hc, hisFor hc, hfollows⟩
  case refused =>
    intro hunavailable hpacked
    obtain ⟨e, he⟩ := hunavailable.excused_packed hpacked
    rw [he] at houtcome
    exact ⟨e, houtcome⟩

end Crosswalk

/-! ## Patch sets of a script -/

theorem PatchSet.WithinBounds.start_bound {p : PatchSet} (h : p.WithinBounds) {start : Codepoint}
    (hstart : p.srcStart = some start) : start + p.span.length < codepointBound := by
  have hfirst : start ≤ greatestCodepoint := h.start start hstart
  have hlength : p.span.length ≤ greatestCodepoint + 1 := by
    unfold PatchSet.span CodepointRange.toList
    rw [List.length_range']
    exact (Nat.sub_le _ _).trans (Nat.succ_le_succ h.span.2)
  calc
    start + p.span.length ≤ greatestCodepoint + (greatestCodepoint + 1) :=
      Nat.add_le_add hfirst hlength
    _ < codepointBound := by decide

/-- For every answer of the origin fonts the crosswalk of a patch set is the one that the
answer calls for, and the numbers of a packed patch set of a script fit into 32 bits. -/
theorem Crosswalk.charted_within_words (destination : Font) (origins : OriginFonts σ)
    (version : String) (index : Nat) (p : PatchSet) (s : σ) :
    Charted destination index p (origins.request version p.filename s).report.outcome
        (ofPatchSet destination origins version index p s).report.outcome ∧
      ∀ (source : String) (options : ExtractOptions) (x : Extraction),
        (Extraction.ofSource source options).outcome = .ok x → ∀ q ∈ x.patchSets,
          ∀ start, q.srcStart = some start → start + q.span.length < codepointBound :=
  ⟨ofPatchSet_charted destination origins version index p s,
    fun _ _ _ hx q hq _ => (Extraction.patchSets_withinBounds hx q hq).start_bound⟩

namespace Crosswalk

/-- The second codepoint has a stand-in. -/
def packedIcons : PatchSet :=
  ⟨"Font Awesome", "a", false, 0xf0db, 0xf0dd, some 0x10, none, ⟨.unset, ∅⟩⟩

def fontOf (cps : List Codepoint) : Font :=
  .ofGlyphs (Std.ExtTreeMap.ofList (cps.map fun cp => (cp, Font.Glyph.mk none none)))

def iconFont : Font :=
  fontOf [0xf0db, 0xf0dc, 0xf0dd]

def iconOrigins : OriginFonts Unit :=
  ⟨fun _ _ => pure (some iconFont)⟩

/-- The destination font lacks the second place, so that the second codepoint is left out. -/
theorem packedIcons_charted :
    (∃ c, (ofPatchSet (fontOf [0x10, 0x12]) iconOrigins "1" 0 packedIcons ()).report.outcome =
        .ok c ∧ c.pairs = [(0xf0db, 0x10), (0xf0dd, 0x12)] ∧
        c.Follows (fontOf [0x10, 0x12]) iconFont packedIcons (packedIcons.packedAt iconFont 0x10)) ∧
      packedIcons.Consecutive iconFont 0x10 ∧
      ∃ q, (Extraction.ofSource Project.packedSource .standard).outcome = .ok ⟨"1", [q]⟩ ∧
        q.srcStart = some 1 ∧ 1 + q.span.length < codepointBound := by
  obtain ⟨hcharted, hscripts⟩ :=
    charted_within_words (fontOf [0x10, 0x12]) iconOrigins "1" 0 packedIcons ()
  obtain ⟨hconsecutive, c, hc, -, hfollows⟩ := hcharted.packed iconFont 0x10 rfl rfl rfl (by decide)
  refine ⟨⟨c, hc, ?_, hfollows⟩, hconsecutive, _, Project.packed_extraction, rfl,
    hscripts _ _ _ Project.packed_extraction _ List.mem_cons_self 1 rfl⟩
  cases hc
  decide

end Crosswalk

end IconConstraints
