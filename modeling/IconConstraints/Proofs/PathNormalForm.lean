import Mathlib.Data.Set.Finite.Basic
import IconConstraints.Mirror

/-!
# Normal forms of paths

In the normal form of a path no dots are left, and no name that a later `..` leaves
again.  It is built like a stack, so that joining a relative path to a directory goes on
from the stack of the directory.  A relative path that never climbs above its start keeps
that stack and stays beneath every directory; one that climbs higher leaves some directory
for good.
-/

namespace IconConstraints.Path

/-! ## Components behind the start of a path -/

/-- The components that the pieces of a text stand for. -/
def following (cs : List Char) : List Component :=
  ((split cs).map String.ofList).filterMap component?

theorem split_ne_nil (cs : List Char) : split cs ≠ [] := by
  cases cs with
  | nil => simp [split]
  | cons c cs =>
      unfold split
      split
      · simp
      · split <;> simp

theorem split_append_slash (a b : List Char) : split (a ++ '/' :: b) = split a ++ split b := by
  induction a with
  | nil => simp [split]
  | cons c a ih =>
      rw [List.cons_append, split, split]
      by_cases hslash : c = '/'
      · simp [hslash, ih]
      · obtain ⟨piece, rest, hpiece⟩ := List.exists_cons_of_ne_nil (split_ne_nil a)
        simp [hslash, ih, hpiece]

theorem split_of_no_slash {cs : List Char} (h : '/' ∉ cs) : split cs = [cs] := by
  induction cs with
  | nil => rfl
  | cons c cs ih =>
      simp only [List.mem_cons, not_or] at h
      rw [split, if_neg (Ne.symm h.1), ih h.2]

theorem following_append_slash (a b : List Char) :
    following (a ++ '/' :: b) = following a ++ following b := by
  simp [following, split_append_slash]

theorem following_nil : following [] = [] :=
  rfl

theorem following_cases {cs : List Char} {c : Component} (h : c ∈ following cs) :
    c = .up ∨ c.isName = true := by
  obtain ⟨segment, -, hc⟩ := List.mem_filterMap.mp h
  unfold component? at hc
  split at hc
  · cases hc
  · split at hc
    · cases hc
      exact .inl rfl
    · cases hc
      exact .inr rfl

/-! ## Joined paths -/

theorem join_of_text_empty {base : Path} (h : base.text = "") (p : Path) : base.join p = p := by
  unfold join
  split
  · rfl
  · simp [h]

theorem exists_text_join {base p : Path} (hrelative : p.isAbsolute = false)
    (hbase : base.text ≠ "") : ∃ a tail,
      (base.join p).text.toList = a ++ '/' :: p.text.toList ∧
        base.text.toList = a ++ tail ∧ (tail = [] ∨ tail = ['/']) := by
  unfold join
  rw [hrelative, if_neg Bool.false_ne_true]
  split
  case isTrue h =>
    obtain ⟨a, ha⟩ := List.getLast?_eq_some_iff.mp (h.resolve_left hbase)
    exact ⟨a, ['/'], by simp [ha], ha, .inr rfl⟩
  case isFalse => exact ⟨base.text.toList, [], by simp, by simp, .inl rfl⟩

theorem isAbsolute_join {base p : Path} (hrelative : p.isAbsolute = false) :
    (base.join p).isAbsolute = base.isAbsolute := by
  by_cases hempty : base.text = ""
  · rw [join_of_text_empty hempty, hrelative]
    simp [isAbsolute, hempty]
  · obtain ⟨a, tail, htext, hbase, htail⟩ := exists_text_join hrelative hempty
    unfold isAbsolute
    rw [htext, hbase]
    rcases a with _ | ⟨c, a⟩
    · rcases htail with rfl | rfl
      · exact absurd (String.toList_eq_nil_iff.mp hbase) hempty
      · rfl
    · rfl

theorem following_join {base p : Path} (hrelative : p.isAbsolute = false) :
    following (base.join p).text.toList =
      following base.text.toList ++ following p.text.toList := by
  by_cases hempty : base.text = ""
  · simp [join_of_text_empty hempty, hempty, following_nil]
  · obtain ⟨a, tail, htext, hbase, htail⟩ := exists_text_join hrelative hempty
    rw [htext, hbase, following_append_slash]
    rcases htail with rfl | rfl
    · simp
    · simp [following_append_slash, following_nil]

theorem components_eq_append (p : Path) : p.components =
    (if p.isAbsolute then [.root] else if p.segments.head? = some "." then [.here] else []) ++
      following p.text.toList := by
  unfold components
  dsimp only
  split
  · rfl
  · split <;> rfl

theorem components_join {base p : Path} (hrelative : p.isAbsolute = false)
    (hhere : p.segments.head? ≠ some ".") :
    (base.join p).components = base.components ++ following p.text.toList := by
  rw [components_eq_append, components_eq_append base, isAbsolute_join hrelative,
    following_join hrelative, ← List.append_assoc]
  congr 2
  by_cases hempty : base.text = ""
  · have hbase : base.segments.head? ≠ some "." := by
      simp [segments, hempty, split]
    rw [join_of_text_empty hempty, if_neg hhere, if_neg hbase]
  · obtain ⟨a, tail, htext, hbase, htail⟩ := exists_text_join hrelative hempty
    obtain ⟨piece, pieces, hpieces⟩ := List.exists_cons_of_ne_nil (split_ne_nil a)
    have hhead : (base.join p).segments.head? = base.segments.head? := by
      unfold segments
      rw [htext, hbase, split_append_slash]
      rcases htail with rfl | rfl
      · simp [hpieces]
      · simp [split_append_slash, hpieces]
    rw [hhead]

/-! ## Normal forms -/

/-- A component after others, of which the innermost comes first.  Nothing is above the root. -/
def enter : List Component → Component → List Component
  | _, .root => [.root]
  | above, .here => above
  | .name _ :: above, .up => above
  | .root :: above, .up => .root :: above
  | above, .up => .up :: above
  | above, .name n => .name n :: above

/-- The components of the normal form, the innermost first. -/
def stack (p : Path) : List Component :=
  p.components.foldl enter []

def normal (p : Path) : List Component :=
  p.stack.reverse

/-- Whether the normal form goes on after that of the directory. -/
def IsBeneath (p directory : Path) : Prop :=
  directory.normal <+: p.normal ∧ p.normal ≠ directory.normal

theorem stack_eq (p : Path) :
    p.stack = (following p.text.toList).foldl enter (if p.isAbsolute then [.root] else []) := by
  unfold stack components
  dsimp only
  split
  · rfl
  · split <;> rfl

theorem stack_join {base p : Path} (hrelative : p.isAbsolute = false) :
    (base.join p).stack = (following p.text.toList).foldl enter base.stack := by
  rw [stack_eq, stack_eq base, isAbsolute_join hrelative, following_join hrelative,
    List.foldl_append]

/-! ## Paths that stay below their start -/

/-- Whether a path that begins `depth` names below a directory never leaves it. -/
def staysBelow : (depth : Nat) → List Component → Bool
  | _, [] => true
  | depth, .name _ :: rest => staysBelow (depth + 1) rest
  | 0, .up :: _ => false
  | depth + 1, .up :: rest => staysBelow depth rest
  | depth, _ :: rest => staysBelow depth rest

theorem foldl_enter_names {cs : List Component} (hnames : ∀ c ∈ cs, c.isName = true)
    (above : List Component) : cs.foldl enter above = cs.reverse ++ above := by
  induction cs generalizing above with
  | nil => rfl
  | cons c cs ih =>
      cases c with
      | name n => simp [enter, ih fun c hc => hnames c (List.mem_cons_of_mem _ hc)]
      | root => simp [Component.isName] at hnames
      | here => simp [Component.isName] at hnames
      | up => simp [Component.isName] at hnames

theorem foldl_enter_of_staysBelow {names cs : List Component}
    (hnames : ∀ c ∈ names, c.isName = true) (hcs : ∀ c ∈ cs, c = .up ∨ c.isName = true)
    (hstays : staysBelow names.length cs = true) (above : List Component) :
    ∃ more, cs.foldl enter (names ++ above) = more ++ above := by
  induction cs generalizing names with
  | nil => exact ⟨names, rfl⟩
  | cons c cs ih =>
      have htail : ∀ c ∈ cs, c = .up ∨ c.isName = true :=
        fun c hc => hcs c (List.mem_cons_of_mem _ hc)
      cases c with
      | name n =>
          have hmore : ∀ c ∈ Component.name n :: names, c.isName = true := by
            simpa [Component.isName] using hnames
          exact ih hmore htail hstays
      | up =>
          cases names with
          | nil => simp [staysBelow] at hstays
          | cons inner names =>
              cases inner with
              | name n =>
                  exact ih (fun c hc => hnames c (List.mem_cons_of_mem _ hc)) htail hstays
              | root => simp [Component.isName] at hnames
              | here => simp [Component.isName] at hnames
              | up => simp [Component.isName] at hnames
      | root => simp [Component.isName] at hcs
      | here => simp [Component.isName] at hcs

/-! ## Paths that climb higher -/

theorem mem_enter {above : List Component} {c d : Component} (h : d ∈ enter above c) :
    d ∈ above ∨ d = c := by
  unfold enter at h
  split at h
  all_goals simp_all
  all_goals tauto

theorem mem_foldl_enter {above cs : List Component} {d : Component}
    (h : d ∈ cs.foldl enter above) : d ∈ above ∨ d ∈ cs := by
  induction cs generalizing above with
  | nil => exact .inl h
  | cons c cs ih =>
      rcases ih h with hd | hd
      · rcases mem_enter hd with hd | rfl
        · exact .inl hd
        · exact .inr List.mem_cons_self
      · exact .inr (List.mem_cons_of_mem _ hd)

/-- The name of a directory at the root is lost where a path leaves it, unless the path
itself has the name. -/
theorem not_mem_foldl_enter_of_leaves {names cs : List Component} {directory : String}
    (hnames : ∀ c ∈ names, c.isName = true) (hcs : ∀ c ∈ cs, c = .up ∨ c.isName = true)
    (hleaves : staysBelow names.length cs = false) (hother : Component.name directory ∉ cs) :
    Component.name directory ∉ cs.foldl enter (names ++ [.name directory, .root]) := by
  induction cs generalizing names with
  | nil => simp [staysBelow] at hleaves
  | cons c cs ih =>
      have htail : ∀ c ∈ cs, c = .up ∨ c.isName = true :=
        fun c hc => hcs c (List.mem_cons_of_mem _ hc)
      have hrest : Component.name directory ∉ cs :=
        fun hmem => hother (List.mem_cons_of_mem _ hmem)
      cases c with
      | name n =>
          have hmore : ∀ c ∈ Component.name n :: names, c.isName = true := by
            simpa [Component.isName] using hnames
          exact ih hmore htail hleaves hrest
      | up =>
          cases names with
          | nil =>
              intro hmem
              change Component.name directory ∈ cs.foldl enter [.root] at hmem
              rcases mem_foldl_enter hmem with hmem | hmem
              · simp at hmem
              · exact hrest hmem
          | cons inner names =>
              cases inner with
              | name n =>
                  exact ih (fun c hc => hnames c (List.mem_cons_of_mem _ hc)) htail hleaves hrest
              | root => simp [Component.isName] at hnames
              | here => simp [Component.isName] at hnames
              | up => simp [Component.isName] at hnames
      | root => simp [Component.isName] at hcs
      | here => simp [Component.isName] at hcs

theorem exists_directory (cs : List Component) : ∃ (directory : Path) (n : String),
    directory.stack = [.name n, .root] ∧ Component.name n ∉ cs := by
  have hinjective : Function.Injective fun count : Nat =>
      Component.name (String.ofList (List.replicate (count + 3) 'd')) := by
    intro a b hab
    have hlength := congrArg (·.toList.length) (Component.name.inj hab)
    simpa using hlength
  obtain ⟨_, ⟨count, rfl⟩, hfresh⟩ :=
    (Set.infinite_range_of_injective hinjective).exists_notMem_finite cs.finite_toSet
  refine ⟨⟨String.ofList ('/' :: List.replicate (count + 3) 'd')⟩, _, ?_, hfresh⟩
  have hslash : '/' ∉ List.replicate (count + 3) 'd' := by simp [List.mem_replicate]
  have hpieces : split ('/' :: List.replicate (count + 3) 'd') =
      [[], List.replicate (count + 3) 'd'] := by
    rw [split, if_pos rfl, split_of_no_slash hslash]
  have hname : component? (String.ofList (List.replicate (count + 3) 'd')) =
      some (.name (String.ofList (List.replicate (count + 3) 'd'))) := by
    unfold component?
    rw [if_neg, if_neg]
    · intro hdots
      simpa using congrArg (·.toList.length) hdots
    · rintro (hempty | hdot)
      · simpa using congrArg (·.toList.length) hempty
      · simpa using congrArg (·.toList.length) hdot
  have hempty : component? (String.ofList []) = none := rfl
  have habsolute : isAbsolute ⟨String.ofList ('/' :: List.replicate (count + 3) 'd')⟩ = true := by
    simp [isAbsolute]
  rw [stack_eq, habsolute]
  simp only [String.toList_ofList, following, hpieces, List.map_cons, List.map_nil,
    List.filterMap_cons, List.filterMap_nil, hname, hempty]
  rfl

/-! ## Plain paths -/

theorem components_of_isPlain {p : Path} (h : p.isPlain = true) :
    p.isAbsolute = false ∧ p.segments.head? ≠ some "." ∧
      p.components = following p.text.toList := by
  simp only [isPlain, Bool.and_eq_true, Bool.not_eq_true', List.all_eq_true] at h
  obtain ⟨⟨-, hrelative⟩, hnames⟩ := h
  have hhere : p.segments.head? ≠ some "." := by
    intro hhead
    have hdot := hnames .here (by simp [components, hrelative, hhead])
    simp [Component.isName] at hdot
  refine ⟨hrelative, hhere, ?_⟩
  unfold components
  rw [hrelative]
  exact if_neg hhere

theorem following_of_isPlain {p : Path} (h : p.isPlain = true) :
    p.isAbsolute = false ∧ (∀ c ∈ following p.text.toList, c.isName = true) ∧
      following p.text.toList ≠ [] := by
  obtain ⟨hrelative, hhere, hcomponents⟩ := components_of_isPlain h
  simp only [isPlain, Bool.and_eq_true, bne_iff_ne, List.all_eq_true] at h
  obtain ⟨⟨⟨hne, -⟩, -⟩, hnames⟩ := h
  refine ⟨hrelative, hcomponents ▸ hnames, ?_⟩
  -- The first piece of the path is neither empty nor a dot, so it is a component.
  obtain ⟨c, cs, htext⟩ := List.exists_cons_of_ne_nil (mt String.toList_eq_nil_iff.mp hne)
  have hc : c ≠ '/' := by
    rintro rfl
    simp [isAbsolute, htext] at hrelative
  obtain ⟨piece, rest, hpiece⟩ := List.exists_cons_of_ne_nil (split_ne_nil cs)
  have hfirst : split p.text.toList = (c :: piece) :: rest := by
    rw [htext, split, if_neg hc, hpiece]
  have hdot : String.ofList (c :: piece) ≠ "." := by
    intro hdot
    exact hhere (by simp [segments, hfirst, hdot])
  have hempty : String.ofList (c :: piece) ≠ "" := by
    simp
  have hsome : component? (String.ofList (c :: piece)) ≠ none := by
    unfold component?
    rw [if_neg (not_or.mpr ⟨hempty, hdot⟩)]
    split <;> simp
  intro hnil
  simp only [following, hfirst, List.map_cons, List.filterMap_eq_nil_iff] at hnil
  exact hsome (hnil _ List.mem_cons_self)

theorem exists_names {cs : List Component} (h : ∀ c ∈ cs, c.isName = true) :
    ∃ names : List String, cs = names.map .name := by
  induction cs with
  | nil => exact ⟨[], rfl⟩
  | cons c cs ih =>
      obtain ⟨names, rfl⟩ := ih fun c hc => h c (List.mem_cons_of_mem _ hc)
      cases c with
      | name n => exact ⟨n :: names, rfl⟩
      | root => simp [Component.isName] at h
      | here => simp [Component.isName] at h
      | up => simp [Component.isName] at h

theorem exists_names_of_isPlain {p : Path} (h : p.isPlain = true) :
    ∃ names : List String, names ≠ [] ∧ p.components = names.map .name := by
  obtain ⟨-, -, hcomponents⟩ := components_of_isPlain h
  obtain ⟨-, hall, hne⟩ := following_of_isPlain h
  obtain ⟨names, hnames⟩ := exists_names hall
  refine ⟨names, ?_, hcomponents.trans hnames⟩
  rintro rfl
  exact hne hnames

end IconConstraints.Path
