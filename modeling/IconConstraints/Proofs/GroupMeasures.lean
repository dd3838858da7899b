import IconConstraints.Proofs.GroupExtents

/-!
# What is measured of a scale group

The measured members of a group are the codepoints that are mapped to a glyph with an
outline.  The box of the group has the least and the greatest coordinates of its members,
to which the stand-ins add vertically.  A group is monospace if it has several members and
they share one advance.
-/

namespace IconConstraints

/-! ## Least and greatest coordinates -/

/-- Of two finite numbers one is chosen that is related to both. -/
structure Chooses (choose : Float → Float → Float) (R : Float → Float → Prop) : Prop where
  one : ∀ {x y}, x.isFinite = true → y.isFinite = true → choose x y = x ∨ choose x y = y
  left : ∀ {x y}, x.isFinite = true → y.isFinite = true → R (choose x y) x
  right : ∀ {x y}, x.isFinite = true → y.isFinite = true → R (choose x y) y
  refl : ∀ {x}, x.isFinite = true → R x x
  trans : ∀ {x y z}, x.isFinite = true → y.isFinite = true → z.isFinite = true →
    R x y → R y z → R x z

theorem Chooses.of_units {choose : Float → Float → Float} {R : Float → Float → Prop}
    {S : Int → Int → Prop} (hrefl : ∀ a, S a a) (htrans : ∀ {a b c}, S a b → S b c → S a c)
    (hunits : ∀ {x y : Float}, x.isFinite = true → y.isFinite = true →
      (R x y ↔ S (units x) (units y)))
    (hchoose : ∀ {x y : Float}, x.isFinite = true → y.isFinite = true →
      (choose x y = x ∧ R x y) ∨ (choose x y = y ∧ R y x)) : Chooses choose R where
  one hx hy := (hchoose hx hy).imp And.left And.left
  left hx hy := by
    rcases hchoose hx hy with ⟨heq, -⟩ | ⟨heq, hyx⟩
    · rw [heq]
      exact (hunits hx hx).mpr (hrefl _)
    · rwa [heq]
  right hx hy := by
    rcases hchoose hx hy with ⟨heq, hxy⟩ | ⟨heq, -⟩
    · rwa [heq]
    · rw [heq]
      exact (hunits hy hy).mpr (hrefl _)
  refl hx := (hunits hx hx).mpr (hrefl _)
  trans hx hy hz hxy hyz :=
    (hunits hx hz).mpr (htrans ((hunits hx hy).mp hxy) ((hunits hy hz).mp hyz))

theorem smaller_chooses : Chooses smaller (· ≤ ·) := by
  refine .of_units (S := (· ≤ ·)) le_refl le_trans le_iff_units fun hx hy => ?_
  have hlt := lt_iff_units hy hx
  rw [smaller_eq hx hy, le_iff_units hx hy, le_iff_units hy hx]
  split
  case isTrue h => exact .inr ⟨rfl, (hlt.mp h).le⟩
  case isFalse h => exact .inl ⟨rfl, not_lt.mp (hlt.not.mp h)⟩

theorem larger_chooses : Chooses larger (· ≥ ·) := by
  refine .of_units (S := (· ≥ ·)) le_refl ge_trans (fun hx hy => le_iff_units hy hx)
    fun hx hy => ?_
  have hlt := lt_iff_units hx hy
  rw [larger_eq hx hy, ge_iff_le, ge_iff_le, le_iff_units hy hx, le_iff_units hx hy]
  split
  case isTrue h => exact .inr ⟨rfl, (hlt.mp h).le⟩
  case isFalse h => exact .inl ⟨rfl, not_lt.mp (hlt.not.mp h)⟩

/-- A number of the list that is related to all of them. -/
def Extreme (R : Float → Float → Prop) (l : List Float) (x : Float) : Prop :=
  x ∈ l ∧ ∀ y ∈ l, R x y

theorem Extreme.of_forall {α : Type} {R : Float → Float → Prop} {l : List α}
    {coordinate : α → Float} {x : Float} (h : Extreme R (l.map coordinate) x) (P : Float → Prop)
    (hl : ∀ a ∈ l, P (coordinate a)) : P x := by
  obtain ⟨a, ha, heq⟩ := List.mem_map.mp h.1
  exact heq ▸ hl a ha

namespace Chooses

variable {choose : Float → Float → Float} {R : Float → Float → Prop} {l m : List Float}
  {x y : Float}

theorem isFinite (h : Chooses choose R) (hx : x.isFinite = true) (hy : y.isFinite = true) :
    (choose x y).isFinite = true := by
  rcases h.one hx hy with heq | heq <;> rw [heq] <;> assumption

theorem append (h : Chooses choose R) (hl : ∀ z ∈ l, z.isFinite = true)
    (hm : ∀ z ∈ m, z.isFinite = true) (hx : Extreme R l x) (hy : Extreme R m y) :
    Extreme R (l ++ m) (choose x y) := by
  have hxFinite := hl x hx.1
  have hyFinite := hm y hy.1
  have hchosen := h.isFinite hxFinite hyFinite
  constructor
  · rw [List.mem_append]
    rcases h.one hxFinite hyFinite with heq | heq <;> rw [heq]
    · exact .inl hx.1
    · exact .inr hy.1
  · intro z hz
    rcases List.mem_append.mp hz with hz | hz
    · exact h.trans hchosen hxFinite (hl z hz) (h.left hxFinite hyFinite) (hx.2 z hz)
    · exact h.trans hchosen hyFinite (hm z hz) (h.right hxFinite hyFinite) (hy.2 z hz)

theorem foldl (h : Chooses choose R) (hm : ∀ z ∈ m, z.isFinite = true)
    (hl : ∀ z ∈ l, z.isFinite = true) (hx : Extreme R m x) :
    Extreme R (m ++ l) (l.foldl choose x) := by
  -- `x` is the extreme one among the numbers `m` that the fold has gone through.
  induction l generalizing m x with
  | nil => rwa [List.append_nil]
  | cons y rest ih =>
      obtain ⟨hy, hrest⟩ := List.forall_mem_cons.mp hl
      have hsingle : ∀ z ∈ [y], z.isFinite = true := List.forall_mem_singleton.mpr hy
      have hone : Extreme R [y] y :=
        ⟨List.mem_singleton_self y, List.forall_mem_singleton.mpr (h.refl hy)⟩
      rw [List.append_cons]
      exact ih (List.forall_mem_append.mpr ⟨hm, hsingle⟩) hrest (h.append hm hsingle hx hone)

end Chooses

/-! ## Boxes -/

namespace BoundingBox

structure Finite (b : BoundingBox) : Prop where
  xMin : b.xMin.isFinite = true
  yMin : b.yMin.isFinite = true
  xMax : b.xMax.isFinite = true
  yMax : b.yMax.isFinite = true

theorem Small.finite {b : BoundingBox} (h : b.Small) : b.Finite :=
  ⟨h.xMin.isFinite, h.yMin.isFinite, h.xMax.isFinite, h.yMax.isFinite⟩

/-- The coordinates of a box are the least and the greatest ones of the boxes that count for
its horizontal and for its vertical extent. -/
structure Spans (b : BoundingBox) (horizontal vertical : List BoundingBox) : Prop where
  left : Extreme (· ≤ ·) (horizontal.map (·.xMin)) b.xMin
  right : Extreme (· ≥ ·) (horizontal.map (·.xMax)) b.xMax
  below : Extreme (· ≤ ·) (vertical.map (·.yMin)) b.yMin
  above : Extreme (· ≥ ·) (vertical.map (·.yMax)) b.yMax

theorem Spans.finite {b : BoundingBox} {horizontal vertical : List BoundingBox}
    (h : b.Spans horizontal vertical) (hhorizontal : ∀ c ∈ horizontal, c.Finite)
    (hvertical : ∀ c ∈ vertical, c.Finite) : b.Finite := by
  constructor
  case xMin => exact h.left.of_forall (·.isFinite = true) fun c hc => (hhorizontal c hc).xMin
  case yMin => exact h.below.of_forall (·.isFinite = true) fun c hc => (hvertical c hc).yMin
  case xMax => exact h.right.of_forall (·.isFinite = true) fun c hc => (hhorizontal c hc).xMax
  case yMax => exact h.above.of_forall (·.isFinite = true) fun c hc => (hvertical c hc).yMax

theorem foldl_union (b : BoundingBox) (rest : List BoundingBox) :
    rest.foldl union b =
      { xMin := (rest.map (·.xMin)).foldl smaller b.xMin
        yMin := (rest.map (·.yMin)).foldl smaller b.yMin
        xMax := (rest.map (·.xMax)).foldl larger b.xMax
        yMax := (rest.map (·.yMax)).foldl larger b.yMax } := by
  induction rest generalizing b with
  | nil => rfl
  | cons c rest ih =>
      rw [List.foldl_cons, ih]
      rfl

end BoundingBox

def Font.FiniteBoxes (font : Font) : Prop :=
  ∀ glyph b, font.bounds? glyph = some b → b.Finite

namespace ScaleGroup

open BoundingBox (Spans)

theorem unionAll_spans {boxes : List BoundingBox} {u : BoundingBox}
    (hboxes : ∀ b ∈ boxes, b.Finite) (h : unionAll boxes = some u) : u.Spans boxes boxes := by
  cases boxes with
  | nil => cases h
  | cons b rest =>
      obtain ⟨hb, hrest⟩ := List.forall_mem_cons.mp hboxes
      have hcoordinate : ∀ {choose : Float → Float → Float} {R : Float → Float → Prop}
          (coordinate : BoundingBox → Float), Chooses choose R →
          (∀ c : BoundingBox, c.Finite → (coordinate c).isFinite = true) →
          Extreme R ((b :: rest).map coordinate)
            ((rest.map coordinate).foldl choose (coordinate b)) := by
        intro choose R coordinate hchooses hfinite
        have hfirst := hfinite b hb
        exact hchooses.foldl (m := [coordinate b]) (List.forall_mem_singleton.mpr hfirst)
          (List.forall_mem_map.mpr fun c hc => hfinite c (hrest c hc))
          ⟨List.mem_singleton_self _, List.forall_mem_singleton.mpr (hchooses.refl hfirst)⟩
      obtain rfl : rest.foldl .union b = u := Option.some.inj h
      rw [BoundingBox.foldl_union]
      exact ⟨hcoordinate _ smaller_chooses fun _ hc => hc.xMin,
        hcoordinate _ larger_chooses fun _ hc => hc.xMax,
        hcoordinate _ smaller_chooses fun _ hc => hc.yMin,
        hcoordinate _ larger_chooses fun _ hc => hc.yMax⟩

theorem extended_spans {bounds : BoundingBox} {boxes extents : List BoundingBox}
    (hboxes : ∀ b ∈ boxes, b.Finite) (hextents : ∀ b ∈ extents, b.Finite)
    (h : bounds.Spans boxes boxes) :
    (match unionAll extents with
      | none => bounds
      | some extent => bounds.unionVertical extent).Spans boxes (boxes ++ extents) := by
  cases hunion : unionAll extents with
  | none =>
      obtain rfl : extents = [] := by
        cases extents with
        | nil => rfl
        | cons => cases hunion
      rwa [List.append_nil]
  | some extent =>
      have hvertical := unionAll_spans hextents hunion
      constructor
      case left => exact h.left
      case right => exact h.right
      case below =>
        rw [List.map_append]
        exact smaller_chooses.append (List.forall_mem_map.mpr fun b hb => (hboxes b hb).yMin)
          (List.forall_mem_map.mpr fun b hb => (hextents b hb).yMin) h.below hvertical.below
      case above =>
        rw [List.map_append]
        exact larger_chooses.append (List.forall_mem_map.mpr fun b hb => (hboxes b hb).yMax)
          (List.forall_mem_map.mpr fun b hb => (hextents b hb).yMax) h.above hvertical.above

/-! ## Members and stand-ins -/

variable {font : Font} {patchSet : String} {crosswalk : Crosswalk} {group : ScaleGroup}

/-- The measured members with their destinations, as often as they are listed. -/
def members (group : ScaleGroup) (font : Font) (crosswalk : Crosswalk) :
    List (Codepoint × Font.Outline) :=
  group.codepoints.filterMap fun origin => do
    let destination ← crosswalk.destination? origin
    let outline ← font.outline? destination
    return (destination, outline)

/-- The boxes that stand in for codepoints that are not mapped. -/
def standIns (group : ScaleGroup) (font : Font) (patchSet : String) (crosswalk : Crosswalk) :
    List BoundingBox :=
  (group.codepoints.filter fun origin => (crosswalk.destination? origin).isNone).filterMap
    fun origin => ((standIn? patchSet origin).bind font.outline?).map (·.bounds)

def boxes (group : ScaleGroup) (font : Font) (crosswalk : Crosswalk) : List BoundingBox :=
  (group.members font crosswalk).map (·.2.bounds)

/-- The known advances of the members, by their bits. -/
def advances (group : ScaleGroup) (font : Font) (crosswalk : Crosswalk) : List UInt64 :=
  (group.members font crosswalk).filterMap fun m => m.2.advance.map (·.toBits)

/-- Several members, and one advance among them. -/
def Monospace (group : ScaleGroup) (font : Font) (crosswalk : Crosswalk) : Prop :=
  1 < (group.members font crosswalk).length ∧
    ∃ width, ∀ w, w ∈ group.advances font crosswalk ↔ w = width

theorem member?_membership (font : Font) (patchSet : String) (crosswalk : Crosswalk)
    (origin : Codepoint) : (membership font patchSet crosswalk origin).member? = do
      let destination ← crosswalk.destination? origin
      let outline ← font.outline? destination
      return (destination, outline) := by
  unfold membership
  cases crosswalk.destination? origin with
  | none => cases (standIn? patchSet origin).bind font.outline? <;> rfl
  | some destination =>
      simp only [Option.bind_eq_bind, Option.bind_some]
      cases font.outline? destination <;> rfl

theorem standInExtent?_membership (font : Font) (patchSet : String) (crosswalk : Crosswalk)
    (origin : Codepoint) : (membership font patchSet crosswalk origin).standInExtent? =
      if (crosswalk.destination? origin).isNone then
        ((standIn? patchSet origin).bind font.outline?).map (·.bounds)
      else none := by
  unfold membership
  cases crosswalk.destination? origin with
  | none => cases (standIn? patchSet origin).bind font.outline? <;> rfl
  | some destination =>
      simp only [Option.isNone_some, Bool.false_eq_true, if_false]
      cases font.outline? destination <;> rfl

theorem measured?_eq (group : ScaleGroup) (font : Font) (patchSet : String)
    (crosswalk : Crosswalk) : group.measured? font patchSet crosswalk =
      (unionAll (group.boxes font crosswalk)).map fun bounds => {
        bounds := match unionAll (group.standIns font patchSet crosswalk) with
          | none => bounds
          | some extent => bounds.unionVertical extent
        members := (group.members font crosswalk).map fun m => (m.1, m.2.bounds)
        advances := group.advances font crosswalk } := by
  have hmembers : (group.codepoints.map (membership font patchSet crosswalk)).filterMap
      (·.member?) = group.members font crosswalk := by
    rw [List.filterMap_map]
    exact congrArg (List.filterMap · _) (funext (member?_membership font patchSet crosswalk))
  have hstandIns : (group.codepoints.map (membership font patchSet crosswalk)).filterMap
      (·.standInExtent?) = group.standIns font patchSet crosswalk := by
    rw [List.filterMap_map, standIns, List.filterMap_filter]
    exact congrArg (List.filterMap · _) (funext (standInExtent?_membership font patchSet crosswalk))
  have hmeasure := group.measure_eq_ok font patchSet crosswalk
  unfold measure at hmeasure
  obtain ⟨-, -, hmeasure⟩ := Report.bind_eq_ok.mp hmeasure
  rw [hmembers, hstandIns] at hmeasure
  change (match unionAll (group.boxes font crosswalk) with
    | none => _
    | some bounds => _ : Report (Option Geometry)).outcome = _ at hmeasure
  cases hunion : unionAll (group.boxes font crosswalk) with
  | none =>
      rw [hunion] at hmeasure
      exact (Except.ok.inj hmeasure).symm
  | some bounds =>
      rw [hunion] at hmeasure
      exact (Except.ok.inj hmeasure).symm

theorem measured?_isSome_iff :
    (group.measured? font patchSet crosswalk).isSome = true ↔ group.members font crosswalk ≠ [] := by
  rw [measured?_eq, Option.isSome_map, boxes]
  cases group.members font crosswalk <;> simp [unionAll]

theorem all_eq_iff (widths : List UInt64) :
    (match widths with
      | [] => false
      | first :: rest => rest.all (· == first)) = true ↔ ∃ width, ∀ w, w ∈ widths ↔ w = width := by
  cases widths with
  | nil => simp
  | cons first rest =>
      simp only [List.all_eq_true, beq_iff_eq, List.mem_cons]
      constructor
      · intro hall
        exact ⟨first, fun w => ⟨fun h => h.elim id (hall w), .inl⟩⟩
      · rintro ⟨width, hwidth⟩ w hw
        exact ((hwidth w).mp (.inr hw)).trans ((hwidth first).mp (.inl rfl)).symm

/-- The geometry of a group says what its members and its stand-ins are like. -/
structure Gauges (group : ScaleGroup) (font : Font) (patchSet : String) (crosswalk : Crosswalk)
    (g : Geometry) : Prop where
  spans : g.bounds.Spans (group.boxes font crosswalk)
    (group.boxes font crosswalk ++ group.standIns font patchSet crosswalk)
  members : g.members = (group.members font crosswalk).map fun m => (m.1, m.2.bounds)
  monospace : g.isMonospace = true ↔ group.Monospace font crosswalk

theorem mem_members {m : Codepoint × Font.Outline} : m ∈ group.members font crosswalk ↔
    ∃ origin ∈ group.codepoints, crosswalk.destination? origin = some m.1 ∧
      font.outline? m.1 = some m.2 := by
  obtain ⟨destination, outline⟩ := m
  rw [members, List.mem_filterMap]
  constructor
  · rintro ⟨origin, horigin, h⟩
    obtain ⟨_, hdestination, h⟩ := Option.bind_eq_some_iff.mp h
    obtain ⟨_, houtline, h⟩ := Option.bind_eq_some_iff.mp h
    cases h
    exact ⟨origin, horigin, hdestination, houtline⟩
  · rintro ⟨origin, horigin, hdestination, houtline⟩
    exact ⟨origin, horigin, Option.bind_eq_some_iff.mpr ⟨destination, hdestination,
      Option.bind_eq_some_iff.mpr ⟨outline, houtline, rfl⟩⟩⟩

/-! ## Fonts with finite boxes -/

section Boxes

variable {P : BoundingBox → Prop}

theorem outline?_bounds (hfont : ∀ glyph b, font.bounds? glyph = some b → P b) {cp : Codepoint}
    {outline : Font.Outline} (h : font.outline? cp = some outline) : P outline.bounds := by
  unfold Font.outline? at h
  obtain ⟨glyph, -, h⟩ := Option.bind_eq_some_iff.mp h
  obtain ⟨b, hb, h⟩ := Option.bind_eq_some_iff.mp h
  cases h
  exact hfont glyph b hb

theorem forall_mem_boxes (hfont : ∀ glyph b, font.bounds? glyph = some b → P b) :
    ∀ b ∈ group.boxes font crosswalk, P b := by
  intro b hb
  obtain ⟨m, hm, rfl⟩ := List.mem_map.mp hb
  obtain ⟨-, -, -, houtline⟩ := mem_members.mp hm
  exact outline?_bounds hfont houtline

theorem forall_mem_standIns (hfont : ∀ glyph b, font.bounds? glyph = some b → P b) :
    ∀ b ∈ group.standIns font patchSet crosswalk, P b := by
  intro b hb
  obtain ⟨origin, -, hb⟩ := List.mem_filterMap.mp hb
  obtain ⟨outline, houtline, rfl⟩ := Option.map_eq_some_iff.mp hb
  obtain ⟨cp, -, houtline⟩ := Option.bind_eq_some_iff.mp houtline
  exact outline?_bounds hfont houtline

end Boxes

theorem measured?_gauges (hfont : font.FiniteBoxes) {g : Geometry}
    (h : group.measured? font patchSet crosswalk = some g) :
    group.Gauges font patchSet crosswalk g := by
  rw [measured?_eq] at h
  obtain ⟨bounds, hbounds, rfl⟩ := Option.map_eq_some_iff.mp h
  constructor
  case spans =>
    exact extended_spans (forall_mem_boxes hfont) (forall_mem_standIns hfont)
      (unionAll_spans (forall_mem_boxes hfont) hbounds)
  case members => rfl
  case monospace =>
    rw [Geometry.isMonospace, Bool.and_eq_true, decide_eq_true_eq, List.length_map]
    exact and_congr_right fun _ => all_eq_iff _

theorem Gauges.finite {g : Geometry} (h : group.Gauges font patchSet crosswalk g)
    (hfont : font.FiniteBoxes) : g.bounds.Finite :=
  h.spans.finite (forall_mem_boxes hfont)
    (List.forall_mem_append.mpr ⟨forall_mem_boxes hfont, forall_mem_standIns hfont⟩)

end ScaleGroup

end IconConstraints
