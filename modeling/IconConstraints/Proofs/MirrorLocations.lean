import IconConstraints.Proofs.PathNormalForm

/-!
# Where a mirror has its fonts

A location is the template of the mirror with the version and the filename put into its
fields, seen from the root.  The fields are filled by replacing text, while a filename is
checked by its pieces between slashes.  For a template of names and fields the two views
agree: the pieces are filled one by one, each with names only, so that a location never
leaves the root.
-/

namespace IconConstraints

open IconConstraints.Path

/-! ## Filled texts -/

namespace Text

variable {word value a b : List Char} {c : Char}

theorem replaceFrom_skip (word value a b : List Char) :
    replaceFrom word value a.length (a ++ b) = replaceFrom word value 0 b := by
  induction a with
  | nil => rfl
  | cons c a ih => exact ih

theorem replaceFrom_cons (h : word.isPrefixOf (c :: b) = false) :
    replaceFrom word value 0 (c :: b) = c :: replaceFrom word value 0 b := by
  simp [replaceFrom, h]

/-- In whatever text it stands, the part `a` becomes `a'` when the word is replaced. -/
def Becomes (word value a a' : List Char) : Prop :=
  ∀ b, replaceFrom word value 0 (a ++ b) = a' ++ replaceFrom word value 0 b

theorem becomes_word (hword : word ≠ []) (value : List Char) :
    Becomes word value word value := by
  intro b
  cases word with
  | nil => exact absurd rfl hword
  | cons c word =>
      have hprefix : (c :: word).isPrefixOf (c :: (word ++ b)) = true :=
        List.isPrefixOf_iff_prefix.mpr (List.prefix_append (c :: word) b)
      simp [replaceFrom, hprefix, replaceFrom_skip]

theorem becomes_of_not_mem (h : c ∉ a) (word value : List Char) :
    Becomes (c :: word) value a a := by
  intro b
  induction a with
  | nil => rfl
  | cons d a ih =>
      simp only [List.mem_cons, not_or] at h
      have hprefix : (c :: word).isPrefixOf (d :: (a ++ b)) = false := by
        simp [List.isPrefixOf, h.1]
      rw [List.cons_append, replaceFrom_cons hprefix, ih h.2]
      rfl

theorem Becomes.append {a' b' : List Char} (ha : Becomes word value a a')
    (hb : Becomes word value b b') : Becomes word value (a ++ b) (a' ++ b') := by
  intro c
  rw [List.append_assoc, ha, hb, List.append_assoc]

/-- Between slashes the word is replaced piece by piece, if it leaves the slashes alone. -/
theorem replace_intercalate {α : Type} {word value : String} {before after : α → String}
    {pieces : List α} (hslash : Becomes word.toList value.toList ['/'] ['/'])
    (hpieces : ∀ p ∈ pieces,
      Becomes word.toList value.toList (before p).toList (after p).toList) :
    replace word value ("/".intercalate (pieces.map before)) =
      "/".intercalate (pieces.map after) := by
  have hchars : Becomes word.toList value.toList ("/".intercalate (pieces.map before)).toList
      ("/".intercalate (pieces.map after)).toList := by
    induction pieces with
    | nil => exact fun _ => rfl
    | cons p pieces ih =>
        have hp := hpieces p (by simp)
        cases pieces with
        | nil => simpa using hp
        | cons q pieces =>
            have hmore := ih fun r hr => hpieces r (List.mem_cons_of_mem p hr)
            simpa using (hp.append hslash).append hmore
  have hall := hchars []
  rw [List.append_nil] at hall
  rw [replace, hall, replaceFrom, List.append_nil, String.ofList_toList]

theorem occursIn_singleton (c : Char) (text : String) :
    occursIn (String.singleton c) text = true ↔ c ∈ text.toList := by
  unfold occursIn
  generalize text.toList = cs
  induction cs with
  | nil => simp [occursInChars]
  | cons d cs ih => simp_all [occursInChars, List.isPrefixOf]

end Text

/-! ## Filenames that are refused -/

namespace Path

/-- Whether a filename could lead out of the directory it is joined to. -/
def IsUnsafe (filename : String) : Prop :=
  filename = "" ∨ '~' ∈ filename.toList ∨ (Path.mk filename).isAbsolute = true ∨
    (Path.mk filename).segments.head? = some "." ∨ ".." ∈ (Path.mk filename).segments

theorem component?_eq_up {segment : String} : component? segment = some .up ↔ segment = ".." := by
  unfold component?
  constructor
  · intro h
    split at h
    · cases h
    · split at h
      · assumption
      · cases h
  · rintro rfl
    rfl

theorem up_mem_following {cs : List Char} :
    Component.up ∈ following cs ↔ ".." ∈ (split cs).map String.ofList := by
  simp only [following, List.mem_filterMap, component?_eq_up, exists_eq_right]

/-- A relative path has names only, unless it begins with a dot or has dots that climb. -/
theorem components_names_iff {p : Path} (hrelative : p.isAbsolute = false) :
    p.components.all (·.isName) = true ↔
      p.segments.head? ≠ some "." ∧ ".." ∉ p.segments := by
  have hup : Component.up ∈ following p.text.toList ↔ ".." ∈ p.segments := up_mem_following
  rw [components_eq_append, hrelative, ← hup]
  simp only [Bool.false_eq_true, if_false, List.all_eq_true, List.mem_append]
  constructor
  · intro hnames
    constructor
    · intro hhere
      have := hnames .here (.inl (by simp [hhere]))
      cases this
    · intro hmem
      have := hnames .up (.inr hmem)
      cases this
  · rintro ⟨hhere, hclimbs⟩ c (hc | hc)
    · simp [hhere] at hc
    · obtain rfl | hname := following_cases hc
      · exact absurd hc hclimbs
      · exact hname

theorem isPlain_iff (filename : String) :
    (Path.mk filename).isPlain = true ↔ ¬ IsUnsafe filename := by
  have htilde : Text.occursIn "~" filename = true ↔ '~' ∈ filename.toList :=
    Text.occursIn_singleton '~' filename
  unfold isPlain IsUnsafe
  cases habsolute : (Path.mk filename).isAbsolute with
  | true => simp
  | false =>
      rw [Bool.and_eq_true, components_names_iff habsolute]
      simp [← htilde]
      tauto

/-! ## Joined texts -/

theorem following_intercalate (texts : List String) :
    following ("/".intercalate texts).toList = texts.flatMap fun t => following t.toList := by
  induction texts with
  | nil => rfl
  | cons t texts ih =>
      cases texts with
      | nil => simp
      | cons u texts =>
          have hjoined : ("/".intercalate (t :: u :: texts)).toList =
              t.toList ++ '/' :: ("/".intercalate (u :: texts)).toList := by
            simp
          rw [hjoined, following_append_slash, ih]
          simp only [List.flatMap_cons]

theorem isAbsolute_intercalate {t : String} (ht : t ≠ "") (texts : List String) :
    (Path.mk ("/".intercalate (t :: texts))).isAbsolute = (Path.mk t).isAbsolute := by
  obtain ⟨c, cs, hcs⟩ := List.exists_cons_of_ne_nil (mt String.toList_eq_nil_iff.mp ht)
  unfold isAbsolute
  cases texts <;> simp [hcs]

theorem join_isBeneath {base p : Path} (hrelative : p.isAbsolute = false)
    (hnames : ∀ c ∈ following p.text.toList, c.isName = true)
    (hne : following p.text.toList ≠ []) : (base.join p).IsBeneath base := by
  have hnormal : (base.join p).normal = base.normal ++ following p.text.toList := by
    unfold normal
    rw [stack_join hrelative, foldl_enter_names hnames, List.reverse_append, List.reverse_reverse]
  unfold IsBeneath
  rw [hnormal]
  exact ⟨List.prefix_append .., by simp [hne]⟩

end Path

/-! ## Templates -/

/-- A name that can stand between two slashes and means itself: no dots, and no field. -/
structure PlainName where
  text : String
  ne_empty : text ≠ ""
  ne_here : text ≠ "."
  ne_up : text ≠ ".."
  no_slash : '/' ∉ text.toList
  no_open : '\x7b' ∉ text.toList
  no_close : '\x7d' ∉ text.toList

theorem PlainName.following_eq (n : PlainName) : following n.text.toList = [.name n.text] := by
  simp [following, split_of_no_slash n.no_slash, component?, n.ne_empty, n.ne_here, n.ne_up]

theorem PlainName.isAbsolute_eq (n : PlainName) : (Path.mk n.text).isAbsolute = false := by
  have hslash := n.no_slash
  unfold isAbsolute
  cases htext : n.text.toList with
  | nil => rfl
  | cons c cs =>
      simp only [htext, List.mem_cons, not_or] at hslash
      simpa using Ne.symm hslash.1

namespace Mirror

/-- What stands between two slashes of a template. -/
inductive TemplatePiece where
  | name (n : PlainName)
  | version
  | filename

namespace TemplatePiece

def filled (version filename : String) : TemplatePiece → String
  | .name n => n.text
  | .version => version
  | .filename => filename

def text : TemplatePiece → String :=
  filled versionField filenameField

end TemplatePiece

/-- The mirror whose template consists of the pieces. -/
def ofPieces (root : Path) (first : TemplatePiece) (more : List TemplatePiece) : Mirror :=
  ⟨root, "/".intercalate ((first :: more).map TemplatePiece.text)⟩

theorem replace_versionField (version : PlainName) (pieces : List TemplatePiece) :
    Text.replace versionField version.text ("/".intercalate (pieces.map TemplatePiece.text)) =
      "/".intercalate (pieces.map (TemplatePiece.filled version.text filenameField)) := by
  refine Text.replace_intercalate (Text.becomes_of_not_mem (by decide) _ _) fun p _ => ?_
  cases p with
  | name n => exact Text.becomes_of_not_mem n.no_open _ _
  | version => exact Text.becomes_word (by decide) _
  | filename =>
      -- The other field begins with the same brace, and has none behind it.
      intro b
      have hfield : filenameField.toList = '\x7b' :: "filename\x7d".toList := rfl
      have hother :
          versionField.toList.isPrefixOf ('\x7b' :: ("filename\x7d".toList ++ b)) = false := rfl
      have hmore : Text.Becomes versionField.toList version.text.toList "filename\x7d".toList
          "filename\x7d".toList := Text.becomes_of_not_mem (by decide) _ _
      change Text.replaceFrom _ _ 0 (filenameField.toList ++ b) = filenameField.toList ++ _
      rw [hfield, List.cons_append, Text.replaceFrom_cons hother, hmore, List.cons_append]

theorem replace_filenameField (version : PlainName) (filename : String)
    (pieces : List TemplatePiece) :
    Text.replace filenameField filename
        ("/".intercalate (pieces.map (TemplatePiece.filled version.text filenameField))) =
      "/".intercalate (pieces.map (TemplatePiece.filled version.text filename)) := by
  refine Text.replace_intercalate (Text.becomes_of_not_mem (by decide) _ _) fun p _ => ?_
  cases p with
  | name n => exact Text.becomes_of_not_mem n.no_open _ _
  | version => exact Text.becomes_of_not_mem version.no_open _ _
  | filename => exact Text.becomes_word (by decide) _

theorem TemplatePiece.following_filled (version : PlainName) {filename : String}
    (hplain : (Path.mk filename).isPlain = true) (p : TemplatePiece) :
    (∀ c ∈ following (p.filled version.text filename).toList, c.isName = true) ∧
      following (p.filled version.text filename).toList ≠ [] := by
  cases p with
  | name n => simp [filled, n.following_eq, Component.isName]
  | version => simp [filled, version.following_eq, Component.isName]
  | filename => exact (following_of_isPlain hplain).2

theorem TemplatePiece.filled_relative (version : PlainName) {filename : String}
    (hplain : (Path.mk filename).isPlain = true) (p : TemplatePiece) :
    p.filled version.text filename ≠ "" ∧
      (Path.mk (p.filled version.text filename)).isAbsolute = false := by
  cases p with
  | name n => exact ⟨n.ne_empty, n.isAbsolute_eq⟩
  | version => exact ⟨version.ne_empty, version.isAbsolute_eq⟩
  | filename =>
      refine ⟨?_, (following_of_isPlain hplain).1⟩
      rintro rfl
      cases hplain

theorem location_ofPieces (root : Path) (first : TemplatePiece) (more : List TemplatePiece)
    (version : PlainName) {filename : String} (hplain : (Path.mk filename).isPlain = true) :
    (ofPieces root first more).location version.text filename =
      .ok (root.join ⟨"/".intercalate
        ((first :: more).map (TemplatePiece.filled version.text filename))⟩) := by
  rw [← replace_filenameField, ← replace_versionField]
  unfold location plainFilename
  rw [if_pos hplain]
  rfl

/-- A filename is refused exactly if it is unsafe, and any other has its location beneath the
root of the mirror. -/
theorem location_contained (root : Path) (first : TemplatePiece) (more : List TemplatePiece)
    (version : PlainName) (filename : String) :
    (∀ p, (ofPieces root first more).location version.text filename = .ok p →
      p.IsBeneath root) ∧
    (∀ e, (ofPieces root first more).location version.text filename = .error e →
      e = .fetch filename version.text .unsafeFilename) ∧
    ((∃ e, (ofPieces root first more).location version.text filename = .error e) ↔
      IsUnsafe filename) := by
  by_cases hrisk : IsUnsafe filename
  · have hplain : (Path.mk filename).isPlain = false := by
      simpa using mt (isPlain_iff filename).mp (not_not.mpr hrisk)
    have hlocation : (ofPieces root first more).location version.text filename =
        .error (.fetch filename version.text .unsafeFilename) := by
      unfold location plainFilename
      rw [hplain]
      rfl
    simp [hlocation, hrisk, eq_comm]
  · have hplain : (Path.mk filename).isPlain = true := (isPlain_iff filename).mpr hrisk
    have hlocation := location_ofPieces root first more version hplain
    have hbeneath : (root.join ⟨"/".intercalate
        ((first :: more).map (TemplatePiece.filled version.text filename))⟩).IsBeneath root := by
      have hfirst := first.following_filled version hplain
      obtain ⟨hne, hrelative⟩ := first.filled_relative version hplain
      refine join_isBeneath ?_ ?_ ?_
      · rw [List.map_cons, isAbsolute_intercalate hne, hrelative]
      · simp only [following_intercalate, List.mem_flatMap, List.mem_map]
        rintro c ⟨_, ⟨p, -, rfl⟩, hc⟩
        exact (p.following_filled version hplain).1 c hc
      · rw [following_intercalate, List.map_cons, List.flatMap_cons]
        exact List.append_ne_nil_of_left_ne_nil hfirst.2 _
    rw [hlocation]
    simpa [hrisk] using hbeneath

def releaseName : PlainName :=
  ⟨"3.4.0", by decide, by decide, by decide, by decide, by decide, by decide⟩

def glyphsName : PlainName :=
  ⟨"glyphs", by decide, by decide, by decide, by decide, by decide, by decide⟩

/-- The version, a directory and the filename make the template. -/
def releaseMirror : Mirror :=
  ofPieces ⟨"/fonts"⟩ .version [.name glyphsName, .filename]

/-- A filename that leads through directories is found beneath the root; one that leads up is refused. -/
theorem releaseMirror_contained :
    releaseMirror.location "3.4.0" "a/./b.otf" = .ok ⟨"/fonts/3.4.0/glyphs/a/./b.otf"⟩ ∧
      (Path.mk "/fonts/3.4.0/glyphs/a/./b.otf").IsBeneath ⟨"/fonts"⟩ ∧
      IsUnsafe "a/../b.otf" ∧
      ∃ e, releaseMirror.location "3.4.0" "a/../b.otf" = .error e := by
  have hfound : releaseMirror.location "3.4.0" "a/./b.otf" =
      .ok ⟨"/fonts/3.4.0/glyphs/a/./b.otf"⟩ := rfl
  have hrefused : releaseMirror.location "3.4.0" "a/../b.otf" =
      .error (.fetch "a/../b.otf" "3.4.0" .unsafeFilename) := rfl
  have hcontained := location_contained ⟨"/fonts"⟩ .version [.name glyphsName, .filename] releaseName
  exact ⟨hfound, (hcontained "a/./b.otf").1 _ hfound,
    (hcontained "a/../b.otf").2.2.mp ⟨_, hrefused⟩, _, hrefused⟩

end Mirror

end IconConstraints
