import IconConstraints.OriginCache
import IconConstraints.Proofs.FilePlaces

/-!
# What is kept in a cache directory

A cache directory that is empty at first is filled with fonts, each at the place of its
filename below the directory of the version.  Filenames of which none leads through
another are kept apart, so every font that is there stays as it was fetched and can be
found by every spelling of its filename.
-/

namespace IconConstraints

/-- The fetcher answers by version and path alone: it does not read what is on disk, and
filenames that spell the same path come to the same content. -/
structure FontFetcher.IsFixed (fetcher : FontFetcher) : Prop where
  tree : ∀ t u version filename,
    (fetcher t version filename).outcome = (fetcher u version filename).outcome
  spelling : ∀ t version filename other content,
    (Path.mk filename).components = (Path.mk other).components →
      (fetcher t version filename).outcome = .ok content →
        (fetcher t version other).outcome = .ok content

namespace OriginCache

open FileTree
open IconConstraints.Path (Component)

variable {t u : FileTree} {directory : Path} {fetcher : FontFetcher} {version : String}
  {filenames : List String} {f g : String} {content other : ByteArray}

/-! ## Cached paths -/

theorem components_cachedPath (directory : Path) (hversion : '/' ∉ version.toList)
    {filename : Path} (hplain : filename.isPlain = true) :
    (cachedPath directory version filename).isAbsolute = directory.isAbsolute ∧
      (cachedPath directory version filename).components =
        directory.components ++ .name ("v" ++ version) :: filename.components := by
  obtain ⟨hrelative, hhere, hfollowing⟩ := Path.components_of_isPlain hplain
  have hsegments : (Path.mk ("v" ++ version)).segments = ["v" ++ version] := by
    unfold Path.segments
    rw [Path.split_of_no_slash (by simpa using hversion), List.map_singleton, String.ofList_toList]
  have hfirst : ∀ dots : String, dots.toList.head? ≠ some 'v' → "v" ++ version ≠ dots := by
    rintro dots hdots rfl
    simp at hdots
  have hname : Path.component? ("v" ++ version) = some (.name ("v" ++ version)) :=
    component?_eq_name.mpr ⟨hfirst _ (by decide), hfirst _ (by decide), hfirst _ (by decide)⟩
  have hdirectory : (Path.mk ("v" ++ version)).isAbsolute = false := by simp [Path.isAbsolute]
  have hdot : (Path.mk ("v" ++ version)).segments.head? ≠ some "." := by
    rw [hsegments]
    simpa using hfirst "." (by decide)
  have hnamed : Path.following ("v" ++ version).toList = [.name ("v" ++ version)] := by
    change (Path.mk ("v" ++ version)).segments.filterMap Path.component? = _
    rw [hsegments, List.filterMap_cons, hname]
    rfl
  unfold cachedPath
  change ((directory.join ⟨"v" ++ version⟩).join filename).isAbsolute = _ ∧
    ((directory.join ⟨"v" ++ version⟩).join filename).components = _
  rw [Path.isAbsolute_join hrelative, Path.isAbsolute_join hdirectory,
    Path.components_join hrelative hhere, Path.components_join hdirectory hdot, hfollowing, hnamed,
    List.append_assoc]
  exact ⟨rfl, rfl⟩

theorem placeFor_cachedPath (t : FileTree) (directory : Path) (hversion : '/' ∉ version.toList)
    (hplain : (Path.mk f).isPlain = true) {names : List String}
    (hnames : (Path.mk f).components = names.map .name) :
    t.placeFor (cachedPath directory version ⟨f⟩) =
      t.placeFor directory ++ ("v" ++ version) :: names := by
  obtain ⟨habsolute, hcomponents⟩ := components_cachedPath directory hversion hplain
  unfold placeFor start
  rw [habsolute, hcomponents, hnames, ← List.map_cons, leadsTo_append, leadsTo_names]

theorem wayTo_cachedPath (t : FileTree) (directory : Path) (hversion : '/' ∉ version.toList)
    (hplain : (Path.mk f).isPlain = true) {names : List String} (hne : names ≠ [])
    (hnames : (Path.mk f).components = names.map .name) :
    t.wayTo (cachedPath directory version ⟨f⟩) =
      visits (t.start directory) (directory.components ++ [.name ("v" ++ version)]) ++
        visits (t.placeFor directory ++ ["v" ++ version]) (names.dropLast.map .name) := by
  obtain ⟨habsolute, hcomponents⟩ := components_cachedPath directory hversion hplain
  have hparent : (cachedPath directory version ⟨f⟩).parentComponents =
      (directory.components ++ [.name ("v" ++ version)]) ++ names.dropLast.map .name := by
    unfold Path.parentComponents
    rw [hcomponents, hnames, ← List.singleton_append, ← List.append_assoc,
      List.dropLast_append_of_ne_nil (by simpa using hne), List.map_dropLast]
  unfold wayTo
  rw [hparent, visits_append, leadsTo_append]
  unfold placeFor start
  rw [habsolute]
  rfl

/-! ## The setting -/

/-- An empty cache directory for the fonts of a version, and a fetcher of fonts that are not too
large.  A write of any font that can be fetched succeeds in the empty directory; this leaves out
filenames that end with a slash or a dot.  No font would have to lie below another. -/
structure Setting (t : FileTree) (directory : Path) (fetcher : FontFetcher) (version : String)
    (filenames : List String) : Prop where
  unparted : '/' ∉ version.toList
  fixed : fetcher.IsFixed
  size : ∀ u filename content, (fetcher u version filename).outcome = .ok content →
    content.size ≤ greatestFontSize
  empty : ∀ below, below ≠ [] → t.node? (t.placeFor directory ++ below) = none
  writes : ∀ f ∈ filenames, (Path.mk f).isPlain = true → ∀ content,
    (fetcher t version f).outcome = .ok content →
      (t.write (cachedPath directory version ⟨f⟩) content).2 = none
  apart : ∀ f ∈ filenames, ∀ g ∈ filenames, (Path.mk f).isPlain = true →
    (Path.mk g).isPlain = true → (Path.mk f).components <+: (Path.mk g).components →
      (Path.mk f).components = (Path.mk g).components

/-- A filename that is asked for and can be fetched, with what it is fetched as. -/
structure Fetched (t : FileTree) (fetcher : FontFetcher) (version : String)
    (filenames : List String) (f : String) (content : ByteArray) : Prop where
  mem : f ∈ filenames
  plain : (Path.mk f).isPlain = true
  outcome : (fetcher t version f).outcome = .ok content

namespace Setting

variable (S : Setting t directory fetcher version filenames)
include S

theorem accepts (hf : Fetched t fetcher version filenames f content) :
    t.Accepts (cachedPath directory version ⟨f⟩) :=
  (write_eq_none.mp (Prod.ext rfl (S.writes f hf.mem hf.plain content hf.outcome))).1

theorem vacant (hf : (Path.mk f).isPlain = true) :
    t.node? (t.placeFor (cachedPath directory version ⟨f⟩)) = none := by
  obtain ⟨names, -, hnames⟩ := Path.exists_names_of_isPlain hf
  rw [placeFor_cachedPath t directory S.unparted hf hnames]
  exact S.empty _ (by simp)

theorem components_of_placeFor (hf : (Path.mk f).isPlain = true) (hg : (Path.mk g).isPlain = true)
    (h : t.placeFor (cachedPath directory version ⟨f⟩) =
      t.placeFor (cachedPath directory version ⟨g⟩)) :
    (Path.mk f).components = (Path.mk g).components := by
  obtain ⟨fs, -, hfs⟩ := Path.exists_names_of_isPlain hf
  obtain ⟨gs, -, hgs⟩ := Path.exists_names_of_isPlain hg
  rw [placeFor_cachedPath t directory S.unparted hf hfs,
    placeFor_cachedPath t directory S.unparted hg hgs] at h
  rw [hfs, hgs, (List.cons.inj (List.append_cancel_left h)).2]

theorem paths_of_components (hf : (Path.mk f).isPlain = true) (hg : (Path.mk g).isPlain = true)
    (h : (Path.mk f).components = (Path.mk g).components) :
    (cachedPath directory version ⟨f⟩).components = (cachedPath directory version ⟨g⟩).components ∧
      t.placeFor (cachedPath directory version ⟨f⟩) =
        t.placeFor (cachedPath directory version ⟨g⟩) ∧
      t.wayTo (cachedPath directory version ⟨f⟩) = t.wayTo (cachedPath directory version ⟨g⟩) := by
  obtain ⟨habsolute, hcomponents⟩ := components_cachedPath directory S.unparted hf
  obtain ⟨habsolute', hcomponents'⟩ := components_cachedPath directory S.unparted hg
  have hsame := hcomponents.trans (h ▸ hcomponents'.symm)
  refine ⟨hsame, ?_, ?_⟩
  · simp [placeFor, start, hsame, habsolute, habsolute']
  · simp [wayTo, start, Path.parentComponents, hsame, habsolute, habsolute']

theorem placeFor_not_mem_wayTo (hf : Fetched t fetcher version filenames f content)
    (hg : Fetched t fetcher version filenames g other) :
    t.placeFor (cachedPath directory version ⟨f⟩) ∉ t.wayTo (cachedPath directory version ⟨g⟩) := by
  obtain ⟨fs, hfne, hfs⟩ := Path.exists_names_of_isPlain hf.plain
  obtain ⟨gs, hgne, hgs⟩ := Path.exists_names_of_isPlain hg.plain
  have hown := (S.accepts hf).placeFor_not_mem
  rw [wayTo_cachedPath t directory S.unparted hf.plain hfne hfs, List.mem_append, not_or] at hown
  rw [wayTo_cachedPath t directory S.unparted hg.plain hgne hgs, List.mem_append]
  rintro (hmem | hmem)
  · -- The way to the directory of the version is part of the way to the font itself.
    exact hown.1 hmem
  · obtain ⟨first, hfirst, hplace⟩ := exists_prefix_of_mem_visits_names hmem
    rw [placeFor_cachedPath t directory S.unparted hf.plain hfs, List.append_assoc,
      List.singleton_append] at hplace
    obtain rfl : fs = first := (List.cons.inj (List.append_cancel_left hplace)).2
    have hprefix : fs <+: gs := hfirst.trans (List.dropLast_prefix gs)
    have hsame : fs = gs := by
      have hcomponents := S.apart f hf.mem g hg.mem hf.plain hg.plain
        (by rw [hfs, hgs]; exact hprefix.map _)
      rw [hfs, hgs] at hcomponents
      exact List.map_injective_iff.mpr (fun _ _ => Component.name.inj) hcomponents
    have hlength := hfirst.length_le
    have hpositive := List.length_pos_of_ne_nil hgne
    rw [hsame, List.length_dropLast] at hlength
    omega

end Setting

/-! ## Filling the directory -/

/-- A tree that has come from the first one by writing fetched fonts to their cached paths. -/
structure Filled (t : FileTree) (directory : Path) (fetcher : FontFetcher) (version : String)
    (filenames : List String) (u : FileTree) : Prop where
  workingDirectory : u.workingDirectory = t.workingDirectory
  directories : ∀ q, t.node? q = some .directory → u.node? q = some .directory
  made : ∀ q, u.node? q = some .directory → t.node? q = some .directory ∨
    ∃ f content, Fetched t fetcher version filenames f content ∧
      q ∈ t.wayTo (cachedPath directory version ⟨f⟩)
  files : ∀ q content, u.node? q = some (.file content) → t.node? q = some (.file content) ∨
    ∃ f, Fetched t fetcher version filenames f content ∧
      q = t.placeFor (cachedPath directory version ⟨f⟩) ∧
      ∀ r ∈ t.wayTo (cachedPath directory version ⟨f⟩), u.node? r = some .directory

theorem filled_start : Filled t directory fetcher version filenames t :=
  ⟨rfl, fun _ h => h, fun _ h => .inl h, fun _ _ h => .inl h⟩

def Stored (t : FileTree) (directory : Path) (version f : String) (u : FileTree)
    (content : ByteArray) : Prop :=
  u.node? (t.placeFor (cachedPath directory version ⟨f⟩)) = some (.file content)

namespace Filled

variable (S : Setting t directory fetcher version filenames)
  (hu : Filled t directory fetcher version filenames u)
include S hu

theorem fetched (hmem : f ∈ filenames) (hplain : (Path.mk f).isPlain = true)
    (h : Stored t directory version f u content) :
    Fetched t fetcher version filenames f content ∧
      ∀ r ∈ t.wayTo (cachedPath directory version ⟨f⟩), u.node? r = some .directory := by
  -- The place was free at first, so the file is a fetched font, if under another spelling.
  rcases hu.files _ content h with hfirst | ⟨g, hg, hplace, hway⟩
  · rw [S.vacant hplain] at hfirst
    cases hfirst
  · have hsame := S.components_of_placeFor hg.plain hplain hplace.symm
    rw [(S.paths_of_components hg.plain hplain hsame).2.2] at hway
    exact ⟨⟨hmem, hplain, S.fixed.spelling t version g f content hsame hg.outcome⟩, hway⟩

theorem nodeAt_iff (hmem : f ∈ filenames) (hplain : (Path.mk f).isPlain = true) :
    u.nodeAt (cachedPath directory version ⟨f⟩) = .ok (.file content) ↔
      Stored t directory version f u content := by
  constructor
  · intro h
    rw [Stored, ← placeFor_of_workingDirectory hu.workingDirectory]
    exact nodeAt_eq_ok h
  · intro h
    obtain ⟨hf, hway⟩ := hu.fetched S hmem hplain h
    exact (S.accepts hf).nodeAt hu.workingDirectory hu.directories hway h

theorem isFile_iff (hmem : f ∈ filenames) (hplain : (Path.mk f).isPlain = true) :
    u.isFile (cachedPath directory version ⟨f⟩) = true ↔
      ∃ content, Stored t directory version f u content := by
  simp only [← hu.nodeAt_iff S hmem hplain]
  unfold isFile
  split
  case h_1 content h => simp [h]
  case h_2 h => simp_all

theorem accepts (hf : Fetched t fetcher version filenames f content) :
    u.Accepts (cachedPath directory version ⟨f⟩) := by
  refine (S.accepts hf).later hu.workingDirectory hu.directories ?_ ?_
  · intro q hq other hfile
    rcases hu.files q other hfile with hfirst | ⟨g, hg, rfl, -⟩
    · exact (S.accepts hf).clear q hq other hfirst
    · exact S.placeFor_not_mem_wayTo hg hf hq
  · intro hdirectory
    rcases hu.made _ hdirectory with hfirst | ⟨g, other, hg, hway⟩
    · rw [S.vacant hf.plain] at hfirst
      cases hfirst
    · exact S.placeFor_not_mem_wayTo hf hg hway

theorem write (hf : Fetched t fetcher version filenames f content) :
    ∃ v, u.write (cachedPath directory version ⟨f⟩) content = (v, none) ∧
      Filled t directory fetcher version filenames v ∧
      Stored t directory version f v content ∧
      ∀ q other, u.node? q = some (.file other) → v.node? q = some (.file other) := by
  have haccepts := hu.accepts S hf
  obtain ⟨v, hwrite⟩ : ∃ v, u.write (cachedPath directory version ⟨f⟩) content = (v, none) :=
    ⟨_, write_eq_none.mpr ⟨haccepts, rfl⟩⟩
  have hway := wayTo_of_workingDirectory hu.workingDirectory (cachedPath directory version ⟨f⟩)
  have hnode := node?_write hwrite
  rw [placeFor_of_workingDirectory hu.workingDirectory, hway] at hnode
  -- Directories elsewhere stay, and none has been at the place of the font.
  have hdirectory : ∀ q, q ≠ t.placeFor (cachedPath directory version ⟨f⟩) →
      u.node? q = some .directory → v.node? q = some .directory := by
    intro q hq hu
    rw [hnode, if_neg hq]
    split
    · rfl
    · exact hu
  refine ⟨v, hwrite, ⟨(workingDirectory_write hwrite).trans hu.workingDirectory, ?_, ?_, ?_⟩,
    by rw [Stored, hnode, if_pos rfl], ?_⟩
  · intro q hq
    refine hdirectory q ?_ (hu.directories q hq)
    rintro rfl
    rw [S.vacant hf.plain] at hq
    cases hq
  · intro q hq
    rw [hnode] at hq
    split at hq
    case isTrue => cases hq
    case isFalse =>
      split at hq
      case isTrue hmem => exact .inr ⟨f, content, hf, hmem⟩
      case isFalse => exact hu.made q hq
  · intro q other hq
    rw [hnode] at hq
    split at hq
    case isTrue hplace =>
      cases hq
      refine .inr ⟨f, hf, hplace, fun r hr => ?_⟩
      rw [hnode, if_neg, if_pos hr]
      rintro rfl
      exact S.placeFor_not_mem_wayTo hf hf hr
    case isFalse =>
      split at hq
      case isTrue => cases hq
      case isFalse =>
        refine (hu.files q other hq).imp_right ?_
        rintro ⟨g, hg, hplace, hgway⟩
        refine ⟨g, hg, hplace, fun r hr => hdirectory r ?_ (hgway r hr)⟩
        rintro rfl
        exact S.placeFor_not_mem_wayTo hf hg hr
  · intro q other hq
    rw [hnode]
    split
    case isTrue hplace =>
      subst hplace
      -- The file that is replaced was fetched for the same path, so it has the same content.
      have hsame := hf.outcome.symm.trans (hu.fetched S hf.mem hf.plain hq).1.outcome
      cases hsame
      rfl
    case isFalse =>
      rw [if_neg, hq]
      intro hmem
      exact haccepts.clear q (hway.symm ▸ hmem) other hq

end Filled

end OriginCache

end IconConstraints
