import IconConstraints.Proofs.CacheContainment
import IconConstraints.Proofs.OriginStore
import IconConstraints.Proofs.RecentFaces

/-!
# Cached and uncached origin fonts

A provider of origin fonts remembers what its requests came to, keeps the fonts that it
has fetched on disk and the faces that it has read.  None of this can be seen in its
answers: they are those of a provider that only fetches.  It shows in how often is
fetched, as a font that is on disk is not fetched again, also not by a later provider.
-/

namespace IconConstraints

variable {L : Libraries}

/-- The font that a file comes to; the path of a face is for messages only. -/
def FontLibrary.outline? (fonts : FontLibrary) (content : ByteArray) : Option Font :=
  (Face.ofContent? fonts "" content).toOption.map (·.font)

theorem Face.toOption_ofContent? (fonts : FontLibrary) (path : String) (content : ByteArray) :
    (Face.ofContent? fonts path content).toOption.map (·.font) = fonts.outline? content := by
  unfold FontLibrary.outline? Face.ofContent?
  cases fonts.parse content with
  | error reason => rfl
  | ok parsed =>
      dsimp only
      split <;> rfl

theorem Face.read_of_nodeAt {t : FileTree} {p : Path} {content : ByteArray}
    (h : t.nodeAt p = .ok (.file content)) (hsize : content.size ≤ greatestFontSize) :
    Face.read L.fonts t p = Face.ofContent L.fonts p.text content := by
  have hchecked : checkFontSize p.text content.size = .ok () := if_neg (Nat.not_lt.mpr hsize)
  unfold Face.read FileTree.sizeOf FileTree.read
  rw [h]
  change (checkFontSize p.text content.size >>= fun _ => Face.ofContent L.fonts p.text content) = _
  rw [hchecked]
  rfl

namespace OriginCache

variable {t u : FileTree} {directory : Option Path} {fetcher : FontFetcher}
  {version f g : String} {c d : OriginCache L} {content : ByteArray}

/-! ## One request -/

/-- What a request comes to if nothing is kept. -/
def answer (fonts : FontLibrary) (fetcher : FontFetcher) (t : FileTree) (version filename : String) :
    Except Error (Option Font) := do
  let plain ← plainFilename version filename
  let content ← (fetcher t version plain.text).outcome
  return fonts.outline? content

/-- What the provider remembers is what its requests come to. -/
def Recalls (fetcher : FontFetcher) (t : FileTree) (version : String) (c : OriginCache L) :
    Prop :=
  ∀ f face, c.resolved.lookup (key version f) = some face →
    answer L.fonts fetcher t version f = .ok (face.map (·.font))

theorem key_injective (version : String) : Function.Injective (key version) := by
  intro f g h
  have htext := congrArg String.toList h
  simp only [key, String.toList_append, List.append_assoc] at htext
  exact String.toList_injective (List.append_cancel_left
    (List.append_cancel_left (List.append_cancel_left htext)))

theorem Recalls.remember (hc : Recalls fetcher t version c) {face : Option Face}
    (hface : answer L.fonts fetcher t version f = .ok (face.map (·.font))) :
    Recalls fetcher t version { c with resolved := (key version f, face) :: c.resolved } := by
  intro g known hknown
  rw [List.lookup_cons] at hknown
  split at hknown
  case h_1 hkey =>
    cases hknown
    rwa [key_injective version (beq_iff_eq.mp hkey)]
  case h_2 => exact hc g known hknown

theorem fetch_ends (fetcher : FontFetcher) (version f : String) (c : OriginCache L) :
    (fetch fetcher version f).Ends c (fetcher c.tree version f).outcome
      { c with fetches := c.fetches + 1 } := by
  constructor <;> rfl

/-- The load of a font from `c` to `d` comes to the face of what is fetched. -/
def Loads (directory : Option Path) (fetcher : FontFetcher) (t : FileTree) (version f : String)
    (c d : OriginCache L) : Prop :=
  ∃ path, (load directory fetcher version ⟨f⟩).Ends c
    ((fetcher t version f).outcome.map (Face.ofContent L.fonts path)) d

theorem resolve_refused (h : (Path.mk f).isPlain = false) :
    (resolve directory fetcher version f).Ends c (.error (.fetch f version .unsafeFilename)) c := by
  have hrefused : plainFilename version f = .error (.fetch f version .unsafeFilename) := by
    simp [plainFilename, h]
  unfold resolve
  rw [hrefused]
  exact Session.Ends.bind_error ⟨rfl, rfl⟩

theorem resolve_of_load_error {e : Error} (hplain : (Path.mk f).isPlain = true)
    (hload : (load directory fetcher version ⟨f⟩).Ends c (.error e) d) :
    (resolve directory fetcher version f).Ends c (.error e) d := by
  have hname := (plainFilename_eq_ok version f).mpr ⟨hplain, rfl⟩
  unfold resolve
  rw [hname]
  exact Session.Ends.bind ⟨rfl, rfl⟩ hload.bind_error

/-- A file that is no outline font is remembered like one that is. -/
theorem resolve_of_load {path : String} (hplain : (Path.mk f).isPlain = true)
    (hload : (load directory fetcher version ⟨f⟩).Ends c (.ok (Face.ofContent L.fonts path content)) d) :
    ∃ face : Option Face, face.map (·.font) = L.fonts.outline? content ∧
      (resolve directory fetcher version f).Ends c (.ok face)
        { d with resolved := (key version f, face) :: d.resolved } := by
  have hname := (plainFilename_eq_ok version f).mpr ⟨hplain, rfl⟩
  have houtline := Face.toOption_ofContent? L.fonts path content
  unfold Face.ofContent at hload
  cases hface : Face.ofContent? L.fonts path content with
  | ok face =>
      rw [hface] at houtline hload
      refine ⟨some face, houtline, ?_⟩
      unfold resolve
      rw [hname]
      exact Session.Ends.bind ⟨rfl, rfl⟩ (hload.bind ⟨rfl, rfl⟩)
  | error fault =>
      rw [hface] at houtline hload
      refine ⟨none, houtline, ?_⟩
      unfold resolve
      rw [hname]
      exact Session.Ends.bind ⟨rfl, rfl⟩ (hload.bind ⟨rfl, rfl⟩)

theorem origins_request {outcome : Except Error (Option Face)}
    (h : (request directory fetcher version f).Ends c outcome d) :
    ((origins directory fetcher).request version f).Ends c
      (outcome.map (Option.map (·.font))) d := by
  cases outcome with
  | error e => exact h.bind_error
  | ok face => exact h.bind ⟨rfl, rfl⟩

theorem request_remembered {face : Option Face}
    (h : c.resolved.lookup (key version f) = some face) :
    (request directory fetcher version f).Ends c (.ok face) c := by
  refine Session.Ends.bind (Session.ends_get c) ?_
  rw [h]
  exact Session.ends_pure face c

theorem request_unknown {outcome : Except Error (Option Face)}
    (hunknown : c.resolved.lookup (key version f) = none)
    (h : (resolve directory fetcher version f).Ends c outcome d) :
    (request directory fetcher version f).Ends c outcome d := by
  refine Session.Ends.bind (Session.ends_get c) ?_
  rw [hunknown]
  exact h

/-- If a load comes to what is fetched, a request answers as if nothing were kept, and goes on
from there or leaves all as it was. -/
theorem request_answers (hc : Recalls fetcher t version c)
    (hload : (Path.mk f).isPlain = true → Loads directory fetcher t version f c d)
    (hd : d.resolved = c.resolved) :
    ∃ base, (base = c ∨ (Path.mk f).isPlain = true ∧ base = d) ∧ ∃ resolved,
      ((origins directory fetcher).request version f).Ends c (answer L.fonts fetcher t version f)
        { base with resolved := resolved } ∧
      Recalls fetcher t version { base with resolved := resolved } := by
  cases hlookup : c.resolved.lookup (key version f) with
  | some face =>
      refine ⟨c, .inl rfl, c.resolved, ?_, hc⟩
      rw [hc f face hlookup]
      exact origins_request (request_remembered hlookup)
  | none =>
      cases hplain : (Path.mk f).isPlain with
      | false =>
          have hanswer : answer L.fonts fetcher t version f =
              .error (.fetch f version .unsafeFilename) := by
            simp [answer, plainFilename, hplain, bind, Except.bind]
          refine ⟨c, .inl rfl, c.resolved, ?_, hc⟩
          rw [hanswer]
          exact origins_request (request_unknown hlookup (resolve_refused hplain))
      | true =>
          have hname := (plainFilename_eq_ok version f).mpr ⟨hplain, rfl⟩
          have hrecalls : Recalls fetcher t version d := by rwa [Recalls, hd]
          obtain ⟨path, hload⟩ := hload hplain
          cases hfetched : (fetcher t version f).outcome with
          | error e =>
              have hanswer : answer L.fonts fetcher t version f = .error e := by
                simp [answer, hname, hfetched, bind, Except.bind]
              rw [hfetched] at hload
              refine ⟨d, .inr ⟨rfl, rfl⟩, d.resolved, ?_, hrecalls⟩
              rw [hanswer]
              exact origins_request (request_unknown hlookup (resolve_of_load_error hplain hload))
          | ok content =>
              have hanswer : answer L.fonts fetcher t version f = .ok (L.fonts.outline? content) := by
                simp [answer, hname, hfetched, bind, Except.bind, pure, Except.pure]
              rw [hfetched] at hload
              obtain ⟨face, hface, hends⟩ := resolve_of_load hplain hload
              rw [← hface] at hanswer
              refine ⟨d, .inr ⟨rfl, rfl⟩, _, ?_, hrecalls.remember hanswer⟩
              rw [hanswer]
              exact origins_request (request_unknown hlookup hends)

/-! ## Loads without and with a cache directory -/

theorem loads_uncached (hfixed : fetcher.IsFixed) (t : FileTree) (version f : String)
    (c : OriginCache L) :
    Loads none fetcher t version f c { c with fetches := c.fetches + 1 } := by
  have hfetch := fetch_ends fetcher version f c
  rw [hfixed.tree c.tree t] at hfetch
  refine ⟨f, ?_⟩
  cases hfetched : (fetcher t version f).outcome with
  | error e =>
      rw [hfetched] at hfetch
      exact hfetch.bind_error
  | ok content =>
      rw [hfetched] at hfetch
      exact hfetch.bind ⟨rfl, rfl⟩

theorem provide_present {p : Path} (h : c.tree.isFile p = true) :
    (provide fetcher version f p).Ends c (.ok ()) c := by
  refine Session.Ends.bind (Session.ends_get c) ?_
  rw [if_pos h]
  exact ⟨rfl, rfl⟩

theorem provide_absent {p : Path} (h : c.tree.isFile p = false) :
    ∀ {outcome : Except Error Unit}, (fetch fetcher version f >>= fun content =>
      onTree (FileTree.writeFile p content)).Ends c outcome d →
    (provide fetcher version f p).Ends c outcome d := by
  intro outcome hends
  refine Session.Ends.bind (Session.ends_get c) ?_
  rw [h]
  exact hends

/-- The faces that are kept are those of fetched fonts. -/
def Faces (t : FileTree) (directory : Path) (fetcher : FontFetcher) (version : String)
    (faces : FontCache L) : Prop :=
  ∀ entry ∈ faces.entries, ∃ f path content, (Path.mk f).isPlain = true ∧
    entry.1 = (cachedPath directory version ⟨f⟩).components ∧
    (fetcher t version f).outcome = .ok content ∧
      .ok entry.2 = Face.ofContent L.fonts path content

theorem Faces.used {directory : Path} {filenames : List String} {path : String} {face : Face}
    {faces kept : FontCache L} (hfaces : Faces t directory fetcher version faces)
    (hf : Fetched t fetcher version filenames f content)
    (hface : Face.ofContent L.fonts path content = .ok face)
    (hkept : kept.entries ⊆
      LruLibrary.used faces.entries (cachedPath directory version ⟨f⟩).components face) :
    Faces t directory fetcher version kept := by
  intro entry hentry
  rcases LruLibrary.mem_used (hkept hentry) with rfl | ⟨hentry, -⟩
  · exact ⟨f, path, content, hf.plain, rfl, hf.outcome, hface.symm⟩
  · exact hfaces entry hentry

theorem faces_standard (lru : L.faces.Standard) (directory : Path) :
    Faces t directory fetcher version (.standard : FontCache L) := by
  have hentries : (.standard : FontCache L).entries = [] := lru.entries_new _ (by decide)
  intro entry hentry
  rw [hentries] at hentry
  cases hentry

theorem loadFace_ends {p : Path} {outcome : Except Error Face} {faces : FontCache L}
    (h : (FontCache.load c.tree p).Ends c.faces outcome faces) :
    (loadFace p).attempt.Ends c (.ok outcome) { c with faces := faces } := by
  constructor
  · exact congrArg Except.ok h.outcome
  · exact congrArg (fun faces => { c with faces := faces }) h.state

section Cached

variable {directory : Path} {filenames : List String} (lru : L.faces.Standard)
  (S : Setting t directory fetcher version filenames)
include lru S

theorem loadFace_stored (hfaces : Faces t directory fetcher version c.faces)
    (hf : Fetched t fetcher version filenames f content)
    (hstored : c.tree.nodeAt (cachedPath directory version ⟨f⟩) = .ok (.file content)) :
    ∃ path faces, (loadFace (cachedPath directory version ⟨f⟩)).attempt.Ends c
        (.ok (Face.ofContent L.fonts path content)) { c with faces := faces } ∧
      Faces t directory fetcher version faces := by
  cases hkept : (c.faces.get (cachedPath directory version ⟨f⟩)).1 with
  | some face =>
      obtain ⟨before, after, hsplit, -⟩ :=
        List.lookup_eq_some_iff.mp ((FontCache.get_value lru _ _).symm.trans hkept)
      obtain ⟨g, path, other, hplain, hkey, hfetched, hface⟩ := hfaces
        ((cachedPath directory version ⟨f⟩).components, face) (by simp [hsplit])
      -- A face is kept by its components, so it may come from another spelling.
      have hsame : (Path.mk g).components = (Path.mk f).components := by
        have hboth := (components_cachedPath directory S.unparted hplain).2.symm.trans
          (hkey.symm.trans (components_cachedPath directory S.unparted hf.plain).2)
        exact (List.cons.inj (List.append_cancel_left hboth)).2
      cases hf.outcome.symm.trans (S.fixed.spelling t version g f other hsame hfetched)
      have hused := FontCache.entries_get lru hkept
      refine ⟨path, _, loadFace_ends ?_, hfaces.used hf hface.symm fun _ h => hused ▸ h⟩
      rw [← hface]
      exact FontCache.load_kept c.tree hkept
  | none =>
      have hload := FontCache.load_unkept (t := c.tree) lru hkept
      rw [Face.read_of_nodeAt hstored (S.size t f content hf.outcome)] at hload
      refine ⟨_, _, loadFace_ends hload, ?_⟩
      split
      case h_1 face hface =>
        refine hfaces.used hf hface ?_
        rw [FontCache.entries_put lru]
        exact List.take_subset _ _
      case h_2 => exact hfaces

structure Supplies (t : FileTree) (directory : Path) (fetcher : FontFetcher) (version : String)
    (filenames : List String) (f : String) (c d : OriginCache L) : Prop where
  resolved : d.resolved = c.resolved
  filled : Filled t directory fetcher version filenames d.tree
  faces : Faces t directory fetcher version d.faces
  kept : ∀ q content, c.tree.node? q = some (.file content) → d.tree.node? q = some (.file content)
  once : (∃ content, Stored t directory version f c.tree content) → d.fetches = c.fetches
  stored : ∀ content, (fetcher t version f).outcome = .ok content →
    Stored t directory version f d.tree content

theorem loads_cached (hmem : f ∈ filenames) (hplain : (Path.mk f).isPlain = true)
    (hfilled : Filled t directory fetcher version filenames c.tree)
    (hfaces : Faces t directory fetcher version c.faces) :
    ∃ d, Loads (some directory) fetcher t version f c d ∧
      Supplies t directory fetcher version filenames f c d := by
  have hiff := hfilled.isFile_iff S hmem hplain
  by_cases hstored : ∃ content, Stored t directory version f c.tree content
  case pos =>
    obtain ⟨content, hcontent⟩ := hstored
    have hf := (hfilled.fetched S hmem hplain hcontent).1
    obtain ⟨path, faces, hends, hfaces'⟩ := loadFace_stored lru S hfaces hf
      ((hfilled.nodeAt_iff S hmem hplain).mpr hcontent)
    refine ⟨{ c with faces := faces }, ⟨path, ?_⟩, rfl, hfilled, hfaces', fun _ _ h => h,
      fun _ => rfl, ?_⟩
    · rw [hf.outcome]
      exact (provide_present (hiff.mpr ⟨content, hcontent⟩)).bind hends
    · intro other hother
      cases hf.outcome.symm.trans hother
      exact hcontent
  case neg =>
    have habsent : c.tree.isFile (cachedPath directory version ⟨f⟩) = false := by
      simpa [hstored] using hiff
    have hfetch := fetch_ends fetcher version f c
    rw [S.fixed.tree c.tree t] at hfetch
    cases hfetched : (fetcher t version f).outcome with
    | error e =>
        rw [hfetched] at hfetch
        refine ⟨{ c with fetches := c.fetches + 1 }, ⟨"", ?_⟩, rfl, hfilled, hfaces,
          fun _ _ h => h, fun h => absurd h hstored, ?_⟩
        · rw [hfetched]
          exact (provide_absent habsent hfetch.bind_error).bind_error
        · intro content hcontent
          cases hfetched.symm.trans hcontent
    | ok content =>
        rw [hfetched] at hfetch
        have hf : Fetched t fetcher version filenames f content := ⟨hmem, hplain, hfetched⟩
        obtain ⟨v, hwrite, hv, hcontent, hkept⟩ := hfilled.write S hf
        have hprovide := provide_absent habsent (hfetch.bind
          (Session.Ends.within OriginCache.tree (fun t c => { c with tree := t })
            (FileTree.writeFile_ends hwrite)))
        obtain ⟨path, faces, hends, hfaces'⟩ := loadFace_stored lru S
          (c := { c with tree := v, fetches := c.fetches + 1 }) hfaces hf
          ((hv.nodeAt_iff S hmem hplain).mpr hcontent)
        refine ⟨{ c with tree := v, faces := faces, fetches := c.fetches + 1 }, ⟨path, ?_⟩, rfl, hv,
          hfaces', hkept, fun h => absurd h hstored, ?_⟩
        · rw [hfetched]
          exact hprovide.bind hends
        · intro other hother
          cases hfetched.symm.trans hother
          exact hcontent

/-- What a provider with a cache directory has remembered, stored and kept is what was fetched. -/
structure Faithful (t : FileTree) (directory : Path) (fetcher : FontFetcher) (version : String)
    (filenames : List String) (c : OriginCache L) : Prop where
  recalls : Recalls fetcher t version c
  filled : Filled t directory fetcher version filenames c.tree
  faces : Faces t directory fetcher version c.faces

/-- How a request goes on from `c` to `d`.  Only a plain filename whose font is not stored is
fetched, and then stored if there is a font; no file is lost. -/
structure Serves (t : FileTree) (directory : Path) (fetcher : FontFetcher) (version : String)
    (filenames : List String) (f : String) (c d : OriginCache L) : Prop where
  faithful : Faithful t directory fetcher version filenames d
  kept : ∀ q content, c.tree.node? q = some (.file content) → d.tree.node? q = some (.file content)
  fetches : d.fetches = c.fetches ∨ (Path.mk f).isPlain = true ∧
    (∀ content, ¬ Stored t directory version f c.tree content) ∧
    ∀ content, (fetcher t version f).outcome = .ok content →
      Stored t directory version f d.tree content

theorem Faithful.request (hc : Faithful t directory fetcher version filenames c)
    (hmem : f ∈ filenames) :
    ∃ d, ((origins (some directory) fetcher).request version f).Ends c
        (answer L.fonts fetcher t version f) d ∧
      Serves t directory fetcher version filenames f c d := by
  by_cases hplain : (Path.mk f).isPlain = true
  case pos =>
    obtain ⟨d, hloads, hd⟩ := loads_cached lru S hmem hplain hc.filled hc.faces
    obtain ⟨base, hbase, resolved, hends, hrecalls⟩ :=
      request_answers hc.recalls (fun _ => hloads) hd.resolved
    refine ⟨_, hends, ?_⟩
    rcases hbase with rfl | ⟨-, rfl⟩
    · exact ⟨⟨hrecalls, hc.filled, hc.faces⟩, fun _ _ h => h, .inl rfl⟩
    · refine ⟨⟨hrecalls, hd.filled, hd.faces⟩, hd.kept, ?_⟩
      by_cases hstored : ∃ content, Stored t directory version f c.tree content
      · exact .inl (hd.once hstored)
      · exact .inr ⟨hplain, not_exists.mp hstored, hd.stored⟩
  case neg =>
    have hload : (Path.mk f).isPlain = true → Loads (some directory) fetcher t version f c c :=
      fun h => absurd h hplain
    obtain ⟨base, hbase, resolved, hends, hrecalls⟩ := request_answers hc.recalls hload rfl
    obtain rfl : base = c := hbase.elim id fun h => h.2
    exact ⟨_, hends, ⟨hrecalls, hc.filled, hc.faces⟩, fun _ _ h => h, .inl rfl⟩

end Cached

/-! ## Requests one after another -/

/-- What is done with a provider of origin fonts: it is asked for one, or a fresh provider with the
same files takes its place. -/
inductive Use where
  | request (filename : String)
  | renew
  deriving DecidableEq, Repr

def requested (uses : List Use) : List String :=
  uses.filterMap fun
    | .request filename => some filename
    | .renew => none

structure Exchange (L : Libraries) where
  filename : String
  before : OriginCache L
  after : OriginCache L
  answer : Except Error (Option Font)

/-- The requests among the uses, each from where the one before has ended, be it with an error. -/
def exchanges (directory : Option Path) (fetcher : FontFetcher) (version : String) :
    OriginCache L → List Use → List (Exchange L)
  | _, [] => []
  | c, .renew :: rest => exchanges directory fetcher version (ofTree c.tree) rest
  | c, .request filename :: rest =>
    let step := (origins directory fetcher).request version filename c
    ⟨filename, c, step.state, step.report.outcome⟩ ::
      exchanges directory fetcher version step.state rest

/-- The request has called the fetcher, which has given a font file. -/
def Exchange.Obtains (fetcher : FontFetcher) (version : String) (e : Exchange L) : Prop :=
  e.before.fetches < e.after.fetches ∧
    ∃ content, (fetcher e.before.tree version e.filename).outcome = .ok content

theorem ofTree_recalls (fetcher : FontFetcher) (t : FileTree) (version : String) (u : FileTree) :
    Recalls fetcher t version (ofTree u : OriginCache L) := by
  intro f face h
  cases h

theorem Faithful.renew {directory : Path} {filenames : List String} (lru : L.faces.Standard)
    (hc : Faithful t directory fetcher version filenames c) :
    Faithful t directory fetcher version filenames (ofTree c.tree : OriginCache L) :=
  ⟨ofTree_recalls fetcher t version c.tree, hc.filled, faces_standard lru directory⟩

section Runs

variable {uses : List Use} {filenames : List String}

/-- Requests that answer as if nothing were kept do so in every row. -/
theorem answers_exchanges {P : OriginCache L → Prop}
    (hrequest : ∀ c f, P c → f ∈ filenames → ∃ d,
      ((origins directory fetcher).request version f).Ends c (answer L.fonts fetcher t version f) d ∧ P d)
    (hrenew : ∀ c, P c → P (ofTree c.tree)) (huses : requested uses ⊆ filenames) (hc : P c) :
    (exchanges directory fetcher version c uses).map (·.answer) =
      (requested uses).map (answer L.fonts fetcher t version) := by
  induction uses generalizing c with
  | nil => rfl
  | cons use rest ih =>
      cases use with
      | renew => exact ih huses (hrenew c hc)
      | request f =>
          obtain ⟨d, hends, hd⟩ := hrequest c f hc (huses List.mem_cons_self)
          have hrest := ih (fun g hg => huses (List.mem_cons_of_mem _ hg)) hd
          change _ :: List.map _ (exchanges directory fetcher version _ rest) = _ :: _
          rw [hends.outcome, hends.state, hrest]
          rfl

theorem answers_uncached (hfixed : fetcher.IsFixed) (uses : List Use)
    (hc : Recalls fetcher t version c) :
    (exchanges none fetcher version c uses).map (·.answer) =
      (requested uses).map (answer L.fonts fetcher t version) := by
  refine answers_exchanges (P := Recalls fetcher t version) ?_
    (fun c _ => ofTree_recalls fetcher t version c.tree) (List.Subset.refl _) hc
  intro c f hc _
  obtain ⟨base, -, resolved, hends, hrecalls⟩ :=
    request_answers hc (fun _ => loads_uncached hfixed t version f c) rfl
  exact ⟨_, hends, hrecalls⟩

variable {directory : Path} (lru : L.faces.Standard)
  (S : Setting t directory fetcher version filenames)
include lru S

theorem answers_cached (huses : requested uses ⊆ filenames)
    (hc : Faithful t directory fetcher version filenames c) :
    (exchanges (some directory) fetcher version c uses).map (·.answer) =
      (requested uses).map (answer L.fonts fetcher t version) := by
  refine answers_exchanges ?_ (fun _ hc => hc.renew lru) huses hc
  intro c f hc hmem
  obtain ⟨d, hends, hd⟩ := hc.request lru S hmem
  exact ⟨d, hends, hd.faithful⟩

/-- A font that is stored is not fetched again, by whatever spelling. -/
theorem unfetched_of_stored (huses : requested uses ⊆ filenames)
    (hc : Faithful t directory fetcher version filenames c) (hplain : (Path.mk f).isPlain = true)
    (hstored : Stored t directory version f c.tree content) :
    ∀ later ∈ exchanges (some directory) fetcher version c uses,
      (Path.mk later.filename).components = (Path.mk f).components →
        later.after.fetches = later.before.fetches := by
  induction uses generalizing c with
  | nil => exact fun later hlater => absurd hlater List.not_mem_nil
  | cons use rest ih =>
      cases use with
      | renew => exact ih huses (hc.renew lru) hstored
      | request g =>
          obtain ⟨d, hends, hd⟩ := hc.request lru S (huses List.mem_cons_self)
          have hrest := ih (fun g hg => huses (List.mem_cons_of_mem _ hg)) hd.faithful
            (hd.kept _ content hstored)
          intro later hlater
          rw [exchanges, hends.state] at hlater
          rcases List.mem_cons.mp hlater with rfl | hlater
          · intro hsame
            rcases hd.fetches with hfetches | ⟨hg, habsent, -⟩
            · exact hfetches
            · refine absurd ?_ (habsent content)
              rw [Stored, (S.paths_of_components hg hplain hsame).2.1]
              exact hstored
          · exact hrest later hlater

theorem unfetched_of_obtained (huses : requested uses ⊆ filenames)
    (hc : Faithful t directory fetcher version filenames c) :
    (exchanges (some directory) fetcher version c uses).Pairwise fun e later =>
      e.Obtains fetcher version →
        (Path.mk later.filename).components = (Path.mk e.filename).components →
          later.after.fetches = later.before.fetches := by
  induction uses generalizing c with
  | nil => exact .nil
  | cons use rest ih =>
      cases use with
      | renew => exact ih huses (hc.renew lru)
      | request f =>
          obtain ⟨d, hends, hd⟩ := hc.request lru S (huses List.mem_cons_self)
          have hrest : requested rest ⊆ filenames := fun g hg => huses (List.mem_cons_of_mem _ hg)
          rw [exchanges, hends.state]
          refine .cons ?_ (ih hrest hd.faithful)
          rintro later hlater ⟨hfetched, content, hcontent⟩
          rcases hd.fetches with hfetches | ⟨hplain, -, hstored⟩
          · exact absurd hfetches hfetched.ne'
          · rw [S.fixed.tree _ t] at hcontent
            exact unfetched_of_stored lru S hrest hd.faithful hplain (hstored content hcontent) later
              hlater

omit S in
/-- Whatever is asked for in whatever order, a provider with a cache directory gives the same
answers as one without, those of the fetcher, and a font that has been fetched is never fetched
again, not even by a fresh provider. -/
theorem exchanges_cached_transparent
    (h : Setting t directory fetcher version (requested uses)) :
    (exchanges (some directory) fetcher version (ofTree t : OriginCache L) uses).map (·.answer) =
        (exchanges none fetcher version (ofTree t : OriginCache L) uses).map (·.answer) ∧
      (exchanges none fetcher version (ofTree t : OriginCache L) uses).map (·.answer) =
        (requested uses).map (answer L.fonts fetcher t version) ∧
      (exchanges (some directory) fetcher version (ofTree t : OriginCache L) uses).Pairwise
        fun e later => e.Obtains fetcher version →
          (Path.mk later.filename).components = (Path.mk e.filename).components →
            later.after.fetches = later.before.fetches := by
  have hstart : Faithful t directory fetcher version (requested uses) (ofTree t : OriginCache L) :=
    ⟨ofTree_recalls fetcher t version t, filled_start, faces_standard lru directory⟩
  have hcached := answers_cached lru h (List.Subset.refl _) hstart
  have huncached := answers_uncached h.fixed uses hstart.recalls
  exact ⟨hcached.trans huncached.symm, huncached,
    unfetched_of_obtained lru h (List.Subset.refl _) hstart⟩

end Runs

/-! ## One font under three spellings -/

open TrueType (outlineFile)

def fetcherOf (path : Path) (content : ByteArray) : FontFetcher := fun _ version filename =>
  .ofExcept (if (Path.mk filename).components = path.components then .ok content
    else .error (.fetch filename version (.unavailable "offline")))

theorem fetcherOf_eq_ok {path : Path} {content fetched : ByteArray} {u : FileTree}
    (h : (fetcherOf path content u version f).outcome = .ok fetched) :
    (Path.mk f).components = path.components ∧ fetched = content := by
  unfold fetcherOf at h
  split at h
  case isTrue hpath =>
    cases h
    exact ⟨hpath, rfl⟩
  case isFalse => cases h

theorem fetcherOf_isFixed (path : Path) (content : ByteArray) :
    (fetcherOf path content).IsFixed := by
  constructor
  · exact fun _ _ _ _ => rfl
  · intro t version filename other fetched hsame h
    obtain ⟨hpath, rfl⟩ := fetcherOf_eq_ok h
    unfold fetcherOf
    rw [← hsame, if_pos hpath]
    rfl

/-- A font is asked for under three spellings and by two providers, between fonts that cannot be
fetched. -/
def respelled : List Use :=
  [.request "a/b.otf", .request "c.ttf", .request "a//b.otf", .renew, .request "a/./b.otf",
    .request "../d.otf"]

theorem respelled_setting :
    Setting .empty ⟨"/cache"⟩ (fetcherOf ⟨"a/b.otf"⟩ outlineFile) "3.4.0"
      (requested respelled) where
  unparted := by decide
  fixed := fetcherOf_isFixed _ _
  size u filename content h := by
    rw [(fetcherOf_eq_ok h).2]
    decide +kernel
  empty below h := by
    simp [FileTree.node?, FileTree.empty, h]
  writes f hf hplain content h := by
    obtain ⟨hpath, -⟩ := fetcherOf_eq_ok h
    simp only [respelled, requested, List.filterMap_cons, List.filterMap_nil, List.mem_cons,
      List.not_mem_nil, or_false] at hf
    rcases hf with rfl | rfl | rfl | rfl | rfl
    · rfl
    · exact absurd hpath (by decide)
    · rfl
    · rfl
    · exact absurd hpath (by decide)
  apart := by decide

/-- Every spelling comes to the font, and only the first one is fetched. -/
theorem respelled_cached :
    Libraries.builtIn.faces.Standard ∧
    Setting .empty ⟨"/cache"⟩ (fetcherOf ⟨"a/b.otf"⟩ outlineFile) "3.4.0" (requested respelled) ∧
    (exchanges (some ⟨"/cache"⟩) (fetcherOf ⟨"a/b.otf"⟩ outlineFile) "3.4.0"
        (ofTree .empty : OriginCache .builtIn) respelled).map (·.answer) =
      (exchanges none (fetcherOf ⟨"a/b.otf"⟩ outlineFile) "3.4.0"
        (ofTree .empty : OriginCache .builtIn) respelled).map (·.answer) ∧
    ((exchanges (some ⟨"/cache"⟩) (fetcherOf ⟨"a/b.otf"⟩ outlineFile) "3.4.0"
      (ofTree .empty : OriginCache .builtIn) respelled).map fun e =>
        (e.answer.toOption.join.isSome, e.after.fetches - e.before.fetches)) =
          [(true, 1), (false, 1), (true, 0), (true, 0), (false, 0)] :=
  ⟨RecencyList.library_standard, respelled_setting,
    (exchanges_cached_transparent RecencyList.library_standard respelled_setting).1,
    by decide +kernel⟩

end OriginCache

end IconConstraints
