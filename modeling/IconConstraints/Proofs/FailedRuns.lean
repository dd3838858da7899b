import Mathlib.Logic.Relation
import IconConstraints.Project
import IconConstraints.Proofs.CacheContainment
import IconConstraints.Proofs.Mapping
import IconConstraints.Proofs.Stages
import IconConstraints.TrueType.FontFile

/-!
# What a failed run leaves behind

A run writes the generated file last, but it stores each origin font as soon as it is
fetched, and the snapshot before the generated file.  A run that fails has therefore left
behind the fonts that it stored, and the snapshot too if only the generated file could not
be written.  A run without caches leaves all files as they were.
-/

namespace IconConstraints

namespace Project

open OriginCache (cachedPath)

/-! ## Stored fonts -/

/-- What can happen to the files while origin fonts are resolved. -/
inductive StoreStep (directory : Path) (fetcher : FontFetcher) (version : String)
    (t : FileTree) : FileTree → Prop
  /-- No file changes, but directories may have been made. -/
  | directories {u : FileTree} : t.SameFiles u → StoreStep directory fetcher version t u
  /-- A font that was not there has been fetched and stored. -/
  | font {u : FileTree} {filename : String} {content : ByteArray} :
      (Path.mk filename).isPlain = true →
      t.isFile (cachedPath directory version ⟨filename⟩) = false →
      (fetcher t version filename).outcome = .ok content →
      t.write (cachedPath directory version ⟨filename⟩) content = (u, none) →
      StoreStep directory fetcher version t u

/-- The tree after some fonts have been stored. -/
abbrev FontsStored (directory : Path) (fetcher : FontFetcher) (version : String) :
    FileTree → FileTree → Prop :=
  Relation.ReflTransGen (StoreStep directory fetcher version)

variable {L : Libraries} {directory : Path} {fetcher : FontFetcher} {version : String}

theorem request_stores (filename : String) :
    (OriginCache.request (some directory) fetcher version filename).Moves fun c d : OriginCache L =>
      FontsStored directory fetcher version c.tree d.tree := by
  intro c
  by_cases hplain : (Path.mk filename).isPlain = true
  case neg =>
    have hkeeps := OriginCache.request_keeps_tree (L := L) fetcher version filename
      (OriginCache.resolve_keeps_tree_of_not_plain fetcher version filename (some directory)
        (by simpa using hplain))
    rw [hkeeps c]
  case pos =>
    rcases OriginCache.request_storesAt fetcher version filename directory c with
      hsame | ⟨hfile, content, hfetched, hwritten⟩
    · rw [hsame]
    · rw [hwritten]
      refine .single ?_
      rcases hwrite : c.tree.write (cachedPath directory version ⟨filename⟩) content with
        ⟨u, _ | fault⟩
      · exact .font hplain hfile hfetched hwrite
      · exact .directories (FileTree.write_sameFiles hwrite)

theorem ofPatchSets_stores (directory : Path) (fetcher : FontFetcher) (version : String)
    (destination : Font) (patchSets : List PatchSet) (previous : Option Snapshot) :
    (Mapping.ofPatchSets destination (OriginCache.origins (some directory) fetcher) version
      patchSets previous).Moves fun c d : OriginCache L =>
        FontsStored directory fetcher version c.tree d.tree := by
  have hclosed := Session.moves_closed
    (R := fun c d : OriginCache L => FontsStored directory fetcher version c.tree d.tree)
    (fun _ => .refl) fun h h' => h.trans h'
  refine Mapping.ofPatchSets_closed hclosed fun filename => ?_
  exact hclosed.bind (request_stores filename) fun _ => hclosed.pure _

/-! ## Compilations -/

section Compile

variable {p : Project} {o : RunOptions} {source : String} {font : Font} {t : FileTree}
  {x : Extraction}

theorem store_of_cache (hcache : o.useCache = true) : p.store L o =
    (Snapshot.fileStore L.json p.snapshotFile).within OriginCache.tree
      fun t c => { c with tree := t } :=
  if_pos hcache

/-- The snapshot has been written as a file, and nothing else. -/
def Saved (json : JsonLibrary) (p : Path) (s : Snapshot) (t u : FileTree) : Prop :=
  ∃ content, s.bytes json = .ok content ∧ t.write p content = (u, none)

/-- Saving a snapshot writes its file, or fails without a change of files. -/
theorem saveIfStale_cases (hcache : o.useCache = true) (snapshot : Option Snapshot)
    (c : OriginCache L) :
    (∃ outcome d, (Compilation.saveIfStale (p.store L o) snapshot).Ends c outcome d ∧
      c.tree.SameFiles d.tree) ∨
    ∃ (s : Snapshot) (d : OriginCache L),
      (Compilation.saveIfStale (p.store L o) snapshot).Ends c (.ok ()) d ∧
        Saved L.json p.snapshotFile s c.tree d.tree := by
  rw [store_of_cache hcache]
  cases snapshot with
  | none => exact .inl ⟨_, _, Session.ends_pure () c, .refl _⟩
  | some s =>
      unfold Compilation.saveIfStale
      cases hbytes : s.bytes L.json with
      | error reason =>
          have hsave : (Snapshot.save L.json p.snapshotFile s).Ends c.tree (.error (.json reason))
              c.tree := by
            unfold Snapshot.save
            rw [hbytes]
            exact ⟨rfl, rfl⟩
          have hsave := hsave.within OriginCache.tree (fun t c => { c with tree := t })
          exact .inl ⟨_, _, hsave.bind_error, .refl _⟩
      | ok content =>
          have hwrites : Snapshot.save L.json p.snapshotFile s =
              FileTree.writeFile p.snapshotFile content := by
            simp only [Snapshot.save, hbytes]
          rcases hwrite : c.tree.write p.snapshotFile content with ⟨u, _ | fault⟩
          · have hsave := Session.Ends.within (OriginCache.tree (L := L)) (fun t c => { c with tree := t })
              (hwrites ▸ FileTree.writeFile_ends hwrite)
            exact .inr ⟨s, _, hsave.bind (Session.ends_ofReport _ _), content, hbytes, hwrite⟩
          · have hsave := Session.Ends.within (OriginCache.tree (L := L)) (fun t c => { c with tree := t })
              (hwrites ▸ FileTree.writeFile_ends_unwritten hwrite)
            exact .inl ⟨_, _, hsave.bind_error, FileTree.write_sameFiles hwrite⟩

theorem load_ends (p : Project) (hcache : o.useCache = true) (c : OriginCache L) :
    ∃ outcome, (p.store L o).load.Ends c outcome c := by
  rw [store_of_cache hcache]
  exact ⟨_, rfl, rfl⟩

/-- A compilation stores fonts, and at its end, when all else has succeeded, a snapshot. -/
theorem ofSource_files (p : Project) (font : Font) (hcache : o.useCache = true)
    (hread : (Extraction.ofSource source o.extract).outcome = .ok x) (c : OriginCache L) :
    ∃ (u : FileTree) (outcome : Except Error Compilation) (d : OriginCache L),
      (Compilation.ofSource source o.extract font (p.originFonts L o) (p.store L o)).Ends c outcome d ∧
      FontsStored p.fontDirectory (o.mirrorOf p).fetch x.version c.tree u ∧
      (u.SameFiles d.tree ∨ (∃ compilation, outcome = .ok compilation) ∧
        ∃ s : Snapshot, Saved L.json p.snapshotFile s u d.tree) := by
  have horigins : p.originFonts L o =
      OriginCache.origins (some p.fontDirectory) (o.mirrorOf p).fetch := by
    simp [originFonts, hcache]
  -- One case for each stage at which the compilation may end.
  obtain ⟨loaded, hload⟩ := load_ends p hcache c
  cases loaded with
  | error e =>
      exact ⟨c.tree, _, c, Compilation.ofSource_ends_unloaded hread hload, .refl, .inl (.refl _)⟩
  | ok previous =>
      have hstores := ofPatchSets_stores p.fontDirectory (o.mirrorOf p).fetch x.version font
        x.patchSets previous c
      rw [← horigins] at hstores
      obtain ⟨d, hd⟩ : ∃ d, (Mapping.ofPatchSets font (p.originFonts L o) x.version x.patchSets
          previous c).state = d := ⟨_, rfl⟩
      rw [hd] at hstores
      cases hmapped : (Mapping.ofPatchSets font (p.originFonts L o) x.version x.patchSets
          previous c).report.outcome with
      | error e =>
          exact ⟨d.tree, _, d, Compilation.ofSource_ends_unmapped hread hload ⟨hmapped, hd⟩,
            hstores, .inl (.refl _)⟩
      | ok m =>
          cases hmerged : (AttributeTable.addAll font .empty
              (x.patchSets.zip m.crosswalks)).outcome with
          | error e =>
              exact ⟨d.tree, _, d,
                Compilation.ofSource_ends_unmerged hread hload ⟨hmapped, hd⟩ hmerged,
                hstores, .inl (.refl _)⟩
          | ok attributes =>
              rcases saveIfStale_cases (p := p) hcache m.snapshot d with
                ⟨saved, d', hsaved, hsame⟩ | ⟨s, d', hsaved, hwrite⟩
              · rcases saved with e | ⟨⟨⟩⟩
                · exact ⟨d.tree, _, d', Compilation.ofSource_ends_unsaved hread hload
                    ⟨hmapped, hd⟩ hmerged hsaved, hstores, .inl hsame⟩
                · exact ⟨d.tree, _, d', Compilation.ofSource_ends_compiled hread hload
                    ⟨hmapped, hd⟩ hmerged hsaved, hstores, .inl hsame⟩
              · exact ⟨d.tree, _, d', Compilation.ofSource_ends_compiled hread hload
                  ⟨hmapped, hd⟩ hmerged hsaved, hstores, .inr ⟨⟨_, rfl⟩, s, hwrite⟩⟩

theorem ofSource_uncached_keeps_tree (hcache : o.useCache = false) :
    (Compilation.ofSource source o.extract font (p.originFonts L o) (p.store L o)).Keeps
      OriginCache.tree := by
  have hclosed := Session.keeps_closed (OriginCache.tree (L := L))
  have horigins : p.originFonts L o = OriginCache.origins none (o.mirrorOf p).fetch := by
    simp [originFonts, hcache]
  have hstore : p.store L o = Snapshot.forgettingStore := by
    simp [store, hcache]
  rw [horigins, hstore]
  refine hclosed.bind (hclosed.ofReport _) fun x => hclosed.bind (hclosed.ofReport _) fun _ =>
    hclosed.bind (hclosed.pure _) fun previous => hclosed.bind ?_ fun m =>
      hclosed.bind (hclosed.ofReport _) fun attributes => hclosed.bind (hclosed.ofReport _)
        fun _ => hclosed.bind ?_ fun _ => hclosed.bind (hclosed.ofReport _) fun _ => hclosed.pure _
  · refine Mapping.ofPatchSets_closed hclosed fun filename => ?_
    have hrequest := OriginCache.request_keeps_tree (L := L) (o.mirrorOf p).fetch x.version filename
      (OriginCache.resolve_uncached_keeps_tree (o.mirrorOf p).fetch x.version filename)
    exact hclosed.bind hrequest fun _ => hclosed.pure _
  · unfold Compilation.saveIfStale
    cases m.snapshot with
    | none => exact hclosed.pure _
    | some s => exact hclosed.bind (hclosed.pure _) fun _ => hclosed.ofReport _

end Compile

/-! ## Runs -/

/-- The files that a run which ended with an error may have left. -/
inductive LeftBehind (L : Libraries) (p : Project) (o : RunOptions) (t : FileTree) (e : Error) : FileTree → Prop
  | unchanged {after : FileTree} : t.SameFiles after → p.LeftBehind L o t e after
  /-- The run failed after it had stored fonts. -/
  | fonts {after u : FileTree} {source : String} {x : Extraction} : o.useCache = true →
      t.readText p.script = .ok source →
      (Extraction.ofSource source o.extract).outcome = .ok x →
      FontsStored p.fontDirectory (o.mirrorOf p).fetch x.version t u → u.SameFiles after →
      p.LeftBehind L o t e after
  /-- Only the generated file could not be written. -/
  | snapshot {after u v : FileTree} {source : String} {x : Extraction} {s : Snapshot}
      {table : RuleTable} {fault : IoFault} : o.useCache = true →
      t.readText p.script = .ok source →
      (Extraction.ofSource source o.extract).outcome = .ok x →
      FontsStored p.fontDirectory (o.mirrorOf p).fetch x.version t u →
      Saved L.json p.snapshotFile s u v →
      v.write (o.outputPath p) (table.zig generator).toUTF8 = (after, some fault) →
      e = .io fault → p.LeftBehind L o t e after

theorem readScript_eq_ok {p : Path} {t : FileTree} {source : String}
    (h : (readScript p t).outcome = .ok source) : t.readText p = .ok source := by
  unfold readScript at h
  cases hread : t.readText p with
  | error fault => simp [hread, Except.mapError] at h
  | ok s => simpa [hread, Except.mapError] using h

/-- How a run can fail: before it compiles, while it compiles, or at its last write. -/
inductive Failure (L : Libraries) (p : Project) (o : RunOptions) (t : FileTree) (e : Error) : FileTree → Prop
  | reading : p.Failure L o t e t
  | compiling {u : FileTree} {source : String} {face : Face} :
      t.readText p.script = .ok source →
      (p.compile L o source face.font).Ends t (.error e) u → p.Failure L o t e u
  | writing {u v : FileTree} {source : String} {face : Face} {compilation : Compilation}
      {fault : IoFault} : t.readText p.script = .ok source →
      (p.compile L o source face.font).Ends t (.ok compilation) u →
      u.write (o.outputPath p) (compilation.table.zig generator).toUTF8 = (v, some fault) →
      e = .io fault → p.Failure L o t e v

theorem run_failure {p : Project} {o : RunOptions} {t : FileTree} {e : Error}
    (h : (p.run L o t).report.outcome = .error e) : p.Failure L o t e (p.run L o t).state := by
  obtain ⟨after, hafter⟩ : ∃ after, (p.run L o t).state = after := ⟨_, rfl⟩
  have hrun : (p.run L o).Ends t (.error e) after := ⟨h, hafter⟩
  rw [hafter]
  unfold run at hrun
  rcases hrun.cases_of_bind_error with ⟨⟨⟩, -⟩ | ⟨_, _, ⟨⟨⟩, ⟨⟩⟩, hrun⟩
  rcases hrun.cases_of_bind_error with ⟨-, ⟨⟩⟩ | ⟨source, _, ⟨hscript, ⟨⟩⟩, hrun⟩
  · exact .reading
  rcases hrun.cases_of_bind_error with ⟨-, ⟨⟩⟩ | ⟨face, _, ⟨-, ⟨⟩⟩, hrun⟩
  · exact .reading
  have hsource := readScript_eq_ok hscript
  rcases hrun.cases_of_bind_error with hcompile | ⟨compilation, u, hcompile, hrun⟩
  · exact .compiling hsource hcompile
  rcases hrun.cases_of_bind_error with hwriting | ⟨_, _, -, hrun⟩
  · rcases hwrite : u.write (o.outputPath p) (compilation.table.zig generator).toUTF8 with
      ⟨v, _ | fault⟩
    · cases hwriting.outcome.symm.trans (FileTree.writeFile_ends hwrite).outcome
    · have hends := FileTree.writeFile_ends_unwritten hwrite
      cases hwriting.outcome.symm.trans hends.outcome
      cases hwriting.state.symm.trans hends.state
      exact .writing hsource hcompile hwrite rfl
  -- Behind the last write nothing fails.
  · rcases hrun.cases_of_bind_error with ⟨⟨⟩, -⟩ | ⟨_, _, -, ⟨⟩, -⟩

/-- A compilation on a tree is the one on a cache that knows nothing yet. -/
theorem compile_ends {p : Project} {o : RunOptions} {source : String} {font : Font}
    {t u : FileTree} {outcome : Except Error Compilation}
    (h : (p.compile L o source font).Ends t outcome u) :
    ∃ d : OriginCache L, (Compilation.ofSource source o.extract font (p.originFonts L o)
      (p.store L o)).Ends (.ofTree t) outcome d ∧ d.tree = u :=
  ⟨_, ⟨h.outcome, rfl⟩, h.state⟩

theorem compile_files {p : Project} {o : RunOptions} {source : String} {font : Font}
    {t u : FileTree} {outcome : Except Error Compilation} (hcache : o.useCache = true)
    (h : (p.compile L o source font).Ends t outcome u) :
    u = t ∨ ∃ x v, (Extraction.ofSource source o.extract).outcome = .ok x ∧
      FontsStored p.fontDirectory (o.mirrorOf p).fetch x.version t v ∧
      (v.SameFiles u ∨ (∃ compilation, outcome = .ok compilation) ∧
        ∃ s : Snapshot, Saved L.json p.snapshotFile s v u) := by
  obtain ⟨d, hd, rfl⟩ := compile_ends h
  cases hread : (Extraction.ofSource source o.extract).outcome with
  | error e =>
      have hunread : (Compilation.ofSource source o.extract font (p.originFonts L o)
          (p.store L o)).Ends (OriginCache.ofTree t) (.error e) (OriginCache.ofTree t) :=
        Compilation.ofSource_ends_unread hread (OriginCache.ofTree t)
      exact .inl (congrArg OriginCache.tree (hd.state.symm.trans hunread.state))
  | ok x =>
      obtain ⟨v, outcome', d', hends, hstored, hfiles⟩ :=
        ofSource_files p font hcache hread (.ofTree t)
      obtain rfl := hd.outcome.symm.trans hends.outcome
      obtain rfl := hd.state.symm.trans hends.state
      exact .inr ⟨x, v, rfl, hstored, hfiles⟩

theorem leftBehind_of_failure {p : Project} {o : RunOptions} {t after : FileTree} {e : Error}
    (hcache : o.useCache = true) (h : p.Failure L o t e after) : p.LeftBehind L o t e after := by
  cases h with
  | reading => exact .unchanged (.refl t)
  | compiling hsource hcompile =>
      rcases compile_files hcache hcompile with rfl | ⟨x, v, hread, hstored, hsame | ⟨⟨_, ⟨⟩⟩, -⟩⟩
      · exact .unchanged (.refl _)
      · exact .fonts hcache hsource hread hstored hsame
  | writing hsource hcompile hwrite he =>
      have hunwritten := FileTree.write_sameFiles hwrite
      rcases compile_files hcache hcompile with
        rfl | ⟨x, v, hread, hstored, hsame | ⟨-, s, hsaved⟩⟩
      · exact .unchanged hunwritten
      · exact .fonts hcache hsource hread hstored (hsame.trans hunwritten)
      · exact .snapshot hcache hsource hread hstored hsaved hwrite he

theorem sameFiles_of_failure {p : Project} {o : RunOptions} {t after : FileTree} {e : Error}
    (hcache : o.useCache = false) (h : p.Failure L o t e after) : t.SameFiles after := by
  have hkeeps : ∀ {source font outcome u}, (p.compile L o source font).Ends t outcome u → u = t := by
    intro source font outcome u hcompile
    obtain ⟨d, hd, rfl⟩ := compile_ends hcompile
    rw [← hd.state]
    exact ofSource_uncached_keeps_tree hcache (.ofTree t)
  cases h with
  | reading => exact .refl t
  | compiling _ hcompile => exact hkeeps hcompile ▸ .refl t
  | writing _ hcompile hwrite _ => exact hkeeps hcompile ▸ FileTree.write_sameFiles hwrite

/-- A failed run leaves at most the fonts that it had stored and, if only the generated file
could not be written, the snapshot.  A run without caches leaves all files as they were. -/
theorem run_failed (L : Libraries) (p : Project) (o : RunOptions) (t : FileTree) (e : Error)
    (h : (p.run L o t).report.outcome = .error e) :
    p.LeftBehind L o t e (p.run L o t).state ∧
      (o.useCache = false → t.SameFiles (p.run L o t).state) := by
  refine ⟨?_, fun hcache => sameFiles_of_failure hcache (run_failure h)⟩
  cases hcache : o.useCache with
  | true => exact leftBehind_of_failure hcache (run_failure h)
  | false => exact .unchanged (sameFiles_of_failure hcache (run_failure h))

/-! ## A font that stays behind -/

section PackedScript

open Source Source.Word

/-- A packed patch set, for which the origin font has to be an outline font. -/
def packedTable : List Word :=
  braced (field "Name" [ofText "A"] ++ field "Filename" [ofText "a"] ++
    field "SymStart" [⟨'1', [], .int 1⟩] ++ field "SymEnd" [⟨'1', [], .int 1⟩] ++
    field "SrcStart" [⟨'1', [], .int 1⟩] ++
    field "Attributes" (braced (field "default" (braced []))))

def packedSource : String :=
  scriptText "1" packedTable

theorem packed_extraction : (Extraction.ofSource packedSource .standard).outcome =
    .ok ⟨"1", [⟨"A", "a", false, 1, 1, some 1, none, ⟨.unset, ∅⟩⟩]⟩ := by
  have hreads : ∀ w ∈ packedTable, w.Reads := by
    unfold packedTable
    simp (disch := decide) only [braced_reads, field_reads, List.forall_mem_append,
      List.forall_mem_singleton, ofText_reads, digit_one_reads, and_self, true_and]
    simp
  unfold Extraction.ofSource packedSource
  rw [logicalLines_scriptText (by decide) hreads (by decide)]
  rfl

end PackedScript

/-- The files of a project whose only origin font is no outline font. -/
def packedTree : FileTree :=
  FileTree.empty.withFile ["p", "vendor", "nerd-fonts", "font-patcher.py"] packedSource.toUTF8
    |>.withFile ["p", "f.ttf"] TrueType.outlineFile
    |>.withFile ["p", "vendor", "nerd-fonts", "src", "glyphs", "a"] "x".toUTF8

def packedProject : Project := ⟨⟨"/p"⟩⟩

def packedOptions : RunOptions :=
  ⟨⟨"/p/f.ttf"⟩, none, none, none, true, .standard⟩

def packedError : Error :=
  .mapping "A" (.needsCharacterMap "a")

theorem packed_compile_ends (font : Font) :
    ∃ u, (packedProject.compile .builtIn packedOptions packedSource font).Ends packedTree
        (.error packedError) u ∧
      u.content? ["p", ".cache", "glyphrules", "fonts", "v1", "a"] = some "x".toUTF8 := by
  have hends : ∃ c : OriginCache .builtIn, (Compilation.ofSource packedSource .standard font
      (packedProject.originFonts .builtIn packedOptions)
      (packedProject.store .builtIn packedOptions)).Ends (.ofTree packedTree) (.error packedError) c ∧
      c.tree.content? ["p", ".cache", "glyphrules", "fonts", "v1", "a"] = some "x".toUTF8 :=
    ⟨_, Compilation.ofSource_ends_unmapped packed_extraction ⟨rfl, rfl⟩ ⟨rfl, rfl⟩, rfl⟩
  obtain ⟨c, hends, hstored⟩ := hends
  exact ⟨c.tree, ⟨hends.outcome, congrArg OriginCache.tree hends.state⟩, hstored⟩

theorem packed_run_ends :
    ∃ u, (packedProject.run .builtIn packedOptions).Ends packedTree (.error packedError) u ∧
      u.content? ["p", ".cache", "glyphrules", "fonts", "v1", "a"] = some "x".toUTF8 := by
  have hscript : (readScript packedProject.script packedTree).outcome = .ok packedSource := by
    unfold readScript
    rw [FileTree.readText_of_read (s := packedSource) rfl]
    rfl
  have hfont : (readFont .builtIn packedOptions.font packedTree).outcome.toOption.isSome := by
    decide +kernel
  obtain ⟨face, hface⟩ := Outcome.exists_of_toOption_isSome hfont
  obtain ⟨u, hcompile, hstored⟩ := packed_compile_ends face.font
  exact ⟨u, (Session.ends_get packedTree).bind (Session.Ends.bind ⟨hscript, rfl⟩
    (Session.Ends.bind ⟨hface, rfl⟩ hcompile.bind_error)), hstored⟩

theorem packed_run_failed :
    (packedProject.run .builtIn packedOptions packedTree).report.outcome = .error packedError ∧
      packedProject.LeftBehind .builtIn packedOptions packedTree packedError
        (packedProject.run .builtIn packedOptions packedTree).state ∧
      ¬ packedTree.SameFiles (packedProject.run .builtIn packedOptions packedTree).state := by
  obtain ⟨u, hrun, hstored⟩ := packed_run_ends
  refine ⟨hrun.outcome, (run_failed .builtIn packedProject packedOptions packedTree packedError
    hrun.outcome).1, fun hsame => ?_⟩
  have hcontent := hsame ["p", ".cache", "glyphrules", "fonts", "v1", "a"]
  rw [hrun.state, hstored] at hcontent
  cases hcontent

/-- A run that fails because its origin font is no outline font has stored that font. -/
theorem packed_run_stores :
    (packedProject.run .builtIn packedOptions packedTree).report.outcome = .error packedError ∧
      packedTree.content? ["p", ".cache", "glyphrules", "fonts", "v1", "a"] = none ∧
      (packedProject.run .builtIn packedOptions packedTree).state.content?
        ["p", ".cache", "glyphrules", "fonts", "v1", "a"] = some "x".toUTF8 := by
  obtain ⟨u, hrun, hstored⟩ := packed_run_ends
  exact ⟨hrun.outcome, rfl, by rw [hrun.state]; exact hstored⟩

end Project

end IconConstraints
