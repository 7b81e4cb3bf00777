import BuildMatrix.Proofs.Session.Reloading
import BuildMatrix.Proofs.Tree.Overwriting

/-!
# Loading any cache file

A cache file may be spelled in other ways than a cache is saved.  Its names may hold
needless backslashes, end in one, or stand for one flag set twice.  What is loaded from
such a file is saved in the usual way and loaded as it was, and it is saved alike ever
after (`load_settles`): a name is read as a set that has a text of its own, and of
several names of one set only the last one is left (`Cache.get?_ofFile_last`).

The file may be reached through links.  Then the saved one takes the place of the last
of them, but never one that the path still needs (`Tree.replaceText_of_file`).
-/

namespace BuildMatrix.Cache

open FlagSet (encode decode)

/-- What a file says is read again from what is saved of it. -/
theorem reread_ofFile (f : CacheFile) : (ofFile f).reread = ofFile f :=
  (reloaded_reread (ofFile f)).eq_iff.2 (get?_ofFile_single f)

theorem load_of_readText {t : Tree} {p : Path} {text : String} {f : CacheFile}
    (hread : t.readText p = .ok text) (hparse : CacheFile.parse? text = some f) :
    (load t p f.compiler).1 = ofFile f := by
  obtain ⟨location, hlocate⟩ := Tree.locate_of_readText hread
  rw [load_of_locate hlocate, ofText_of_parse hparse]

/-- A flag set that is read from a name is read again from the name that it is given.  So whatever names
a file of the compiler has, the cache that is loaded from it is loaded again after it was saved, and to
save it once more changes nothing. -/
theorem load_settles :
    (∀ name, decode (encode (decode name)) = decode name) ∧
      ∀ {t : Tree} {p : Path} {text : String} {f : CacheFile}, t.WellFormed →
        t.readText p = .ok text → CacheFile.parse? text = some f →
          (load t p f.compiler).1 = ofFile f ∧
          (t.Roomy p → ∃ t', (load t p f.compiler).1.save p t = .ok () t') ∧
          ∀ t', (load t p f.compiler).1.save p t = .ok () t' →
            (load t' p f.compiler).1 = (load t p f.compiler).1 ∧
              (load t' p f.compiler).1.save p t' = .ok () t' := by
  refine ⟨FlagSet.decode_encode_decode, fun {t p text f} wf hread hparse => ?_⟩
  have hload := load_of_readText hread hparse
  obtain ⟨location, hlocate⟩ := Tree.locate_of_readText hread
  rw [hload]
  refine ⟨rfl, fun roomy => Tree.exists_replaceText_of_file wf hlocate roomy _, fun t' saved => ?_⟩
  obtain ⟨⟨place, hplace⟩, again⟩ := Tree.replaceText_of_file wf hlocate saved
  have hreload : (load t' p f.compiler).1 = ofFile f := by
    rw [load_of_locate hplace]
    exact (ofText_render (ofFile f)).trans (reread_ofFile f)
  rw [hreload]
  exact ⟨rfl, again⟩

/-! ## A file that was edited by hand -/

/-- A cache file with a needless backslash, a backslash at an end and two names of one flag set. -/
def editedText : String :=
  "\x7b\"compiler\": \"MSVC:cl\", \"flags\": " ++
    "\x7b\"\\\\-b\": true, \"-b\": false, \"-c\\\\\": true\x7d\x7d"

/-- The bare project with this file in its build root. -/
def editedProject : Tree := bareProject.put (["b"] ++ [cacheFileName]) (.file editedText.toUTF8)

/-- The edited file is loaded with one verdict for both names of the set, and so it stays. -/
theorem load_settles_edited :
    ∃ t', (load editedProject (Path.child ⟨"b"⟩ cacheFileName) "MSVC:cl").1 =
        ((empty "MSVC:cl").insert ["-b"] true).insert ["-c\\"] true ∧
      (load editedProject (Path.child ⟨"b"⟩ cacheFileName) "MSVC:cl").1.save
        (Path.child ⟨"b"⟩ cacheFileName) editedProject = .ok () t' ∧
      (load t' (Path.child ⟨"b"⟩ cacheFileName) "MSVC:cl").1 =
        (load editedProject (Path.child ⟨"b"⟩ cacheFileName) "MSVC:cl").1 ∧
      (load t' (Path.child ⟨"b"⟩ cacheFileName) "MSVC:cl").1.save
        (Path.child ⟨"b"⟩ cacheFileName) t' = .ok () t' := by
  have clear : Clear ⟨"b"⟩ ["b"] bareProject cacheFileName := clear_bareProject (by decide)
  have room : Room ⟨"b"⟩ ["b"] editedProject := clear.room_put room_bareProject _
  obtain ⟨front, entry⟩ := (clear.stands editedText).entry room
  have hread : editedProject.readText (Path.child ⟨"b"⟩ cacheFileName) = .ok editedText :=
    Tree.readText_of_locate (entry.locate_file (clear.stands editedText).node .node)
  obtain ⟨f, hparse, hcompiler, hcache⟩ :
      ∃ f, CacheFile.parse? editedText = some f ∧ f.compiler = "MSVC:cl" ∧
        ofFile f = ((empty "MSVC:cl").insert ["-b"] true).insert ["-c\\"] true :=
    ⟨⟨"MSVC:cl", SortedMap.ofList [("\\-b", true), ("-b", false), ("-c\\", true)]⟩,
      by decide +kernel, rfl, by decide +kernel⟩
  obtain ⟨hload, saves, settles⟩ := load_settles.2 room.wf hread hparse
  rw [hcompiler] at hload saves settles
  obtain ⟨t', saved⟩ := saves (clear.stands editedText).roomy
  exact ⟨t', hload.trans hcache, saved, settles t' saved⟩

end BuildMatrix.Cache
