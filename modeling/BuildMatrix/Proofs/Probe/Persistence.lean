import BuildMatrix.Proofs.Flag.Codec
import BuildMatrix.Proofs.Probe.CacheFile

/-!
# Caches that are kept in a file

A cache that is written to a file and read again for the same compiler gives the
same verdicts as before, except on the two flag sets that share the empty text
(`get?_reread`).  For another compiler it is read as an empty one.  Writing what
was read gives the same file (`toFile_reread`).
-/

namespace BuildMatrix

open FlagSet (encode decode Blank)

namespace Cache

/-- The cache that is read from what a cache says in a file. -/
def reread (c : Cache) : Cache := ofFile c.toFile

theorem exists_of_get?_toFile {c : Cache} {text : String} {v : Bool}
    (h : c.toFile.flags.get? text = some v) : ∃ flags, encode flags = text ∧ c.get? flags = some v :=
  SortedMap.exists_of_get?_ofList_map h

theorem get?_toFile (c : Cache) {flags : FlagSet} (h : ¬ Blank flags) :
    c.toFile.flags.get? (encode flags) = c.get? flags :=
  SortedMap.get?_ofList_map encode c.verdicts flags fun _ _ _ heq => FlagSet.encode_inj h heq

/-- What a cache file says is the same under the decoded names. -/
theorem get?_reread (c : Cache) {flags : FlagSet} (h : ¬ Blank flags) :
    c.reread.get? flags = c.get? flags := by
  have hread := SortedMap.get?_ofList_map decode c.toFile.flags (encode flags) fun text v htext heq => by
    obtain ⟨other, rfl, -⟩ := exists_of_get?_toFile htext
    rw [FlagSet.decode_encode h] at heq
    by_cases hother : Blank other
    · rw [FlagSet.decode_encode_of_blank hother] at heq
      exact absurd (.inl heq.symm) h
    · rw [← heq, FlagSet.decode_encode hother]
  rw [FlagSet.decode_encode h] at hread
  rw [← c.get?_toFile h]
  exact hread

theorem encode_decode_encode (flags : FlagSet) : encode (decode (encode flags)) = encode flags := by
  by_cases h : Blank flags
  · rw [FlagSet.decode_encode_of_blank h, FlagSet.encode_eq_empty_iff.2 h]
    rfl
  · rw [FlagSet.decode_encode h]

/-- What was read is written as it was. -/
theorem toFile_reread (c : Cache) : c.reread.toFile = c.toFile := by
  have hflags := SortedMap.ofList_map_map decode encode c.toFile.flags
    fun text v htext => by
      obtain ⟨flags, rfl, -⟩ := exists_of_get?_toFile htext
      exact encode_decode_encode flags
  show (⟨c.compiler, _⟩ : CacheFile) = ⟨c.compiler, c.toFile.flags⟩
  exact congrArg (CacheFile.mk c.compiler) hflags

/-- Of several names of one set in a file the last one counts. -/
theorem get?_ofFile_last {f : CacheFile} {text : String} {verdict : Bool}
    (h : f.flags.get? text = some verdict)
    (last : ∀ other v, f.flags.get? other = some v → text < other → decode other ≠ decode text) :
    (ofFile f).get? (decode text) = some verdict :=
  SortedMap.get?_ofList_map_last decode h last

/-- No file has a verdict on the set of one empty token. -/
theorem get?_ofFile_single (f : CacheFile) : (ofFile f).get? [""] = none := by
  cases hsingle : (ofFile f).get? [""] with
  | none => rfl
  | some verdict =>
    obtain ⟨text, hdecode, -⟩ := SortedMap.exists_of_get?_ofList_map hsingle
    exact absurd hdecode (FlagSet.decode_ne_single text)

/-! ## Texts -/

theorem ofText_of_parse {text : String} {f : CacheFile} (h : CacheFile.parse? text = some f) :
    ofText f.compiler (some text) = ofFile f := by
  rw [ofText, Option.bind_some, h]
  exact if_pos rfl

theorem ofText_render (c : Cache) : ofText c.compiler (some c.toFile.render) = c.reread :=
  ofText_of_parse (CacheFile.parse?_render c.toFile)

theorem ofText_render_of_ne {c : Cache} {key : String} (h : c.compiler ≠ key) :
    ofText key (some c.toFile.render) = empty key := by
  rw [ofText, Option.bind_some, CacheFile.parse?_render]
  exact if_neg h

theorem get?_ofText_single (compiler : String) (text : Option String) :
    (ofText compiler text).get? [""] = none := by
  unfold ofText
  split
  · split
    · exact get?_ofFile_single _
    · rfl
  · rfl

end Cache

/-! ## Loading -/

theorem fromUTF8?_toUTF8 (text : String) : String.fromUTF8? text.toUTF8 = some text :=
  dif_pos text.isValidUTF8

/-- The text of a file is read where its path leads. -/
theorem Tree.readText_of_locate {t : Tree} {p : Path} {location : Location} {text : String}
    (h : t.locate .node p = .ok (.taken location (.file text.toUTF8))) : t.readText p = .ok text := by
  rw [readText, read, h]
  dsimp only
  rw [fromUTF8?_toUTF8]

theorem Tree.locate_of_read {t : Tree} {p : Path} {content : ByteArray} (h : t.read p = .ok content) :
    ∃ location, t.locate .node p = .ok (.taken location (.file content)) := by
  unfold read at h
  split at h
  · next location found hlocate =>
    injection h with h
    exact ⟨location, h ▸ hlocate⟩
  · cases h
  · cases h
  · cases h

theorem Tree.locate_of_readText {t : Tree} {p : Path} {text : String} (h : t.readText p = .ok text) :
    ∃ location, t.locate .node p = .ok (.taken location (.file text.toUTF8)) := by
  unfold readText at h
  split at h
  · next content hcontent =>
    split at h
    · next read hread =>
      obtain ⟨hvalid, hread⟩ := Option.dite_none_right_eq_some.1 hread
      injection hread with hread
      injection h with h
      subst h hread
      exact Tree.locate_of_read hcontent
    · cases h
  · cases h

theorem load_of_unreached {t : Tree} {p : Path} (h : t.reaches p = false) (key : String) :
    (Cache.load t p key).1 = Cache.empty key := by
  rw [Cache.load, h]
  rfl

theorem load_of_locate {t : Tree} {p : Path} {location : Location} {text : String}
    (h : t.locate .node p = .ok (.taken location (.file text.toUTF8))) (key : String) :
    (Cache.load t p key).1 = Cache.ofText key (some text) := by
  have hreaches : t.reaches p = true := by
    rw [Tree.reaches, Tree.find?, h]
    rfl
  rw [Cache.load, if_pos hreaches, Tree.readText_of_locate h]
  rfl

theorem compiler_ofText (key : String) (text : Option String) :
    (Cache.ofText key text).compiler = key := by
  unfold Cache.ofText
  split
  · split
    · next h => exact h
    · rfl
  · rfl

theorem compiler_load (t : Tree) (p : Path) (key : String) :
    (Cache.load t p key).1.compiler = key := by
  unfold Cache.load
  split
  · exact compiler_ofText key _
  · rfl

theorem get?_load_single (t : Tree) (p : Path) (key : String) :
    (Cache.load t p key).1.get? [""] = none := by
  unfold Cache.load
  split
  · exact Cache.get?_ofText_single _ _
  · rfl

end BuildMatrix
