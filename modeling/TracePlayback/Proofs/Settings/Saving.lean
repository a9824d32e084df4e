import TracePlayback.Settings.File
import TracePlayback.Proofs.FileSystem
import TracePlayback.Proofs.Settings.Reading
import TracePlayback.Proofs.Text.Utf8

/-!
# Saving is all or nothing, and loading inverts it

The document is made before the file is touched. So either all settings can be written, and the same
settings are loaded again, or an integer is too large, and what is there stays: at most directories
have been created on the way to the file.

* `save_and_load`: both, for every path that can be written, and what is loaded from any document
  that gives some settings and leaves out the others.
-/
namespace TracePlayback.Settings

open Toml

/-- A path whose directory is there or can be created, and where a file can then be written. -/
def Writable (fs : FileSystem) (path : Path) : Prop :=
  ∃ prepared, prepareDirectory fs path = (pure (), prepared) ∧
    ∀ contents, (prepared.write? path contents).isSome = true

theorem extends_prepareDirectory (fs : FileSystem) (path : Path) :
    fs.Extends (prepareDirectory fs path).2 := by
  unfold prepareDirectory
  split
  · exact .refl fs
  · rename_i parent _
    have hextends := fs.extends_createDirectories parent
    split
    · rename_i h
      rwa [h] at hextends
    · rename_i h
      rwa [h] at hextends

variable {fs : FileSystem} {path : Path} {s : Settings}

theorem load_of_text {read? : Path → Option Bytes} {bytes : Bytes} {text : List Char}
    (hread : read? path = some bytes) (hdecode : Text.Utf8.decode? bytes = some text)
    (hparse : ofToml? text = some s) : load read? path = .ok s := by
  rw [load, hread, Option.bind_some, hdecode]
  simp only [hparse]
  rfl

theorem load_of_save (hpath : Writable fs path) (hfits : ∀ n ∈ s.integers, n ≤ maxInteger) :
    ∃ after, s.save fs path = (.ok (), after) ∧ load after.read? path = .ok s := by
  obtain ⟨prepared, hprepared, hwrite⟩ := hpath
  obtain ⟨text, htext⟩ := Option.isSome_iff_exists.mp ((isSome_toToml? s).mpr hfits)
  obtain ⟨after, hafter⟩ := Option.isSome_iff_exists.mp (hwrite text.toUTF8.toList)
  refine ⟨after, ?_, load_of_text (FileSystem.read?_write? hafter) (Text.Utf8.decode?_toUTF8 text)
    (ofToml?_toToml? htext)⟩
  simp only [save, hprepared, pure, Except.pure, htext, hafter]

theorem save_of_large (hpath : Writable fs path) (hlarge : ∃ n ∈ s.integers, maxInteger < n) :
    ∃ after, s.save fs path = (.error .unserializable, after) ∧ fs.Extends after := by
  obtain ⟨prepared, hprepared, -⟩ := hpath
  have htext : s.toToml? = none := by
    obtain ⟨n, hn, hlt⟩ := hlarge
    refine Option.not_isSome_iff_eq_none.mp fun hsome => ?_
    exact absurd ((isSome_toToml? s).mp hsome n hn) (by omega)
  have hextends := extends_prepareDirectory fs path
  rw [hprepared] at hextends
  refine ⟨prepared, ?_, hextends⟩
  simp only [save, hprepared, pure, Except.pure, htext]
  rfl

/-- **Saving is all or nothing, and loading inverts it.** Take a path that can be written.

* Settings whose integers have 64 bits with sign are saved, and the same settings are loaded again.
* Others are refused, and every file keeps its contents, so that the same is loaded from it as before.

And from any document whose tables give values that suit their settings, these values are loaded, with
the default for every setting that is not there. -/
theorem save_and_load :
    (∀ fs path, Writable fs path → ∀ s : Settings,
      ((∀ n ∈ s.integers, n ≤ maxInteger) →
        ∃ after, s.save fs path = (.ok (), after) ∧ load after.read? path = .ok s) ∧
      ((∃ n ∈ s.integers, maxInteger < n) →
        ∃ e after, s.save fs path = (.error e, after) ∧
          e.message = "failed to serialize engine config" ∧
          ∀ p contents, fs.read? p = some contents →
            after.read? p = some contents ∧ load after.read? p = load fs.read? p)) ∧
    ∀ read? path bytes text doc, read? path = some bytes → Text.Utf8.decode? bytes = some text →
      parse? text = some doc → Fits doc →
        ∃ s, load read? path = .ok s ∧
          s.written = (written {}).map fun g => (g.1, overlay (tableOf doc g.1) g.2) := by
  refine ⟨fun fs path hpath s => ⟨load_of_save hpath, fun hlarge => ?_⟩,
    fun read? path bytes text doc hread hdecode hparse hfits => ?_⟩
  · obtain ⟨after, hsave, hextends⟩ := save_of_large hpath hlarge
    refine ⟨_, after, hsave, rfl, fun p contents hread => ?_⟩
    have hafter := hextends.read? hread
    exact ⟨hafter, by rw [load, load, hread, hafter]⟩
  · obtain ⟨s, hs, hwritten⟩ := Option.map_eq_some_iff.mp (written_ofToml? hparse hfits)
    exact ⟨s, load_of_text hread hdecode hs, hwritten⟩

/-- Settings at the ends of their ranges: no number, the negative zero and infinity, the least and
the greatest single, the largest integer. -/
def extremes : Settings where
  layout := {
    maxDtMs := maxInteger
    repulsion := 0 / 0
    centering := -0
    spring := -1 / 0
    damping := Float32.ofBits 1
    speed := Float32.ofBits 0x7F7FFFFF }
  audio := { enabled := false }

/-- A document with some settings: a key with points, a comment, an inline table, and a table with a
key that is not known. -/
def partialDocument : String :=
  "layout.speed = 2 # units\naudio = \x7benabled = false\x7d\n[particles]\nhue = 7\n"

/-- Extreme settings come back through a new directory; with one integer too large the file that is
there stays; and a document gives what it has. -/
theorem save_and_load_extremes :
    (∃ after, extremes.save (.ofWorking []) ⟨[110, 47, 101]⟩ = (.ok (), after) ∧
      load after.read? ⟨[110, 47, 101]⟩ = .ok extremes) ∧
    (∃ e after, save { extremes with playback.ghostTailMs := maxInteger + 1 }
        ⟨.directory [([101], .file [35])], []⟩ ⟨[101]⟩ = (.error e, after) ∧
      e.message = "failed to serialize engine config" ∧ after.read? ⟨[101]⟩ = some [35]) ∧
    load (fun _ => some partialDocument.toUTF8.toList) ⟨[101]⟩ =
      .ok { layout := { speed := 2 }, audio := { enabled := false } } := by
  have hnew : Writable (.ofWorking []) ⟨[110, 47, 101]⟩ :=
    ⟨⟨.directory [([110], .directory [])], []⟩, rfl, fun _ => rfl⟩
  have hthere : Writable ⟨.directory [([101], .file [35])], []⟩ ⟨[101]⟩ :=
    ⟨_, rfl, fun _ => rfl⟩
  refine ⟨(save_and_load.1 _ _ hnew extremes).1 (by decide), ?_, ?_⟩
  · obtain ⟨e, after, hsave, hmessage, hkept⟩ :=
      (save_and_load.1 _ _ hthere { extremes with playback.ghostTailMs := maxInteger + 1 }).2
        ⟨maxInteger + 1, by decide, by decide⟩
    exact ⟨e, after, hsave, hmessage, (hkept _ _ rfl).1⟩
  · have hparse : parse? partialDocument.toList = some [
        ("layout", .table [("speed", .integer 2)]), ("audio", .table [("enabled", .bool false)]),
        ("particles", .table [("hue", .integer 7)])] := by cbv
    obtain ⟨t, ht, hwritten⟩ := save_and_load.2 (fun _ => some _) ⟨[101]⟩ _ _ _ rfl
      (Text.Utf8.decode?_toUTF8 partialDocument) hparse (by decide)
    rw [ht]
    exact congrArg _ (written_injective (hwritten.trans rfl))

end TracePlayback.Settings
