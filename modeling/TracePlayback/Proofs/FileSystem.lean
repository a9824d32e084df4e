import TracePlayback.FileSystem

/-!
# What stays when files are written

Giving a directory an entry changes what is at the place of the entry and below it, and nothing else
(`find?_insert?_away`): directories on the way stay directories.

* `FileSystem.read?_write?`: what has been written to a path is read from it.
* `FileSystem.extends_createDirectories`: creating directories leaves every file readable, with its
  contents (`Extends.read?`), also if it fails on the way.
-/
namespace TracePlayback

namespace FileTree

theorem find?_append (t : FileTree) (p q : List Bytes) :
    t.find? (p ++ q) = (t.find? p).bind (·.find? q) := by
  induction p generalizing t with
  | nil => cases t <;> rfl
  | cons name p ih =>
    cases t with
    | file contents => rfl
    | directory entries =>
      simp only [List.cons_append, find?, Option.bind_eq_bind, Option.bind_assoc, ih]

theorem lookup_put (name n : Bytes) (tree : FileTree) (entries : List (Bytes × FileTree)) :
    (put name tree entries).lookup n = if n = name then some tree else entries.lookup n := by
  induction entries with
  | nil => grind [put]
  | cons e entries ih => grind [put]

/-- There is a directory at a place. -/
def Directory (t : FileTree) (q : List Bytes) : Prop := (t.find? q).any isDirectory

variable {t t' entry : FileTree} {place : List Bytes} {name : Bytes}

theorem find?_insert?_below (h : t.insert? place name entry = some t') (q : List Bytes) :
    t'.find? (place ++ name :: q) = entry.find? q := by
  induction place generalizing t t' with
  | nil =>
    cases t with
    | file contents => cases h
    | directory entries =>
      cases h
      rw [List.nil_append, find?, lookup_put, if_pos rfl]
      rfl
  | cons step rest ih =>
    cases t with
    | file contents => cases h
    | directory entries =>
      obtain ⟨sub, hsub, h⟩ := Option.bind_eq_some_iff.mp h
      obtain ⟨sub', hsub', ⟨⟩⟩ := Option.bind_eq_some_iff.mp h
      rw [List.cons_append, find?, lookup_put, if_pos rfl]
      exact ih hsub'

/-- Away from the entry nothing changes but the directories that lead there. -/
theorem find?_insert?_away (h : t.insert? place name entry = some t') {q : List Bytes}
    (hq : ¬ place ++ [name] <+: q) :
    t'.find? q = t.find? q ∨ t.Directory q ∧ t'.Directory q := by
  induction place generalizing t t' q with
  | nil =>
    cases t with
    | file contents => cases h
    | directory entries =>
      cases h
      cases q with
      | nil => exact .inr ⟨rfl, rfl⟩
      | cons n q =>
        have hne : n ≠ name := by
          rintro rfl
          exact hq (List.prefix_append [n] q)
        rw [find?, find?, lookup_put, if_neg hne]
        exact .inl rfl
  | cons step rest ih =>
    cases t with
    | file contents => cases h
    | directory entries =>
      obtain ⟨sub, hsub, h⟩ := Option.bind_eq_some_iff.mp h
      obtain ⟨sub', hsub', ⟨⟩⟩ := Option.bind_eq_some_iff.mp h
      cases q with
      | nil => exact .inr ⟨rfl, rfl⟩
      | cons n q =>
        by_cases hn : n = step
        · subst hn
          have hq' : ¬ rest ++ [name] <+: q := fun hprefix => hq (by simpa using hprefix)
          have hcases := ih hsub' hq'
          rw [Directory, Directory, find?, find?, lookup_put, if_pos rfl, hsub]
          exact hcases
        · rw [find?, find?, lookup_put, if_neg hn]
          exact .inl rfl

/-! ## What stays -/

/-- Files keep their contents, and directories stay directories. -/
structure Keeps (t t' : FileTree) : Prop where
  files : ∀ {q contents}, t.find? q = some (.file contents) → t'.find? q = some (.file contents)
  directories : ∀ {q}, t.Directory q → t'.Directory q

theorem Keeps.refl (t : FileTree) : t.Keeps t := ⟨id, id⟩

theorem Keeps.trans {t'' : FileTree} (h : t.Keeps t') (h' : t'.Keeps t'') : t.Keeps t'' :=
  ⟨h'.files ∘ h.files, h'.directories ∘ h.directories⟩

/-- A new entry takes nothing away. -/
theorem keeps_insert? (h : t.insert? place name entry = some t')
    (hnew : t.find? (place ++ [name]) = none) : t.Keeps t' := by
  have hnone : ∀ {q}, place ++ [name] <+: q → t.find? q = none := by
    rintro _ ⟨r, rfl⟩
    rw [find?_append, hnew, Option.bind_none]
  refine ⟨fun {q contents} hfile => ?_, fun {q} hdir => ?_⟩
  · have hq : ¬ place ++ [name] <+: q := fun hprefix => by
      rw [hnone hprefix] at hfile
      cases hfile
    rcases find?_insert?_away h hq with heq | ⟨hdir, -⟩
    · rw [heq, hfile]
    · rw [Directory, hfile] at hdir
      cases hdir
  · have hq : ¬ place ++ [name] <+: q := fun hprefix => by
      rw [Directory, hnone hprefix] at hdir
      cases hdir
    rcases find?_insert?_away h hq with heq | ⟨-, hdir'⟩
    · rwa [Directory, heq]
    · exact hdir'

theorem directory_insert? (h : t.insert? place name entry = some t')
    (hold : ¬ t.Directory (place ++ [name])) {q : List Bytes} (hdir : t.Directory q) :
    t'.Directory q := by
  have hq : ¬ place ++ [name] <+: q := by
    rintro ⟨r, rfl⟩
    rw [Directory, find?_append] at hdir
    cases hfound : t.find? (place ++ [name]) with
    | none =>
      rw [hfound] at hdir
      cases hdir
    | some sub =>
      rw [hfound] at hdir
      cases sub with
      | file contents => cases r <;> cases hdir
      | directory entries => exact hold (by rw [Directory, hfound]; rfl)
  rcases find?_insert?_away h hq with heq | ⟨-, hdir'⟩
  · rwa [Directory, heq]
  · exact hdir'

end FileTree

namespace FileSystem

open FileTree (Directory)

variable {fs fs' : FileSystem}

theorem walk?_of_directories (h : ∀ {q}, fs.root.Directory q → fs'.root.Directory q)
    {moves : List Path.Move} {place target : List Bytes}
    (hwalk : fs.walk? place moves = some target) :
    fs'.walk? place moves = some target := by
  induction moves generalizing place with
  | nil => exact hwalk
  | cons move moves ih =>
    cases move with
    | up => exact ih hwalk
    | down name =>
      rw [walk?] at hwalk ⊢
      split at hwalk
      · rename_i hdir
        have hdir' : fs'.root.Directory (place ++ [name]) := h hdir
        rw [Directory] at hdir'
        rw [if_pos hdir']
        exact ih hwalk
      · cases hwalk

theorem locate?_of_directories (hworking : fs'.working = fs.working)
    (h : ∀ {q}, fs.root.Directory q → fs'.root.Directory q) {p : Path} {found : List Bytes × Bytes}
    (hlocate : fs.locate? p = some found) : fs'.locate? p = some found := by
  obtain ⟨⟨⟩, husable, hlocate⟩ := Option.bind_eq_some_iff.mp hlocate
  obtain ⟨name, hname, hlocate⟩ := Option.bind_eq_some_iff.mp hlocate
  obtain ⟨place, hplace, ⟨⟩⟩ := Option.bind_eq_some_iff.mp hlocate
  have hstart : fs'.start p = fs.start p := by rw [start, start, hworking]
  rw [locate?, husable, hname, hstart]
  simp [walk?_of_directories h hplace]

/-- One file system has all that another has. -/
structure Extends (fs fs' : FileSystem) : Prop where
  root : fs.root.Keeps fs'.root
  working : fs'.working = fs.working

theorem Extends.refl (fs : FileSystem) : fs.Extends fs := ⟨.refl _, rfl⟩

theorem Extends.trans {fs'' : FileSystem} (h : fs.Extends fs') (h' : fs'.Extends fs'') :
    fs.Extends fs'' := ⟨h.root.trans h'.root, h'.working.trans h.working⟩

theorem Extends.read? (h : fs.Extends fs') {p : Path} {contents : Bytes}
    (hread : fs.read? p = some contents) : fs'.read? p = some contents := by
  obtain ⟨⟨place, name⟩, hlocate, hread⟩ := Option.bind_eq_some_iff.mp hread
  rw [FileSystem.read?, locate?_of_directories h.working h.root.directories hlocate]
  simp only at hread
  split at hread
  · rename_i found hfound
    cases hread
    simp [h.root.files hfound]
  · cases hread

/-! ## Writing -/

theorem insert?_eq {place : List Bytes} {name : Bytes} {entry : FileTree}
    (h : fs.insert? place name entry = some fs') :
    fs.root.insert? place name entry = some fs'.root ∧ fs'.working = fs.working := by
  obtain ⟨⟨⟩, -, h⟩ := Option.bind_eq_some_iff.mp h
  obtain ⟨root, hroot, ⟨⟩⟩ := Option.bind_eq_some_iff.mp h
  exact ⟨hroot, rfl⟩

/-- What has been written to a path is read from it. -/
theorem read?_write? {p : Path} {contents : Bytes} (h : fs.write? p contents = some fs') :
    fs'.read? p = some contents := by
  obtain ⟨⟨place, name⟩, hlocate, h⟩ := Option.bind_eq_some_iff.mp h
  obtain ⟨⟨⟩, hguard, h⟩ := Option.bind_eq_some_iff.mp h
  obtain ⟨hroot, hworking⟩ := insert?_eq h
  have hold : ¬ fs.root.Directory (place ++ [name]) := fun hdir => by
    change (if _ then pure () else failure) = some () at hguard
    rw [Directory] at hdir
    rw [if_neg (by simp [hdir])] at hguard
    cases hguard
  rw [read?, locate?_of_directories hworking (FileTree.directory_insert? hroot hold) hlocate]
  have hfound := FileTree.find?_insert?_below hroot []
  rw [show FileTree.find? (.file contents) [] = some (.file contents) from rfl] at hfound
  simp [hfound]

/-! ## Creating directories -/

theorem extends_createAlong (fs : FileSystem) (place : List Bytes) (moves : List Path.Move) :
    fs.Extends (fs.createAlong place moves).2 := by
  fun_induction fs.createAlong place moves with
  | case1 => exact .refl _
  | case2 fs place rest ih => exact ih
  | case3 fs place name rest inner entries hfound ih => exact ih
  | case4 => exact .refl _
  | case5 fs place name rest inner hnone fs' hinsert ih =>
    obtain ⟨hroot, hworking⟩ := insert?_eq hinsert
    have hstep : fs.Extends fs' := ⟨FileTree.keeps_insert? hroot hnone, hworking⟩
    exact hstep.trans ih
  | case6 => exact .refl _

theorem extends_createDirectories (fs : FileSystem) (p : Path) :
    fs.Extends (fs.createDirectories p).2 := by
  unfold createDirectories
  split
  · exact extends_createAlong ..
  · exact .refl fs

end FileSystem

end TracePlayback
