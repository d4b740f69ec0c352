-- SUMMARY: A file that is written is read back with its content, and others stay as they are.
import FormRules.File
import FormRules.Proofs.Success
import Mathlib.Data.List.Basic
import Mathlib.Tactic.SplitIfs

/-!
# Writing and reading a file

`FileSystem.Keeps` and `FileSystem.Spares` say of one file what one expects of all: that it is read
back as it was written, and that writing it changes no other. Directories do both, with one exception.
A path along which a file can be written leads to that file afterwards: no part of the way to its
folder is a file, before and after. Only the empty file does not hold what is written to it. A path
that leads to another file leads there afterwards too, and that file has its content still.
-/

namespace FormRules

/-! ## Paths -/

namespace FilePath

theorem parts_eq_namedParts {p : FilePath} (h : p.endsWithSlash = false) :
    p.parts = p.namedParts := by
  unfold namedParts
  rw [← List.reverse_eq_iff]
  cases hparts : p.parts.reverse with
  | nil => rfl
  | cons last rest =>
    have hlast : p.parts.getLast? = some last := by
      rw [List.getLast?_eq_head?_reverse, hparts]
      rfl
    have hname : last.isEmpty = false := by
      simpa [endsWithSlash, hlast, String.isEmpty_iff] using h
    simp [hname]

end FilePath

theorem Location.ne_child (l : Location) (name : String) : l ≠ l.child name := by
  intro h
  have hway : l.way = l.way ++ [name] := congrArg Location.way h
  simp at hway

namespace Directory

variable {d d' : Directory} {l m m' : Location} {content part : String} {p : FilePath}

/-! ## Putting -/

/-- Content in the place of other content stays at its location. -/
theorem fst_replaced (l : Location) (content : String) (f : Location × String) :
    (if f.1 = l then (l, content) else f).1 = f.1 := by
  split
  · next h => exact h.symm
  · rfl

theorem content?_put (hl : l ≠ .emptyFile) (m : Location) :
    (d.put l content).content? m = if m = l then some content else d.content? m := by
  unfold put
  rw [if_neg hl]
  split
  · next hfile =>
    unfold content?
    rw [List.find?_map, Function.comp_def]
    simp only [fst_replaced, Option.map_map]
    cases hfound : d.files.find? (·.1 = m) with
    | none =>
      have hm : m ≠ l := by
        rintro rfl
        simp [hasFile, content?, hfound] at hfile
      simp [hm]
    | some f =>
      have hf : f.1 = m := by simpa using List.find?_some hfound
      subst hf
      simp only [Option.map_some, Function.comp_apply]
      split <;> rfl
  · next hfile =>
    unfold content?
    rw [List.find?_append]
    split
    · next hm =>
      subst hm
      have hnone : d.files.find? (·.1 = m) = none := by
        simpa only [hasFile, content?, Option.isSome_map, Option.not_isSome_iff_eq_none] using hfile
      simp [hnone]
    · next hm => simp [Ne.symm hm]

theorem hasFile_put (hl : l ≠ .emptyFile) (m : Location) :
    (d.put l content).hasFile m = (decide (m = l) || d.hasFile m) := by
  unfold hasFile
  rw [content?_put hl]
  split
  · next hm => simp [hm]
  · next hm => simp [hm]

theorem hasFolder_put (h : d.hasFolder m = true) : (d.put l content).hasFolder m = true := by
  -- No location goes.
  have hkeeps : ∀ f ∈ d.files, ∃ g ∈ (d.put l content).files, g.1 = f.1 := by
    intro f hf
    unfold put
    split
    · exact ⟨f, hf, rfl⟩
    split
    · exact ⟨_, List.mem_map_of_mem hf, fst_replaced l content f⟩
    · exact ⟨f, List.mem_append_left _ hf, rfl⟩
  simp only [hasFolder, Bool.or_eq_true, List.any_eq_true] at h ⊢
  refine h.imp_right ?_
  rintro ⟨f, hf, hbelow⟩
  obtain ⟨g, hg, hgf⟩ := hkeeps f hf
  exact ⟨g, hg, hgf ▸ hbelow⟩

/-! ## Walking -/

/-- Something is at a location: a file or a folder. -/
def Has (d : Directory) (l : Location) : Prop := d.hasFile l = true ∨ d.hasFolder l = true

theorem Has.put (h : d.Has m) (hl : l ≠ .emptyFile) : (d.put l content).Has m :=
  h.imp (fun hfile => by simp [hasFile_put hl, hfile]) hasFolder_put

theorem hasFolder_of_way_eq_nil (h : l.way = []) : d.hasFolder l = true := by
  simp [hasFolder, h]

/-- A walk along a path begins at a folder. -/
theorem has_start (d : Directory) (p : FilePath) : d.Has p.start := by
  refine .inr (hasFolder_of_way_eq_nil ?_)
  unfold FilePath.start
  split <;> rfl

theorem hasFolder_parent (h : d.hasFolder l = true) : d.hasFolder l.parent = true := by
  obtain ⟨base, way⟩ := l
  cases way with
  | nil => cases base <;> exact hasFolder_of_way_eq_nil rfl
  | cons name rest =>
    have hparent : Location.parent ⟨base, name :: rest⟩ = ⟨base, (name :: rest).dropLast⟩ := rfl
    rw [hparent]
    cases rest with
    | nil => exact hasFolder_of_way_eq_nil rfl
    | cons name' rest =>
      have hsystem : Location.isSystemFolder ⟨base, name :: name' :: rest⟩ = false := by
        cases base <;> rfl
      simp only [hasFolder, hsystem, Bool.or_eq_true, List.any_eq_true] at h ⊢
      obtain (hnil | hnil) | ⟨f, hf, hbelow⟩ := h
      · cases hnil
      · cases hnil
      · refine .inr ⟨f, hf, ?_⟩
        simp only [Location.isBelow, Bool.and_eq_true, decide_eq_true_eq, bne_iff_ne,
          List.isPrefixOf_iff_prefix] at hbelow ⊢
        obtain ⟨⟨hbase, hprefix⟩, -⟩ := hbelow
        have hshorter := List.dropLast_prefix (name :: name' :: rest)
        refine ⟨⟨hbase, hshorter.trans hprefix⟩, fun heq => ?_⟩
        have hlength := hprefix.length_le
        rw [heq, List.length_dropLast] at hlength
        simp only [List.length_cons] at hlength
        omega

/-- A part of a path that goes down under its own name. -/
def IsName (part : String) : Prop := part ≠ "" ∧ part ≠ "." ∧ part ≠ ".."

/-- Whether there is a step, and where it leads. -/
theorem step_eq_ok_iff : d.step m part = .ok m' ↔ d.hasFile m = false
    ∧ ((part = "" ∨ part = ".") ∧ m' = m
      ∨ part = ".." ∧ m' = m.parent
      ∨ IsName part ∧ part.utf8ByteSize ≤ longestName ∧ d.Has (m.child part)
        ∧ m' = m.child part) := by
  unfold step Has IsName
  grind

/-- Only a folder leads on, and it leads to something. -/
theorem has_of_step (h : d.step m part = .ok m') (hm : d.Has m) :
    d.hasFolder m = true ∧ d.Has m' := by
  obtain ⟨hfile, hleads⟩ := step_eq_ok_iff.mp h
  have hfolder : d.hasFolder m = true := hm.resolve_left (by simp [hfile])
  refine ⟨hfolder, ?_⟩
  obtain ⟨-, rfl⟩ | ⟨-, rfl⟩ | ⟨-, -, hthere, rfl⟩ := hleads
  · exact hm
  · exact .inr (hasFolder_parent hfolder)
  · exact hthere

/-- A step that can be taken can still be taken after something is put elsewhere. -/
theorem step_put (hl : l ≠ .emptyFile) (hm : m ≠ l) (h : d.step m part = .ok m') :
    (d.put l content).step m part = .ok m' := by
  obtain ⟨hfile, hleads⟩ := step_eq_ok_iff.mp h
  refine step_eq_ok_iff.mpr ⟨by simp [hasFile_put hl, hm, hfile], ?_⟩
  refine hleads.imp_right (.imp_right ?_)
  rintro ⟨hname, hshort, hthere, hchild⟩
  exact ⟨hname, hshort, hthere.put hl, hchild⟩

theorem walk_cons (d : Directory) (m : Location) (part : String) (rest : List String) :
    d.walk m (part :: rest) = (d.step m part).bind fun m => d.walk m rest := by
  rw [walk]
  cases d.step m part <;> rfl

theorem walk_append (d : Directory) (m : Location) (parts rest : List String) :
    d.walk m (parts ++ rest) = (d.walk m parts).bind fun m => d.walk m rest := by
  induction parts generalizing m with
  | nil => rfl
  | cons part parts ih =>
    rw [List.cons_append, walk_cons, walk_cons]
    cases d.step m part with
    | error e => rfl
    | ok m => exact ih m

theorem walk_stay : d.walk m ["."] = .ok m' ↔ d.hasFile m = false ∧ m' = m := by
  rw [walk_cons]
  constructor
  · intro h
    obtain ⟨next, hstep, hnil⟩ := bind_eq_ok.mp h
    obtain ⟨hfile, hleads⟩ := step_eq_ok_iff.mp hstep
    cases hnil
    simpa [IsName, hfile] using hleads
  · rintro ⟨hfile, rfl⟩
    have hstep : d.step m' "." = .ok m' := step_eq_ok_iff.mpr ⟨hfile, .inl ⟨.inr rfl, rfl⟩⟩
    rw [hstep]
    rfl

/-- A walk from a folder that can be made can still be made after something is put where no folder
is: no part of the way leads over that place. -/
theorem walk_put (content : String) (hl : l ≠ .emptyFile) (hfree : d.hasFolder l = false)
    {parts : List String} (h : d.walk m parts = .ok m') (hm : d.Has m) :
    (d.put l content).walk m parts = .ok m' ∧ d.Has m' := by
  induction parts generalizing m with
  | nil =>
    cases h
    exact ⟨rfl, hm⟩
  | cons part parts ih =>
    rw [walk_cons] at h ⊢
    cases hstep : d.step m part with
    | error e => simp [hstep, Except.bind] at h
    | ok next =>
      rw [hstep] at h
      obtain ⟨hfolder, hnext⟩ := has_of_step hstep hm
      have hne : m ≠ l := by
        rintro rfl
        simp [hfolder] at hfree
      rw [step_put hl hne hstep]
      exact ih h hnext

theorem locate_eq_ok : d.locate p = .ok m ↔ p.error? = none ∧ d.walk p.start p.parts = .ok m := by
  unfold locate
  cases p.error? <;> simp

/-- A path leads where it led after something is put where no folder is. -/
theorem locate_put (content : String) (hl : l ≠ .emptyFile) (hfree : d.hasFolder l = false)
    (h : d.locate p = .ok m) : (d.put l content).locate p = .ok m := by
  obtain ⟨herror, hwalk⟩ := locate_eq_ok.mp h
  exact locate_eq_ok.mpr ⟨herror, (walk_put content hl hfree hwalk (d.has_start p)).1⟩

/-! ## Writing and reading -/

theorem read_eq_ok {path : String} : d.read path = .ok content ↔
    ∃ l, d.locate ⟨path⟩ = .ok l ∧ d.content? l = some content := by
  unfold read
  cases d.locate ⟨path⟩ with
  | error e => simp
  | ok l =>
    simp only [Except.ok.injEq, exists_eq_left']
    cases d.content? l <;> simp

/-- Where a path lets a file be written: under its last part, in a folder. -/
theorem place_eq_ok (h : d.place p = .ok l) : p.error? = none ∧ p.endsWithSlash = false
    ∧ d.hasFolder l = false
    ∧ ∃ name folder, p.namedParts.getLast? = some name ∧ name ≠ "." ∧ name ≠ ".."
      ∧ name.utf8ByteSize ≤ longestName
      ∧ d.walk p.start (p.namedParts.dropLast ++ ["."]) = .ok folder ∧ l = folder.child name := by
  unfold place at h
  split at h
  · cases h
  · cases h
  · next name herror hlast =>
    split at h
    · cases hwalk : d.walk p.start p.namedParts <;> simp [hwalk, Except.bind] at h
    · next hname =>
      obtain ⟨hpoint, hpoints⟩ := not_or.mp hname
      split at h
      · cases h
      · next folder hwalk =>
        split_ifs at h with hslash hlong hfolder
        cases h
        exact ⟨herror, by simpa using hslash, by simpa using hfolder, name, folder, hlast, hpoint,
          hpoints, Nat.le_of_not_lt hlong, hwalk, rfl⟩

/-- What is put where a path lets a file be written is read along the same path. -/
theorem read_put {path : String} (h : d.place ⟨path⟩ = .ok l) (hl : l ≠ .emptyFile) :
    (d.put l content).read path = .ok content := by
  obtain ⟨herror, hslash, hfree, name, folder, hlast, hpoint, hpoints, hshort, hwalk, rfl⟩ :=
    place_eq_ok h
  have hstart := d.has_start ⟨path⟩
  rw [walk_append] at hwalk
  obtain ⟨place, hway, hstay⟩ := bind_eq_ok.mp hwalk
  obtain ⟨hfile, rfl⟩ := walk_stay.mp hstay
  obtain ⟨hway', -⟩ := walk_put content hl hfree hway hstart
  have hparts := FilePath.parts_eq_namedParts hslash
  have hname : name ≠ "" := by
    rintro rfl
    simp [FilePath.endsWithSlash, hparts, hlast] at hslash
  have hdown : (d.put (folder.child name) content).step folder name = .ok (folder.child name) := by
    refine step_eq_ok_iff.mpr ⟨?_, .inr (.inr ⟨⟨hname, hpoint, hpoints⟩, hshort, .inl ?_, rfl⟩)⟩
    · simp [hasFile_put hl, hfile, Location.ne_child]
    · simp [hasFile_put hl]
  have hlocate : (d.put (folder.child name) content).locate ⟨path⟩ = .ok (folder.child name) := by
    rw [locate, herror, hparts, ← List.dropLast_append_getLast? name hlast]
    simp only [walk_append, hway', walk_cons, hdown, Except.bind]
    rfl
  exact read_eq_ok.mpr ⟨_, hlocate, by simp [content?_put hl]⟩

/-- A file that is written is read with its content. Only the empty file is not. -/
theorem read_write {path : String} (h : d.write path content = .ok d')
    (hempty : d.place ⟨path⟩ ≠ .ok .emptyFile) : d'.read path = .ok content := by
  obtain ⟨l, hplace, rfl⟩ := map_eq_ok.mp h
  refine read_put hplace ?_
  rintro rfl
  exact hempty hplace

/-- A file stays as it is when another one is written. -/
theorem read_write_of_ne {file path kept : String} (h : d.write file content = .ok d')
    (hne : d.place ⟨file⟩ ≠ d.locate ⟨path⟩) (hread : d.read path = .ok kept) :
    d'.read path = .ok kept := by
  obtain ⟨l, hplace, rfl⟩ := map_eq_ok.mp h
  obtain ⟨-, -, hfree, -⟩ := place_eq_ok hplace
  obtain ⟨m, hlocate, hkept⟩ := read_eq_ok.mp hread
  have hm : m ≠ l := by
    rintro rfl
    exact hne (hplace.trans hlocate.symm)
  cases decEq l .emptyFile with
  | isTrue hl => simpa [put, hl] using hread
  | isFalse hl =>
    refine read_eq_ok.mpr ⟨m, locate_put content hl hfree hlocate, ?_⟩
    rw [content?_put hl, if_neg hm, hkept]

end Directory

/-! ## Laws of file systems -/

namespace FileSystem

variable {σ : Type}

/-- Whatever is written to a file is read back from it. -/
def Keeps (fs : FileSystem σ) (d : σ) (path : String) : Prop :=
  ∀ content d', fs.write d path content = (none, d') → fs.read d' path = .ok content

/-- Whatever is written to a file, another one holds what it held. -/
def Spares (fs : FileSystem σ) (d : σ) (path other : String) : Prop :=
  ∀ content d' kept, fs.write d path content = (none, d') → fs.read d other = .ok kept →
    fs.read d' other = .ok kept

end FileSystem

namespace Directory

variable {d d' : Directory} {path other : String}

theorem write_fileSystem {content : String} :
    fileSystem.write d path content = (none, d') ↔ d.write path content = .ok d' := by
  cases h : d.write path content <;> simp [fileSystem, h]

theorem keeps (h : d.place ⟨path⟩ ≠ .ok .emptyFile) : fileSystem.Keeps d path :=
  fun _ _ hwrite => read_write (write_fileSystem.mp hwrite) h

theorem spares (h : d.place ⟨path⟩ ≠ d.locate ⟨other⟩) : fileSystem.Spares d path other :=
  fun _ _ _ hwrite hread => read_write_of_ne (write_fileSystem.mp hwrite) h hread

end Directory

end FormRules
