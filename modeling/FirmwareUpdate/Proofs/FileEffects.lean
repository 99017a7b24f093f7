/-
What a job leaves in the files.  Its work is taken apart into the steps that reach the
files: the input is read, the output is opened, which empties an old file or makes a new
one, and the bytes are written.  Files are kept along with a failure, so that a job which
fails can be asked what it has left behind.
-/
import FirmwareUpdate.Job

namespace FirmwareUpdate

namespace FileSystem

variable {fs after : FileSystem} {path name last : String} {front way : List String}
  {start next place parent : Place} {content : Bytes}

theorem insert_insert (fs : FileSystem) (place : Place) (old entry : Entry) :
    (fs.insert place old).insert place entry = fs.insert place entry := by
  simp [insert]

theorem ne_nil_of_find? (h : fs.find? place ≠ some .directory) : place ≠ [] := by
  rintro rfl
  exact h fs.find?_root

/-- A name is followed from a directory only. -/
theorem find?_of_follow (h : fs.follow start name = .ok next) :
    fs.find? start = some .directory := by
  unfold follow at h
  split at h
  · cases h
  · assumption
  · cases h

/-- The empty name stays where it is, in a directory. -/
theorem follow_empty_eq_ok_iff :
    fs.follow start "" = .ok next ↔ fs.find? start = some .directory ∧ start = next := by
  constructor
  · intro h
    have hstart := find?_of_follow h
    exact ⟨hstart, by simpa [follow, hstart] using h⟩
  · rintro ⟨hstart, rfl⟩
    simp [follow, hstart]

/-- Two states of the files that differ at one place, where a file stands in the second. -/
structure WrittenAt (fs after : FileSystem) (place : Place) (content : Bytes) : Prop where
  stands : after.find? place = some (.file content)
  elsewhere : ∀ other, other ≠ place → after.find? other = fs.find? other
  home : after.home = fs.home

theorem writtenAt_insert (hplace : fs.find? place ≠ some .directory) :
    fs.WrittenAt (fs.insert place (.file content)) place content :=
  ⟨find?_insert_self fs place _ (ne_nil_of_find? hplace),
    fun _ hne => find?_insert_of_ne fs _ hne, rfl⟩

namespace WrittenAt

/-- Following a name looks at the entry of a directory and at nothing else. -/
theorem follow (h : fs.WrittenAt after place content) (hplace : fs.find? place ≠ some .directory)
    (hfollow : fs.follow start name = .ok next) : after.follow start name = .ok next := by
  have hne : start ≠ place := fun heq => hplace (heq ▸ find?_of_follow hfollow)
  simpa only [FileSystem.follow, h.elsewhere start hne] using hfollow

/-- A way through directories stays open when a file is written where none of them is. -/
theorem walk (h : fs.WrittenAt after place content) (hplace : fs.find? place ≠ some .directory)
    (hwalk : fs.walk start way = .ok next) : after.walk start way = .ok next := by
  induction way generalizing start with
  | nil => exact hwalk
  | cons name rest ih =>
      simp only [FileSystem.walk] at hwalk ⊢
      cases hfollow : fs.follow start name with
      | error e => simp [hfollow] at hwalk
      | ok through =>
          rw [hfollow] at hwalk
          rw [h.follow hplace hfollow]
          exact ih hwalk

theorem source (h : fs.WrittenAt after place content) (hplace : fs.find? place ≠ some .directory)
    (hsource : fs.source path = .ok next) : after.source path = .ok next := by
  have horigin : after.origin path = fs.origin path := by simp only [origin, h.home]
  unfold FileSystem.source at hsource ⊢
  split at hsource
  · cases hsource
  · rw [horigin]
    exact h.walk hplace hsource

/-- The content can be read by every path that leads to the place. -/
theorem read (h : fs.WrittenAt after place content) (hplace : fs.find? place ≠ some .directory)
    (hsource : fs.source path = .ok place) : after.read path = .ok content := by
  simp only [FileSystem.read, h.source hplace hsource, h.stands]

end WrittenAt

/-- The last name is followed from where the others lead. -/
theorem walk_concat (fs : FileSystem) (start : Place) (front : List String) (last : String) :
    fs.walk start (front ++ [last]) =
      match fs.walk start front with
      | .error e => .error e
      | .ok parent => fs.follow parent last := by
  induction front generalizing start with
  | nil =>
      simp only [List.nil_append, walk]
      cases fs.follow start last <;> rfl
  | cons name rest ih =>
      simp only [walk, List.cons_append]
      cases fs.follow start name with
      | error e => rfl
      | ok through => exact ih through

/-- A path can be opened for writing at a place: its names but the last lead to a
directory, the last one, which is not empty, leads on to the place, and no directory
stands there. -/
def Opens (fs : FileSystem) (path : String) (place : Place) : Prop :=
  ∃ front last parent, names path = .ok (front ++ [last]) ∧ last ≠ "" ∧
    fs.walk (fs.origin path) front = .ok parent ∧ fs.find? parent = some .directory ∧
    fs.follow parent last = .ok place ∧ fs.find? place ≠ some .directory

/-- A path that can be opened leads to the same place for reading. -/
theorem Opens.source (h : fs.Opens path place) : fs.source path = .ok place := by
  obtain ⟨front, last, parent, hnames, -, hfront, -, hlast, -⟩ := h
  simp only [FileSystem.source, hnames, walk_concat, hfront, hlast]

theorem Opens.find?_ne (h : fs.Opens path place) : fs.find? place ≠ some .directory := by
  obtain ⟨-, -, -, -, -, -, -, -, hplace⟩ := h
  exact hplace

/-- No path to a directory can be opened. -/
theorem not_opens_of_directory (hsource : fs.source path = .ok next)
    (hnext : fs.find? next = some .directory) : ¬ fs.Opens path place := by
  intro h
  rw [h.source, Except.ok.injEq] at hsource
  exact h.find?_ne (hsource ▸ hnext)

/-- Without the directory that its names but the last lead to, no path can be opened. -/
theorem not_opens_of_parent (hnames : names path = .ok (front ++ [last]))
    (hparent : ∀ parent, fs.walk (fs.origin path) front = .ok parent →
      fs.find? parent ≠ some .directory) : ¬ fs.Opens path place := by
  rintro ⟨front', last', parent, hnames', -, hfront, hdirectory, -, -⟩
  rw [hnames, Except.ok.injEq, List.append_singleton_inj] at hnames'
  exact hparent parent (hnames'.1 ▸ hfront) hdirectory

/-- The empty path can never be opened. -/
theorem not_opens_empty : ¬ fs.Opens "" place := by
  rintro ⟨front, last, -, hnames, -⟩
  have hempty : names "" = .error .notFound := rfl
  rw [hempty] at hnames
  cases hnames

/-- The place for writing: the last name is followed from the directory of the others. -/
theorem target_eq_ok_iff (hnames : names path = .ok (front ++ [last])) (hlast : last ≠ "") :
    fs.target path = .ok place ↔
      ∃ parent, fs.walk (fs.origin path) front = .ok parent ∧
        fs.find? parent = some .directory ∧ fs.follow parent last = .ok place := by
  have hnamed : ((front ++ [last]).reverse.dropWhile (· = "")).reverse = front ++ [last] := by
    simp [hlast]
  simp only [target, hnames, hnamed, List.dropLast_concat, walk_concat, Nat.lt_irrefl, if_false,
    List.length_append, List.length_singleton, Nat.add_sub_cancel, List.drop_left]
  cases hfront : fs.walk (fs.origin path) front with
  | error e => simp
  | ok parent =>
      simp only [Except.ok.injEq, exists_eq_left']
      cases hstay : fs.follow parent "" with
      | error e =>
          have hparent : fs.find? parent ≠ some .directory := by
            intro h
            rw [follow_empty_eq_ok_iff.mpr ⟨h, rfl⟩] at hstay
            cases hstay
          simp [hparent]
      | ok stayed =>
          obtain ⟨hparent, rfl⟩ := follow_empty_eq_ok_iff.mp hstay
          simp only [walk, hparent, true_and]
          cases fs.follow parent last <;> rfl

/-- There is no place for writing behind a slash at the end. -/
theorem target_slash (hnames : names path = .ok (front ++ [""])) :
    fs.target path ≠ .ok place := by
  have hshorter : ((front ++ [""]).reverse.dropWhile (· = "")).reverse.length
      < (front ++ [""]).length := by
    have hle := (List.dropWhile_sublist (fun name : String => decide (name = ""))
      (l := front.reverse)).length_le
    rw [List.length_reverse] at hle
    simp only [List.reverse_append, List.reverse_singleton, List.singleton_append,
      List.dropWhile_cons_of_pos, decide_true, List.length_reverse, List.length_append,
      List.length_singleton]
    omega
  simp only [target, hnames, hshorter, if_true]
  split <;> nofun

/-- What can be opened, by the place that the write goes to. -/
theorem opens_iff :
    fs.Opens path place ↔ fs.target path = .ok place ∧ fs.find? place ≠ some .directory := by
  constructor
  · rintro ⟨front, last, parent, hnames, hlast, hfront, hparent, hfollow, hplace⟩
    exact ⟨(target_eq_ok_iff hnames hlast).mpr ⟨parent, hfront, hparent, hfollow⟩, hplace⟩
  · rintro ⟨htarget, hplace⟩
    cases hnames : names path with
    | error e => simp [target, hnames] at htarget
    | ok way =>
        rcases List.eq_nil_or_concat way with rfl | ⟨front, last, rfl⟩
        · -- no name at all would make the path one to the directory that it starts from
          have hstay : fs.follow (fs.origin path) "" = .ok place := by
            cases hfollow : fs.follow (fs.origin path) "" with
            | error e => simp [target, hnames, walk, hfollow] at htarget
            | ok next => simpa [target, hnames, walk, hfollow] using htarget
          obtain ⟨hdirectory, rfl⟩ := follow_empty_eq_ok_iff.mp hstay
          exact absurd hdirectory hplace
        · rw [List.concat_eq_append] at hnames
          by_cases hlast : last = ""
          · exact absurd htarget (target_slash (hlast ▸ hnames))
          · obtain ⟨parent, hfront, hparent, hfollow⟩ :=
              (target_eq_ok_iff hnames hlast).mp htarget
            exact ⟨front, last, parent, hnames, hlast, hfront, hparent, hfollow, hplace⟩

/-- Open a file for writing.  An old file loses its content and a missing one is made;
devices have none to lose.  A failure leaves all files as they are. -/
def create (fs : FileSystem) (path : String) : Except FileError Place × FileSystem :=
  match fs.target path with
  | .error e => (.error e, fs)
  | .ok place =>
      match fs.find? place with
      | some .directory => (.error .isDirectory, fs)
      | some .null | some .full => (.ok place, fs)
      | some (.file _) | none => (.ok place, fs.insert place (.file []))

/-- Write bytes to what has been opened at a place, behind those that are there. -/
def append (fs : FileSystem) (place : Place) (content : Bytes) :
    Except FileError Unit × FileSystem :=
  match fs.find? place with
  | some (.file old) => (.ok (), fs.insert place (.file (old ++ content)))
  | some .full => if content = [] then (.ok (), fs) else (.error .noSpace, fs)
  | some .null | some .directory | none => (.ok (), fs)

/-- Opening and writing make up a write. -/
theorem write_eq (fs : FileSystem) (path : String) (content : Bytes) :
    fs.write path content =
      match fs.create path with
      | (.error e, _) => .error e
      | (.ok place, opened) =>
          match opened.append place content with
          | (.error e, _) => .error e
          | (.ok _, after) => .ok after := by
  cases htarget : fs.target path with
  | error e => simp [write, create, htarget]
  | ok place =>
      have hempty (h : fs.find? place ≠ some .directory) :
          (fs.insert place (.file [])).find? place = some (.file []) :=
        (writtenAt_insert h).stands
      cases hentry : fs.find? place with
      | none =>
          simp [write, create, append, htarget, hentry, hempty, insert_insert]
      | some entry =>
          cases entry with
          | file old => simp [write, create, append, htarget, hentry, hempty, insert_insert]
          | directory => simp [write, create, htarget, hentry]
          | null => simp [write, create, append, htarget, hentry]
          | full =>
              by_cases hnil : content = [] <;>
                simp [write, create, append, htarget, hentry, hnil]

/-- What cannot be opened is left alone, together with everything else. -/
theorem create_of_not_opens (h : ∀ place, ¬ fs.Opens path place) :
    ∃ e, fs.create path = (.error e, fs) := by
  cases htarget : fs.target path with
  | error e => exact ⟨e, by simp [create, htarget]⟩
  | ok place =>
      have hdirectory : fs.find? place = some .directory :=
        Classical.byContradiction fun hne => h place (opens_iff.mpr ⟨htarget, hne⟩)
      exact ⟨.isDirectory, by simp [create, htarget, hdirectory]⟩

/-- A file that can be opened is there, and empty. -/
theorem create_of_opens (h : fs.Opens path place) (hnull : fs.find? place ≠ some .null)
    (hfull : fs.find? place ≠ some .full) :
    fs.create path = (.ok place, fs.insert place (.file [])) := by
  obtain ⟨htarget, hdirectory⟩ := opens_iff.mp h
  cases hentry : fs.find? place with
  | none => simp [create, htarget, hentry]
  | some entry =>
      cases entry with
      | file old => simp [create, htarget, hentry]
      | directory => exact absurd hentry hdirectory
      | null => exact absurd hentry hnull
      | full => exact absurd hentry hfull

end FileSystem

namespace Job

open FileSystem

variable {job : Job} {fs : FileSystem} {content result : Bytes} {place : Place}

/-- Carry out a job step by step.  The files come out whether it fails or not. -/
def act (job : Job) (fs : FileSystem) : Except JobError Nat × FileSystem :=
  match fs.read job.input with
  | .error e => (.error (.unreadable job.input e), fs)
  | .ok content =>
      match job.transform content with
      | .error e => (.error e, fs)
      | .ok result =>
          match fs.create job.output with
          | (.error e, fs) => (.error (.unwritable job.output e), fs)
          | (.ok place, fs) =>
              match fs.append place result with
              | (.error e, fs) => (.error (.unwritable job.output e), fs)
              | (.ok _, fs) => (.ok result.length, fs)

/-- The steps have the outcome of the job. -/
theorem run_eq_act (job : Job) (fs : FileSystem) :
    job.run fs =
      match job.act fs with
      | (.error e, _) => .error e
      | (.ok written, after) => .ok (written, after) := by
  unfold run act
  cases fs.read job.input with
  | error e => rfl
  | ok content =>
      dsimp only
      cases job.transform content with
      | error e => rfl
      | ok result =>
          dsimp only
          rw [write_eq]
          rcases fs.create job.output with ⟨_ | place, opened⟩
          · rfl
          · dsimp only
            rcases opened.append place result with ⟨_ | _, after⟩ <;> rfl

/-- A job whose input cannot be read changes nothing. -/
theorem act_of_unreadable {e : FileError} (hread : fs.read job.input = .error e) :
    job.act fs = (.error (.unreadable job.input e), fs) := by
  simp only [act, hread]

/-- A job whose input cannot be worked on changes nothing. -/
theorem act_of_image {e : ImageError} (hread : fs.read job.input = .ok content)
    (hprocess : Image.process job.settings job.direction content = .error e) :
    job.act fs = (.error (.image e), fs) := by
  simp only [act, hread, transform, hprocess]

/-- A job whose output cannot be opened changes nothing. -/
theorem act_of_not_opens (hread : fs.read job.input = .ok content)
    (hprocess : Image.process job.settings job.direction content = .ok result)
    (hopens : ∀ place, ¬ fs.Opens job.output place) :
    ∃ e, job.act fs = (.error (.unwritable job.output e), fs) := by
  obtain ⟨e, hcreate⟩ := create_of_not_opens hopens
  exact ⟨e, by simp only [act, hread, transform, hprocess, hcreate]⟩

/-- Any other job replaces the content of its output, where that is a file or still missing. -/
theorem act_of_opens (hread : fs.read job.input = .ok content)
    (hprocess : Image.process job.settings job.direction content = .ok result)
    (hopens : fs.Opens job.output place)
    (hnull : fs.find? place ≠ some .null) (hfull : fs.find? place ≠ some .full) :
    job.act fs = (.ok result.length, fs.insert place (.file result)) := by
  have hempty : (fs.insert place (.file [])).find? place = some (.file []) :=
    (writtenAt_insert hopens.find?_ne).stands
  simp only [act, hread, transform, hprocess, create_of_opens hopens hnull hfull, append, hempty,
    insert_insert, List.nil_append]

/-- A device swallows all bytes or refuses them, and stays what it is. -/
theorem act_of_device (hread : fs.read job.input = .ok content)
    (hprocess : Image.process job.settings job.direction content = .ok result)
    (hopens : fs.Opens job.output place)
    (hdevice : fs.find? place = some .null ∨ fs.find? place = some .full) :
    job.act fs =
      (if fs.find? place = some .full ∧ result ≠ [] then .error (.unwritable job.output .noSpace)
        else .ok result.length, fs) := by
  obtain ⟨htarget, -⟩ := opens_iff.mp hopens
  rcases hdevice with hnull | hfull
  · simp [act, hread, transform, hprocess, create, htarget, append, hnull]
  · by_cases hnil : result = [] <;>
      simp [act, hread, transform, hprocess, create, htarget, append, hfull, hnil]

/-- What a job leaves behind in each way in which it can end.  The content that is worked
on is the one that was there before, also where the output is the input. -/
structure WritesOnlyOutput (job : Job) (fs : FileSystem) : Prop where
  unreadable : ∀ e, fs.read job.input = .error e →
    job.act fs = (.error (.unreadable job.input e), fs)
  unworkable : ∀ content e, fs.read job.input = .ok content →
    Image.process job.settings job.direction content = .error e →
    job.act fs = (.error (.image e), fs)
  unopened : ∀ content result, fs.read job.input = .ok content →
    Image.process job.settings job.direction content = .ok result →
    (∀ place, ¬ fs.Opens job.output place) →
    ∃ e, job.act fs = (.error (.unwritable job.output e), fs)
  written : ∀ content result place, fs.read job.input = .ok content →
    Image.process job.settings job.direction content = .ok result →
    fs.Opens job.output place → fs.find? place ≠ some .null → fs.find? place ≠ some .full →
    ∃ after, job.act fs = (.ok result.length, after) ∧ fs.WrittenAt after place result ∧
      after.read job.output = .ok result
  device : ∀ content result place, fs.read job.input = .ok content →
    Image.process job.settings job.direction content = .ok result →
    fs.Opens job.output place → fs.find? place = some .null ∨ fs.find? place = some .full →
    job.act fs =
      (if fs.find? place = some .full ∧ result ≠ [] then .error (.unwritable job.output .noSpace)
        else .ok result.length, fs)

theorem writesOnlyOutput (job : Job) (fs : FileSystem) : job.WritesOnlyOutput fs where
  unreadable _ := act_of_unreadable
  unworkable _ _ := act_of_image
  unopened _ _ := act_of_not_opens
  written _ _ _ hread hprocess hopens hnull hfull :=
    have hafter := writtenAt_insert hopens.find?_ne
    ⟨_, act_of_opens hread hprocess hopens hnull hfull, hafter,
      hafter.read hopens.find?_ne hopens.source⟩
  device _ _ _ := act_of_device

/-- A job that fails changes nothing. -/
theorem act_snd_of_error {e : JobError} (h : (job.act fs).1 = .error e) :
    (job.act fs).2 = fs := by
  have hjob := job.writesOnlyOutput fs
  cases hread : fs.read job.input with
  | error cause => rw [hjob.unreadable cause hread]
  | ok content =>
      cases hprocess : Image.process job.settings job.direction content with
      | error cause => rw [hjob.unworkable content cause hread hprocess]
      | ok result =>
          by_cases hopens : ∃ place, fs.Opens job.output place
          · obtain ⟨place, hopens⟩ := hopens
            by_cases hdevice : fs.find? place = some .null ∨ fs.find? place = some .full
            · rw [hjob.device content result place hread hprocess hopens hdevice]
            · obtain ⟨hnull, hfull⟩ := not_or.mp hdevice
              obtain ⟨after, hact, -⟩ :=
                hjob.written content result place hread hprocess hopens hnull hfull
              rw [hact] at h
              cases h
          · obtain ⟨cause, hact⟩ :=
              hjob.unopened content result hread hprocess (not_exists.mp hopens)
            rw [hact]

/-- A job fails unless its output can be opened. -/
theorem exists_error_of_not_opens (hopens : ∀ place, ¬ fs.Opens job.output place) :
    ∃ e, (job.act fs).1 = .error e := by
  have hjob := job.writesOnlyOutput fs
  cases hread : fs.read job.input with
  | error cause => exact ⟨_, congrArg Prod.fst (hjob.unreadable cause hread)⟩
  | ok content =>
      cases hprocess : Image.process job.settings job.direction content with
      | error cause => exact ⟨_, congrArg Prod.fst (hjob.unworkable content cause hread hprocess)⟩
      | ok result =>
          obtain ⟨cause, hact⟩ := hjob.unopened content result hread hprocess hopens
          exact ⟨_, congrArg Prod.fst hact⟩

end Job

end FirmwareUpdate
