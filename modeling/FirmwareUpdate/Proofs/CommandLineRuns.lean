/-
What runs of the program leave in the files.  A line that asks for a job has the effects of
the job and no others; a line that switches checksums off ends like one that names none,
whatever else it says about checksums.
-/
import FirmwareUpdate.CommandLine
import FirmwareUpdate.Proofs.FileEffects
import FirmwareUpdate.Proofs.ImageRoundTrip
import FirmwareUpdate.Proofs.OptionGrammar

namespace FirmwareUpdate

theorem CipherKind.ofName_id (kind : CipherKind) : ofName kind.id = .ok kind := by
  cases kind with
  | plain => rfl
  | block p => cases p <;> rfl
  | stream s => cases s <;> rfl

theorem ChainMode.ofName_name (mode : ChainMode) : ofName mode.name = .ok mode := by
  cases mode <;> rfl

theorem ChecksumKind.ofName_id (kind : ChecksumKind) : ofName kind.id = .ok kind := by
  cases kind <;> rfl

namespace CommandLine

/-- Whether an option speaks of checksums. -/
def OptionName.onChecksum : OptionName → Bool
  | noChecksum | checksum => true
  | _ => false

/-- The checksum that a text names, if any. -/
inductive NamesChecksum : String → Option ChecksumKind → Prop
  | unsigned {text} (h : sameName text "none") : NamesChecksum text none
  | signed {text kind} (h : ChecksumKind.ofName text = .ok kind) : NamesChecksum text (some kind)

/-- A use of an option on checksums that is in order by itself. -/
inductive ChecksumUse : Use → Prop
  | switch : ChecksumUse (.noChecksum, none)
  | named {text checksum} (h : NamesChecksum text checksum) : ChecksumUse (.checksum, some text)

/-- No algorithm has the name that stands for no checksum. -/
theorem not_sameName_none {text : String} {kind : ChecksumKind}
    (h : ChecksumKind.ofName text = .ok kind) : sameName text "none" = false := by
  unfold ChecksumKind.ofName at h
  split at h
  · rename_i found hfound
    have hid := List.find?_some hfound
    rw [sameName, beq_iff_eq] at hid
    rw [sameName, hid]
    cases found <;> decide
  · cases h

namespace Reading

variable {r r' : Reading} {o : OptionName} {value : Option String} {text : String}
  {uses : List Use}

/-- A reading without all that has been said about checksums. -/
def withoutChecksum (r : Reading) : Reading :=
  { r with given := r.given.filter (!·.onChecksum), checksum := none }

/-- Taking in another option does not look at what has been said about checksums. -/
theorem store_withoutChecksum (r : Reading) (ho : o.onChecksum = false) (text : String) :
    r.withoutChecksum.store o text = (r.store o text).map withoutChecksum := by
  cases o with
  | input | output =>
      simp only [store]
      split <;> rfl
  | cipher | mode =>
      simp only [store]
      split <;> rfl
  | checksum | noChecksum => cases ho
  | _ => rfl

theorem accept_withoutChecksum (r : Reading) (ho : o.onChecksum = false) (value : Option String) :
    r.withoutChecksum.accept o value = (r.accept o value).map withoutChecksum := by
  have hmem : o ∈ r.withoutChecksum.given ↔ o ∈ r.given := by simp [withoutChecksum, ho]
  have hgiven : ({ r.withoutChecksum with given := r.withoutChecksum.given ++ [o] } : Reading)
      = ({ r with given := r.given ++ [o] } : Reading).withoutChecksum := by
    simp [withoutChecksum, ho]
  simp only [accept, hmem]
  split
  · rfl
  split
  · rfl
  cases o with
  | help | version => rfl
  | checksum | noChecksum => cases ho
  | _ => simp only [hgiven]; exact store_withoutChecksum _ rfl _

theorem accept_switch (hgiven : OptionName.noChecksum ∉ r.given) :
    r.accept .noChecksum none = .ok { r with given := r.given ++ [.noChecksum] } := by
  simp [accept, hgiven, OptionName.valueWord?, store]

theorem accept_checksum {checksum : Option ChecksumKind}
    (hgiven : OptionName.checksum ∉ r.given) (h : NamesChecksum text checksum) :
    r.accept .checksum (some text) =
      .ok { r with given := r.given ++ [.checksum], checksum := some checksum } := by
  cases h with
  | unsigned htext => simp [accept, hgiven, OptionName.valueWord?, store, htext]
  | signed htext =>
      simp [accept, hgiven, OptionName.valueWord?, store, htext, not_sameName_none htext]

theorem accept_cipher {kind : CipherKind} (hgiven : OptionName.cipher ∉ r.given) :
    r.accept .cipher (some kind.id) =
      .ok { r with given := r.given ++ [.cipher], cipher := some kind } := by
  simp [accept, hgiven, OptionName.valueWord?, store, CipherKind.ofName_id]

theorem accept_mode {mode : ChainMode} (hgiven : OptionName.mode ∉ r.given) :
    r.accept .mode (some mode.name) =
      .ok { r with given := r.given ++ [.mode], mode := some mode } := by
  simp [accept, hgiven, OptionName.valueWord?, store, ChainMode.ofName_name]

/-- A use of an option on checksums is taken in the first time, and changes nothing else. -/
theorem accept_checksumUse (h : ChecksumUse (o, value)) (hgiven : o ∉ r.given) :
    ∃ r', r.accept o value = .ok r' ∧ r'.withoutChecksum = r.withoutChecksum := by
  cases h with
  | switch => exact ⟨_, accept_switch hgiven, by simp [withoutChecksum, OptionName.onChecksum]⟩
  | named htext => exact ⟨_, accept_checksum hgiven htext, by simp [withoutChecksum, OptionName.onChecksum]⟩

theorem of_store (h : r.store o text = .ok r') :
    r'.given = r.given ∧ (o ≠ .checksum → r'.checksum = r.checksum) := by
  cases o with
  | input | output =>
      simp only [store] at h
      split at h
      · cases h
      · cases h
        exact ⟨rfl, fun _ => rfl⟩
  | cipher | mode =>
      simp only [store] at h
      split at h
      · cases h
        exact ⟨rfl, fun _ => rfl⟩
      · cases h
  | checksum =>
      refine ⟨?_, fun hne => absurd rfl hne⟩
      simp only [store] at h
      split at h
      · cases h
        rfl
      · split at h <;> cases h
        rfl
  | _ =>
      cases h
      exact ⟨rfl, fun _ => rfl⟩

/-- An option that is taken in was not given before and is then; only one option decides
on the checksum. -/
theorem of_accept (h : r.accept o value = .ok r') :
    o ∉ r.given ∧ r'.given = r.given ++ [o] ∧ (o ≠ .checksum → r'.checksum = r.checksum) := by
  unfold accept at h
  split at h
  · cases h
  split at h
  · cases h
  rename_i hgiven
  refine ⟨hgiven, ?_⟩
  cases o with
  | help | version => cases h
  | _ => exact of_store h

theorem given_of_take (h : r.take uses = .ok r') : r'.given = r.given ++ uses.map (·.1) := by
  induction uses generalizing r with
  | nil =>
      cases h
      simp
  | cons use rest ih =>
      obtain ⟨next, haccept, hrest⟩ := take_cons_eq_ok_iff.mp h
      rw [ih hrest, (of_accept haccept).2.1]
      simp

/-- Uses of options on checksums that are in order, each option once, leave no trace but
what has been said about checksums. -/
theorem take_withoutChecksum (hsound : ∀ use ∈ uses, use.1.onChecksum → ChecksumUse use)
    (hnodup : ((r.given ++ uses.map (·.1)).filter (·.onChecksum)).Nodup) :
    (r.take uses).map withoutChecksum = r.withoutChecksum.take (uses.filter (!·.1.onChecksum)) := by
  induction uses generalizing r with
  | nil => rfl
  | cons use rest ih =>
      obtain ⟨o, value⟩ := use
      have hrest := fun use hmem => hsound use (List.mem_cons_of_mem _ hmem)
      have hnext {next : Reading} (haccept : r.accept o value = .ok next) :
          ((next.given ++ rest.map (·.1)).filter (·.onChecksum)).Nodup := by
        rw [(of_accept haccept).2.1]
        simpa using hnodup
      rw [take_cons]
      cases ho : o.onChecksum with
      | true =>
          have hgiven : o ∉ r.given := by
            intro hmem
            rw [List.filter_append] at hnodup
            refine (List.nodup_append.mp hnodup).2.2 o ?_ o ?_ rfl
            · exact List.mem_filter.mpr ⟨hmem, ho⟩
            · exact List.mem_filter.mpr ⟨List.mem_cons_self, ho⟩
          obtain ⟨next, haccept, hwithout⟩ :=
            accept_checksumUse (hsound _ List.mem_cons_self ho) hgiven
          rw [haccept, List.filter_cons_of_neg (by simp [ho]), ← hwithout]
          exact ih hrest (hnext haccept)
      | false =>
          rw [List.filter_cons_of_pos (by simp [ho]), take_cons, accept_withoutChecksum r ho]
          cases haccept : r.accept o value with
          | error e => rfl
          | ok next => exact ih hrest (hnext haccept)

/-- Once the checksum has been named it stays as it is. -/
theorem checksum_of_take (hgiven : OptionName.checksum ∈ r.given) (h : r.take uses = .ok r') :
    r'.checksum = r.checksum := by
  induction uses generalizing r with
  | nil =>
      cases h
      rfl
  | cons use rest ih =>
      obtain ⟨next, haccept, hrest⟩ := take_cons_eq_ok_iff.mp h
      obtain ⟨hfresh, hnext, hchecksum⟩ := of_accept haccept
      have hne : use.1 ≠ .checksum := fun heq => hfresh (heq ▸ hgiven)
      have hgiven' : OptionName.checksum ∈ next.given := by
        rw [hnext]
        exact List.mem_append_left _ hgiven
      rw [ih hgiven' hrest, hchecksum hne]

/-- The checksum is the one that has been named. -/
theorem checksum_of_named {checksum : Option ChecksumKind} (hname : NamesChecksum text checksum)
    (hmem : (OptionName.checksum, some text) ∈ uses) (h : r.take uses = .ok r') :
    r'.checksum = some checksum := by
  induction uses generalizing r with
  | nil => cases hmem
  | cons use rest ih =>
      obtain ⟨next, haccept, hrest⟩ := take_cons_eq_ok_iff.mp h
      rcases List.mem_cons.mp hmem with rfl | hlater
      · obtain ⟨hfresh, hnext, -⟩ := of_accept haccept
        rw [accept_checksum hfresh hname, Except.ok.injEq] at haccept
        rw [checksum_of_take (by simp [hnext]) hrest, ← haccept]
      · exact ih hlater hrest

theorem directions_withoutChecksum (r : Reading) : r.withoutChecksum.directions = r.directions := by
  simp only [directions, withoutChecksum, List.filter_filter]
  congr 1
  funext o
  cases o <;> rfl

/-- Without a checksum, a job does not depend on how that was said. -/
theorem job_of_unsigned (h : r.settings.checksum = none) :
    r.job = r.withoutChecksum.job.map fun job =>
      { job with settings := { job.settings with checksum := none } } := by
  have hsettings : r.settings = { r.withoutChecksum.settings with checksum := none } := by
    rw [← h]
    rfl
  have habsent : r.withoutChecksum.absent = r.absent := by
    simp only [absent, directions_withoutChecksum]
    rfl
  have hinput : r.withoutChecksum.input = r.input := rfl
  have houtput : r.withoutChecksum.output = r.output := rfl
  simp only [job, directions_withoutChecksum, hinput, houtput, habsent, hsettings]
  split <;> rfl

end Reading

open Reading

variable {args args' : List String} {uses uses' : List Use}

/-- Uses that leave a job without a checksum: those on checksums are in order, each option
once, and one of them switches checksums off or names none. -/
structure Unsigned (uses : List Use) : Prop where
  sound : ∀ use ∈ uses, use.1.onChecksum → ChecksumUse use
  once : ((uses.map (·.1)).filter (·.onChecksum)).Nodup
  off : (.noChecksum, none) ∈ uses ∨ ∃ text, NamesChecksum text none ∧ (.checksum, some text) ∈ uses

theorem Unsigned.settings_checksum {r : Reading} (h : Unsigned uses)
    (htake : ({} : Reading).take uses = .ok r) : r.settings.checksum = none := by
  rcases h.off with hswitch | ⟨text, hname, hmem⟩
  · have hgiven : OptionName.noChecksum ∈ r.given := by
      rw [given_of_take htake]
      exact List.mem_append_right _ (List.mem_map_of_mem hswitch)
    simp only [settings, hgiven, if_true]
  · simp only [settings, checksum_of_named hname hmem htake, Option.getD_some, ite_self]

/-- The other options decide on the job, whose checksum is off. -/
theorem Unsigned.job_eq (h : Unsigned uses) :
    (({} : Reading).take uses).bind Reading.job =
      ((({} : Reading).take (uses.filter (!·.1.onChecksum))).bind Reading.job).map fun job =>
        { job with settings := { job.settings with checksum := none } } := by
  have hwithout := take_withoutChecksum (r := {}) h.sound h.once
  change _ = ({} : Reading).take _ at hwithout
  rw [← hwithout]
  cases htake : ({} : Reading).take uses with
  | error e => rfl
  | ok r => exact job_of_unsigned (h.settings_checksum htake)

/-- Lines without a checksum that agree in all other options are parsed alike. -/
theorem parse_unsigned (hspells : Spells args uses) (hspells' : Spells args' uses')
    (h : Unsigned uses) (h' : Unsigned uses')
    (hothers : uses.filter (!·.1.onChecksum) = uses'.filter (!·.1.onChecksum)) :
    parse args = parse args' := by
  rw [parse_of_spells hspells, parse_of_spells hspells', h.job_eq, h'.job_eq, hothers]

/-- A use written in one argument. -/
def useText : Use → String
  | (o, none) => "--" ++ o.long
  | (o, some value) => "--" ++ o.long ++ "=" ++ value

theorem spells_map_useText (h : ∀ use ∈ uses, use.2.isSome = use.1.valueWord?.isSome) :
    Spells (uses.map useText) uses := by
  induction uses with
  | nil => exact .nil
  | cons use rest ih =>
      obtain ⟨o, value⟩ := use
      have ho := h _ List.mem_cons_self
      have hrest := ih fun use hmem => h use (List.mem_cons_of_mem _ hmem)
      cases value with
      | none =>
          have ho' : o.valueWord? = none := by simpa using ho.symm
          exact .closed (.flag ho') hrest
      | some value => exact .closed (.assigned ho.symm value) hrest

end CommandLine

namespace Job

open CommandLine CommandLine.Reading

variable {job : Job} {fs : FileSystem}

/-- The options that ask for a job, each of its settings by name. -/
def uses (job : Job) : List Use :=
  [(.cipher, some job.settings.cipher.id), (.mode, some job.settings.mode.name),
    (.checksum, some (job.settings.checksum.elim "none" ChecksumKind.id)),
    (match job.direction with | .encrypt => .encrypt | .decrypt => .decrypt, none),
    (.input, some job.input), (.output, some job.output)]

/-- A line that asks for a job. -/
def line (job : Job) : List String :=
  job.uses.map useText

theorem spells_line (job : Job) : Spells job.line job.uses := by
  apply spells_map_useText
  intro use hmem
  simp only [uses, List.mem_cons, List.not_mem_nil, or_false] at hmem
  rcases hmem with rfl | rfl | rfl | rfl | rfl | rfl <;> try rfl
  cases job.direction <;> rfl

/-- Every job can be asked for, if its paths are not empty. -/
theorem parse_line (job : Job) :
    parse job.line =
      if job.input = "" then .error (.misuse (.missingValue .input))
      else if job.output = "" then .error (.misuse (.missingValue .output))
      else .ok job := by
  obtain ⟨⟨cipher, mode, checksum⟩, direction, input, output⟩ := job
  have hchecksum : NamesChecksum (checksum.elim "none" ChecksumKind.id) checksum := by
    cases checksum with
    | none => exact .unsigned (by decide)
    | some kind => exact .signed kind.ofName_id
  rw [parse_of_spells (spells_line _)]
  simp only [uses]
  rw [take_cons_of_ok (accept_cipher (by simp)), take_cons_of_ok (accept_mode (by simp)),
    take_cons_of_ok (accept_checksum (by simp) hchecksum)]
  by_cases hinput : input = ""
  · cases direction <;>
      simp [take, accept, store, OptionName.valueWord?, hinput, Except.bind]
  by_cases houtput : output = ""
  · cases direction <;>
      simp [take, accept, store, OptionName.valueWord?, hinput, houtput, Except.bind]
  cases direction <;>
    simp [take, accept, store, OptionName.valueWord?, hinput, houtput, Except.bind, Reading.job,
      directions, Reading.settings]

end Job

namespace CommandLine

/-- A run of the program ends like a job: with the same files, and with the exit code 0
exactly if the job succeeds. -/
def EndsLike (run : Outcome × FileSystem) (act : Except JobError Nat × FileSystem) : Prop :=
  run.2 = act.2 ∧ (run.1.exitCode = 0 ↔ ∃ written, act.1 = .ok written)

variable {args : List String} {job : Job} {fs : FileSystem}

/-- A line that asks for a job ends like the job. -/
theorem endsLike_of_parse (h : parse args = .ok job) : EndsLike (run args fs) (job.act fs) := by
  obtain ⟨c, hc⟩ := job.settings.exists_freshCipher
  have hname : job.settings.name = .ok c.name := by simp only [Settings.name, hc]
  simp only [run, h, hname, job.run_eq_act fs]
  cases hact : job.act fs with
  | mk outcome after =>
  cases outcome with
  | error e =>
      have hsame := Job.act_snd_of_error (congrArg Prod.fst hact)
      rw [hact] at hsame
      exact ⟨hsame.symm, by simp [failure]⟩
  | ok written => exact ⟨rfl, by simp⟩

/-- A line that asks for no job leaves all files as they are. -/
theorem run_of_stop {args : List String} {stop : Stop} (h : parse args = .error stop)
    (fs : FileSystem) :
    (run args fs).2 = fs ∧ ((run args fs).1.exitCode = 0 ↔ stop = .help ∨ stop = .version) := by
  simp only [run, h]
  cases stop <;> simp [Stop.outcome]

/-- A line with an empty path is refused, and the job would fail. -/
theorem endsLike_of_misuse {e : UsageError} (h : parse args = .error (.misuse e))
    (hact : ∃ cause, (job.act fs).1 = .error cause) : EndsLike (run args fs) (job.act fs) := by
  obtain ⟨cause, hcause⟩ := hact
  obtain ⟨hfiles, hexit⟩ := run_of_stop h fs
  refine ⟨hfiles.trans (Job.act_snd_of_error hcause).symm, ?_⟩
  rw [hexit, hcause]
  simp

/-- The line of a job ends like the job, also where a path is empty. -/
theorem endsLike_line (job : Job) (fs : FileSystem) : EndsLike (run job.line fs) (job.act fs) := by
  have hparse := job.parse_line
  split at hparse
  · rename_i hinput
    refine endsLike_of_misuse hparse ⟨.unreadable job.input .notFound, ?_⟩
    rw [Job.act_of_unreadable (e := .notFound) (by rw [hinput]; rfl)]
  · split at hparse
    · rename_i houtput
      refine endsLike_of_misuse hparse (Job.exists_error_of_not_opens fun place => ?_)
      rw [houtput]
      exact FileSystem.not_opens_empty
    · exact endsLike_of_parse hparse

end CommandLine

/-- Files are changed by a job that succeeds, and only where its output is; each failure is
the one of its step and leaves everything as it was.  A directory, and a path into one that
is missing, cannot be opened for writing.  The program ends like the job that its line asks
for, every job has such a line, and other lines touch no file.  Lines that leave the job
without a checksum, by the switch or by name, ask for the same job or are refused for the same
reason, with the same exit code and the same files, if they agree in all else. -/
theorem runs_write_only_output :
    (∀ (job : Job) (fs : FileSystem), job.WritesOnlyOutput fs) ∧
    (∀ (job : Job) (fs : FileSystem), job.run fs =
      match job.act fs with
      | (.error e, _) => .error e
      | (.ok written, after) => .ok (written, after)) ∧
    (∀ (fs : FileSystem) (path : String) (directory : Place),
      fs.source path = .ok directory → fs.find? directory = some .directory →
      ∀ place, ¬ fs.Opens path place) ∧
    (∀ (fs : FileSystem) (path : String) (front : List String) (last : String),
      FileSystem.names path = .ok (front ++ [last]) →
      (∀ parent, fs.walk (fs.origin path) front = .ok parent →
        fs.find? parent ≠ some .directory) →
      ∀ place, ¬ fs.Opens path place) ∧
    (∀ (args : List String) (job : Job) (fs : FileSystem), CommandLine.parse args = .ok job →
      CommandLine.EndsLike (CommandLine.run args fs) (job.act fs)) ∧
    (∀ (job : Job) (fs : FileSystem),
      CommandLine.EndsLike (CommandLine.run job.line fs) (job.act fs)) ∧
    (∀ (args : List String) (stop : CommandLine.Stop) (fs : FileSystem),
      CommandLine.parse args = .error stop →
      (CommandLine.run args fs).2 = fs ∧
        ((CommandLine.run args fs).1.exitCode = 0 ↔ stop = .help ∨ stop = .version)) ∧
    (∀ (args : List String) (job : Job), CommandLine.parse args = .ok job →
      ∃ uses, CommandLine.Spells args uses) ∧
    (∀ (args args' : List String) (uses uses' : List CommandLine.Use) (fs : FileSystem),
      CommandLine.Spells args uses → CommandLine.Spells args' uses' →
      CommandLine.Unsigned uses → CommandLine.Unsigned uses' →
      uses.filter (!·.1.onChecksum) = uses'.filter (!·.1.onChecksum) →
      CommandLine.parse args = CommandLine.parse args' ∧
        (CommandLine.run args fs).1.exitCode = (CommandLine.run args' fs).1.exitCode ∧
        (CommandLine.run args fs).2 = (CommandLine.run args' fs).2) := by
  refine ⟨Job.writesOnlyOutput, Job.run_eq_act, ?directories, ?parents, ?lines,
    CommandLine.endsLike_line, ?stops, ?grammar, ?checksums⟩
  case directories =>
    intro fs path directory hsource hdirectory place
    exact FileSystem.not_opens_of_directory hsource hdirectory
  case parents =>
    intro fs path front last hnames hparent place
    exact FileSystem.not_opens_of_parent hnames hparent
  case lines =>
    intro args job fs hparse
    exact CommandLine.endsLike_of_parse hparse
  case stops =>
    intro args stop fs hparse
    exact CommandLine.run_of_stop hparse fs
  case grammar =>
    intro args job hparse
    exact CommandLine.exists_spells_of_parse hparse
  case checksums =>
    intro args args' uses uses' fs hspells hspells' hunsigned hunsigned' hothers
    have hparse := CommandLine.parse_unsigned hspells hspells' hunsigned hunsigned' hothers
    have hrun : CommandLine.run args fs = CommandLine.run args' fs := by
      simp only [CommandLine.run, hparse]
    exact ⟨hparse, congrArg (·.1.exitCode) hrun, congrArg Prod.snd hrun⟩

/-- A path of one character, which is no slash, is its own only name. -/
theorem FileSystem.splitOn_of_one {path : String}
    (hfirst : String.Pos.Raw.atEnd path 0 = false)
    (hslash : (String.Pos.Raw.get path 0 == String.Pos.Raw.get "/" 0) = false)
    (hlast : String.Pos.Raw.atEnd path (String.Pos.Raw.next path 0) = true) :
    path.splitOn "/" = [String.Pos.Raw.extract path 0 (String.Pos.Raw.next path 0)] := by
  change String.splitOnAux path "/" 0 0 0 [] = _
  have hnext : String.Pos.Raw.next path (String.Pos.Raw.unoffsetBy 0 0) =
      String.Pos.Raw.next path 0 := rfl
  rw [String.splitOnAux, if_neg (by rw [hfirst]; decide), if_neg (by rw [hslash]; decide), hnext,
    String.splitOnAux, if_pos hlast]
  rfl

/-- An image that is too short to be decrypted leaves the old output alone, a copy of it
replaces the output, and two lines that go without a checksum ask for the same. -/
theorem runs_write_only_output_over_old :
    let fs : FileSystem := { entries := [(["a"], .file [1, 2, 3]), (["b"], .file [9])] }
    let opening : Job := ⟨{ cipher := .block .gost, checksum := none }, .decrypt, "a", "b"⟩
    let copying : Job := ⟨{ cipher := .plain, checksum := none }, .encrypt, "a", "b"⟩
    let switched := ["-ec", "-i", "a", "--checksum=crc32", "-o", "b"]
    let named := ["--encrypt", "--checksum", "none", "-ia", "-o=b"]
    opening.act fs = (.error (.image (.unaligned 3 8)), fs) ∧
      (∃ after, copying.act fs = (.ok 3, after) ∧ after.read "b" = .ok [1, 2, 3]) ∧
      CommandLine.parse switched = CommandLine.parse named ∧
      (CommandLine.run switched fs).1.exitCode = (CommandLine.run named fs).1.exitCode ∧
      (CommandLine.run switched fs).2 = (CommandLine.run named fs).2 := by
  intro fs opening copying switched named
  obtain ⟨hjobs, -, -, -, -, -, -, -, hlines⟩ := runs_write_only_output
  have hnames : FileSystem.names "a" = .ok ["a"] ∧ FileSystem.names "b" = .ok ["b"] := by
    constructor <;> rw [FileSystem.names, FileSystem.splitOn_of_one rfl rfl rfl] <;> rfl
  have horigin (path : String) : fs.origin path = [] := ite_self _
  have hread : fs.read "a" = .ok [1, 2, 3] := by
    simp only [FileSystem.read, FileSystem.source, hnames.1, horigin]
    rfl
  have hopens : fs.Opens "b" ["b"] := by
    refine ⟨[], "b", [], hnames.2, by decide, ?_, rfl, rfl, by decide⟩
    rw [horigin]
    rfl
  refine ⟨(hjobs opening fs).unworkable _ _ hread rfl, ?_, ?_⟩
  · have hcopy : Image.process copying.settings copying.direction [1, 2, 3] = .ok [1, 2, 3] := by
      decide +kernel
    obtain ⟨after, hact, -, hafter⟩ :=
      (hjobs copying fs).written _ [1, 2, 3] _ hread hcopy hopens (by decide) (by decide)
    exact ⟨after, hact, hafter⟩
  · refine hlines _ _
      [(.encrypt, none), (.noChecksum, none), (.input, some "a"), (.checksum, some "crc32"),
        (.output, some "b")]
      [(.encrypt, none), (.checksum, some "none"), (.input, some "a"), (.output, some "b")]
      fs ?_ ?_ ?_ ?_ rfl
    · refine .closed (.letters (.flag rfl rfl (.flag rfl rfl .nil)))
        (.value (.letters (.last (o := .input) rfl rfl)) ?_
          (.closed (.assigned (o := .checksum) rfl "crc32")
            (.value (.letters (.last (o := .output) rfl rfl)) ?_ .nil))) <;> rintro c rest ⟨⟩
    · refine .closed (.flag (o := .encrypt) rfl) (.value (.last (o := .checksum) rfl) ?_
        (.closed (.letters (.joined (o := .input) ['a'] rfl rfl (by decide) (by decide)))
          (.closed (.letters (.assigned (o := .output) ['b'] rfl rfl)) .nil)))
      rintro c rest ⟨⟩
    · have hname : CommandLine.NamesChecksum "crc32" (some .crc32) := .signed rfl
      refine ⟨?_, by decide, .inl (by decide)⟩
      simp only [List.mem_cons, List.not_mem_nil, or_false]
      rintro use (rfl | rfl | rfl | rfl | rfl) hon
      · cases hon
      · exact .switch
      · cases hon
      · exact .named hname
      · cases hon
    · have hname : CommandLine.NamesChecksum "none" none := .unsigned (by decide)
      refine ⟨?_, by decide, .inr ⟨"none", hname, by decide⟩⟩
      simp only [List.mem_cons, List.not_mem_nil, or_false]
      rintro use (rfl | rfl | rfl | rfl) hon
      · cases hon
      · exact .named hname
      · cases hon
      · cases hon

end FirmwareUpdate
