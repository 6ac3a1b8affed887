import ExecState.Disk.FileTree
import ExecState.Program.Run
import ExecState.Proofs.Options.Accepted
import ExecState.Proofs.Text.Unsigned

/-!
# The arithmetic of log settings

Two numbers are worked on when logs are started: one is taken from the verbosity, and the greatest
size of a file is turned from mebibytes into bytes. Neither operation has a check of its own, so
each is as good as what the reading of options leaves behind.

For the verbosity this is enough. The option is counted up to 255, and where it is absent the number
is one, so there is always one to take away. For the size it is not: every number of 64 bits is
read, and from `2 ^ 44` mebibytes on the bytes are more than 64 bits tell. Such a size breaks the
start off, though only where there is a directory for the file, since nobody asks for the bytes
otherwise.

What a start may come to depends on a disk, on the journal and on what `RUST_LOG` holds, and is put
together from several faults. It is said once (`Settings.Starts`), and all that is said of starts is
read off there by cases.
-/

namespace ExecState.Logging

open Options (Taken)

/-- The level by how often the option for it is given, as its help text lists it. -/
def Level.ofCount : Nat → Level
  | 0 | 1 => .warn
  | 2 => .info
  | 3 => .debug
  | _ + 4 => .trace

theorem Level.ofCount_max_min (count : Nat) :
    ofCount (max 1 (min count 255)) = ofCount count := by
  match count with
  | 0 | 1 | 2 | 3 => rfl
  | n + 4 =>
    have hcapped : max 1 (min (n + 4) 255) = min n 251 + 4 := by omega
    rw [hcapped]
    rfl

namespace Settings

/-! ## Verbosity -/

section Verbosity

variable {ι : Type} [DecidableEq ι]

theorem has_iff_count_pos (t : Taken ι) (o : ι) : t.has o ↔ 0 < t.count o := by
  rw [Taken.has, Taken.count, List.any_eq_true, List.countP_pos_iff]

theorem toNat_repeats (t : Taken ι) (o : ι) (usual : UInt8) :
    (repeats t o usual).toNat = if 0 < t.count o then min (t.count o) 255 else usual.toNat := by
  have hvalue : (UInt8.ofNat (min (t.count o) 255)).toNat = min (t.count o) 255 :=
    UInt8.toNat_ofNat_of_lt (Nat.lt_succ_of_le (Nat.min_le_right _ _))
  rw [repeats, apply_ite UInt8.toNat, hvalue]
  exact if_congr (has_iff_count_pos t o) rfl rfl

theorem verbosity_pos_withOptions (wrap : LogOption → ι) {s : Settings} (hs : 0 < s.verbosity.toNat)
    (t : Taken ι) : 0 < (s.withOptions wrap t).verbosity.toNat := by
  change 0 < (repeats t (wrap .verbosity) s.verbosity).toNat
  rw [toNat_repeats]
  split
  · omega
  · exact hs

theorem toNat_verbosity_standard (wrap : LogOption → ι) (t : Taken ι) :
    (standard.withOptions wrap t).verbosity.toNat
      = max 1 (min (t.count (wrap .verbosity)) 255) := by
  have hone : (1 : UInt8).toNat = 1 := rfl
  change (repeats t (wrap .verbosity) 1).toNat = _
  rw [toNat_repeats, hone]
  split
  · omega
  · omega

variable {s : Settings}

/-- From a verbosity that is not zero one is taken away as from a number without bound. -/
theorem toNat_verbosity_sub_one (hs : 0 < s.verbosity.toNat) :
    (s.verbosity - 1).toNat + 1 = s.verbosity.toNat := by
  have hone : (1 : UInt8) ≤ s.verbosity := UInt8.le_iff_toNat_le.mpr hs
  have hsub : (s.verbosity - 1).toNat = s.verbosity.toNat - 1 := UInt8.toNat_sub_of_le _ _ hone
  omega

theorem level_eq (hs : 0 < s.verbosity.toNat) :
    s.level = if s.quiet then .off else Level.ofCount s.verbosity.toNat := by
  have hsub := toNat_verbosity_sub_one hs
  rw [level, ← hsub]
  refine if_congr Iff.rfl rfl ?_
  split
  · rename_i hzero
    rw [hzero]
    rfl
  · rename_i hone
    rw [hone]
    rfl
  · rename_i htwo
    rw [htwo]
    rfl
  · rename_i hzero hone htwo
    -- what is left is three or more
    have hthree : 3 ≤ (s.verbosity - 1).toNat := by
      have hne {n : UInt8} (h : s.verbosity - 1 ≠ n) : (s.verbosity - 1).toNat ≠ n.toNat :=
        fun heq ↦ h (UInt8.toNat_inj.mp heq)
      have h0 : (s.verbosity - 1).toNat ≠ 0 := hne hzero
      have h1 : (s.verbosity - 1).toNat ≠ 1 := hne hone
      have h2 : (s.verbosity - 1).toNat ≠ 2 := hne htwo
      omega
    obtain ⟨n, hn⟩ := Nat.exists_eq_add_of_le' hthree
    rw [hn]
    rfl

/-- Whether there is a verbosity to take one from, where it is taken. -/
def HasLevel (s : Settings) : Prop := s.quiet = false → 0 < s.verbosity.toNat

theorem checkLevel_of_hasLevel (h : s.HasLevel) : s.checkLevel = .ok s.level := by
  rw [checkLevel, if_neg]
  rw [Bool.and_eq_true, not_and, Bool.not_eq_true', decide_eq_true_iff]
  intro hloud hzero
  have hpos := h hloud
  rw [hzero] at hpos
  exact absurd hpos (by decide)

theorem checkLevel_of_not_hasLevel (h : ¬s.HasLevel) : s.checkLevel = .error .noVerbosity := by
  obtain ⟨hloud, hverbosity⟩ := Classical.not_imp.mp h
  have hzero : s.verbosity = 0 := UInt8.toNat_inj.mp (Nat.eq_zero_of_not_pos hverbosity)
  rw [checkLevel, hloud, hzero]
  rfl

end Verbosity

/-! ## Numbers -/

section Numbers

variable {ι : Type} [DecidableEq ι] {g : Options.Grammar ι} {t : Taken ι} {o : ι}

theorem spells_number (ht : g.Sound t.options) (ho : g.shape o = .value)
    (hfault : g.fault o = LogOption.numberFault) {text : String}
    (htext : (o, some text) ∈ t.options) (usual : UInt64) :
    Unsigned.Spells 10 text.toList (number t o usual).toNat := by
  obtain ⟨_, ⟨⟩, hnone⟩ := ht.checked _ htext ho
  rw [hfault, LogOption.numberFault] at hnone
  cases hread : Unsigned.readUInt64 text with
  | error e => simp [hread] at hnone
  | ok n =>
    have hvalue := (Taken.value?_eq_some_iff ht ho).mpr htext
    have hnumber : number t o usual = n := by
      rw [number, hvalue, Option.map_some, hread]
    rw [hnumber]
    exact Unsigned.readUInt64_eq_ok_iff.mp hread

theorem number_of_absent (ht : g.Sound t.options) (ho : g.shape o = .value)
    (habsent : ∀ v, (o, v) ∉ t.options) (usual : UInt64) : number t o usual = usual := by
  rw [number, (Taken.value?_eq_none_iff ht ho).mpr habsent]
  rfl

end Numbers

/-! ## The size of a file -/

theorem maxFileBytes_eq (s : Settings) : s.maxFileBytes = s.maxFileSize.toNat * 1048576 :=
  Nat.mul_assoc _ _ _

/-- Whether the bytes of a file that may be asked for are a number of 64 bits. -/
def Fits (s : Settings) : Prop := s.directory.isSome → s.maxFileBytes < UInt64.size

theorem not_fits_iff {s : Settings} :
    ¬s.Fits ↔ s.directory.isSome ∧ 2 ^ 44 ≤ s.maxFileSize.toNat := by
  have hsize : UInt64.size = 2 ^ 44 * 1048576 := rfl
  rw [Fits, maxFileBytes_eq, Classical.not_imp]
  exact and_congr_right fun _ ↦ (by omega)

theorem checkFile_of_fits {s : Settings} (h : s.Fits) : s.checkFile = .ok () := by
  rw [checkFile, if_neg]
  simpa [Fits] using h

theorem checkFile_of_not_fits {s : Settings} (h : ¬s.Fits) :
    s.checkFile = .error (.fileSize s.maxFileBytes) := by
  rw [checkFile, if_pos]
  simpa [Fits] using h

/-! ## Starting -/

def filters (s : Settings) : List String := [s.stdoutFilter, s.journaldFilter, s.fileFilter]

/-- What the start of logs may come to. -/
inductive Starts (host : Host) (s : Settings) : Except LogError (Option LogFile) → Prop
  | noVerbosity (h : ¬s.HasLevel) : Starts host s (.error .noVerbosity)
  | tooLarge (h : ¬s.Fits) : Starts host s (.error (.fileSize s.maxFileBytes))
  | surrounding (h : s.Fits) (read : readWellFormed (directives host.rustLog)
      = .error .splitCharacter) : Starts host s (.error (.filter host.rustLog .splitCharacter))
  | filter (h : s.Fits) {text : String} {fault : FilterFault} (mem : text ∈ s.filters)
      (read : readFilter text = .error fault) : Starts host s (.error (.filter text fault))
  | noJournal (h : s.Fits) (asked : s.journald) (silent : host.journal = false) :
      Starts host s (.error .noJournal)
  | refused (h : s.Fits) (given : s.directory.isSome) (cause : DiskError) :
      Starts host s (.error (.directory cause))
  | unfiled (h : s.Fits) (absent : s.directory = none) : Starts host s (.ok none)
  | filed (h : s.Fits) {file : LogFile} (given : s.file? = some file) :
      Starts host s (.ok (some file))

theorem readDirective_name (l : Level) : readDirective l.name.toList = .ok () := by
  cases l <;> decide +kernel

/-- Where malformed directives are passed over, only one that is cut within a character is left. -/
theorem readWellFormed_eq_error {parts : List String} {fault : FilterFault}
    (h : readWellFormed parts = .error fault) : fault = .splitCharacter := by
  induction parts with
  | nil => cases h
  | cons part rest ih =>
    rw [readWellFormed] at h
    split at h
    · exact (Except.error.inj h).symm
    · exact ih h
    · exact ih h

section Check

variable {host : Host} {s : Settings} {e : LogError}

theorem starts_of_checkFilter (hfits : s.Fits) {text : String} (mem : text ∈ s.filters)
    (h : checkFilter host text = .error e) : s.Starts host (.error e) := by
  rw [checkFilter] at h
  cases hsurrounding : readWellFormed (directives host.rustLog) with
  | error fault =>
    obtain rfl := readWellFormed_eq_error hsurrounding
    rw [hsurrounding] at h
    exact Except.error.inj h ▸ .surrounding hfits hsurrounding
  | ok u =>
    rw [hsurrounding] at h
    cases hread : readFilter text with
    | error fault =>
      rw [hread] at h
      exact Except.error.inj h ▸ .filter hfits mem hread
    | ok u =>
      rw [hread] at h
      cases h

theorem starts_of_checkStdout (hfits : s.Fits) {level : Level}
    (h : s.checkStdout host level = .error e) : s.Starts host (.error e) := by
  rw [checkStdout, readDirective_name] at h
  exact starts_of_checkFilter hfits (by simp [filters]) h

theorem starts_of_checkJournal (hfits : s.Fits) (h : s.checkJournal host = .error e) :
    s.Starts host (.error e) := by
  by_cases hjournald : s.journald
  · rw [checkJournal, if_pos hjournald] at h
    cases hfilter : checkFilter host s.journaldFilter with
    | error e' =>
      rw [hfilter] at h
      exact Except.error.inj h ▸ starts_of_checkFilter hfits (by simp [filters]) hfilter
    | ok u =>
      rw [hfilter] at h
      cases hanswer : host.journal with
      | true =>
        rw [hanswer] at h
        cases h
      | false =>
        rw [hanswer] at h
        exact Except.error.inj h ▸ .noJournal hfits hjournald hanswer
  · rw [checkJournal, if_neg hjournald] at h
    cases h

end Check

theorem check_of_hasLevel (host : Host) {s : Settings} (h : s.HasLevel) :
    s.check host = (do
      s.checkFile
      s.checkStdout host s.level
      s.checkJournal host) := by
  rw [check, checkLevel_of_hasLevel h]
  rfl

theorem check_cases (host : Host) (s : Settings) :
    (s.check host = .ok () ∧ s.Fits) ∨ ∃ e, s.check host = .error e ∧ s.Starts host (.error e) := by
  by_cases hlevel : s.HasLevel
  · rw [check_of_hasLevel host hlevel]
    by_cases hfits : s.Fits
    · rw [checkFile_of_fits hfits]
      cases hstdout : s.checkStdout host s.level with
      | error e => exact .inr ⟨e, rfl, starts_of_checkStdout hfits hstdout⟩
      | ok u =>
        cases hjournal : s.checkJournal host with
        | error e => exact .inr ⟨e, rfl, starts_of_checkJournal hfits hjournal⟩
        | ok u => exact .inl ⟨rfl, hfits⟩
    · rw [checkFile_of_not_fits hfits]
      exact .inr ⟨_, rfl, .tooLarge hfits⟩
  · rw [check, checkLevel_of_not_hasLevel hlevel]
    exact .inr ⟨_, rfl, .noVerbosity hlevel⟩

variable {σ : Type}

theorem run_bind_holds {α β : Type} {P : β → Prop} (x : StateM σ α) (f : α → StateM σ β) (world : σ)
    (h : ∀ a world', x.run world = (a, world') → P ((f a).run world').1) :
    P ((x >>= f).run world).1 :=
  h _ _ rfl

theorem openFile_cases (disk : Disk (StateM σ)) (directory : String) (file : LogFile) (world : σ) :
    ((openFile disk directory file).run world).1 = .ok () ∨
      ∃ cause, ((openFile disk directory file).run world).1 = .error (.directory cause) := by
  let P : Except LogError Unit → Prop := fun r ↦ r = .ok () ∨ ∃ cause, r = .error (.directory cause)
  change P _
  rw [openFile]
  refine run_bind_holds _ _ world fun made world' _ ↦ ?_
  cases made with
  | error cause => exact .inr ⟨cause, rfl⟩
  | ok u =>
    refine run_bind_holds _ _ world' fun appended world'' _ ↦ ?_
    cases appended with
    | error cause => exact .inr ⟨cause, rfl⟩
    | ok u => exact .inl rfl

/-- **What a start may come to**, whatever the disk and the machine do. -/
theorem starts_start (s : Settings) (disk : Disk (StateM σ)) (host : Host) (world : σ) :
    s.Starts host ((s.start disk host).run world).1 := by
  rw [start]
  rcases s.check_cases host with ⟨hcheck, hfits⟩ | ⟨e, hcheck, he⟩
  · rw [hcheck]
    cases hdirectory : s.directory with
    | none => exact .unfiled hfits hdirectory
    | some directory =>
      let file : LogFile := ⟨pathWithin directory "evmstate.log", s.maxFileBytes, s.maxFiles⟩
      have hfile : s.file? = some file := by
        rw [file?, hdirectory]
        rfl
      rw [hfile]
      refine run_bind_holds _ _ world fun opened world' hopened ↦ ?_
      have hcases := openFile_cases disk directory file world
      rw [hopened] at hcases
      rcases hcases with rfl | ⟨cause, rfl⟩
      · cases hfilter : checkFilter host s.fileFilter with
        | error e => exact starts_of_checkFilter hfits (by simp [filters]) hfilter
        | ok u => exact .filed hfits hfile
      · exact .refused hfits (Option.isSome_of_eq_some hdirectory) cause
  · rw [hcheck]
    exact he

section Starts

variable {host : Host} {s : Settings} {r : Except LogError (Option LogFile)}

theorem Starts.eq_fileSize_iff (h : s.Starts host r) (hlevel : s.HasLevel) {bytes : Nat} :
    r = .error (.fileSize bytes) ↔ ¬s.Fits ∧ bytes = s.maxFileBytes := by
  cases h with
  | noVerbosity hnone => exact absurd hlevel hnone
  | tooLarge hlarge => simp [hlarge, eq_comm]
  | surrounding hfits | filter hfits | noJournal hfits | refused hfits | unfiled hfits
  | filed hfits => simp [hfits]

/-- Apart from the size, a start breaks off over a directive alone that is cut within a
character. -/
theorem Starts.of_fatal {e : LogError} (h : s.Starts host (.error e)) (hlevel : s.HasLevel)
    (hfatal : e.isFatal) :
    (∃ bytes, e = .fileSize bytes) ∨
      ∃ text, (text = host.rustLog ∨ text ∈ s.filters) ∧ e = .filter text .splitCharacter := by
  cases h with
  | noVerbosity hnone => exact absurd hlevel hnone
  | tooLarge => exact .inl ⟨_, rfl⟩
  | surrounding => exact .inr ⟨_, .inl rfl, rfl⟩
  | @filter _ text fault mem =>
    cases fault with
    | malformed => cases hfatal
    | splitCharacter => exact .inr ⟨text, .inr mem, rfl⟩
  | noJournal | refused => cases hfatal

theorem Starts.maxBytes_of_ok {file : LogFile} (h : s.Starts host (.ok (some file))) :
    file.maxBytes = s.maxFileBytes ∧ file.maxBytes < UInt64.size := by
  cases h with
  | filed hfits given =>
    obtain ⟨directory, hdirectory, rfl⟩ := Option.map_eq_some_iff.mp given
    exact ⟨rfl, hfits (Option.isSome_of_eq_some hdirectory)⟩

end Starts

/-! ## Arguments -/

theorem ofArguments_eq_ok_iff {arguments : List String} {s : Settings} :
    ofArguments arguments = .ok s ↔
      ∃ t, Options.read OnlyLogs.grammar arguments = .ok t ∧
        standard.withOptions OnlyLogs.log t = s := by
  rw [ofArguments, bind_eq_ok_iff]
  exact exists_congr fun t ↦ and_congr_right fun _ ↦ ⟨Except.ok.inj, congrArg Except.ok⟩

/-- **The arithmetic of log options.** For all words that are read there is a verbosity from which
one can be taken, the level is the one that the number of its options stands for, and the size of a
file is the number that was given for it. Whatever the disk does, the journal answers and `RUST_LOG`
holds, a start breaks off over the size exactly where a directory was given and the bytes pass 64
bits; apart from that it breaks off over a directive alone that is cut within a character, and a
file that logs are written to is limited to the bytes asked for. -/
theorem start_ofArguments {arguments : List String} {s : Settings}
    (h : ofArguments arguments = .ok s) :
    (∃ t, Options.read OnlyLogs.grammar arguments = .ok t ∧
      s.verbosity.toNat = max 1 (min (t.count (.log .verbosity)) 255) ∧
      s.checkLevel = .ok (if t.has (.log .quiet) then .off
        else Level.ofCount (t.count (.log .verbosity))) ∧
      (∀ text, (.log .maxFileSize, some text) ∈ t.options →
        Unsigned.Spells 10 text.toList s.maxFileSize.toNat) ∧
      ((∀ v, (.log .maxFileSize, v) ∉ t.options) → s.maxFileSize = 200)) ∧
    (s.verbosity - 1).toNat + 1 = s.verbosity.toNat ∧
    ∀ {σ : Type} (disk : Disk (StateM σ)) (host : Host) (world : σ),
      (∀ bytes, ((s.start disk host).run world).1 = .error (.fileSize bytes) ↔
        s.directory.isSome ∧ 2 ^ 44 ≤ s.maxFileSize.toNat ∧
          bytes = s.maxFileSize.toNat * 1048576) ∧
      (∀ e, ((s.start disk host).run world).1 = .error e → e.isFatal →
        (∃ bytes, e = .fileSize bytes) ∨
          ∃ text, (text = host.rustLog ∨ text ∈ s.filters) ∧
            e = .filter text .splitCharacter) ∧
      ∀ file, ((s.start disk host).run world).1 = .ok (some file) →
        file.maxBytes = s.maxFileSize.toNat * 1048576 ∧ file.maxBytes < 2 ^ 64 := by
  obtain ⟨t, hread, rfl⟩ := ofArguments_eq_ok_iff.mp h
  have hsound := Options.sound_read hread
  have hverbosity := toNat_verbosity_standard OnlyLogs.log t
  have hpos : 0 < (standard.withOptions OnlyLogs.log t).verbosity.toNat := by omega
  have hlevel : (standard.withOptions OnlyLogs.log t).HasLevel := fun _ ↦ hpos
  refine ⟨⟨t, hread, hverbosity, ?_, ?_, ?_⟩, toNat_verbosity_sub_one hpos, ?_⟩
  · rw [checkLevel_of_hasLevel hlevel, level_eq hpos, hverbosity, Level.ofCount_max_min]
    rfl
  · exact fun text htext ↦ spells_number hsound rfl rfl htext 200
  · exact fun habsent ↦ number_of_absent hsound rfl habsent 200
  · intro σ disk host world
    have hstarts := starts_start (standard.withOptions OnlyLogs.log t) disk host world
    refine ⟨fun bytes ↦ ?_, fun e he ↦ ?_, fun file hfile ↦ ?_⟩
    · rw [hstarts.eq_fileSize_iff hlevel, not_fits_iff, maxFileBytes_eq, and_assoc]
    · exact (he ▸ hstarts).of_fatal hlevel
    · rw [← maxFileBytes_eq]
      exact (hfile ▸ hstarts).maxBytes_of_ok

theorem ofArguments_directory_maxFileSize {directory size : String} {n : UInt64}
    (hdirectory : directory.isEmpty = false) (hdash : directory.toList.head? ≠ some '-')
    (hsize : Unsigned.readUInt64 size = .ok n) :
    ofArguments ["--log.file.directory", directory, "--log.file.max-size", size]
      = .ok { standard with directory := some directory, maxFileSize := n } := by
  have hsign := (Unsigned.readUInt64_eq_ok_iff.mp hsize).head_ne
  -- the directory is checked when the next option comes, and the size at the end
  let g := OnlyLogs.grammar
  let one : List (OnlyLogs × Option String) := [(.log .directory, some directory)]
  let two : List (OnlyLogs × Option String) := (.log .maxFileSize, some size) :: one
  have hone : Taken.settle g ⟨[], [], some (.log .directory, some directory)⟩
      = .ok ⟨one, [], none⟩ := by
    have hfault : g.fault (.log .directory) directory = none := by
      change (if directory.isEmpty then _ else none) = none
      rw [hdirectory]
      rfl
    exact Taken.settle_value (t := ⟨[], [], none⟩) rfl rfl hfault
  have htwo : Taken.settle g ⟨one, [], some (.log .maxFileSize, some size)⟩
      = .ok ⟨two, [], none⟩ := by
    have hfault : g.fault (.log .maxFileSize) size = none := by
      change LogOption.numberFault size = none
      rw [LogOption.numberFault, hsize]
    exact Taken.settle_value (t := ⟨one, [], none⟩) rfl rfl hfault
  have hreading : Options.readFrom g Taken.empty
      ["--log.file.directory", directory, "--log.file.max-size", size]
        = .ok ⟨⟨one, [], some (.log .maxFileSize, some size)⟩, none⟩ := by
    change Options.readFrom g ⟨[], [], some (.log .directory, none)⟩ _ = _
    rw [Options.readFrom_value rfl hdash]
    have hlong : Taken.long g ⟨[], [], some (.log .directory, some directory)⟩
        "log.file.max-size".toList = .ok ⟨one, [], some (.log .maxFileSize, none)⟩ := by
      change (do
        let t ← Taken.settle g ⟨[], [], some (.log .directory, some directory)⟩
        return { t with pending := some (.log .maxFileSize, none) }) = _
      rw [hone]
      rfl
    change (do Options.readFrom g (← Taken.long g _ "log.file.max-size".toList) [size]) = _
    rw [hlong]
    change Options.readFrom g ⟨one, [], some (.log .maxFileSize, none)⟩ [size] = _
    rw [Options.readFrom_value rfl hsign]
    rfl
  have hread : Options.read g ["--log.file.directory", directory, "--log.file.max-size", size]
      = .ok ⟨two, [], none⟩ := by
    rw [Options.read, hreading]
    exact htwo
  have hnumber : number ⟨two, [], none⟩ (OnlyLogs.log .maxFileSize) 200 = n := by
    have hvalue : Taken.value? ⟨two, [], none⟩ (OnlyLogs.log .maxFileSize) = some size := rfl
    rw [number, hvalue, Option.map_some, hsize]
  rw [ofArguments, hread, ← hnumber]
  rfl

/-- Options with which the bytes of a file are one number more than 64 bits tell. -/
def oversized : List String :=
  ["--log.file.directory", "logs", "--log.file.max-size", "17592186044416"]

theorem ofArguments_oversized :
    ofArguments oversized
      = .ok { standard with directory := some "logs", maxFileSize := 17592186044416 } :=
  ofArguments_directory_maxFileSize rfl (by decide) (by decide +kernel)

/-- The bytes of a file are not for all options a number of 64 bits. -/
theorem not_forall_start_ne_fileSize :
    ¬∀ (arguments : List String) (s : Settings), ofArguments arguments = .ok s →
      ∀ (disk : Disk (StateM FileTree)) (host : Host) (world : FileTree) (bytes : Nat),
        ((s.start disk host).run world).1 ≠ .error (.fileSize bytes) := by
  intro h
  exact h oversized _ ofArguments_oversized FileTree.disk .bare FileTree.empty (2 ^ 64) rfl

/-- Options with which the bytes of a file are the most whole mebibytes that 64 bits tell. -/
def greatest : List String :=
  ["--log.file.directory", "logs", "--log.file.max-size", "17592186044415"]

theorem start_ofArguments_greatest :
    ∃ s, ofArguments greatest = .ok s ∧ (s.verbosity - 1).toNat + 1 = 1 ∧
      ∀ (host : Host) (world : FileTree) (bytes : Nat),
        ((s.start FileTree.disk host).run world).1 ≠ .error (.fileSize bytes) := by
  have hsize : Unsigned.readUInt64 "17592186044415" = .ok 17592186044415 := by decide +kernel
  have hread := ofArguments_directory_maxFileSize (rfl : "logs".isEmpty = false) (by decide) hsize
  obtain ⟨-, hverbosity, hstart⟩ := start_ofArguments hread
  refine ⟨_, hread, hverbosity, fun host world bytes hlarge ↦ ?_⟩
  have hbounds := ((hstart FileTree.disk host world).1 bytes).mp hlarge
  exact absurd hbounds.2.1 (by decide)

end Settings

end ExecState.Logging

namespace ExecState.Program

open Logging (Settings)

theorem Call.verbosity_pos {arguments : List String} {call : Call}
    (h : Call.ofArguments arguments = .ok call) : 0 < call.logs.verbosity.toNat := by
  obtain ⟨reading, -, hcall⟩ := bind_eq_ok_iff.mp h
  split at hcall
  · obtain ⟨_, -, herror⟩ := bind_eq_ok_iff.mp hcall
    cases herror
  · split at hcall
    · cases hcall
    · obtain ⟨inner, -, hcall⟩ := bind_eq_ok_iff.mp hcall
      obtain ⟨request, -, hcall⟩ := bind_eq_ok_iff.mp hcall
      obtain ⟨outer, -, hcall⟩ := bind_eq_ok_iff.mp hcall
      have houter := Settings.verbosity_pos_withOptions CallOption.log
        (s := Settings.standard) Nat.one_pos outer
      exact Except.ok.inj hcall ▸ Settings.verbosity_pos_withOptions CallOption.log houter inner

/-- The options before the name of a command and those after it leave a verbosity, too, from which
one can be taken. -/
theorem Call.start_ne_noVerbosity {arguments : List String} {call : Call}
    (h : Call.ofArguments arguments = .ok call) {σ : Type} (disk : Disk (StateM σ))
    (host : Logging.Host) (world : σ) :
    ((call.logs.start disk host).run world).1 ≠ .error .noVerbosity := by
  intro hnone
  have hstarts := hnone ▸ call.logs.starts_start disk host world
  cases hstarts with
  | noVerbosity hlevel => exact hlevel fun _ ↦ Call.verbosity_pos h

end ExecState.Program
