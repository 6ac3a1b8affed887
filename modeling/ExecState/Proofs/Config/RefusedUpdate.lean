import ExecState.Proofs.Config.Persistence
import ExecState.Proofs.Disk.KeptFile

/-!
# What a refused update leaves behind

An update reads a value, puts it into the settings at hand and then keeps these. It can be refused
at each of the last two steps as well as at the first, and what is left behind depends on where.
While the value is read nothing has happened yet. When the settings cannot be kept, the files are
as they were, but the settings at hand have the new value already.

The reader of values admits more than a file can hold: numbers of 64 bits where a file takes 63. So
it is not only a matter of the disk that settings are refused after they were changed. Settings that
could be kept before the update are refused for their size exactly at numbers in between, and each
of these stays in the settings at hand (`Configuration.update_refused`).
-/

namespace ExecState.Configuration

/-! ## Refusals -/

/-- How an update is refused, with the settings at hand and the state of the disk afterwards. -/
inductive IsRefusal {σ : Type} (disk : Disk (StateM σ)) (path : String) (c : Configuration)
    (key text : String) (s : σ) : ConfigError → Configuration → σ → Prop
  /-- The value is not read. -/
  | unread {e : ConfigError} (hset : c.set key text = .error e) :
    IsRefusal disk path c key text s e c s
  /-- The settings do not go into a file. -/
  | tooLarge {d : Configuration} (hset : c.set key text = .ok d) (hlarge : ¬ d.isWritable = true) :
    IsRefusal disk path c key text s .outOfRange d s
  /-- The disk refuses the file. -/
  | unwritten {d : Configuration} {cause : DiskError} {s' : σ} (hset : c.set key text = .ok d)
    (hwrite : (disk.write path d.render).run s = (.error cause, s')) :
    IsRefusal disk path c key text s (.unwritable cause) d s'

section

variable {σ : Type} {disk : Disk (StateM σ)} {path : String} {s s' : σ}

theorem save_error_cases {d : Configuration} {e : ConfigError}
    (h : (save disk path d).run s = (.error e, s')) :
    (¬ d.isWritable = true ∧ e = .outOfRange ∧ s' = s) ∨
      ∃ cause, (disk.write path d.render).run s = (.error cause, s') ∧ e = .unwritable cause := by
  by_cases hwritable : d.isWritable = true
  · rw [save, toText_eq_ok hwritable] at h
    obtain ⟨⟨result, t⟩, hwrite⟩ : ∃ r, (disk.write path d.render).run s = r := ⟨_, rfl⟩
    cases result with
    | ok u =>
      simp only [StateT.run_bind, hwrite] at h
      cases h
    | error cause =>
      simp only [StateT.run_bind, hwrite] at h
      cases h
      exact .inr ⟨cause, hwrite, rfl⟩
  · rw [save, toText, if_neg hwritable] at h
    cases h
    exact .inl ⟨hwritable, rfl, rfl⟩

theorem isRefusal_of_update {c c' : Configuration} {key text : String} {e : ConfigError}
    (h : (update disk path c key text).run s = ((.error e, c'), s')) :
    IsRefusal disk path c key text s e c' s' := by
  rw [update] at h
  split at h
  · rename_i hset
    cases h
    exact .unread hset
  · rename_i d hset
    obtain ⟨⟨result, t⟩, hsave⟩ : ∃ r, (save disk path d).run s = r := ⟨_, rfl⟩
    simp only [StateT.run_bind, hsave] at h
    cases h
    obtain ⟨hlarge, rfl, rfl⟩ | ⟨cause, hwrite, rfl⟩ := save_error_cases hsave
    · exact .tooLarge hset hlarge
    · exact .unwritten hset hwrite

end

/-! ## Settings that become too large -/

theorem set_eq_ok_cases {c d : Configuration} {key text : String} (h : c.set key text = .ok d) :
    (∃ n, Unsigned.readUInt64 text = .ok n ∧
      (key = Setting.maxMemorySize.name ∧ d = { c with maxMemorySize := n } ∨
        key = Setting.commitThreads.name ∧ d = { c with commitThreads := n })) ∨
      key = Setting.secureTrie.name ∧ ∃ b, d = { c with secureTrie := b } := by
  rw [set] at h
  split at h
  · rename_i setting hsetting
    obtain rfl : setting.name = key := by
      simpa using List.find?_some hsetting
    cases setting with
    | maxMemorySize =>
      rw [withText] at h
      split at h
      · rename_i n hread
        exact .inl ⟨n, hread, .inl ⟨rfl, (Except.ok.inj h).symm⟩⟩
      · cases h
    | commitThreads =>
      rw [withText] at h
      split at h
      · rename_i n hread
        exact .inl ⟨n, hread, .inr ⟨rfl, (Except.ok.inj h).symm⟩⟩
      · cases h
    | secureTrie =>
      rw [withText] at h
      split at h
      · rename_i b hread
        exact .inr ⟨rfl, b, (Except.ok.inj h).symm⟩
      · cases h
  · cases h

/-- A value that is not read is not refused for what becomes of it. -/
theorem ne_outOfRange_of_set {c : Configuration} {key text : String} {e : ConfigError}
    (h : c.set key text = .error e) : e ≠ .outOfRange := by
  rintro rfl
  rw [set] at h
  split at h
  · rename_i setting _
    cases setting with
    | secureTrie => rw [withText] at h; split at h <;> cases h
    | _ => rw [withText] at h; split at h <;> cases h
  · cases h

/-- Settings that could be written become too large by a number that is. -/
theorem exists_large_of_set {c d : Configuration} {key text : String}
    (hwritable : c.isWritable = true) (hset : c.set key text = .ok d)
    (hlarge : ¬ d.isWritable = true) :
    ∃ n, Unsigned.readUInt64 text = .ok n ∧ 2 ^ 63 ≤ n.toNat ∧
      (key = Setting.maxMemorySize.name ∧ d = { c with maxMemorySize := n } ∨
        key = Setting.commitThreads.name ∧ d = { c with commitThreads := n }) := by
  rw [isWritable_iff] at hwritable hlarge
  obtain ⟨n, hread, hd⟩ | ⟨-, b, rfl⟩ := set_eq_ok_cases hset
  · refine ⟨n, hread, ?_, hd⟩
    obtain ⟨-, rfl⟩ | ⟨-, rfl⟩ := hd
    · dsimp only at hlarge
      omega
    · dsimp only at hlarge
      omega
  · exact absurd hwritable hlarge

/-! ## Updates of settings that are kept in a tree of files -/

/-- **A refused update leaves the files alone, and the settings at hand only if the value was not
read.** Nothing at all happens to the tree unless it refuses the file itself. The settings at hand
stay as they are if the value is not read or is the one that is there; otherwise they are those that
were asked for. Of settings that could be written, those are refused for their size that get a
number from `2 ^ 63` on, and they have it then. -/
theorem update_refused {t t' : FileTree} {path key text : String} {c c' : Configuration}
    {e : ConfigError} (h : (update FileTree.disk path c key text).run t = ((.error e, c'), t')) :
    (∀ names, t'.textAt? names = t.textAt? names) ∧
    ((∀ cause, e ≠ .unwritable cause) → t' = t) ∧
    (c' = c ↔ c.set key text = .error e ∨ c.set key text = .ok c) ∧
    (c' ≠ c → c.set key text = .ok c' ∧ (e = .outOfRange ∨ ∃ cause, e = .unwritable cause)) ∧
    (c.isWritable = true → e = .outOfRange → c' ≠ c ∧
      ∃ n, Unsigned.readUInt64 text = .ok n ∧ 2 ^ 63 ≤ n.toNat ∧
        (key = Setting.maxMemorySize.name ∧ c' = { c with maxMemorySize := n } ∨
          key = Setting.commitThreads.name ∧ c' = { c with commitThreads := n })) := by
  cases isRefusal_of_update h with
  | unread hset =>
    exact ⟨fun _ ↦ rfl, fun _ ↦ rfl, iff_of_true rfl (.inl hset), fun hne ↦ absurd rfl hne,
      fun _ hlarge ↦ absurd hlarge (ne_outOfRange_of_set hset)⟩
  | tooLarge hset hlarge =>
    refine ⟨fun _ ↦ rfl, fun _ ↦ rfl, ?_, fun _ ↦ ⟨hset, .inl rfl⟩, fun hwritable _ ↦ ⟨?_, ?_⟩⟩
    · simp [hset]
    · rintro rfl
      exact hlarge hwritable
    · exact exists_large_of_set hwritable hset hlarge
  | unwritten hset hwrite =>
    refine ⟨FileTree.textAt?_write_of_error hwrite, fun hne ↦ absurd rfl (hne _), ?_,
      fun _ ↦ ⟨hset, .inr ⟨_, rfl⟩⟩, nofun⟩
    simp [hset]

/-- The tree with the usual settings in a file. -/
def usualTree : FileTree := ⟨[("config.toml", .file standard.render)]⟩

/-- The tree after a path was refused whose directory was created. -/
def usualTreeAndDirectory : FileTree :=
  ⟨[("config.toml", .file standard.render), ("conf", .directory [])]⟩

/-- A path with a slash behind the file is refused when its directory is there. The file of the tree
is as it was, and the new value is in the settings at hand. -/
theorem update_refused_unwritten :
    (update FileTree.disk "conf/config.toml/" standard "commit_threads" "8").run usualTree
      = ((.error (.unwritable .isDirectory), ⟨33554432, 8, false⟩), usualTreeAndDirectory) ∧
    (∀ names, usualTreeAndDirectory.textAt? names = usualTree.textAt? names) ∧
    (⟨33554432, 8, false⟩ : Configuration) ≠ standard ∧
    standard.set "commit_threads" "8" = .ok ⟨33554432, 8, false⟩ := by
  have hrun : (update FileTree.disk "conf/config.toml/" standard "commit_threads" "8").run usualTree
      = ((.error (.unwritable .isDirectory), ⟨33554432, 8, false⟩), usualTreeAndDirectory) := by
    rfl
  have hne : (⟨33554432, 8, false⟩ : Configuration) ≠ standard := by decide
  obtain ⟨hfiles, -, -, hchanged, -⟩ := update_refused hrun
  exact ⟨hrun, hfiles, hne, (hchanged hne).1⟩

/-- A refused update need not leave the settings at hand as they were: the least number that does
not go into a file is refused, and it is there. -/
theorem not_forall_update_unchanged :
    ¬ ∀ (t t' : FileTree) (path key text : String) (c c' : Configuration) (e : ConfigError),
      (update FileTree.disk path c key text).run t = ((.error e, c'), t') →
        c' = c ∧ ∀ names, t'.textAt? names = t.textAt? names := by
  intro h
  have hkept := h usualTree usualTree "config.toml" "max_memory_size" "9223372036854775808" standard
    ⟨9223372036854775808, 4, false⟩ .outOfRange rfl
  exact absurd hkept.1 (by decide)

end ExecState.Configuration
