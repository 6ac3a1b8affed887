import ExecState.Basic
import ExecState.Options.Grammar

/-!
# What is taken in was checked

A value waits until the next option or plain word comes, and the words of a command may come to an
end while it still waits. So it is not true of every moment that all values were checked. It is true
of the options that were taken in, at every moment (`Grammar.Sound`), and at the end no value waits.

The invariant speaks of the options alone. What is pending, and the plain words, may change under
it, and each way to read a word keeps it because `Taken.accept` does.
-/

namespace ExecState.Options

variable {ι : Type} [DecidableEq ι] {g : Grammar ι} {t t' : Taken ι}

/-- Whether options may have been taken in: every value was found in order, and only an option that
is counted occurs twice. -/
structure Grammar.Sound (g : Grammar ι) (options : List (ι × Option String)) : Prop where
  checked : ∀ p ∈ options, g.shape p.1 = .value → ∃ text, p.2 = some text ∧ g.fault p.1 text = none
  once : options.Pairwise fun p q ↦ p.1 = q.1 → g.shape p.1 = .count

omit [DecidableEq ι] in
theorem Grammar.Sound.nil : g.Sound [] := ⟨List.forall_mem_nil _, .nil⟩

namespace Taken

theorem sound_accept {o : ι} {v : Option String} (ht : g.Sound t.options)
    (h : t.accept g o v = .ok t') : g.Sound t'.options := by
  have habsent : t.has o = false → ∀ p ∈ t.options, o ≠ p.1 := by
    intro hhas p hp ho
    rw [has, List.any_eq_false] at hhas
    exact hhas p hp (decide_eq_true ho.symm)
  have hcons : (g.shape o = .value → ∃ text, v = some text ∧ g.fault o text = none) →
      (g.shape o = .count ∨ t.has o = false) → g.Sound ((o, v) :: t.options) := by
    intro hchecked hnew
    refine ⟨List.forall_mem_cons.mpr ⟨hchecked, ht.checked⟩,
      List.pairwise_cons.mpr ⟨fun p hp ho ↦ ?_, ht.once⟩⟩
    rcases hnew with hcount | hhas
    · exact hcount
    · exact absurd ho (habsent hhas p hp)
  cases hshape : g.shape o with
  | stop reason => simp [accept, hshape] at h
  | count =>
    simp only [accept, hshape, Except.ok.injEq] at h
    exact h ▸ hcons (by simp [hshape]) (.inl hshape)
  | switch =>
    simp only [accept, hshape] at h
    split at h
    · cases h
    · rename_i hhas
      rw [← Except.ok.inj h]
      exact hcons (by simp [hshape]) (.inr (by simpa using hhas))
  | value =>
    cases v with
    | none => simp [accept, hshape] at h
    | some text =>
      simp only [accept, hshape] at h
      split at h
      · cases h
      · rename_i hhas
        split at h
        · cases h
        · rename_i hfault
          rw [← Except.ok.inj h]
          exact hcons (fun _ ↦ ⟨text, rfl, hfault⟩) (.inr (by simpa using hhas))

theorem sound_settle (ht : g.Sound t.options) (h : t.settle g = .ok t') : g.Sound t'.options := by
  rw [settle] at h
  split at h
  · exact Except.ok.inj h ▸ ht
  · exact sound_accept (t := { t with pending := none }) ht h

theorem settle_value {o : ι} {text : String} (ho : g.shape o = .value) (habsent : t.has o = false)
    (hfault : g.fault o text = none) :
    settle g { t with pending := some (o, some text) }
      = .ok { t with options := (o, some text) :: t.options, pending := none } := by
  have hhas : has { t with pending := none } o = false := habsent
  simp [settle, accept, ho, hhas, hfault]

theorem sound_option {o : ι} {attached : Option String} (ht : g.Sound t.options)
    (h : t.option g o attached = .ok t') : g.Sound t'.options := by
  have haccept : ∀ v, (do (← t.settle g).accept g o v) = .ok t' → g.Sound t'.options := by
    intro v hv
    obtain ⟨settled, hsettle, haccept⟩ := bind_eq_ok_iff.mp hv
    exact sound_accept (sound_settle ht hsettle) haccept
  simp only [option] at h
  split at h
  · obtain ⟨settled, hsettle, hpending⟩ := bind_eq_ok_iff.mp h
    have hsound := sound_settle ht hsettle
    exact Except.ok.inj hpending ▸ hsound
  · exact haccept _ h
  · cases h
  · exact haccept _ h

theorem sound_letters {cs : List Char} (ht : g.Sound t.options) (h : t.letters g cs = .ok t') :
    g.Sound t'.options := by
  fun_induction letters g t cs with
  | case1 t => exact Except.ok.inj h ▸ ht
  | case2 => cases h
  | case3 | case4 | case5 => exact sound_option ht h
  | case6 t c rest o _ _ _ _ ih =>
    obtain ⟨next, hoption, hrest⟩ := bind_eq_ok_iff.mp h
    exact ih next (sound_option ht hoption) hrest

theorem sound_long {cs : List Char} (ht : g.Sound t.options) (h : t.long g cs = .ok t') :
    g.Sound t'.options := by
  simp only [long] at h
  split at h
  · cases h
  · exact sound_option ht h

theorem sound_word {text : String} (ht : g.Sound t.options) (h : t.word g text = .ok t') :
    g.Sound t'.options := by
  have hsettled : (do
      let t ← t.settle g
      return { t with words := text :: t.words }) = .ok t' → g.Sound t'.options := by
    intro hword
    obtain ⟨settled, hsettle, hwords⟩ := bind_eq_ok_iff.mp hword
    have hsound := sound_settle ht hsettle
    exact Except.ok.inj hwords ▸ hsound
  rw [word] at h
  split at h
  · split at h
    · exact hsettled h
    · cases h
  · exact hsettled h

end Taken

/-! ## Whole commands -/

theorem sound_readPlain {texts : List String} (ht : g.Sound t.options)
    (h : readPlain g t texts = .ok t') : g.Sound t'.options := by
  induction texts generalizing t with
  | nil => exact Except.ok.inj h ▸ ht
  | cons text rest ih =>
    obtain ⟨next, hword, hrest⟩ := bind_eq_ok_iff.mp h
    exact ih (Taken.sound_word ht hword) hrest

theorem sound_readFrom {texts : List String} {reading : Reading ι} (ht : g.Sound t.options)
    (h : readFrom g t texts = .ok reading) : g.Sound reading.taken.options := by
  fun_induction readFrom g t texts with
  | case1 t => exact Except.ok.inj h ▸ ht
  | case2 t text rest _ =>
    obtain ⟨last, hplain, hlast⟩ := bind_eq_ok_iff.mp h
    have hsound := sound_readPlain ht hplain
    exact Except.ok.inj hlast ▸ hsound
  | case3 t text rest cs _ _ ih =>
    obtain ⟨next, hlong, hrest⟩ := bind_eq_ok_iff.mp h
    exact ih next (Taken.sound_long ht hlong) hrest
  | case4 t text rest c cs _ _ _ ih =>
    obtain ⟨next, hletters, hrest⟩ := bind_eq_ok_iff.mp h
    exact ih next (Taken.sound_letters ht hletters) hrest
  | case5 t text rest o _ _ _ _ ih => exact ih ht h
  | case6 => exact Except.ok.inj h ▸ ht
  | case7 t text rest _ _ _ _ _ ih =>
    obtain ⟨next, hword, hrest⟩ := bind_eq_ok_iff.mp h
    exact ih next (Taken.sound_word ht hword) hrest

/-- A word that begins with no dash is the value that is waited for. -/
theorem readFrom_value {o : ι} {text : String} (hpending : t.pending = some (o, none))
    (htext : text.toList.head? ≠ some '-') (rest : List String) :
    readFrom g t (text :: rest) = readFrom g { t with pending := some (o, some text) } rest := by
  have hdash : ∀ {cs : List Char}, text.toList ≠ '-' :: cs := fun h ↦ htext (congrArg List.head? h)
  rw [readFrom]
  split
  · exact absurd ‹_› hdash
  · exact absurd ‹_› hdash
  · exact absurd ‹_› hdash
  · rename_i o' hpending' _ _ _
    obtain ⟨rfl, -⟩ := Prod.mk.inj (Option.some_inj.mp (hpending.symm.trans hpending'))
    rfl
  · rename_i hnone
    exact absurd hpending (hnone o)

/-- **Every option of a command that was read is in order.** -/
theorem sound_read {texts : List String} (h : read g texts = .ok t) : g.Sound t.options := by
  obtain ⟨reading, hreading, hsettle⟩ := bind_eq_ok_iff.mp h
  exact Taken.sound_settle (sound_readFrom .nil hreading) hsettle

/-! ## What is asked of the options -/

namespace Taken

theorem value?_eq_some_iff {o : ι} {text : String} (ht : g.Sound t.options)
    (ho : g.shape o = .value) : t.value? o = some text ↔ (o, some text) ∈ t.options := by
  have honce := ht.once
  rw [value?]
  generalize t.options = options at honce ⊢
  induction options with
  | nil => simp
  | cons p rest ih =>
    obtain ⟨hfirst, hrest⟩ := List.pairwise_cons.mp honce
    by_cases hp : p.1 = o
    · -- no later one is of the same name
      have hlast : (o, some text) ∉ rest := by
        intro hmem
        have hcount := hfirst _ hmem hp
        rw [hp, ho] at hcount
        cases hcount
      simp [hp, hlast, Prod.ext_iff, eq_comm]
    · simp [hp, ih hrest, Prod.ext_iff, Ne.symm hp]

theorem value?_eq_none_iff {o : ι} (ht : g.Sound t.options) (ho : g.shape o = .value) :
    t.value? o = none ↔ ∀ v, (o, v) ∉ t.options := by
  rw [value?]
  cases hfind : t.options.find? (·.1 = o) with
  | none =>
    rw [List.find?_eq_none] at hfind
    exact iff_of_true rfl fun v hv ↦ hfind _ hv (decide_eq_true rfl)
  | some p =>
    have hname := List.find?_some hfind
    obtain rfl : p.1 = o := of_decide_eq_true hname
    have hmem := List.mem_of_find?_eq_some hfind
    obtain ⟨text, htext, -⟩ := ht.checked p hmem ho
    exact iff_of_false (by simp [htext]) fun h ↦ h p.2 hmem

end Taken

end ExecState.Options
