import ExecState.Config.Store
import ExecState.Proofs.Disk.KeptFile
import ExecState.Proofs.Toml.Rows

/-!
# Settings that are kept

A document of settings is read back as it was written, and a file of settings holds what was saved
last.
-/

namespace ExecState.Configuration

/-!
## Reading the settings back

The document of the settings is plain: a line for each of them, with a number or a truth value. It
is read back as it was written whenever it can be written at all (`Configuration.ofText_render`),
and only a number that needs all 64 bits stands against that (`Configuration.isWritable_iff`).
-/

open Toml

/-! ### The lines of the document -/

/-- The names of settings need no quotes. -/
theorem isKeyChar_name (setting : Setting) :
    ∀ c ∈ setting.name.toList, Toml.isKeyChar c = true := by
  rw [← List.all_eq_true]
  cases setting <;> rfl

def row (setting : Setting) (text : String) (value : Toml.Value)
    (h : IsScalar text.toList value) : Row where
  name := setting.name
  text := text
  value := value
  name_ne_nil := by cases setting <;> decide
  isKeyChar := isKeyChar_name setting
  isScalar := h

theorem toList_line {setting : Setting} {text : String} {value : Toml.Value}
    (h : IsScalar text.toList value) :
    (line setting text).toList = (row setting text value h).line := by
  simp [line, Row.line, row]

theorem isScalar_renderBool (b : Bool) : IsScalar (renderBool b).toList (.boolean b) := by
  cases b
  · exact isScalar_false
  · exact isScalar_true

variable {c : Configuration}

theorem isWritable_iff :
    c.isWritable = true ↔ c.maxMemorySize.toNat < 2 ^ 63 ∧ c.commitThreads.toNat < 2 ^ 63 := by
  rw [isWritable, Bool.and_eq_true, decide_eq_true_eq, decide_eq_true_eq]
  rfl

/-- The lines of settings that can be written. -/
def rows (h : c.isWritable = true) : List Row :=
  [row .maxMemorySize _ _ (isScalar_repr (isWritable_iff.mp h).1),
    row .commitThreads _ _ (isScalar_repr (isWritable_iff.mp h).2),
    row .secureTrie _ _ (isScalar_renderBool c.secureTrie)]

theorem toList_render (h : c.isWritable = true) : c.render.toList = (rows h).flatMap Row.line := by
  simp only [render, rows, String.toList_append, List.flatMap_cons, List.flatMap_nil,
    ← toList_line, List.append_assoc, List.append_nil]

theorem nodup_name_rows (h : c.isWritable = true) : ((rows h).map Row.name).Nodup := by
  have hnames : (rows h).map Row.name = Setting.all.map Setting.name := rfl
  rw [hnames]
  decide

theorem number?_integer (usual n : UInt64) :
    number? usual (some (.integer n.toNat)) = some n := by
  rw [number?, if_pos (Int.natCast_nonneg _), Int.toNat_natCast, UInt64.ofNat_toNat]

theorem ofMembers?_rows (h : c.isWritable = true) :
    ofMembers? ((rows h).map Row.member) = some c := by
  have hmemory : Members.get? ((rows h).map Row.member) (Setting.name .maxMemorySize)
      = some (.integer c.maxMemorySize.toNat) := rfl
  have hthreads : Members.get? ((rows h).map Row.member) (Setting.name .commitThreads)
      = some (.integer c.commitThreads.toNat) := rfl
  have hsecure : Members.get? ((rows h).map Row.member) (Setting.name .secureTrie)
      = some (.boolean c.secureTrie) := rfl
  simp only [ofMembers?, hmemory, hthreads, hsecure, number?_integer, boolean?]
  rfl

/-! ### The document -/

/-- **The settings are read back from their document.** -/
theorem ofText_render (h : c.isWritable = true) : ofText c.render = .ok c := by
  rw [ofText, read?_rows (toList_render h) (nodup_name_rows h), Option.bind_some, ofMembers?_rows]

theorem toText_eq_ok (h : c.isWritable = true) : c.toText = .ok c.render := if_pos h

end ExecState.Configuration

namespace ExecState.Configuration

/-!
## What becomes of settings in a file

Requests of four kinds share one file, and reading it is not without effect: it creates the file
where there is none. Some change the settings in the file, one changes settings that are at hand
and puts them into the file, and any of these may be refused, because the text of a value is bad or
because a number that can be read is too large to be written.

None of this shows. The answers to a row of requests are those of one configuration in memory that
starts with the usual settings (`Configuration.run_yields_transcript`), and this configuration is
the one that was saved last since the file was removed last (`Configuration.settled_eq`). The
answers depend on nothing else, so that a refused request, which leaves the configuration as it was,
is not seen later. Both are put together in `Configuration.load_eq_lastSaved`.

What stands between the file and the configuration is that a document is read back as it was
written.
-/

/-! ### Requests and their answers -/

/-- What may be asked of the settings that are kept. -/
inductive Request
  | load
  | save (c : Configuration)
  /-- Changes one of the settings at hand, whatever they are, and keeps them all. -/
  | update (c : Configuration) (key text : String)
  | delete
  | command (key value : String)

/-- The answer to a request: the fault, or the settings that it gives out if it does so. -/
abbrev Answer := Except ConfigError (Option Configuration)

/-- The settings that a report shows. -/
def Report.shown? : Report → Option Configuration
  | .nothing => none
  | .settings c => some c

/-- A request and its answer. -/
structure Event where
  request : Request
  answer : Answer

section

variable {m : Type → Type} [Monad m] (disk : Disk m) (path : String)

def Request.perform : Request → m Answer
  | .load => do return (← Configuration.load disk path).map some
  | .save c => do return (← c.save disk path).map fun _ ↦ none
  | .update c key text => do return (← c.update disk path key text).1.map fun _ ↦ none
  | .delete => do return (← Configuration.delete disk path).map fun _ ↦ none
  | .command key value => do return (← Configuration.command disk path key value).map Report.shown?

def run : List Request → m (List Event)
  | [] => return []
  | r :: rs => do
    let answer ← r.perform disk path
    return ⟨r, answer⟩ :: (← run rs)

end

/-! ### The settings saved last -/

/-- The settings that a request saves if it is granted, where reading finds some settings before. -/
def Request.saved? (before : Configuration) : Request → Option Configuration
  | .load | .delete => none
  | .save c => some c
  | .update c key text => (c.set key text).toOption
  | .command key value =>
    if key.isEmpty || value.isEmpty then none else (before.set key value).toOption

/-- The settings saved last, after another event. -/
def Event.after (before : Option Configuration) (e : Event) : Option Configuration :=
  match e.answer with
  | .error _ => before
  | .ok _ =>
    match e.request with
    | .delete => none
    | request => (request.saved? (before.getD standard)).or before

/-- The settings that were saved last since the file was removed last, if any were. -/
def lastSaved (events : List Event) : Option Configuration := events.foldl Event.after none

/-! ### One configuration in place of the file -/

/-- The answer of a configuration that settings are to replace, if there are any, and what takes its
place. -/
def replacedBy (c : Configuration) :
    Except ConfigError Configuration → Except ConfigError Unit × Configuration
  | .error e => (.error e, c)
  | .ok d => if d.isWritable then (.ok (), d) else (.error .outOfRange, c)

/-- The answer of a configuration to a request, and what takes its place. -/
def Request.respond (c : Configuration) : Request → Answer × Configuration
  | .load => (.ok (some c), c)
  | .save d => ((c.replacedBy (.ok d)).1.map fun _ ↦ none, (c.replacedBy (.ok d)).2)
  | .update d key text =>
    ((c.replacedBy (d.set key text)).1.map fun _ ↦ none, (c.replacedBy (d.set key text)).2)
  | .delete => (.ok none, standard)
  | .command key value =>
    if key.isEmpty then (.ok (some c), c)
    else if value.isEmpty then (.ok none, c)
    else ((c.replacedBy (c.set key value)).1.map fun _ ↦ none, (c.replacedBy (c.set key value)).2)

/-- The events of a row of requests. -/
def transcript (c : Configuration) : List Request → List Event
  | [] => []
  | r :: rs => ⟨r, (r.respond c).1⟩ :: transcript (r.respond c).2 rs

/-- What is left of a configuration after a row of requests. -/
def settled (c : Configuration) : List Request → Configuration
  | [] => c
  | r :: rs => settled (r.respond c).2 rs

/-- A configuration stays as it is, or what is to replace it does so. -/
theorem replacedBy_cases (c : Configuration) (result : Except ConfigError Configuration) :
    (∃ e, c.replacedBy result = (.error e, c)) ∨
      ∃ d, result = .ok d ∧ c.replacedBy result = (.ok (), d) := by
  cases result with
  | error e => exact .inl ⟨e, rfl⟩
  | ok d =>
    rw [replacedBy]
    split
    · exact .inr ⟨d, rfl, rfl⟩
    · exact .inl ⟨_, rfl⟩

/-- Whether a step is one that a configuration can take: the request is refused, nothing is saved,
everything is removed, or something is saved. -/
inductive Request.IsStep (r : Request) (c : Configuration) : Answer × Configuration → Prop
  | refused (e : ConfigError) : r.IsStep c (.error e, c)
  | idle (answer : Option Configuration) (h : r ≠ .delete) (hsaved : r.saved? c = none) :
    r.IsStep c (.ok answer, c)
  | removed (h : r = .delete) : r.IsStep c (.ok none, standard)
  | saved (d : Configuration) (hsaved : r.saved? c = some d) : r.IsStep c (.ok none, d)

theorem Request.isStep_replacedBy {r : Request} {c : Configuration}
    {result : Except ConfigError Configuration} (h : r.saved? c = result.toOption) :
    r.IsStep c ((c.replacedBy result).1.map fun _ ↦ none, (c.replacedBy result).2) := by
  obtain ⟨e, heq⟩ | ⟨d, rfl, heq⟩ := c.replacedBy_cases result
  · rw [heq]
    exact .refused e
  · rw [heq]
    exact .saved d h

theorem Request.isStep_respond (r : Request) (c : Configuration) : r.IsStep c (r.respond c) := by
  cases r with
  | load => exact .idle _ nofun rfl
  | save d => exact isStep_replacedBy rfl
  | update d key text => exact isStep_replacedBy rfl
  | delete => exact .removed rfl
  | command key value =>
    rw [respond]
    split
    · rename_i hkey
      exact .idle _ nofun (by rw [saved?, hkey]; rfl)
    · split
      · rename_i hvalue
        exact .idle _ nofun (by rw [saved?, hvalue, Bool.or_true]; rfl)
      · rename_i hkey hvalue
        exact isStep_replacedBy (if_neg (by simp [hkey, hvalue]))

theorem Request.respond_of_error {c : Configuration} {r : Request} {e : ConfigError}
    (h : (r.respond c).1 = .error e) : (r.respond c).2 = c := by
  have hstep := r.isStep_respond c
  generalize r.respond c = outcome at h hstep ⊢
  cases hstep with
  | refused e => rfl
  | idle answer => rfl
  | removed => cases h
  | saved d => cases h

theorem Event.after_of_ne {r : Request} (h : r ≠ .delete) (before answer : Option Configuration) :
    Event.after before ⟨r, .ok answer⟩ = (r.saved? (before.getD standard)).or before := by
  cases r with
  | delete => exact absurd rfl h
  | _ => rfl

/-- What takes the place of a configuration is what was saved last. -/
theorem Request.respond_eq_after (before : Option Configuration) (r : Request) :
    (r.respond (before.getD standard)).2
      = (Event.after before ⟨r, (r.respond (before.getD standard)).1⟩).getD standard := by
  have hstep := r.isStep_respond (before.getD standard)
  generalize r.respond (before.getD standard) = outcome at hstep ⊢
  cases hstep with
  | refused e => rfl
  | idle answer h hsaved => rw [Event.after_of_ne h, hsaved, Option.none_or]
  | removed h => rw [h]; rfl
  | saved d hsaved =>
    have hne : r ≠ .delete := by
      rintro rfl
      cases hsaved
    rw [Event.after_of_ne hne, hsaved, Option.some_or, Option.getD_some]

theorem settled_eq (before : Option Configuration) (requests : List Request) :
    settled (before.getD standard) requests
      = ((transcript (before.getD standard) requests).foldl Event.after before).getD standard := by
  induction requests generalizing before with
  | nil => rfl
  | cons r rs ih =>
    rw [settled, transcript, List.foldl_cons, r.respond_eq_after before]
    exact ih _

/-! ### Settings that a command leaves alone -/

/-- Whether two configurations agree on a setting. -/
def Agree (c d : Configuration) : Setting → Prop
  | .maxMemorySize => c.maxMemorySize = d.maxMemorySize
  | .commitThreads => c.commitThreads = d.commitThreads
  | .secureTrie => c.secureTrie = d.secureTrie

theorem agree_self (c : Configuration) (setting : Setting) : Agree c c setting := by
  cases setting <;> rfl

theorem agree_of_withText {c d : Configuration} {changed setting : Setting} {text : String}
    (h : c.withText changed text = .ok d) (hne : setting ≠ changed) : Agree c d setting := by
  cases changed with
  | maxMemorySize =>
    rw [withText] at h
    split at h <;> cases h
    cases setting with
    | maxMemorySize => exact absurd rfl hne
    | _ => rfl
  | commitThreads =>
    rw [withText] at h
    split at h <;> cases h
    cases setting with
    | commitThreads => exact absurd rfl hne
    | _ => rfl
  | secureTrie =>
    rw [withText] at h
    split at h <;> cases h
    cases setting with
    | secureTrie => exact absurd rfl hne
    | _ => rfl

theorem agree_of_set {c d : Configuration} {key text : String} {setting : Setting}
    (h : c.set key text = .ok d) (hne : setting.name ≠ key) : Agree c d setting := by
  rw [set] at h
  cases hchanged : Setting.ofName? key with
  | none =>
    rw [hchanged] at h
    cases h
  | some changed =>
    rw [hchanged] at h
    have hname : changed.name = key := by
      simpa using List.find?_some hchanged
    refine agree_of_withText h ?_
    rintro rfl
    exact hne hname

theorem agree_respond_command {c : Configuration} {key value : String} {setting : Setting}
    (hne : setting.name ≠ key) :
    Agree c ((Request.command key value).respond c).2 setting := by
  have hstep := (Request.command key value).isStep_respond c
  generalize (Request.command key value).respond c = outcome at hstep ⊢
  cases hstep with
  | refused e => exact agree_self c setting
  | idle answer => exact agree_self c setting
  | removed h => cases h
  | saved d hsaved =>
    rw [Request.saved?, Option.ite_none_left_eq_some] at hsaved
    cases hset : c.set key value with
    | error e =>
      rw [hset] at hsaved
      cases hsaved.2
    | ok d' =>
      rw [hset] at hsaved
      obtain rfl := Option.some_inj.mp hsaved.2
      exact agree_of_set hset hne

/-! ### The file -/

/-- Whether settings are those that reading the content of a file gives, where an absent file gives
the usual ones. -/
def Describes (content : Option String) (c : Configuration) : Prop :=
  match content with
  | none => c = standard
  | some text => ofText text = .ok c

section

variable {σ : Type} (IsSound : σ → Prop) (content : σ → Option String)

/-- Whether a state keeps settings. -/
structure Holds (s : σ) (c : Configuration) : Prop where
  isSound : IsSound s
  describes : Describes (content s) c

/-- Whether a computation gives an answer and leaves a state that keeps settings. -/
def Yields {α : Type} (x : StateM σ α) (s : σ) (a : α) (c : Configuration) : Prop :=
  ∃ s', x.run s = (a, s') ∧ Holds IsSound content s' c

variable {IsSound content} {α β : Type} {s : σ} {c d : Configuration}

theorem Holds.yields (h : Holds IsSound content s c) (a : α) :
    Yields IsSound content (pure a) s a c :=
  ⟨s, rfl, h⟩

theorem yields_bind_of_run {x : StateM σ α} {f : α → StateM σ β} {s' : σ} {a : α} {b : β}
    (hrun : x.run s = (a, s')) (hf : Yields IsSound content (f a) s' b d) :
    Yields IsSound content (x >>= f) s b d := by
  rw [Yields, StateT.run_bind, hrun]
  exact hf

theorem Yields.map {x : StateM σ α} {a : α} (hx : Yields IsSound content x s a c) (f : α → β) :
    Yields IsSound content (do return f (← x)) s (f a) c := by
  obtain ⟨s', hrun, hholds⟩ := hx
  exact yields_bind_of_run hrun (hholds.yields _)

/-! #### The operations on the file -/

variable {disk : Disk (StateM σ)} {path : String} (hdisk : disk.KeepsFile path IsSound content)

include hdisk

theorem run_save (hs : IsSound s) (hd : d.isWritable = true) :
    ∃ s', (save disk path d).run s = (.ok (), s') ∧ IsSound s' ∧ content s' = some d.render := by
  obtain ⟨s', hwrite, hs', hcontent⟩ := hdisk.write s d.render hs
  refine ⟨s', ?_, hs', hcontent⟩
  rw [save, toText_eq_ok hd]
  simp only [StateT.run_bind, hwrite]
  rfl

theorem readFile_yields {text : String} (hs : Holds IsSound content s c)
    (htext : content s = some text) :
    Yields IsSound content (readFile disk path) s (.ok c) c := by
  have hread : ofText text = .ok c := by
    have hdescribes := hs.describes
    rwa [htext] at hdescribes
  refine yields_bind_of_run (hdisk.read s text hs.isSound htext) ?_
  exact hread ▸ hs.yields _

variable (hs : Holds IsSound content s c)

include hs

theorem save_yields (d : Configuration) :
    Yields IsSound content (save disk path d) s (c.replacedBy (.ok d)).1
      (c.replacedBy (.ok d)).2 := by
  rw [replacedBy]
  split
  · rename_i hwritable
    obtain ⟨s', hrun, hs', hcontent⟩ := run_save hdisk hs.isSound hwritable
    have hdescribes : Describes (content s') d := by
      rw [hcontent]
      exact ofText_render hwritable
    exact ⟨s', hrun, hs', hdescribes⟩
  · rename_i hwritable
    rw [save, toText, if_neg hwritable]
    exact hs.yields _

theorem load_yields : Yields IsSound content (load disk path) s (.ok c) c := by
  have hpresent := hdisk.isPresent s hs.isSound
  rw [load]
  cases hcontent : content s with
  | some text =>
    rw [hcontent] at hpresent
    exact yields_bind_of_run hpresent (readFile_yields hdisk hs hcontent)
  | none =>
    rw [hcontent] at hpresent
    have hc : c = standard := by
      have hdescribes := hs.describes
      rwa [hcontent] at hdescribes
    obtain ⟨s', hrun, hs', hcontent'⟩ :=
      run_save (d := standard) hdisk hs.isSound (by decide)
    have hholds : Holds IsSound content s' c := by
      refine ⟨hs', ?_⟩
      rw [hcontent', hc]
      exact ofText_render (by decide)
    refine yields_bind_of_run hpresent ?_
    exact yields_bind_of_run hrun (readFile_yields hdisk hholds hcontent')

theorem delete_yields : Yields IsSound content (delete disk path) s (.ok ()) standard := by
  obtain ⟨s', hrun, hs', hcontent⟩ := hdisk.delete s hs.isSound
  have hdescribes : Describes (content s') standard := by
    rw [hcontent]
    rfl
  refine yields_bind_of_run hrun ?_
  exact Holds.yields ⟨hs', hdescribes⟩ _

theorem update_yields (key text : String) :
    ∃ d', Yields IsSound content (update disk path d key text) s
      ((c.replacedBy (d.set key text)).1, d') (c.replacedBy (d.set key text)).2 := by
  rw [update]
  cases d.set key text with
  | error e => exact ⟨d, hs.yields _⟩
  | ok d' => exact ⟨d', (save_yields hdisk hs d').map (·, d')⟩

theorem command_yields (key value : String) :
    ∃ a, Yields IsSound content (command disk path key value) s a
        ((Request.command key value).respond c).2 ∧
      a.map Report.shown? = ((Request.command key value).respond c).1 := by
  obtain ⟨s', hload, hs'⟩ := load_yields hdisk hs
  rw [command, Request.respond]
  split
  · exact ⟨_, yields_bind_of_run hload (hs'.yields _), rfl⟩
  split
  · exact ⟨_, hs.yields _, rfl⟩
  obtain ⟨d', s'', hupdate, hs''⟩ := update_yields hdisk hs' key value
  refine ⟨(c.replacedBy (c.set key value)).1.map fun _ ↦ .nothing,
    yields_bind_of_run hload (yields_bind_of_run hupdate ?_), ?_⟩
  · cases hanswer : (c.replacedBy (c.set key value)).1 with
    | error e => exact hs''.yields _
    | ok u => exact hs''.yields _
  · cases (c.replacedBy (c.set key value)).1 <;> rfl

theorem perform_yields (r : Request) :
    Yields IsSound content (r.perform disk path) s (r.respond c).1 (r.respond c).2 := by
  cases r with
  | load => exact (load_yields hdisk hs).map _
  | save d => exact (save_yields hdisk hs d).map _
  | update d key text =>
    obtain ⟨d', hupdate⟩ := update_yields hdisk hs key text
    exact hupdate.map _
  | delete => exact (delete_yields hdisk hs).map _
  | command key value =>
    obtain ⟨a, hcommand, ha⟩ := command_yields hdisk hs key value
    exact ha ▸ hcommand.map _

/-- **Requests on a file are answered as by one configuration in memory.** -/
theorem run_yields_transcript (requests : List Request) :
    Yields IsSound content (run disk path requests) s (transcript c requests)
      (settled c requests) := by
  induction requests generalizing s c with
  | nil => exact hs.yields _
  | cons r rs ih =>
    obtain ⟨s', hrun, hs'⟩ := perform_yields hdisk hs r
    exact yields_bind_of_run hrun ((ih hs').map _)

/-! #### What later requests can tell -/

theorem run_eq_transcript (requests : List Request) :
    ((run disk path requests).run s).1 = transcript c requests := by
  obtain ⟨s', hrun, -⟩ := run_yields_transcript hdisk hs requests
  rw [hrun]

theorem load_eq : ((load disk path).run s).1 = .ok c := by
  obtain ⟨s', hrun, -⟩ := load_yields hdisk hs
  rw [hrun]

theorem run_of_refused {r : Request} {e : ConfigError} {s' : σ}
    (hrefused : (r.perform disk path).run s = (.error e, s')) (later : List Request) :
    ((run disk path later).run s').1 = ((run disk path later).run s).1 := by
  obtain ⟨t, hperform, ht⟩ := perform_yields hdisk hs r
  rw [hrefused, Prod.mk.injEq] at hperform
  obtain ⟨hanswer, rfl⟩ := hperform
  rw [Request.respond_of_error hanswer.symm] at ht
  rw [run_eq_transcript hdisk ht, run_eq_transcript hdisk hs]

theorem agree_command (key value : String) :
    ∃ before after, ((load disk path).run s).1 = .ok before ∧
      ((load disk path).run ((command disk path key value).run s).2).1 = .ok after ∧
      ∀ setting : Setting, setting.name ≠ key → Agree before after setting := by
  obtain ⟨a, ⟨s', hcommand, hs'⟩, -⟩ := command_yields hdisk hs key value
  have hafter := load_eq hdisk hs'
  rw [hcommand]
  exact ⟨_, _, load_eq hdisk hs, hafter, fun setting hne ↦ agree_respond_command hne⟩

theorem save_error_iff (d : Configuration) :
    (∃ e, ((save disk path d).run s).1 = .error e) ↔ ¬ d.isWritable = true := by
  obtain ⟨s', hrun, -⟩ := save_yields hdisk hs d
  rw [hrun, replacedBy]
  cases d.isWritable <;> simp

theorem load_of_saved {s' : σ} (hsaved : (save disk path d).run s = (.ok (), s')) :
    ((load disk path).run s').1 = .ok d := by
  obtain ⟨t, hrun, ht⟩ := save_yields hdisk hs d
  rw [hsaved, Prod.mk.injEq] at hrun
  obtain ⟨hanswer, rfl⟩ := hrun
  rw [replacedBy] at hanswer ht
  split at hanswer
  · rename_i hwritable
    rw [if_pos hwritable] at ht
    exact load_eq hdisk ht
  · cases hanswer

end

/-! ### Persistence -/

/-- **Settings are kept.** After any requests on a file that was absent, reading gives the settings
that were saved last since the file was removed last, and the usual ones if there are none. A
request that is refused is not seen in any later answer. A command changes no setting but that of
its key. Saving is refused only for a number beyond `2 ^ 63 - 1`, and otherwise reading gives what
was saved. -/
theorem load_eq_lastSaved {σ : Type} {disk : Disk (StateM σ)} {path : String} {IsSound : σ → Prop}
    {content : σ → Option String} {s : σ} (hdisk : disk.KeepsFile path IsSound content)
    (hs : IsSound s) (habsent : content s = none) (requests : List Request) :
    ∃ events s', (run disk path requests).run s = (events, s') ∧
      ((load disk path).run s').1 = .ok ((lastSaved events).getD standard) ∧
      (∀ (r : Request) e s'', (r.perform disk path).run s' = (.error e, s'') →
        ∀ later, ((run disk path later).run s'').1 = ((run disk path later).run s').1) ∧
      (∀ key value, ∃ before after, ((load disk path).run s').1 = .ok before ∧
        ((load disk path).run ((command disk path key value).run s').2).1 = .ok after ∧
        ∀ setting : Setting, setting.name ≠ key → Agree before after setting) ∧
      (∀ c, (∃ e, ((save disk path c).run s').1 = .error e)
        ↔ 2 ^ 63 - 1 < c.maxMemorySize.toNat ∨ 2 ^ 63 - 1 < c.commitThreads.toNat) ∧
      ∀ c s'', (save disk path c).run s' = (.ok (), s'') →
        ((load disk path).run s'').1 = .ok c := by
  have hstart : Holds IsSound content s standard := by
    refine ⟨hs, ?_⟩
    rw [habsent]
    rfl
  obtain ⟨s', hrun, hkept⟩ := run_yields_transcript hdisk hstart requests
  have hsettled : settled standard requests
      = (lastSaved (transcript standard requests)).getD standard := settled_eq none requests
  refine ⟨_, s', hrun, ?_, fun r e s'' hrefused ↦ run_of_refused hdisk hkept hrefused,
    agree_command hdisk hkept, fun c ↦ ?_, fun c s'' ↦ load_of_saved hdisk hkept⟩
  · rw [load_eq hdisk hkept, hsettled]
  · rw [save_error_iff hdisk hkept, isWritable_iff]
    omega

/-- A command where there is no file, settings that are too large, another command, and an update
with a bad text. -/
def mixedRequests : List Request :=
  [.command "secure_trie" "true", .save ⟨9223372036854775808, 4, false⟩,
    .command "commit_threads" "8", .update standard "max_memory_size" "many"]

theorem load_eq_lastSaved_mixed :
    FileTree.disk.KeepsFile "config.toml" (FileTree.HasRoom "config.toml")
      (FileTree.textOf? "config.toml") ∧
    FileTree.HasRoom "config.toml" FileTree.empty ∧
    FileTree.textOf? "config.toml" FileTree.empty = none ∧
    ∃ events t, (run FileTree.disk "config.toml" mixedRequests).run FileTree.empty = (events, t) ∧
      ((load FileTree.disk "config.toml").run t).1 = .ok ⟨33554432, 8, true⟩ := by
  have hname : FileTree.IsPlainName "config.toml" :=
    ⟨by decide, by decide, by decide, by decide, by decide⟩
  have hroom : FileTree.HasRoom "config.toml" FileTree.empty := fun _ ↦ nofun
  have hdisk := FileTree.keepsFile hname
  obtain ⟨events, t, hrun, hload, -⟩ := load_eq_lastSaved hdisk hroom rfl mixedRequests
  have hevents : events = transcript standard mixedRequests := by
    rw [← run_eq_transcript hdisk ⟨hroom, rfl⟩ mixedRequests, hrun]
  have hlast : lastSaved (transcript standard mixedRequests) = some ⟨33554432, 8, true⟩ := by
    decide
  rw [hevents, hlast] at hload
  exact ⟨hdisk, hroom, rfl, events, t, hrun, hload⟩

end ExecState.Configuration
