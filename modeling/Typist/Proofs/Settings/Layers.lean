import Mathlib
import Typist.Proofs.Settings.File
import Typist.Proofs.Template.Tokens
import Typist.Proofs.Text.Trimming

/-!
# Layers of settings

Where the settings come from, field by field: a variable of the environment comes before the settings
file, and the file before the default. A file that says nothing sensible is a failure whatever the
environment holds, and so is a delay that is no number. Nothing else is, and no field depends on what
another one is made of.
-/

namespace Typist

/-! ## Words with a sign -/

namespace Text.Numeral

/-- Behind a number that is a word, digits go on with it as long as they make a word. -/
theorem scan_eq_ok_iff {n : Nat} (hn : n < UInt64.size) {cs : List Char} {w : UInt64} :
    scan n cs = .ok w ↔ extend? n cs = some w.toNat := by
  induction cs generalizing n with
  | nil =>
    rw [scan, toWord, if_pos hn, extend?, Except.ok.injEq, Option.some.injEq]
    constructor
    · rintro rfl
      exact (UInt64.toNat_ofNat_of_lt' hn).symm
    · rintro rfl
      exact UInt64.ofNat_toNat
  | cons c cs ih =>
    rw [scan, extend?]
    cases digit? c with
    | none => simp
    | some d =>
      dsimp only [bind, Option.bind_some]
      split
      · next hfits => exact ih hfits
      · next hlarge =>
        refine iff_of_false (by simp) fun h ↦ hlarge ?_
        obtain ⟨-, hvalue⟩ := extend?_eq_some_iff.mp h
        have hgrows : 10 * n + d ≤ 10 ^ cs.length * (10 * n + d) :=
          Nat.le_mul_of_pos_left _ (by positivity)
        have hword := w.toNat_lt_size
        omega

/-- A word is read from its digits, with a plus sign or without. -/
theorem word_eq_ok_iff {cs : List Char} {w : UInt64} :
    word cs = .ok w ↔
      ∃ digits, (cs = digits ∨ cs = '+' :: digits) ∧ Denotes digits w.toNat := by
  have hscan {digits : List Char} (hne : digits ≠ []) :
      scan 0 digits = .ok w ↔ Denotes digits w.toNat := by
    rw [scan_eq_ok_iff (by decide), ← value?_eq_some_iff]
    cases digits with
    | nil => exact (hne rfl).elim
    | cons c digits => rfl
  unfold word
  split
  · refine iff_of_false nofun ?_
    rintro ⟨digits, rfl | hcs, hdigits⟩
    · exact hdigits.nonempty rfl
    · cases hcs
  · refine iff_of_false nofun ?_
    rintro ⟨digits, rfl | hcs, hdigits⟩
    · exact absurd (hdigits.isDigit '+' (List.mem_singleton_self _)) (by decide)
    · cases hcs
      exact hdigits.nonempty rfl
  · next digits hne =>
    rw [hscan fun h ↦ hne (h ▸ rfl)]
    constructor
    · exact fun h ↦ ⟨digits, .inr rfl, h⟩
    · rintro ⟨digits', rfl | hcs, hdigits⟩
      · exact absurd (hdigits.isDigit '+' List.mem_cons_self) (by decide)
      · cases hcs
        exact hdigits
  · next hnil _ hplus =>
    rw [hscan hnil]
    constructor
    · exact fun h ↦ ⟨cs, .inl rfl, h⟩
    · rintro ⟨digits, rfl | hcs, hdigits⟩
      · exact hdigits
      · exact (hplus digits hcs).elim

end Text.Numeral

/-! ## What there is to read -/

/-- Whether there is a text at a path that says this and no more of the settings. -/
def FileTree.Says (t : FileTree) (path : String) (f : SettingsFile) : Prop :=
  ∃ cs : List Char, t.read path = .ok (Text.utf8 cs) ∧ f.IsTextOf (Text.utf8 cs)

namespace Settings

/-- Whether this is what a settings file adds to the defaults: without a file, nothing. -/
inductive FileSays (t : FileTree) (path : String) : SettingsFile → Prop
  | nothing : t.isThere path = false → FileSays t path {}
  | something {f : SettingsFile} : t.Says path f → FileSays t path f

/-- Whether the value of a variable is this delay: trimmed, it is the digits of a word, or they are
behind a plus sign. -/
def IsDelay (raw : String) (w : UInt64) : Prop :=
  ∃ core digits, Text.Trims raw.toList core ∧ (core = digits ∨ core = '+' :: digits) ∧
    Text.Numeral.Denotes digits w.toNat

/-- Whether the value of a variable is this chord; a blank one is none. -/
def IsHotkey (raw : String) (hotkey : Option String) : Prop :=
  Text.IsGap raw.toList ∧ hotkey = none ∨ ¬ Text.IsGap raw.toList ∧ hotkey = some raw

/-- Whether a path of a settings file leads here: it starts from the data directory unless it is
absolute. -/
def LeadsTo (dataDirectory path place : String) : Prop :=
  if path.startsWith "/" then place = path else place = Path.join dataDirectory path

/-- Whether a value comes from the first of its sources that is there: a variable, the settings file,
the default. -/
inductive Comes {α β : Type} (set? : Option String) (Set : String → α → Prop) (said? : Option β)
    (Said : β → α → Prop) (standard : α) : α → Prop
  | set {raw : String} {a : α} : set? = some raw → Set raw a →
      Comes set? Set said? Said standard a
  | said {b : β} {a : α} : set? = none → said? = some b → Said b a →
      Comes set? Set said? Said standard a
  | standard : set? = none → said? = none → Comes set? Set said? Said standard standard

/-- Whether each field of the settings comes from its own sources. The template has no variable. -/
structure Layered (directory : String) (env : Environment) (f : SettingsFile) (s : Settings) :
    Prop where
  dataDirectory : s.dataDirectory = directory
  socketPath : Comes (env "AUTOTYPED_SOCKET") Eq f.socketPath (LeadsTo directory)
    (Path.join directory "daemon.sock") s.socketPath
  hotkey : Comes (env "AUTOTYPED_HOTKEY") IsHotkey f.hotkey (fun raw v ↦ v = some raw) none s.hotkey
  defaultTemplate : Comes none Eq f.defaultTemplate Eq Template.standard s.defaultTemplate
  delayMs : Comes (env "AUTOTYPED_DELAY_MS") IsDelay f.delayMs Eq 10 s.delayMs

/-! ## Sources -/

section Sources

variable {α β : Type} {Set : String → α → Prop} {Said : β → α → Prop} {standard a : α}

@[simp] theorem comes_set {raw : String} {said? : Option β} :
    Comes (some raw) Set said? Said standard a ↔ Set raw a := by
  constructor
  · rintro (⟨hset, ha⟩ | ⟨hset, -, -⟩ | ⟨hset, -⟩) <;> cases hset
    exact ha
  · exact .set rfl

@[simp] theorem comes_said {b : β} : Comes none Set (some b) Said standard a ↔ Said b a := by
  constructor
  · rintro (⟨hset, -⟩ | ⟨-, hsaid, ha⟩ | ⟨-, hsaid⟩)
    · cases hset
    · cases hsaid
      exact ha
    · cases hsaid
  · exact .said rfl rfl

@[simp] theorem comes_standard : Comes none Set none Said standard a ↔ a = standard := by
  constructor
  · rintro (⟨hset, -⟩ | ⟨-, hsaid, -⟩ | -)
    · cases hset
    · cases hsaid
    · rfl
  · rintro rfl
    exact .standard rfl rfl

end Sources

theorem readDelay_eq_ok_iff {raw : String} {w : UInt64} :
    readDelay raw = .ok w ↔ IsDelay raw w := by
  have hword : readDelay raw = .ok w ↔ Text.Numeral.word (Text.trim raw.toList) = .ok w := by
    unfold readDelay
    split
    · next n hn => simp [hn]
    · next e he => simp [he]
  rw [hword, Text.Numeral.word_eq_ok_iff]
  constructor
  · rintro ⟨digits, hcore, hdigits⟩
    exact ⟨_, digits, Text.trims_trim raw.toList, hcore, hdigits⟩
  · rintro ⟨core, digits, hcore, hsign, hdigits⟩
    rw [Text.trims_iff.mp hcore]
    exact ⟨digits, hsign, hdigits⟩

theorem leadsTo_iff {dataDirectory path place : String} :
    LeadsTo dataDirectory path place ↔ Path.join dataDirectory path = place := by
  unfold LeadsTo Path.join
  split <;> exact eq_comm

theorem isHotkey_iff {raw : String} {hotkey : Option String} :
    IsHotkey raw hotkey ↔
      (if (Text.trim raw.toList).isEmpty then none else some raw) = hotkey := by
  unfold IsHotkey
  rw [← Text.trim_eq_nil_iff]
  split
  · next hblank => simp [List.isEmpty_iff.mp hblank, eq_comm]
  · next hblank => simp [List.isEmpty_iff.not.mp hblank, eq_comm]

/-! ## Reading the layers -/

/-- Bytes are a text exactly if they are those of characters. -/
theorem isSome_fromUTF8?_iff {bytes : List UInt8} :
    (String.fromUTF8? ⟨bytes.toArray⟩).isSome ↔ ∃ cs : List Char, bytes = Text.utf8 cs := by
  constructor
  · intro h
    obtain ⟨s, hs⟩ := Option.isSome_iff_exists.mp h
    have hbytes : s.toByteArray = ⟨bytes.toArray⟩ := by
      unfold String.fromUTF8? at hs
      split at hs
      · cases hs
        rfl
      · cases hs
    refine ⟨s.toList, ?_⟩
    rw [← Text.data_toUTF8, String.ofList_toList, String.toUTF8_eq_toByteArray, hbytes]
  · rintro ⟨cs, rfl⟩
    rw [Text.fromUTF8_utf8]
    rfl

/-- What can be read is there. -/
theorem isThere_of_read {t : FileTree} {path : String} {bytes : List UInt8}
    (h : t.read path = .ok bytes) : t.isThere path = true := by
  obtain ⟨n, hlookup, -⟩ := bind_eq_ok_iff.mp h
  rw [FileTree.isThere, hlookup]
  rfl

/-- What stands in the file is read, and nothing where there is no file. -/
theorem readFile_eq_ok_iff {t : FileTree} {path : String} {f : SettingsFile} :
    readFile t path = .ok f ↔ FileSays t path f := by
  cases hthere : t.isThere path with
  | false =>
    have hread : readFile t path = .ok {} := by simp [readFile, hthere, pure, Except.pure]
    rw [hread]
    constructor
    · rintro ⟨⟩
      exact .nothing hthere
    · rintro (- | ⟨cs, hbytes, -⟩)
      · rfl
      · exact absurd (isThere_of_read hbytes) (by simp [hthere])
  | true =>
    have hread : readFile t path = .ok f ↔ ∃ bytes, t.read path = .ok bytes ∧
        (String.fromUTF8? ⟨bytes.toArray⟩).isSome ∧ SettingsFile.ofBytes bytes = .ok f := by
      simp only [readFile, hthere, Bool.not_true, Bool.false_eq_true, if_false]
      cases t.read path with
      | error e => exact iff_of_false nofun nofun
      | ok bytes =>
        simp only [Except.ok.injEq, exists_eq_left']
        cases (String.fromUTF8? ⟨bytes.toArray⟩) with
        | none => exact iff_of_false nofun nofun
        | some text =>
          cases SettingsFile.ofBytes bytes with
          | error e => exact iff_of_false nofun nofun
          | ok g => simp [pure, Except.pure]
    rw [hread]
    constructor
    · rintro ⟨bytes, hbytes, htext, hf⟩
      obtain ⟨cs, rfl⟩ := isSome_fromUTF8?_iff.mp htext
      exact .something ⟨cs, hbytes, SettingsFile.ofBytes_eq_ok_iff.mp hf⟩
    · rintro (hnot | ⟨cs, hbytes, hf⟩)
      · exact absurd hthere (by simp [hnot])
      · exact ⟨_, hbytes, isSome_fromUTF8?_iff.mpr ⟨cs, rfl⟩, SettingsFile.ofBytes_eq_ok_iff.mpr hf⟩

section Fields

variable {dataDirectory : String} {env : Environment} {f : SettingsFile} {s : Settings}

theorem socketPath_eq_iff {place : String} :
    (env "AUTOTYPED_SOCKET").getD ((f.socketPath.map (Path.join dataDirectory)).getD
        (Path.join dataDirectory "daemon.sock")) = place ↔
      Comes (env "AUTOTYPED_SOCKET") Eq f.socketPath (LeadsTo dataDirectory)
        (Path.join dataDirectory "daemon.sock") place := by
  cases env "AUTOTYPED_SOCKET" with
  | some raw => simp
  | none => cases f.socketPath <;> simp [leadsTo_iff, eq_comm]

theorem hotkey_eq_iff {hotkey : Option String} :
    (match env "AUTOTYPED_HOTKEY" with
      | some raw => if (Text.trim raw.toList).isEmpty then none else some raw
      | none => f.hotkey.or none) = hotkey ↔
      Comes (env "AUTOTYPED_HOTKEY") IsHotkey f.hotkey (fun raw v ↦ v = some raw) none hotkey := by
  cases env "AUTOTYPED_HOTKEY" with
  | some raw => exact isHotkey_iff.symm.trans comes_set.symm
  | none => cases f.hotkey <;> simp [eq_comm]

theorem defaultTemplate_eq_iff {template : String} :
    f.defaultTemplate.getD Template.standard = template ↔
      Comes none Eq f.defaultTemplate Eq Template.standard template := by
  cases f.defaultTemplate <;> simp [eq_comm]

theorem delayMs_eq_ok_iff {w : UInt64} :
    (match env "AUTOTYPED_DELAY_MS" with
      | some raw => readDelay raw
      | none => .ok (f.delayMs.getD 10)) = .ok w ↔
      Comes (env "AUTOTYPED_DELAY_MS") IsDelay f.delayMs Eq 10 w := by
  cases env "AUTOTYPED_DELAY_MS" with
  | some raw => exact readDelay_eq_ok_iff.trans comes_set.symm
  | none => cases f.delayMs <;> simp [eq_comm]

/-- The environment is put over the file and the file over the defaults. -/
theorem withEnvironment_eq_ok_iff :
    ((defaults dataDirectory).withFile f).withEnvironment env = .ok s ↔
      Layered dataDirectory env f s := by
  have hmade : ((defaults dataDirectory).withFile f).withEnvironment env =
      (match env "AUTOTYPED_DELAY_MS" with
        | some raw => readDelay raw
        | none => .ok (f.delayMs.getD 10)).map fun delayMs ↦
      { socketPath := (env "AUTOTYPED_SOCKET").getD ((f.socketPath.map (Path.join dataDirectory)).getD
          (Path.join dataDirectory "daemon.sock"))
        dataDirectory
        hotkey := match env "AUTOTYPED_HOTKEY" with
          | some raw => if (Text.trim raw.toList).isEmpty then none else some raw
          | none => f.hotkey.or none
        defaultTemplate := f.defaultTemplate.getD Template.standard
        delayMs } := by
    unfold withEnvironment
    cases env "AUTOTYPED_DELAY_MS" <;> rfl
  rw [hmade]
  constructor
  · intro h
    obtain ⟨w, hw, rfl⟩ := map_eq_ok_iff.mp h
    exact ⟨rfl, socketPath_eq_iff.mp rfl, hotkey_eq_iff.mp rfl, defaultTemplate_eq_iff.mp rfl,
      delayMs_eq_ok_iff.mp hw⟩
  · rintro ⟨hdirectory, hsocket, hhotkey, htemplate, hdelay⟩
    rw [delayMs_eq_ok_iff.mpr hdelay, Except.map, socketPath_eq_iff.mpr hsocket,
      hotkey_eq_iff.mpr hhotkey, defaultTemplate_eq_iff.mpr htemplate, ← hdirectory]

end Fields

/-! ## Loading -/

section Loading

variable {t : FileTree} {dataDirectory : String} {env : Environment}

theorem load_eq_ok_iff {s : Settings} :
    load t dataDirectory env = .ok s ↔
      ∃ f, FileSays t (filePath dataDirectory) f ∧ Layered dataDirectory env f s := by
  rw [load, bind_eq_ok_iff]
  simp only [readFile_eq_ok_iff, withEnvironment_eq_ok_iff]

/-- A file that says nothing sensible is the failure that comes first, whatever the environment
holds. -/
theorem exists_error_of_not_says (hthere : t.isThere (filePath dataDirectory) = true)
    (hfile : ∀ f, ¬ t.Says (filePath dataDirectory) f) :
    ∃ e, ∀ env, load t dataDirectory env = .error e := by
  cases hread : readFile t (filePath dataDirectory) with
  | error e =>
    refine ⟨e, fun env ↦ ?_⟩
    rw [load, hread]
    rfl
  | ok f =>
    obtain hnot | hsays := readFile_eq_ok_iff.mp hread
    · exact absurd hthere (by simp [hnot])
    · exact (hfile f hsays).elim

/-- Any file has a value in each layer, so that only the delay of the environment can be in the way. -/
theorem exists_layered (dataDirectory : String) (f : SettingsFile)
    (hdelay : ∀ raw, env "AUTOTYPED_DELAY_MS" = some raw → ∃ w, IsDelay raw w) :
    ∃ s, Layered dataDirectory env f s := by
  obtain ⟨w, hw⟩ : ∃ w, Comes (env "AUTOTYPED_DELAY_MS") IsDelay f.delayMs Eq 10 w := by
    cases hraw : env "AUTOTYPED_DELAY_MS" with
    | some raw =>
      obtain ⟨w, hw⟩ := hdelay raw hraw
      exact ⟨w, comes_set.mpr hw⟩
    | none =>
      cases f.delayMs with
      | some w => exact ⟨w, comes_said.mpr rfl⟩
      | none => exact ⟨10, comes_standard.mpr rfl⟩
  exact ⟨⟨_, dataDirectory, _, _, w⟩, rfl, socketPath_eq_iff.mp rfl, hotkey_eq_iff.mp rfl,
    defaultTemplate_eq_iff.mp rfl, hw⟩

/-- A field follows its own sources: where they are the same, so is the field. -/
theorem Layered.agree {env' : Environment} {f f' : SettingsFile} {s s' : Settings}
    (h : Layered dataDirectory env f s) (h' : Layered dataDirectory env' f' s') :
    (env "AUTOTYPED_SOCKET" = env' "AUTOTYPED_SOCKET" → f.socketPath = f'.socketPath →
      s.socketPath = s'.socketPath) ∧
    (env "AUTOTYPED_HOTKEY" = env' "AUTOTYPED_HOTKEY" → f.hotkey = f'.hotkey →
      s.hotkey = s'.hotkey) ∧
    (f.defaultTemplate = f'.defaultTemplate → s.defaultTemplate = s'.defaultTemplate) ∧
    (env "AUTOTYPED_DELAY_MS" = env' "AUTOTYPED_DELAY_MS" → f.delayMs = f'.delayMs →
      s.delayMs = s'.delayMs) := by
  refine ⟨fun henv hf ↦ ?_, fun henv hf ↦ ?_, fun hf ↦ ?_, fun henv hf ↦ ?_⟩
  · rw [← socketPath_eq_iff.mpr h.socketPath, ← socketPath_eq_iff.mpr h'.socketPath, henv, hf]
  · rw [← hotkey_eq_iff.mpr h.hotkey, ← hotkey_eq_iff.mpr h'.hotkey, henv, hf]
  · rw [← defaultTemplate_eq_iff.mpr h.defaultTemplate,
      ← defaultTemplate_eq_iff.mpr h'.defaultTemplate, hf]
  · have hdelay : (.ok s.delayMs : Except SettingsError UInt64) = .ok s'.delayMs := by
      rw [← delayMs_eq_ok_iff.mpr h.delayMs, ← delayMs_eq_ok_iff.mpr h'.delayMs, henv, hf]
    exact Except.ok.inj hdelay

end Loading

/-- The settings are loaded in layers. That fails exactly if there is a settings file and it is no
text that says something of the settings, and nothing else, or the environment sets a delay that is
none; and with such a file it fails in the same way in every environment. Otherwise each field comes
from the first of its own sources that is there, and where two loads have the same sources for a
field they have the same value for it, whatever the sources of the other fields are. -/
theorem loads_in_layers (t : FileTree) (dataDirectory : String) (env : Environment) :
    ((∃ e, load t dataDirectory env = .error e) ↔
      (t.isThere (filePath dataDirectory) = true ∧ ∀ f, ¬ t.Says (filePath dataDirectory) f) ∨
        ∃ raw, env "AUTOTYPED_DELAY_MS" = some raw ∧ ∀ w, ¬ IsDelay raw w) ∧
    (t.isThere (filePath dataDirectory) = true → (∀ f, ¬ t.Says (filePath dataDirectory) f) →
      ∃ e, ∀ env', load t dataDirectory env' = .error e) ∧
    (∀ s, load t dataDirectory env = .ok s ↔
      ∃ f, FileSays t (filePath dataDirectory) f ∧ Layered dataDirectory env f s) ∧
    ∀ t' env' f f' s s', FileSays t (filePath dataDirectory) f →
      FileSays t' (filePath dataDirectory) f' → load t dataDirectory env = .ok s →
      load t' dataDirectory env' = .ok s' →
      (env "AUTOTYPED_SOCKET" = env' "AUTOTYPED_SOCKET" → f.socketPath = f'.socketPath →
        s.socketPath = s'.socketPath) ∧
      (env "AUTOTYPED_HOTKEY" = env' "AUTOTYPED_HOTKEY" → f.hotkey = f'.hotkey →
        s.hotkey = s'.hotkey) ∧
      (f.defaultTemplate = f'.defaultTemplate → s.defaultTemplate = s'.defaultTemplate) ∧
      (env "AUTOTYPED_DELAY_MS" = env' "AUTOTYPED_DELAY_MS" → f.delayMs = f'.delayMs →
        s.delayMs = s'.delayMs) := by
  refine ⟨⟨?_, ?_⟩, exists_error_of_not_says, fun s ↦ load_eq_ok_iff, ?_⟩
  · rintro ⟨e, he⟩
    by_contra hnone
    obtain ⟨hfile, hdelay⟩ := not_or.mp hnone
    push Not at hfile hdelay
    obtain ⟨f, hf⟩ : ∃ f, FileSays t (filePath dataDirectory) f := by
      cases hthere : t.isThere (filePath dataDirectory) with
      | false => exact ⟨{}, .nothing hthere⟩
      | true =>
        obtain ⟨f, hsays⟩ := hfile hthere
        exact ⟨f, .something hsays⟩
    obtain ⟨s, hs⟩ := exists_layered dataDirectory f hdelay
    cases he.symm.trans (load_eq_ok_iff.mpr ⟨f, hf, hs⟩)
  · rintro (⟨hthere, hfile⟩ | ⟨raw, hraw, hdelay⟩)
    · obtain ⟨e, he⟩ := exists_error_of_not_says hthere hfile
      exact ⟨e, he env⟩
    · cases hload : load t dataDirectory env with
      | error e => exact ⟨e, rfl⟩
      | ok s =>
        obtain ⟨f, -, hlayered⟩ := load_eq_ok_iff.mp hload
        have hword := hlayered.delayMs
        rw [hraw, comes_set] at hword
        exact (hdelay _ hword).elim
  · intro t' env' f f' s s' hf hf' hload hload'
    obtain ⟨g, hg, hlayered⟩ := load_eq_ok_iff.mp hload
    obtain ⟨g', hg', hlayered'⟩ := load_eq_ok_iff.mp hload'
    obtain rfl : f = g :=
      Except.ok.inj ((readFile_eq_ok_iff.mpr hf).symm.trans (readFile_eq_ok_iff.mpr hg))
    obtain rfl : f' = g' :=
      Except.ok.inj ((readFile_eq_ok_iff.mpr hf').symm.trans (readFile_eq_ok_iff.mpr hg'))
    exact hlayered.agree hlayered'

/-- The files of a daemon whose settings file holds a text. -/
def filesWith (content : String) : FileTree where
  nodes := [(["data"], ⟨.directory, 0o700⟩),
    (["data", "config.json"], ⟨.file (Text.utf8 content.toList), 0o600⟩)]

/-- A settings file with a path from the data directory, a chord, and no template. -/
def plainFile : String :=
  "\x7b\"socket_path\": \"run/d.sock\", \"hotkey\": \"Ctrl+A\", \"default_template\": null\x7d"

/-- A settings file that leaves out one setting twice. -/
def doubledFile : String := "\x7b\"hotkey\": null, \"hotkey\": null\x7d"

/-- An environment that takes back the chord and sets the delay. -/
def withoutHotkey : Environment
  | "AUTOTYPED_HOTKEY" => some " "
  | "AUTOTYPED_DELAY_MS" => some " +007 "
  | _ => none

/-- An environment that sets a sign for the delay. -/
def withoutDigits : Environment
  | "AUTOTYPED_DELAY_MS" => some "+"
  | _ => none

/-- A blank variable takes back the chord of the file and a plus sign is no matter, but a sign alone is
no delay, and with a member that is there twice nothing is loaded in any environment. What two
environments do to the chord and the delay does not show in the path and the template. -/
theorem loads_in_layers_of_plainFile :
    (∃ f, FileSays (filesWith plainFile) (filePath "/data") f ∧
      Layered "/data" withoutHotkey f ⟨"/data/run/d.sock", "/data", none, Template.standard, 7⟩) ∧
    (∃ e, load (filesWith plainFile) "/data" withoutDigits = .error e) ∧
    (∃ e, ∀ env, load (filesWith doubledFile) "/data" env = .error e) ∧
    ∀ s s', load (filesWith plainFile) "/data" withoutHotkey = .ok s →
      load (filesWith plainFile) "/data" (fun _ ↦ none) = .ok s' →
      s.socketPath = s'.socketPath ∧ s.defaultTemplate = s'.defaultTemplate := by
  have hsays : FileSays (filesWith plainFile) (filePath "/data")
      ⟨some "run/d.sock", some "Ctrl+A", none, none⟩ := readFile_eq_ok_iff.mp (by decide +kernel)
  have hdigits : readDelay "+" = .error (.badDelay "+" .badDigit) := by decide +kernel
  have hdoubled : readFile (filesWith doubledFile) (filePath "/data") =
      .error (.badFile "/data/config.json" (.duplicateField "hotkey")) := by decide +kernel
  refine ⟨?_, ?_, ?_, fun s s' hs hs' ↦ ?_⟩
  · exact ((loads_in_layers _ _ _).2.2.1 _).mp (by decide +kernel)
  · refine (loads_in_layers _ _ _).1.mpr (.inr ⟨"+", rfl, fun w hw ↦ ?_⟩)
    cases hdigits.symm.trans (readDelay_eq_ok_iff.mpr hw)
  · refine (loads_in_layers _ _ fun _ ↦ none).2.1 (by decide +kernel) fun f hf ↦ ?_
    cases hdoubled.symm.trans (readFile_eq_ok_iff.mpr (.something hf))
  · obtain ⟨hsocket, -, htemplate, -⟩ :=
      (loads_in_layers _ _ _).2.2.2 _ _ _ _ _ _ hsays hsays hs hs'
    exact ⟨hsocket rfl rfl, htemplate rfl⟩

end Settings

end Typist
