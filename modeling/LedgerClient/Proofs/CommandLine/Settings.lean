import LedgerClient.CommandLine.Execution
import LedgerClient.Proofs.Network.Endpoint
import LedgerClient.Proofs.Run
/-!
# Which settings a command checks, and which it uses

A file is checked when it is loaded, before a connection string takes the place of its connection.  So
a command that finds a file is carried out exactly if the file's own settings pass the checks, one that
finds none is always carried out, and the connection it uses may never have been checked
(`CommandLine.execute_checks_file`).
-/
namespace LedgerClient.CommandLine

open Config (Profile Settings)
open Gateway (Fresh)
open Storage (FileTree)

/-! ## What is given -/

/-- Where the settings are looked for. -/
def Options.path (o : Options) : String := o.config.getD defaultConfig

/-- The settings of a file, checked or not. -/
inductive InFile (files : FileTree) (o : Options) : Settings → Prop
  | missing (h : files.exists? o.path = false) : InFile files o {}
  | found {text : String} {base : Settings} (h : files.exists? o.path = true)
      (ht : files.readText o.path = .ok text) (hs : Settings.read text = .ok base) : InFile files o base

/-- The settings with the connection of the options, if they have one. -/
inductive Replaced (o : Options) (base : Settings) : Settings → Prop
  | kept (h : o.connection = none) : Replaced o base base
  | replaced {text : String} {p : Profile} (h : o.connection = some text) (hp : Profile.ofText text = .ok p) :
      Replaced o base { base with connection := p }

/-- A file, if there is one, holds settings that pass the checks. -/
def FilePasses (files : FileTree) (o : Options) (base : Settings) : Prop :=
  files.exists? o.path = true → base.validate = .ok ()

variable {files : FileTree} {o : Options} {base effective : Settings}

/-! ## What is loaded -/

theorem fileSettings_eq (files : FileTree) (o : Options) :
    fileSettings files o =
      if files.exists? o.path then (Settings.load files o.path).mapError .load else .ok {} :=
  rfl

theorem load_eq_ok {path text : String} (ht : files.readText path = .ok text)
    (hs : Settings.read text = .ok base) (hv : base.validate = .ok ()) : Settings.load files path = .ok base := by
  simp only [Settings.load, ht, Settings.parse, hs, hv]

theorem load_eq_error {path text : String} (ht : files.readText path = .ok text)
    (hs : Settings.read text = .ok base) (hv : base.validate ≠ .ok ()) :
    Settings.load files path = .error (.problems base.problems) := by
  simp only [Settings.load, ht, Settings.parse, hs, Settings.validate_eq_error hv]

/-- **A file whose settings pass is loaded as it is**, and a missing one gives the defaults. -/
theorem fileSettings_of_passes (hf : InFile files o base) (hp : FilePasses files o base) :
    fileSettings files o = .ok base := by
  rw [fileSettings_eq]
  cases hf with
  | missing h => exact if_neg (Bool.eq_false_iff.1 h)
  | found h ht hs =>
    rw [if_pos h, load_eq_ok ht hs (hp h)]
    rfl

/-- **A file whose settings do not pass is refused** with all their problems. -/
theorem fileSettings_of_not_passes (hf : InFile files o base) (hp : ¬ FilePasses files o base) :
    fileSettings files o = .error (.load (.problems base.problems)) := by
  rw [fileSettings_eq]
  obtain ⟨h, hv⟩ : files.exists? o.path = true ∧ base.validate ≠ .ok () := by
    simpa only [FilePasses, Classical.not_imp] using hp
  cases hf with
  | missing h' => exact absurd h (Bool.eq_false_iff.1 h')
  | found _ ht hs =>
    rw [if_pos h, load_eq_error ht hs hv]
    rfl

theorem Replaced.withConnection (h : Replaced o base effective) : withConnection o base = .ok effective := by
  cases h with
  | kept h => rw [CommandLine.withConnection, h]
  | replaced h hp =>
    rw [CommandLine.withConnection, h]
    dsimp only
    rw [hp]

/-! ## What is carried out -/

/-- How a command ends that was carried out. -/
def concluded : Except Stop String × Trace → Outcome × Trace
  | (.ok text, t) => (.printed text, t)
  | (.error (.failed e), t) => (.failed (.call e), t)
  | (.error .panicked, t) => (.panicked, t)

/-- A command that was carried out does not fail for its settings. -/
theorem concluded_ne_load (r : Except Stop String × Trace) (e : Config.LoadError) :
    (concluded r).1 ≠ .failed (.load e) := by
  rcases r with ⟨(_ | _) | _, t⟩ <;> exact fun h => by cases h

variable {w : Surroundings} {fresh : Fresh} {args : List String} {c : Command} {t : Trace}

theorem execute_of_settings_ok (ha : parse {} args = .run o c) (hs : settings w.files o = .ok effective) :
    execute w fresh args t = concluded (Run.after t (perform w fresh effective o.hex c)) := by
  rw [execute, ha]
  dsimp only
  rw [hs]
  dsimp only
  rcases Run.after t (perform w fresh effective o.hex c) with ⟨(_ | _) | _, u⟩ <;> rfl

theorem execute_of_settings_error {f : Failure} (ha : parse {} args = .run o c)
    (hs : settings w.files o = .error f) : execute w fresh args t = (.failed f, t) := by
  rw [execute, ha]
  dsimp only
  rw [hs]

/-- **The file's own settings are checked, and nothing else**: with them, or without a file, the command
is carried out with the connection of the options, whatever that is; if they do not pass the command
fails before anything is done, also if their connection would not have been used.  What is used was
checked as a whole if there is a file and no other connection. -/
theorem execute_checks_file (ha : parse {} args = .run o c) (hf : InFile w.files o base)
    (hr : Replaced o base effective) :
    (FilePasses w.files o base →
      execute w fresh args t = concluded (Run.after t (perform w fresh effective o.hex c))) ∧
    (¬ FilePasses w.files o base → execute w fresh args t = (.failed (.load (.problems base.problems)), t)) ∧
    (w.files.exists? o.path = true → o.connection = none →
      (FilePasses w.files o base ↔ effective.validate = .ok ())) := by
  refine ⟨fun hp => execute_of_settings_ok ha ?_, fun hp => execute_of_settings_error ha ?_, fun h hc => ?_⟩
  · rw [settings, fileSettings_of_passes hf hp]
    exact hr.withConnection
  · rw [settings, fileSettings_of_not_passes hf hp]
  · cases hr with
    | kept _ => exact ⟨fun hp => hp h, fun hv _ => hv⟩
    | replaced h' _ => rw [hc] at h'; cases h'

/-! An empty file, of which the settings do not pass, and a connection that would. -/

/-- Nothing but an empty file, and no peer. -/
def sampleSurroundings : Surroundings where
  files := { entries := [([defaultConfig], .file [])] }
  home := "/"
  reach _ := Gateway.Peer.absent ""

/-- The eight fields in order, the contract left to the default. -/
def sampleText : String := "[\"c\",null,\"m\",\"cert.pem\",\"keystore\",\"ca.pem\",\"h:1\",\"h\"]"

def sampleProfile : Profile := ⟨"c", "basic", "m", "cert.pem", "keystore", "ca.pem", "h:1", "h"⟩

theorem parse_sample :
    parse {} ["--connection", sampleText, "get-all"] = .run { connection := some sampleText } .getAll := by
  have hc : shape "--connection" = .setting setConnection none := by simp [shape]
  have hg : shape "get-all" = .word := by simp [shape, after?, looksLikeOption]
  have ht : looksLikeOption sampleText = false := by simp [looksLikeOption, sampleText]
  simp [parse, hc, hg, ht, setConnection, command, forms, collect, nothing]

theorem inFile_sample : InFile sampleSurroundings.files { connection := some sampleText } {} :=
  @InFile.found _ _ "" _ (by rfl) (by rfl) (by rfl)

theorem replaced_sample : Replaced { connection := some sampleText } {} { connection := sampleProfile } :=
  .replaced rfl (by rfl)

theorem not_filePasses_sample : ¬ FilePasses sampleSurroundings.files { connection := some sampleText } {} :=
  fun h => absurd (h (by rfl)) (by decide)

/-- A command whose settings would all pass, with the connection of the options, fails for the
connection that the file leaves out. -/
theorem execute_checks_file_replaced :
    ({ connection := sampleProfile } : Settings).validate = .ok () ∧
      execute sampleSurroundings ⟨[], {}⟩ ["--connection", sampleText, "get-all"] {} =
        (.failed (.load (.problems ({} : Settings).problems)), {}) :=
  ⟨by rfl, (execute_checks_file parse_sample inFile_sample replaced_sample).2.1 not_filePasses_sample⟩

/-- It is not the settings a command uses that decide whether it is carried out. -/
theorem execute_not_by_effective : ¬ ∀ (w : Surroundings) (fresh : Fresh) (args : List String) (o : Options)
    (c : Command) (base effective : Settings) (t : Trace), parse {} args = .run o c → InFile w.files o base →
      Replaced o base effective →
        (execute w fresh args t = concluded (Run.after t (perform w fresh effective o.hex c)) ↔
          effective.validate = .ok ()) := by
  intro hall
  have hrun := (hall _ ⟨[], {}⟩ _ _ _ _ _ {} parse_sample inFile_sample replaced_sample).2 (by rfl)
  have hset : settings sampleSurroundings.files { connection := some sampleText } =
      .error (.load (.problems ({} : Settings).problems)) := by
    rw [settings, fileSettings_of_not_passes inFile_sample not_filePasses_sample]
  rw [execute_of_settings_error parse_sample hset] at hrun
  exact concluded_ne_load _ _ (congrArg Prod.fst hrun).symm

end LedgerClient.CommandLine
