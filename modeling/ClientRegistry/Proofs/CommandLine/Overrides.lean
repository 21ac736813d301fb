import ClientRegistry.CommandLine.Project
import ClientRegistry.Proofs.FileTree.Reading

/-!
# What the command line overrides

A project is loaded just where the file's manifest is valid by itself and is still valid with the overrides
in it; what is loaded is the latter. The values that are overridden have no other part in the outcome than
that the file has to be valid with them.
-/

set_option autoImplicit false

namespace ClientRegistry

/-- The manifest that a file says, valid or not; the default one where there is no file. -/
inductive Manifest.Given (t : FileTree) (dir : Location) (file : Path) : Manifest → Prop
  | said {text : String} {entries : Document.Entries} {m : Manifest} (hText : t.textAt dir file = .ok text)
    (hRead : Document.read text = some entries) (hDecoded : Manifest.ofEntries entries = .ok m) :
    Given t dir file m
  | missing (hPath : t.pathExists dir file = false) : Given t dir file Manifest.default

namespace Manifest

variable {t : FileTree} {dir : Location} {file : Path} {m : Manifest} {reason : Invalid}

/-- A manifest that is given is loaded if it is valid. -/
theorem Given.ofFileOrDefault_of_valid (h : Given t dir file m) (hValid : m.validate = .ok ()) :
    Manifest.ofFileOrDefault t dir file = .ok m := by
  cases h with
  | missing hPath => rw [ofFileOrDefault, hPath, if_neg Bool.false_ne_true]
  | said hText hRead hDecoded =>
    rw [ofFileOrDefault, if_pos (FileTree.pathExists_of_textAt hText), ofFile, hText]
    dsimp only
    rw [ofText, hRead]
    dsimp only
    rw [hDecoded]
    dsimp only
    rw [hValid]

/-- A manifest that is given is refused if it is invalid; the default one never is. -/
theorem Given.ofFileOrDefault_of_invalid (h : Given t dir file m) (hInvalid : m.validate = .error reason) :
    ∃ line, Manifest.ofFileOrDefault t dir file = .error (.refused file.text reason line) := by
  cases h with
  | missing =>
    have hDefault : Manifest.default.validate = .ok () := rfl
    cases hDefault.symm.trans hInvalid
  | @said text _ _ hText hRead hDecoded =>
    refine ⟨keyLine? text reason.key, ?_⟩
    rw [ofFileOrDefault, if_pos (FileTree.pathExists_of_textAt hText), ofFile, hText]
    dsimp only
    rw [ofText, hRead]
    dsimp only
    rw [hDecoded]
    dsimp only
    rw [hInvalid]

end Manifest

namespace CommandLine

variable {t s : FileTree} {dir dir' : Location} {p : ProjectArguments} {o : Overrides} {f g m : Manifest}

structure Overrides.Hides (o : Overrides) (f g : Manifest) : Prop where
  protoPath : o.protoPath = .none → f.config.protoPath = g.config.protoPath
  outDir : o.outDir = .none → f.config.outDir = g.config.outDir
  flags : o.flags = .none → f.config.extraFlags = g.config.extraFlags
  clean : o.noClean = false → f.config.clean = g.config.clean
  debounceMs : o.debounceMs = .none → f.debounceMs = g.debounceMs
  compiler : f.compiler = g.compiler
  formatter : f.formatter = g.formatter

theorem getD_eq_getD_iff {α : Type} {given : Option α} {a b : α} :
    given.getD a = given.getD b ↔ (given = .none → a = b) := by
  cases given with
  | none => exact ⟨fun h _ => h, fun h => h rfl⟩
  | some c => exact iff_of_true rfl nofun

/-- Overridden values are gone once the overrides are in, and no others are. -/
theorem Overrides.hides_iff : o.Hides f g ↔ o.apply f = o.apply g := by
  have hClean : (f.config.clean && !o.noClean) = (g.config.clean && !o.noClean) ↔
      (o.noClean = false → f.config.clean = g.config.clean) := by
    cases o.noClean <;> simp
  rw [apply, apply, Manifest.mk.injEq, GenerationConfig.mk.injEq, getD_eq_getD_iff, getD_eq_getD_iff,
    getD_eq_getD_iff, getD_eq_getD_iff, hClean]
  constructor
  · rintro ⟨hProto, hOut, hFlags, hClean, hDebounce, hCompiler, hFormatter⟩
    exact ⟨⟨hProto, hOut, hFlags, hClean⟩, hCompiler, hFormatter, hDebounce⟩
  · rintro ⟨⟨hProto, hOut, hFlags, hClean⟩, hCompiler, hFormatter, hDebounce⟩
    exact ⟨hProto, hOut, hFlags, hClean, hDebounce, hCompiler, hFormatter⟩

theorem loadProject_of_ofFileOrDefault (h : Manifest.ofFileOrDefault t dir (dir.toPath.join p.config) = .ok f) :
    loadProject t dir p =
      ((p.overrides.apply f).validate.mapError ProjectError.invalid).map fun _ => p.overrides.apply f := by
  unfold loadProject
  rw [h]
  dsimp only
  cases (p.overrides.apply f).validate with
  | error reason => rfl
  | ok _ => rfl

/-- A project is loaded just where its manifest is valid without and with the overrides, and its manifest is
then the one with them. Two valid manifests that differ only in what is overridden come to the same, and
one that is invalid is refused, whatever is overridden. -/
theorem loadProject_given (hGiven : f.Given t dir (dir.toPath.join p.config)) :
    (∀ m, loadProject t dir p = .ok m ↔
      f.validate = .ok () ∧ (p.overrides.apply f).validate = .ok () ∧ m = p.overrides.apply f) ∧
    (∀ s dir' g, Manifest.Given s dir' (dir'.toPath.join p.config) g → f.validate = .ok () → g.validate = .ok () →
      p.overrides.Hides f g → loadProject s dir' p = loadProject t dir p) ∧
    ∀ reason, f.validate = .error reason →
      ∃ line, loadProject t dir p = .error (.manifest (.refused (dir.toPath.join p.config).text reason line)) := by
  have hInvalid (reason : Invalid) (h : f.validate = .error reason) :
      ∃ line, loadProject t dir p = .error (.manifest (.refused (dir.toPath.join p.config).text reason line)) := by
    obtain ⟨line, hRefused⟩ := hGiven.ofFileOrDefault_of_invalid h
    refine ⟨line, ?_⟩
    unfold loadProject
    rw [hRefused]
  refine ⟨fun m => ?_, ?_, hInvalid⟩
  · cases hValid : f.validate with
    | error reason =>
      obtain ⟨line, hRefused⟩ := hInvalid reason hValid
      rw [hRefused]
      exact iff_of_false nofun fun h => by cases h.1
    | ok _ =>
      rw [loadProject_of_ofFileOrDefault (hGiven.ofFileOrDefault_of_valid hValid)]
      cases (p.overrides.apply f).validate with
      | error reason => exact iff_of_false nofun fun h => by cases h.2.1
      | ok _ =>
        constructor
        · intro h
          exact ⟨rfl, rfl, (Except.ok.inj h).symm⟩
        · rintro ⟨-, -, rfl⟩
          rfl
  · intro s dir' g hOther hValid hOtherValid hHidden
    rw [loadProject_of_ofFileOrDefault (hGiven.ofFileOrDefault_of_valid hValid),
      loadProject_of_ofFileOrDefault (hOther.ofFileOrDefault_of_valid hOtherValid), Overrides.hides_iff.mp hHidden]

def manifestTree (text : String) : FileTree := FileTree.empty.put [Manifest.fileName] (.file text.toUTF8)

def exchangedText : String := "[generate]\nproto_path = \"gen/clients\"\nout_dir = \"out\"\n"

/-- Both paths take the place of others, and neither of them alone would go with what the file says. -/
def exchanged : ProjectArguments :=
  ⟨Manifest.fileName, { Overrides.none with protoPath := some "out/schemas", outDir := some "gen/./clients", noClean := true }⟩

theorem loadProject_exchanged :
    Manifest.Given (manifestTree exchangedText) [] ((Location.toPath []).join exchanged.config)
        { Manifest.default with config := ⟨"gen/clients", "out", "", true⟩ } ∧
      loadProject (manifestTree exchangedText) [] exchanged =
        .ok ⟨⟨"out/schemas", "gen/./clients", "", false⟩, "npx buf", "npx prettier --write", 100⟩ := by
  have hText : (manifestTree exchangedText).textAt [] ((Location.toPath []).join exchanged.config) =
      .ok exchangedText := by decide +kernel
  have hGiven : Manifest.Given (manifestTree exchangedText) [] ((Location.toPath []).join exchanged.config)
      { Manifest.default with config := ⟨"gen/clients", "out", "", true⟩ } := .said hText rfl rfl
  exact ⟨hGiven, ((loadProject_given hGiven).1 _).mpr ⟨rfl, rfl, rfl⟩⟩

/-- Only what the file and the overrides come to together counts. -/
def OverridesDecide (t : FileTree) (dir : Location) (p : ProjectArguments) (f : Manifest) : Prop :=
  ∀ m, loadProject t dir p = .ok m ↔ (p.overrides.apply f).validate = .ok () ∧ m = p.overrides.apply f

def hastyText : String := "[watch]\ndebounce_ms = 0\n"

def patient : ProjectArguments := ⟨Manifest.fileName, { Overrides.none with debounceMs := some 100 }⟩

/-- A delay of zero is refused although another one takes its place. -/
theorem not_overridesDecide :
    Manifest.Given (manifestTree hastyText) [] ((Location.toPath []).join patient.config)
        { Manifest.default with debounceMs := 0 } ∧
      ¬ OverridesDecide (manifestTree hastyText) [] patient { Manifest.default with debounceMs := 0 } := by
  have hText : (manifestTree hastyText).textAt [] ((Location.toPath []).join patient.config) = .ok hastyText := by
    decide +kernel
  refine ⟨.said hText rfl rfl, fun hDecide => ?_⟩
  have hLoaded := (hDecide Manifest.default).mpr ⟨rfl, rfl⟩
  have hRefused : loadProject (manifestTree hastyText) [] patient =
      .error (.manifest (.refused "/connectgen.toml" .zeroDebounce (some ⟨8, 15⟩))) := by decide +kernel
  cases hRefused.symm.trans hLoaded

end CommandLine

end ClientRegistry
