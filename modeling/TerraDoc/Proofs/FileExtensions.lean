import TerraDoc.Module.Folder
import TerraDoc.Proofs.PathNames
import TerraDoc.Proofs.Results

/-!
Configuration files are told by the extensions of their names. The extension of a name is what
stands after its last dot, so an extension with a dot in it selects nothing.
-/

namespace TerraDoc

namespace Path

variable {name stem extension : List Char}

theorem nameExtension?_append (stem : List Char) (undotted : '.' ∉ extension) :
    nameExtension? (stem ++ '.' :: extension) = if stem = [] then none else some extension := by
  have tail : (stem ++ '.' :: extension).reverse.takeWhile (· != '.') = extension.reverse := by
    have other : ∀ c ∈ extension.reverse, (c != '.') = true := by
      intro c member
      rw [bne_iff_ne]
      rintro rfl
      exact undotted (List.mem_reverse.mp member)
    rw [List.reverse_append, List.reverse_cons, List.append_assoc,
      List.takeWhile_append_of_pos other]
    simp
  have before : (stem ++ '.' :: extension).length - extension.reverse.length = stem.length + 1 := by
    simp only [List.length_append, List.length_cons, List.length_reverse]
    omega
  rw [nameExtension?, tail, before, List.reverse_reverse]
  cases stem <;> simp

/-- The extension of a name stands after its last dot, and something stands before the dot. -/
theorem nameExtension?_eq_some_iff :
    nameExtension? name = some extension ↔
      ∃ stem, stem ≠ [] ∧ name = stem ++ '.' :: extension ∧ '.' ∉ extension := by
  constructor
  · intro found
    by_cases dotted : '.' ∈ name
    · obtain ⟨back, front, split, undotted⟩ :=
        List.eq_append_cons_of_mem (List.mem_reverse.mpr dotted)
      have whole : name = front.reverse ++ '.' :: back.reverse := by
        rw [← List.reverse_reverse name, split]
        simp
      have apart : '.' ∉ back.reverse := by simpa using undotted
      rw [whole, nameExtension?_append _ apart] at found
      split at found
      · cases found
      · rename_i nonempty
        cases found
        exact ⟨front.reverse, nonempty, whole, apart⟩
    · have tail : name.reverse.takeWhile (· != '.') = name.reverse :=
        List.takeWhile_eq_self_iff.mpr fun c member => by
          rw [bne_iff_ne]
          rintro rfl
          exact dotted (List.mem_reverse.mp member)
      simp [nameExtension?, tail] at found
  · rintro ⟨stem, nonempty, rfl, undotted⟩
    rw [nameExtension?_append stem undotted, if_neg nonempty]

/-- A path without slashes has the extension that it has as a name, unless it leads up. -/
theorem extension?_eq_some_iff (single : '/' ∉ name) :
    extension? name = some extension ↔
      name ≠ ['.', '.'] ∧ nameExtension? name = some extension := by
  by_cases ordinary : IsName name
  · have named : fileName? name = some name := by simp [fileName?, ordinary.names_eq, ordinary.up]
    rw [extension?, named, Option.bind_some, and_iff_right ordinary.up]
  · have cases : name = [] ∨ name = ['.'] ∨ name = ['.', '.'] := by
      by_contra others
      simp only [not_or] at others
      exact ordinary ⟨others.1, single, others.2.1, others.2.2⟩
    rw [show extension? name = none by rcases cases with rfl | rfl | rfl <;> rfl]
    refine iff_of_false (by simp) fun found => ?_
    obtain ⟨notUp, named⟩ := found
    rcases cases with rfl | rfl | rfl
    · cases named
    · cases named
    · exact notUp rfl

end Path

open Files

namespace Settings

variable {settings : Settings} {name : List Char}

theorem isConfigFile_iff_extension :
    settings.isConfigFile name = true ↔
      ∃ wanted ∈ settings.extensions, Path.extension? name = some (bareExtension wanted) := by
  unfold isConfigFile
  cases found : Path.extension? name with
  | none => simp
  | some extension =>
    rw [List.any_eq_true]
    apply exists_congr
    intro wanted
    rw [beq_iff_eq, Option.some_inj, eq_comm (a := extension)]

theorem isConfigFile_iff (single : '/' ∉ name) :
    settings.isConfigFile name = true ↔ name ≠ ['.', '.'] ∧ ∃ wanted ∈ settings.extensions,
      '.' ∉ bareExtension wanted ∧
        ∃ stem, stem ≠ [] ∧ name = stem ++ '.' :: bareExtension wanted := by
  rw [isConfigFile_iff_extension]
  constructor
  · rintro ⟨wanted, member, found⟩
    obtain ⟨notUp, ending⟩ := (Path.extension?_eq_some_iff single).mp found
    obtain ⟨stem, nonempty, split, undotted⟩ := Path.nameExtension?_eq_some_iff.mp ending
    exact ⟨notUp, wanted, member, undotted, stem, nonempty, split⟩
  · rintro ⟨notUp, wanted, member, undotted, stem, nonempty, split⟩
    have ending := Path.nameExtension?_eq_some_iff.mpr ⟨stem, nonempty, split, undotted⟩
    exact ⟨wanted, member, (Path.extension?_eq_some_iff single).mpr ⟨notUp, ending⟩⟩

end Settings

theorem Module.mem_configFiles_of_shown {settings : Settings} {files : FileSystem}
    {folder name : List Char} {shown : List (List Char)} (listed : files.list folder = .ok shown)
    (ordinary : Path.IsName name) (member : Path.join folder name ∈ shown)
    (config : settings.isConfigFile name = true)
    (file : files.isFile (Path.join folder name) = true) :
    ∃ found, configFiles settings files folder = .ok found ∧ Path.join folder name ∈ found := by
  refine ⟨_, Except.bind_eq_ok.mpr ⟨shown, listed, rfl⟩, List.mem_filter.mpr ⟨member, ?_⟩⟩
  simp [Path.fileName?_join folder ordinary, config, file]

/-- Every extension without a dot in it, leading dots apart, selects its files: a name that is put
together from a stem and the extension is one of a configuration file, and a visible file of this
name is read. No other names are selected: an extension with a dot in it selects none. -/
theorem extensions_select (settings : Settings) :
    (∀ wanted ∈ settings.extensions,
      '/' ∉ Settings.bareExtension wanted → '.' ∉ Settings.bareExtension wanted →
      ∀ stem : List Char, stem ≠ [] → '/' ∉ stem → stem.head? ≠ some '.' →
        settings.isConfigFile (stem ++ '.' :: Settings.bareExtension wanted) = true ∧
        ∀ (files : FileSystem) (folder : List Char) (shown : List (List Char)),
          files.list folder = .ok shown →
          Path.join folder (stem ++ '.' :: Settings.bareExtension wanted) ∈ shown →
          files.isFile (Path.join folder (stem ++ '.' :: Settings.bareExtension wanted)) = true →
          ∃ found, Module.configFiles settings files folder = .ok found ∧
            Path.join folder (stem ++ '.' :: Settings.bareExtension wanted) ∈ found) ∧
    ∀ name, '/' ∉ name → settings.isConfigFile name = true →
      ∃ wanted ∈ settings.extensions, '.' ∉ Settings.bareExtension wanted ∧
        ∃ stem, stem ≠ [] ∧ name = stem ++ '.' :: Settings.bareExtension wanted := by
  refine ⟨fun wanted member slashless undotted stem nonempty plain visible => ?_,
    fun name single config => ((Settings.isConfigFile_iff single).mp config).2⟩
  have first : (stem ++ '.' :: Settings.bareExtension wanted).head? ≠ some '.' := by
    rwa [List.head?_append_of_ne_nil stem nonempty]
  have ordinary : Path.IsName (stem ++ '.' :: Settings.bareExtension wanted) := by
    refine ⟨by simp, by simp [plain, slashless], ?_, ?_⟩
    · rintro same
      rw [same] at first
      exact first rfl
    · rintro same
      rw [same] at first
      exact first rfl
  have config := (Settings.isConfigFile_iff ordinary.single).mpr
    ⟨ordinary.up, wanted, member, undotted, stem, nonempty, rfl⟩
  exact ⟨config, fun files folder shown listed member file =>
    Module.mem_configFiles_of_shown listed ordinary member config file⟩

/-- Settings that want two extensions, one of them with dots before it. -/
def hclSettings : Settings :=
  { Settings.default with extensions := ["tf", "..hcl"] }

/-- A folder with a file of another kind beside the one that is wanted. -/
def hclTree : FileSystem :=
  ⟨.folder [("net", .folder [("main.hcl", .file []), ("notes.txt", .file [])])], []⟩

/-- Leading dots of an extension do not count. -/
theorem extensions_select_dotted :
    (∃ found, Module.configFiles hclSettings hclTree "net".toList = .ok found ∧
      "net/main.hcl".toList ∈ found) ∧
    ∃ wanted ∈ hclSettings.extensions, '.' ∉ Settings.bareExtension wanted ∧
      ∃ stem, stem ≠ [] ∧ "main.hcl".toList = stem ++ '.' :: Settings.bareExtension wanted := by
  have shown : hclTree.list "net".toList =
      .ok ["net/main.hcl".toList, "net/notes.txt".toList] := by decide +kernel
  obtain ⟨selected, only⟩ := extensions_select hclSettings
  obtain ⟨config, read⟩ := selected "..hcl" (by decide) (by decide) (by decide)
    "main".toList (by decide) (by decide) (by decide)
  exact ⟨read hclTree "net".toList _ shown (by decide) (by decide +kernel),
    only "main.hcl".toList (by decide) config⟩

/-- A configured extension with a dot in it does not select the files that end in it. -/
theorem inner_dot_selects_nothing :
    ∃ settings : Settings, ∃ wanted ∈ settings.extensions,
      Settings.bareExtension wanted ≠ [] ∧ '/' ∉ Settings.bareExtension wanted ∧
      (Settings.bareExtension wanted).getLast? ≠ some '.' ∧
      ∃ stem : List Char, stem ≠ [] ∧ '/' ∉ stem ∧ stem.head? ≠ some '.' ∧
        settings.isConfigFile (stem ++ '.' :: Settings.bareExtension wanted) = false :=
  ⟨{ Settings.default with extensions := ["tf.json"] }, "tf.json", by decide, by decide, by decide,
    by decide, "main".toList, by decide, by decide, by decide, by decide⟩

end TerraDoc
